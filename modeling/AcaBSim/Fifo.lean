import Mathlib.Logic.Basic
import Mathlib.Tactic.Common

/-!
First-in first-out lists as an abstract data type with a fallible push, and
the rule that lifts a step-wise refinement of it to runs of any length. The
implementation is an arbitrary step function whose steps may fail; `choice`
stands for what the environment decides at a step.
-/
namespace AcaBSim.Fifo

variable {α S ε choice : Type}

inductive Op (α : Type)
  | push (item : α)
  | pop
  | top
  | size
  | isEmpty

def Op.isPush : Op α → Bool
  | .push _ => true
  | _ => false

inductive Response (α : Type)
  | pushed (accepted : Bool)
  | popped (removed : Bool)
  | top (item : Option α)
  | size (n : ℕ)
  | isEmpty (empty : Bool)

/-- The list is held oldest first: a push appends, a pop removes the head. -/
inductive Step : List α → Op α → Response α → List α → Prop
  | pushAccepted (l : List α) (a : α) : Step l (.push a) (.pushed true) (l ++ [a])
  | pushRefused (l : List α) (a : α) : Step l (.push a) (.pushed false) l
  | popFront (a : α) (l : List α) : Step (a :: l) .pop (.popped true) l
  | popEmpty : Step [] .pop (.popped false) []
  | top (l : List α) : Step l .top (.top l.head?) l
  | size (l : List α) : Step l .size (.size l.length) l
  | isEmpty (l : List α) : Step l .isEmpty (.isEmpty l.isEmpty) l

inductive Run : List α → List (Op α) → List (Response α) → List α → Prop
  | nil (l : List α) : Run l [] [] l
  | cons {l m n : List α} {op : Op α} {r : Response α} {ops : List (Op α)}
      {rs : List (Response α)} :
      Step l op r m → Run m ops rs n → Run l (op :: ops) (r :: rs) n

/-- Run an implementation over a list of operations, collecting its answers. -/
def runAll (step : S → choice → Op α → Except ε (Response α × S)) :
    S → List (choice × Op α) → Except ε (List (Response α) × S)
  | s, [] => .ok ([], s)
  | s, (c, op) :: rest =>
    match step s c op with
    | .error e => .error e
    | .ok (r, t) =>
      match runAll step t rest with
      | .error e => .error e
      | .ok (rs, u) => .ok (r :: rs, u)

/-- What every step that returns keeps, a run that returns keeps. -/
theorem run_keeps (step : S → choice → Op α → Except ε (Response α × S)) (Inv : S → Prop)
    (hstep : ∀ s c op r t, Inv s → step s c op = .ok (r, t) → Inv t)
    {ops : List (choice × Op α)} {s u : S} {rs : List (Response α)} (hs : Inv s)
    (hrun : runAll step s ops = .ok (rs, u)) : Inv u := by
  induction ops generalizing s rs with
  | nil =>
    cases hrun
    exact hs
  | cons head rest ih =>
    obtain ⟨c, op⟩ := head
    simp only [runAll] at hrun
    split at hrun
    · cases hrun
    · rename_i r t hop
      split at hrun
      · cases hrun
      · rename_i rs' u' hrest
        cases hrun
        exact ih (hstep s c op r t hs hop) hrest

/-- Every state the run passes through, after its first, satisfies `P`. -/
def Throughout (step : S → choice → Op α → Except ε (Response α × S)) (P : S → Prop) :
    S → List (choice × Op α) → Prop
  | _, [] => True
  | s, (c, op) :: rest =>
    ∀ r t, step s c op = .ok (r, t) → P t ∧ Throughout step P t rest

theorem throughout_cons {step : S → choice → Op α → Except ε (Response α × S)} {P : S → Prop}
    {s t : S} {c : choice} {op : Op α} {r : Response α} {rest : List (choice × Op α)}
    (hstep : step s c op = .ok (r, t)) (ht : P t) (hrest : Throughout step P t rest) :
    Throughout step P s ((c, op) :: rest) := by
  intro r' t' hstep'
  rw [hstep] at hstep'
  cases hstep'
  exact ⟨ht, hrest⟩

/-- Step-wise refinement from states that satisfy an invariant lifts to runs. -/
theorem run_refines (step : S → choice → Op α → Except ε (Response α × S))
    (contents : S → List α) (Inv P : S → Prop)
    (hstep : ∀ s c op, Inv s → ∃ r t, step s c op = .ok (r, t) ∧
      Step (contents s) op r (contents t) ∧ (P t → Inv t))
    (ops : List (choice × Op α)) (s : S) (hs : Inv s) (hP : Throughout step P s ops) :
    ∃ rs t, runAll step s ops = .ok (rs, t) ∧
      Run (contents s) (ops.map Prod.snd) rs (contents t) ∧ Inv t := by
  induction ops generalizing s with
  | nil => exact ⟨[], s, rfl, Run.nil _, hs⟩
  | cons head rest ih =>
    obtain ⟨c, op⟩ := head
    obtain ⟨r, t, hrun, habs, hnext⟩ := hstep s c op hs
    obtain ⟨hPt, hrest⟩ := hP r t hrun
    obtain ⟨rs, u, hruns, habss, hu⟩ := ih t (hnext hPt) hrest
    refine ⟨r :: rs, u, ?_, Run.cons habs habss, hu⟩
    simp only [runAll, hrun, hruns]

/-- `P` holds of every call of a sequence and the state it is made in. -/
def AtEachCall (call : S → Op α → Except ε (Response α × S)) (P : S → Op α → Prop) :
    S → List (Op α) → Prop
  | _, [] => True
  | s, op :: rest => P s op ∧ ∀ r t, call s op = .ok (r, t) → AtEachCall call P t rest

theorem atEachCall_cons_iff {call : S → Op α → Except ε (Response α × S)}
    {P : S → Op α → Prop} {s t : S} {op : Op α} {r : Response α} {rest : List (Op α)}
    (hcall : call s op = .ok (r, t)) :
    AtEachCall call P s (op :: rest) ↔ P s op ∧ AtEachCall call P t rest := by
  refine and_congr_right fun _ => ⟨fun hrest => hrest r t hcall, ?_⟩
  intro hrest r' t' hcall'
  rw [hcall] at hcall'
  cases hcall'
  exact hrest

theorem atEachCall_cons_error {call : S → Op α → Except ε (Response α × S)}
    {P : S → Op α → Prop} {s : S} {op : Op α} {e : ε} {rest : List (Op α)}
    (hcall : call s op = .error e) : AtEachCall call P s (op :: rest) ↔ P s op := by
  refine and_iff_left_of_imp fun _ r t hcall' => ?_
  rw [hcall] at hcall'
  cases hcall'

instance AtEachCall.decidable {call : S → Op α → Except ε (Response α × S)}
    {P : S → Op α → Prop} [∀ s op, Decidable (P s op)] :
    (s : S) → (ops : List (Op α)) → Decidable (AtEachCall call P s ops)
  | _, [] => isTrue trivial
  | s, op :: rest =>
    match hcall : call s op with
    | .error _ => decidable_of_iff (P s op) (atEachCall_cons_error hcall).symm
    | .ok (_, t) =>
      have : Decidable (AtEachCall call P t rest) := AtEachCall.decidable t rest
      decidable_of_iff (P s op ∧ AtEachCall call P t rest) (atEachCall_cons_iff hcall).symm

/-- Two conditions on a call that agree in the states of an invariant agree
along a sequence, if the calls that meet them keep the invariant. -/
theorem atEachCall_iff {call : S → Op α → Except ε (Response α × S)} (Inv : S → Prop)
    {P Q : S → Op α → Prop} (hagree : ∀ s op, Inv s → (P s op ↔ Q s op))
    (hkeep : ∀ s op r t, Inv s → Q s op → call s op = .ok (r, t) → Inv t)
    {s : S} (hs : Inv s) (ops : List (Op α)) :
    AtEachCall call P s ops ↔ AtEachCall call Q s ops := by
  induction ops generalizing s with
  | nil => exact Iff.rfl
  | cons op rest ih =>
    constructor
    · rintro ⟨hop, hrest⟩
      have hop' := (hagree s op hs).mp hop
      exact ⟨hop', fun r t hcall => (ih (hkeep s op r t hs hop' hcall)).mp (hrest r t hcall)⟩
    · rintro ⟨hop, hrest⟩
      exact ⟨(hagree s op hs).mpr hop,
        fun r t hcall => (ih (hkeep s op r t hs hop hcall)).mpr (hrest r t hcall)⟩

end AcaBSim.Fifo
