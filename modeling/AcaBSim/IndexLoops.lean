import AcaBSim.Sweeps

/-!
Loops that run over the indices of an array and check every read. Over the
length of the array such a loop is the loop over its elements; over any other
length it may read past the end.
-/
namespace AcaBSim.IndexLoops

open Outcome Sweeps

variable {σ ε α β : Type}

/-- The read of a cell; there is nothing past the end but a fault. -/
def readAt (fault : ε) (l : List α) (i : ℕ) : Except ε α :=
  match l[i]? with
  | some a => .ok a
  | none => .error fault

/-- Replaces `n` elements from index `i` on. -/
def sweepAt (fault : ε) (f : α → StateT σ (Except ε) α) :
    ℕ → ℕ → List α → StateT σ (Except ε) (List α)
  | 0, _, l => pure l
  | n + 1, i, l => do
    let a ← readAt fault l i
    let b ← f a
    sweepAt fault f n (i + 1) (l.set i b)

/-- Goes through what is read at `n` indices from `i` on. -/
def foldAt (read : ℕ → Except ε α) (f : ℕ → β → α → StateT σ (Except ε) β) :
    ℕ → ℕ → β → StateT σ (Except ε) β
  | 0, _, acc => pure acc
  | n + 1, i, acc => do
    let a ← read i
    let acc ← f i acc a
    foldAt read f n (i + 1) acc

/-- Goes through the elements of a list, the first of which has the index `i`. -/
def foldFrom (f : ℕ → β → α → StateT σ (Except ε) β) : ℕ → List α → β → StateT σ (Except ε) β
  | _, [], acc => pure acc
  | i, a :: rest, acc => do
    let acc ← f i acc a
    foldFrom f (i + 1) rest acc

variable {fault : ε}

theorem lift_ok_bind (a : α) (f : α → StateT σ (Except ε) β) :
    (liftM (Except.ok a : Except ε α) : StateT σ (Except ε) α) >>= f = f a := rfl

theorem readAt_append {pre rest : List α} {a : α} :
    readAt fault (pre ++ a :: rest) pre.length = .ok a := by
  simp [readAt]

/-- From the index after `pre`, the loop replaces all that follows. -/
theorem sweepAt_append (f : α → StateT σ (Except ε) α) (pre rest : List α) :
    sweepAt fault f rest.length pre.length (pre ++ rest) =
      (fun rest' => pre ++ rest') <$> sweep f rest := by
  induction rest generalizing pre with
  | nil => simp [sweepAt, sweep]
  | cons a rest ih =>
    have hset : ∀ b, (pre ++ a :: rest).set pre.length b = (pre ++ [b]) ++ rest := by simp
    have hlater : ∀ b, sweepAt fault f rest.length (pre.length + 1) ((pre ++ [b]) ++ rest) =
        (fun rest' => (pre ++ [b]) ++ rest') <$> sweep f rest := by
      intro b
      have hnext := ih (pre ++ [b])
      rwa [List.length_append] at hnext
    rw [List.length_cons, sweepAt, sweep, readAt_append, lift_ok_bind, map_bind]
    refine congrArg (f a >>= ·) (funext fun b => ?_)
    rw [hset, hlater, map_bind, map_eq_pure_bind]
    simp only [map_pure, List.append_assoc, List.cons_append, List.nil_append]

/-- Over its length, the loop over the indices is the loop over the elements. -/
theorem sweepAt_length (f : α → StateT σ (Except ε) α) (l : List α) :
    sweepAt fault f l.length 0 l = sweep f l := by
  have hall : sweepAt fault f l.length 0 ([] ++ l) = _ := sweepAt_append f [] l
  simpa using hall

/-- Reads that yield the elements of a list one by one make the loop run over it. -/
theorem foldAt_eq {read : ℕ → Except ε α} {f : ℕ → β → α → StateT σ (Except ε) β} {l : List α}
    {i : ℕ} (hread : ∀ j a, l[j]? = some a → read (i + j) = .ok a) (acc : β) :
    foldAt read f l.length i acc = foldFrom f i l acc := by
  induction l generalizing i acc with
  | nil => rfl
  | cons a rest ih =>
    have hfirst : read i = .ok a := hread 0 a rfl
    have hlater : ∀ j b, rest[j]? = some b → read (i + 1 + j) = .ok b := by
      intro j b hb
      rw [show i + 1 + j = i + (j + 1) by omega]
      exact hread (j + 1) b hb
    rw [List.length_cons, foldAt, foldFrom, hfirst, lift_ok_bind]
    exact congrArg (f i acc a >>= ·) (funext fun acc' => ih hlater acc')

/-- The loop over the elements keeps their number. -/
theorem sweep_length (f : α → StateT σ (Except ε) α) (l : List α) (s : σ) :
    Ensures (fun _ => True) (sweep f l) s fun l' _ => l'.length = l.length := by
  have hall : ∀ a ∈ l, ∀ s, Ensures (fun _ => True) (f a) s fun _ _ => True :=
    fun a _ s => ensures_any fun _ _ _ => trivial
  apply (ensures_sweep_all hall).mono
  intro l' t hswept
  exact (hswept.forall₂ (P := fun _ _ => True) fun _ _ _ _ h => h).length_eq.symm

theorem map_run_ok {x : StateT σ (Except ε) α} {s t : σ} {a : α} (g : α → β)
    (h : x s = .ok (a, t)) : (g <$> x) s = .ok (g a, t) := by
  simp [Functor.map, StateT.map, h, Bind.bind, Except.bind, pure, Except.pure]

theorem map_run_error {x : StateT σ (Except ε) α} {s : σ} {e : ε} (g : α → β)
    (h : x s = .error e) : (g <$> x) s = .error e := by
  simp [Functor.map, StateT.map, h, Bind.bind, Except.bind]

/-- What agrees on all results of a program may be applied to them alike. -/
theorem map_congr_of_ensures {x : StateT σ (Except ε) α} {P : α → Prop} {g h : α → β}
    (hx : ∀ s, Ensures (fun _ => True) x s fun a _ => P a) (hagree : ∀ a, P a → g a = h a) :
    g <$> x = h <$> x := by
  funext s
  have hrun := hx s
  cases hs : x s with
  | error e => rw [map_run_error g hs, map_run_error h hs]
  | ok p =>
    rw [ensures_of_ok hs] at hrun
    rw [map_run_ok g hs, map_run_ok h hs, hagree p.1 hrun]

end AcaBSim.IndexLoops
