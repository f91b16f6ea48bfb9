import Mathlib.Logic.Basic
import Mathlib.Tactic.Common

/-!
Runs of a stateful program that may stop with an error, and the judgement that
such a run either reaches a postcondition or stops for an excused reason.
The rules follow the constructors of the state monad, so a program is
verified along its own text and never by unfolding the monad.
-/
namespace AcaBSim.Outcome

variable {σ ε α β : Type}

/-- The run of `x` from `s` returns in `Q`, or stops with an error `tol` excuses. -/
def Ensures (tol : ε → Prop) (x : StateT σ (Except ε) α) (s : σ)
    (Q : α → σ → Prop) : Prop :=
  match x s with
  | .ok (a, t) => Q a t
  | .error e => tol e

variable {tol : ε → Prop} {s : σ}

theorem ensures_of_ok {x : StateT σ (Except ε) α} {a : α} {t : σ} {Q : α → σ → Prop}
    (h : x s = .ok (a, t)) : Ensures tol x s Q ↔ Q a t := by
  simp only [Ensures, h]

@[simp] theorem ensures_pure (a : α) (Q : α → σ → Prop) :
    Ensures tol (pure a) s Q ↔ Q a s := Iff.rfl

@[simp] theorem ensures_bind (x : StateT σ (Except ε) α)
    (f : α → StateT σ (Except ε) β) (Q : β → σ → Prop) :
    Ensures tol (x >>= f) s Q ↔ Ensures tol x s fun a t => Ensures tol (f a) t Q := by
  have hrun : (x >>= f) s = (x s >>= fun p => f p.1 p.2) := rfl
  unfold Ensures
  rw [hrun]
  cases x s <;> rfl

@[simp] theorem ensures_get (Q : σ → σ → Prop) :
    Ensures tol (get : StateT σ (Except ε) σ) s Q ↔ Q s s := Iff.rfl

@[simp] theorem ensures_throw (e : ε) (Q : α → σ → Prop) :
    Ensures tol (throw e : StateT σ (Except ε) α) s Q ↔ tol e := Iff.rfl

@[simp] theorem ensures_lift_ok (a : α) (Q : α → σ → Prop) :
    Ensures tol (liftM (Except.ok a : Except ε α) : StateT σ (Except ε) α) s Q ↔ Q a s :=
  Iff.rfl

@[simp] theorem ensures_lift_error (e : ε) (Q : α → σ → Prop) :
    Ensures tol (liftM (Except.error e : Except ε α) : StateT σ (Except ε) α) s Q ↔ tol e :=
  Iff.rfl

@[simp] theorem ensures_lift_bind (x : Except ε α) (f : α → Except ε β) (Q : β → σ → Prop) :
    Ensures tol (liftM (x >>= f) : StateT σ (Except ε) β) s Q ↔
      Ensures tol (liftM x : StateT σ (Except ε) α) s fun a t =>
        Ensures tol (liftM (f a) : StateT σ (Except ε) β) t Q := by
  cases x <;> rfl

/-- A run whose errors are all excused. -/
theorem ensures_any {x : StateT σ (Except ε) α} {Q : α → σ → Prop}
    (h : ∀ a t, x s = .ok (a, t) → Q a t) : Ensures (fun _ => True) x s Q := by
  unfold Ensures
  cases hx : x s with
  | ok p => exact h p.1 p.2 hx
  | error e => trivial

/-- A fallible value whose errors are all excused. -/
theorem ensures_lift_any {x : Except ε α} {Q : α → σ → Prop} (h : ∀ a, x = .ok a → Q a s) :
    Ensures (fun _ => True) (liftM x : StateT σ (Except ε) α) s Q := by
  cases hx : x with
  | ok a => exact h a hx
  | error e => trivial

theorem Ensures.mono {x : StateT σ (Except ε) α} {P Q : α → σ → Prop}
    (h : Ensures tol x s P) (hPQ : ∀ a t, P a t → Q a t) : Ensures tol x s Q := by
  unfold Ensures at *
  cases hx : x s with
  | ok p => simp only [hx] at h ⊢; exact hPQ p.1 p.2 h
  | error e => simpa only [hx] using h

theorem Ensures.weaken {tol' : ε → Prop} {x : StateT σ (Except ε) α} {Q : α → σ → Prop}
    (h : Ensures tol x s Q) (htol : ∀ e, tol e → tol' e) : Ensures tol' x s Q := by
  unfold Ensures at *
  cases hx : x s with
  | ok p => simpa only [hx] using h
  | error e =>
    simp only [hx] at h ⊢
    exact htol e h

theorem Ensures.and {x : StateT σ (Except ε) α} {P Q : α → σ → Prop}
    (hP : Ensures tol x s P) (hQ : Ensures (fun _ => True) x s Q) :
    Ensures tol x s fun a t => P a t ∧ Q a t := by
  unfold Ensures at *
  cases hx : x s with
  | ok p =>
    simp only [hx] at hP hQ ⊢
    exact ⟨hP, hQ⟩
  | error e => simpa only [hx] using hP

/-- Two judgements on one run: its error is excused by both. -/
theorem Ensures.both {tol' : ε → Prop} {x : StateT σ (Except ε) α} {P Q : α → σ → Prop}
    (hP : Ensures tol x s P) (hQ : Ensures tol' x s Q) :
    Ensures (fun e => tol e ∧ tol' e) x s fun a t => P a t ∧ Q a t := by
  unfold Ensures at *
  cases hx : x s with
  | ok p =>
    simp only [hx] at hP hQ ⊢
    exact ⟨hP, hQ⟩
  | error e =>
    simp only [hx] at hP hQ ⊢
    exact ⟨hP, hQ⟩

/-- A run whose errors are all excluded returns, and returns in the postcondition. -/
theorem Ensures.returns {x : StateT σ (Except ε) α} {Q : α → σ → Prop}
    (h : Ensures tol x s Q) (hno : ∀ e, x s = .error e → ¬ tol e) :
    ∃ a t, x s = .ok (a, t) ∧ Q a t := by
  unfold Ensures at h
  cases hx : x s with
  | ok p => exact ⟨p.1, p.2, rfl, by simpa only [hx] using h⟩
  | error e => exact absurd (by simpa only [hx] using h) (hno e hx)

/-- The run of `x` from `s` returns, and returns in `R`. -/
def Returns (x : StateT σ (Except ε) α) (s : σ) (R : α → σ → Prop) : Prop :=
  match x s with
  | .ok (a, t) => R a t
  | .error _ => False

theorem returns_iff {x : StateT σ (Except ε) α} {R : α → σ → Prop} :
    Returns x s R ↔ Ensures (fun _ => False) x s R := by
  unfold Returns Ensures
  cases x s <;> rfl

theorem returns_of_ok {x : StateT σ (Except ε) α} {a : α} {t : σ} {R : α → σ → Prop}
    (h : x s = .ok (a, t)) : Returns x s R ↔ R a t := by
  simp only [Returns, h]

theorem not_returns_of_error {x : StateT σ (Except ε) α} {e : ε} {R : α → σ → Prop}
    (h : x s = .error e) : ¬ Returns x s R := by
  simp [Returns, h]

/-- The fate of a program in two parts hangs on the first one, or on where it returns. -/
theorem ensures_bind_or_returns {tol : Prop → ε → Prop} {first : Prop} {R : α → σ → Prop}
    {P : α → σ → Prop} {Q : β → σ → Prop} {x : StateT σ (Except ε) α}
    {f : α → StateT σ (Except ε) β}
    (hx : Ensures (tol first) x s fun a t => ¬ first ∧ P a t)
    (hf : ∀ a t, P a t → Ensures (tol (R a t)) (f a) t fun b u => ¬ R a t ∧ Q b u) :
    Ensures (tol (first ∨ Returns x s R)) (x >>= f) s fun b u =>
      ¬ (first ∨ Returns x s R) ∧ Q b u := by
  rw [ensures_bind]
  cases hrun : x s with
  | ok p =>
    obtain ⟨a, t⟩ := p
    rw [ensures_of_ok hrun] at hx ⊢
    rw [returns_of_ok hrun, or_iff_right hx.1]
    exact hf a t hx.2
  | error e =>
    rw [or_iff_left (not_returns_of_error hrun)]
    simpa only [Ensures, hrun] using hx

/-- The special case in which the first part has no say. -/
theorem ensures_bind_returns {tol : Prop → ε → Prop} {R : α → σ → Prop} {P : α → σ → Prop}
    {Q : β → σ → Prop} {x : StateT σ (Except ε) α} {f : α → StateT σ (Except ε) β}
    (hx : Ensures (tol False) x s P)
    (hf : ∀ a t, P a t → Ensures (tol (R a t)) (f a) t fun b u => ¬ R a t ∧ Q b u) :
    Ensures (tol (Returns x s R)) (x >>= f) s fun b u => ¬ Returns x s R ∧ Q b u := by
  have hfirst : Ensures (tol False) x s fun a t => ¬ False ∧ P a t :=
    hx.mono fun _ _ h => ⟨not_false, h⟩
  simpa only [false_or] using ensures_bind_or_returns hfirst hf

end AcaBSim.Outcome
