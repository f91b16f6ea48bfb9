import AcaBSim.Outcome

/-!
Two runs side by side. The judgement says that both return and their results
are related, or that both stop with the same error; its rules take one step of
either program at a time.
-/
namespace AcaBSim.PairedRuns

variable {σ ε α β γ δ : Type}

/-- The runs of `x` from `s` and of `y` from `t` return in `R` or fail alike. -/
def Paired (x : StateT σ (Except ε) α) (s : σ) (y : StateT σ (Except ε) β) (t : σ)
    (R : α → σ → β → σ → Prop) : Prop :=
  match x s, y t with
  | .ok (a, s'), .ok (b, t') => R a s' b t'
  | .error e, .error f => e = f
  | .ok _, .error _ => False
  | .error _, .ok _ => False

variable {s t : σ}

theorem paired_pure {a : α} {b : β} {R : α → σ → β → σ → Prop} (h : R a s b t) :
    Paired (pure a : StateT σ (Except ε) α) s (pure b) t R := h

theorem paired_throw (e : ε) (R : α → σ → β → σ → Prop) :
    Paired (throw e : StateT σ (Except ε) α) s (throw e) t R := by
  rfl

/-- The same fallible value on both sides. -/
theorem paired_lift {v : Except ε α} {R : α → σ → α → σ → Prop} (h : ∀ a, v = .ok a → R a s a t) :
    Paired (liftM v : StateT σ (Except ε) α) s (liftM v) t R := by
  cases hv : v with
  | ok a => exact h a hv
  | error e => rfl

theorem paired_bind {x : StateT σ (Except ε) α} {y : StateT σ (Except ε) β}
    {f : α → StateT σ (Except ε) γ} {g : β → StateT σ (Except ε) δ}
    {R : α → σ → β → σ → Prop} {Q : γ → σ → δ → σ → Prop} (hxy : Paired x s y t R)
    (hfg : ∀ a s b t, R a s b t → Paired (f a) s (g b) t Q) :
    Paired (x >>= f) s (y >>= g) t Q := by
  have hx : (x >>= f) s = (x s >>= fun p => f p.1 p.2) := rfl
  have hy : (y >>= g) t = (y t >>= fun p => g p.1 p.2) := rfl
  unfold Paired at hxy ⊢
  rw [hx, hy]
  cases hxs : x s with
  | ok p =>
    cases hyt : y t with
    | ok q =>
      simp only [hxs, hyt] at hxy
      exact hfg p.1 p.2 q.1 q.2 hxy
    | error e => simp only [hxs, hyt] at hxy
  | error e =>
    cases hyt : y t with
    | ok q => simp only [hxs, hyt] at hxy
    | error f =>
      simp only [hxs, hyt] at hxy
      exact hxy

theorem Paired.with_runs {x : StateT σ (Except ε) α} {y : StateT σ (Except ε) β}
    {R Q : α → σ → β → σ → Prop} (h : Paired x s y t R)
    (hRQ : ∀ a s' b t', x s = .ok (a, s') → y t = .ok (b, t') → R a s' b t' → Q a s' b t') :
    Paired x s y t Q := by
  unfold Paired at *
  cases hx : x s <;> cases hy : y t <;> simp only [hx, hy] at h ⊢
  · exact h
  · exact hRQ _ _ _ _ hx hy h

/-- A run whose partner returns does so too. -/
theorem Paired.returns {x : StateT σ (Except ε) α} {y : StateT σ (Except ε) β}
    {R : α → σ → β → σ → Prop} (h : Paired x s y t R) {a : α} {s' : σ} (hx : x s = .ok (a, s')) :
    ∃ b t', y t = .ok (b, t') ∧ R a s' b t' := by
  unfold Paired at h
  rw [hx] at h
  cases hy : y t with
  | ok q =>
    rw [hy] at h
    exact ⟨q.1, q.2, rfl, h⟩
  | error e =>
    rw [hy] at h
    exact h.elim

end AcaBSim.PairedRuns
