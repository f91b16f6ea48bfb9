import AcaBSim.Outcome
import Mathlib.Algebra.Order.Ring.Int
import Mathlib.Algebra.BigOperators.Group.List.Basic
import Mathlib.Data.List.Forall2

/-!
Loops that replace the elements of a list one by one, by a program that also
acts on a shared state. What each call does to its own element and to the state
is carried along the list, and so is a condition on the calls of one run.
-/
namespace AcaBSim.Sweeps

open Outcome

variable {σ ε α β : Type}

def sweep (f : α → StateT σ (Except ε) α) : List α → StateT σ (Except ε) (List α)
  | [] => pure []
  | a :: rest => do
    let b ← f a
    let rest ← sweep f rest
    pure (b :: rest)

/-- Every call that the loop makes, from the state it makes it in, meets `V`. -/
def Meets (f : α → StateT σ (Except ε) α) (V : α → σ → Prop) : List α → σ → Prop
  | [], _ => True
  | a :: rest, s => V a s ∧ Ensures (fun _ => True) (f a) s fun _ t => Meets f V rest t

/-- Each element is replaced as `R` allows, the state running through the list. -/
inductive Swept (R : α → σ → β → σ → Prop) : List α → σ → List β → σ → Prop
  | nil (s : σ) : Swept R [] s [] s
  | cons {a : α} {b : β} {rest : List α} {rest' : List β} {s t u : σ} :
      R a s b t → Swept R rest t rest' u → Swept R (a :: rest) s (b :: rest') u

variable {tol : ε → Prop} {f : α → StateT σ (Except ε) α} {V : α → σ → Prop}
  {R : α → σ → α → σ → Prop} {s : σ} {l : List α}

theorem meets_of_forall (hV : ∀ a s, V a s) : ∀ (l : List α) (s : σ), Meets f V l s
  | [], _ => trivial
  | a :: rest, s => by
    exact ⟨hV a s, ensures_any fun _ t _ => meets_of_forall hV rest t⟩

/-- The rule of the loop: a call that meets `V` acts as `R` says. -/
theorem ensures_sweep (hf : ∀ a ∈ l, ∀ s, V a s → Ensures tol (f a) s (R a s))
    (hmeets : Meets f V l s) : Ensures tol (sweep f l) s (Swept R l s) := by
  induction l generalizing s with
  | nil => exact Swept.nil s
  | cons a rest ih =>
    obtain ⟨hV, hrest⟩ := hmeets
    simp only [sweep, ensures_bind]
    apply ((hf a List.mem_cons_self s hV).and hrest).mono
    intro b t hpost
    obtain ⟨hR, hmeets'⟩ := hpost
    apply (ih (fun a' ha' => hf a' (List.mem_cons_of_mem _ ha')) hmeets').mono
    intro rest' u hswept
    exact Swept.cons hR hswept

/-- The rule of the loop without a condition on its calls. -/
theorem ensures_sweep_all (hf : ∀ a ∈ l, ∀ s, Ensures tol (f a) s (R a s)) :
    Ensures tol (sweep f l) s (Swept R l s) :=
  ensures_sweep (V := fun _ _ => True) (fun a ha s _ => hf a ha s)
    (meets_of_forall (fun _ _ => trivial) l s)

/-- What the results of a loop that returns say about its calls. -/
theorem meets_of_results {G : α → α → Prop} {l' : List α} {t : σ}
    (hf : ∀ a s, Ensures (fun _ => True) (f a) s fun b _ => G a b → V a s)
    (hrun : sweep f l s = .ok (l', t)) (hG : List.Forall₂ G l l') : Meets f V l s := by
  induction l generalizing s l' t with
  | nil => trivial
  | cons a rest ih =>
    have hcalls : Ensures (fun _ => True) (sweep f (a :: rest)) s fun l' _ =>
        List.Forall₂ G (a :: rest) l' → Meets f V (a :: rest) s := by
      simp only [sweep, ensures_bind]
      cases hb : f a s with
      | error e => simp [Ensures, hb]
      | ok result =>
        obtain ⟨b, s₁⟩ := result
        have hV := (ensures_of_ok hb).mp (hf a s)
        rw [ensures_of_ok hb]
        cases hrest : sweep f rest s₁ with
        | error e => simp [Ensures, hrest]
        | ok result =>
          obtain ⟨rest', u⟩ := result
          rw [ensures_of_ok hrest, ensures_pure]
          intro hforall
          obtain ⟨hGab, hGrest⟩ := List.forall₂_cons.mp hforall
          exact ⟨hV hGab, (ensures_of_ok hb).mpr (ih hrest hGrest)⟩
    exact (ensures_of_ok hrun).mp hcalls hG

/-- The partner of an element of the second list. -/
theorem exists_partner {P : α → β → Prop} {l : List α} {l' : List β} (h : List.Forall₂ P l l')
    {i : ℕ} {b : β} (hb : l'[i]? = some b) : ∃ a, l[i]? = some a ∧ P a b := by
  obtain ⟨hlt, rfl⟩ := List.getElem?_eq_some_iff.mp hb
  have hlt' : i < l.length := h.length_eq ▸ hlt
  exact ⟨l[i], List.getElem?_eq_getElem hlt', h.get hlt' hlt⟩

namespace Swept

variable {R : α → σ → β → σ → Prop} {l : List α} {l' : List β} {t : σ}

theorem mono {R' : α → σ → β → σ → Prop} (h : Swept R l s l' t)
    (hR : ∀ a s b t, R a s b t → R' a s b t) : Swept R' l s l' t := by
  induction h with
  | nil s => exact .nil s
  | cons hab _ ih => exact .cons (hR _ _ _ _ hab) ih

/-- What is known of the elements may be used about the calls. -/
theorem restrict {P : α → Prop} (h : Swept R l s l' t) (hl : ∀ a ∈ l, P a) :
    Swept (fun a s b t => P a ∧ R a s b t) l s l' t := by
  induction h with
  | nil s => exact .nil s
  | cons hab _ ih =>
    rw [List.forall_mem_cons] at hl
    exact .cons ⟨hl.1, hab⟩ (ih hl.2)

theorem forall₂ {P : α → β → Prop} (h : Swept R l s l' t) (hR : ∀ a s b t, R a s b t → P a b) :
    List.Forall₂ P l l' := by
  induction h with
  | nil s => exact .nil
  | cons hab _ ih => exact .cons (hR _ _ _ _ hab) ih

/-- What every call keeps of its element, the loop keeps of all. -/
theorem elements {P : α → Prop} {Q : β → Prop} (h : Swept R l s l' t)
    (hR : ∀ a s b t, R a s b t → P a → Q b) (hl : ∀ a ∈ l, P a) : ∀ b ∈ l', Q b := by
  induction h with
  | nil s => simp
  | cons hab _ ih =>
    rw [List.forall_mem_cons] at hl ⊢
    exact ⟨hR _ _ _ _ hab hl.1, ih hl.2⟩

/-- A relation between states that every call keeps, the loop keeps. -/
theorem state {P : σ → σ → Prop} (h : Swept R l s l' t) (hrefl : ∀ s, P s s)
    (htrans : ∀ s t u, P s t → P t u → P s u) (hR : ∀ a s b t, R a s b t → P s t) : P s t := by
  induction h with
  | nil s => exact hrefl s
  | cons hab _ ih => exact htrans _ _ _ (hR _ _ _ _ hab) ih

/-- What the calls add to the elements and to the state is the same in the end. -/
theorem sum {f : α → ℤ} {k : β → ℤ} {g : σ → ℤ} (h : Swept R l s l' t)
    (hR : ∀ a s b t, R a s b t → k b - f a = g t - g s) :
    (l'.map k).sum - (l.map f).sum = g t - g s := by
  induction h with
  | nil s => simp
  | cons hab _ ih =>
    have hcall := hR _ _ _ _ hab
    simp only [List.map_cons, List.sum_cons]
    omega

theorem append {l₁ : List α} {l₁' : List β} {u : σ} (h : Swept R l s l' t)
    (h₁ : Swept R l₁ t l₁' u) : Swept R (l ++ l₁) s (l' ++ l₁') u := by
  induction h with
  | nil s => exact h₁
  | cons hab _ ih => exact .cons hab (ih h₁)

theorem map {α' β' : Type} {R' : α' → σ → β' → σ → Prop} {f : α → α'} {g : β → β'}
    (h : Swept R l s l' t) (hR : ∀ a s b t, R a s b t → R' (f a) s (g b) t) :
    Swept R' (l.map f) s (l'.map g) t := by
  induction h with
  | nil s => exact .nil s
  | cons hab _ ih => exact .cons (hR _ _ _ _ hab) ih

end Swept

end AcaBSim.Sweeps
