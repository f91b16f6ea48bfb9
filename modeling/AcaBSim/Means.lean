import Mathlib.Algebra.Order.Field.Rat
import Mathlib.Algebra.Order.BigOperators.Group.List
import Mathlib.Data.Rat.Cast.Order
import Mathlib.Tactic.Linarith
import Mathlib.Tactic.FieldSimp
import Mathlib.Tactic.Ring

/-!
Means that are cut off to integers. One cut loses less than 1, so a mean of
means that have lost at most `c` each loses less than `c + 1`, over however many
values it is taken. The mean of all values lies between those of the groups.
-/
namespace AcaBSim.Means

/-- The quotient that C computes, and 0 if there is nothing to divide by. -/
def truncatedMean (l : List ℤ) : ℤ := if 0 < l.length then l.sum.tdiv l.length else 0

/-- The exact mean; it is 0 for no values. -/
def average (l : List ℚ) : ℚ := l.sum / l.length

section Truncated

variable {l l' : List ℤ} {c : ℤ}

theorem truncatedMean_perm (h : l.Perm l') : truncatedMean l = truncatedMean l' := by
  rw [truncatedMean, truncatedMean, h.length_eq, h.sum_eq]

theorem truncatedMean_nonneg (h : ∀ x ∈ l, 0 ≤ x) : 0 ≤ truncatedMean l := by
  unfold truncatedMean
  split
  · exact Int.tdiv_nonneg (List.sum_nonneg h) (Int.natCast_nonneg _)
  · exact le_refl 0

/-- A lower bound of the mean is one of the sum, times the number. -/
theorem le_truncatedMean (hne : l ≠ []) (h : ∀ x ∈ l, 0 ≤ x) :
    c ≤ truncatedMean l ↔ c * l.length ≤ l.sum := by
  have hpos : 0 < l.length := List.length_pos_iff.mpr hne
  rw [truncatedMean, if_pos hpos, Int.tdiv_eq_ediv_of_nonneg (List.sum_nonneg h)]
  exact Int.le_ediv_iff_mul_le (by exact_mod_cast hpos)

end Truncated

section Groups

variable {α κ : Type} [DecidableEq κ] {key : α → κ} {l : List α} {f g : α → ℤ}

/-- The values of one group, and the others. -/
theorem sum_split (key : α → κ) (l : List α) (f : α → ℤ) (k : κ) :
    (l.map f).sum = ((l.filter fun a => key a = k).map f).sum +
      ((l.filter fun a => !decide (key a = k)).map f).sum := by
  rw [← List.sum_append, ← List.map_append]
  exact ((List.filter_append_perm _ _).symm.map f).sum_eq

theorem filter_others {k k' : κ} (hne : k' ≠ k) :
    ((l.filter fun a => !decide (key a = k)).filter fun a => key a = k') =
      l.filter fun a => key a = k' := by
  rw [List.filter_filter]
  refine List.filter_congr fun a _ => ?_
  by_cases ha : key a = k'
  · simp [ha, hne]
  · simp [ha]

/-- A sum is at most another if it is so in every group. -/
theorem sum_le_of_groups (key : α → κ)
    (h : ∀ k ∈ l.map key, ((l.filter fun a => key a = k).map f).sum ≤
      ((l.filter fun a => key a = k).map g).sum) :
    (l.map f).sum ≤ (l.map g).sum := by
  -- induction on the number of values: the group of the first one is taken out
  induction hn : l.length using Nat.strong_induction_on generalizing l with
  | _ n ih =>
    cases l with
    | nil => simp
    | cons a rest =>
      have hfewer : ((a :: rest).filter fun b => !decide (key b = key a)).length < n := by
        have hle := List.length_filter_le (fun b => !decide (key b = key a)) rest
        rw [List.length_cons] at hn
        simp only [List.filter_cons, decide_true, Bool.not_true, Bool.false_eq_true, if_false]
        omega
      have hothers := ih _ hfewer (l := (a :: rest).filter fun b => !decide (key b = key a))
        (fun k hk => ?_) rfl
      · have hfirst := h (key a) (by simp)
        rw [sum_split key _ f (key a), sum_split key _ g (key a)]
        omega
      · obtain ⟨b, hb, rfl⟩ := List.mem_map.mp hk
        obtain ⟨hmem, hne⟩ := List.mem_filter.mp hb
        rw [filter_others (by simpa using hne)]
        exact h (key b) (List.mem_map_of_mem hmem)

theorem sum_lt_of_groups (key : α → κ) (hne : l ≠ [])
    (h : ∀ k ∈ l.map key, ((l.filter fun a => key a = k).map f).sum <
      ((l.filter fun a => key a = k).map g).sum) :
    (l.map f).sum < (l.map g).sum := by
  obtain ⟨a, ha⟩ := List.exists_mem_of_ne_nil l hne
  have hfirst := h (key a) (List.mem_map_of_mem ha)
  have hothers := sum_le_of_groups key (l := l.filter fun b => !decide (key b = key a))
    (f := f) (g := g) fun k hk => ?_
  · rw [sum_split key l f (key a), sum_split key l g (key a)]
    omega
  · obtain ⟨b, hb, rfl⟩ := List.mem_map.mp hk
    obtain ⟨hmem, hne⟩ := List.mem_filter.mp hb
    rw [filter_others (by simpa using hne)]
    exact (h (key b) (List.mem_map_of_mem hmem)).le

theorem sum_const (l : List α) (c : ℤ) : (l.map fun _ => c).sum = c * l.length := by
  rw [List.map_const', List.sum_replicate, nsmul_eq_mul, mul_comm]

theorem filter_ne_nil {k : κ} (hk : k ∈ l.map key) : (l.filter fun a => key a = k) ≠ [] := by
  obtain ⟨a, ha, rfl⟩ := List.mem_map.mp hk
  exact List.ne_nil_of_mem (List.mem_filter.mpr ⟨ha, decide_eq_true rfl⟩)

theorem le_truncatedMean_map (hne : l ≠ []) (h : ∀ a ∈ l, 0 ≤ f a) (c : ℤ) :
    c ≤ truncatedMean (l.map f) ↔ (l.map fun _ => c).sum ≤ (l.map f).sum := by
  rw [le_truncatedMean (fun hnil => hne (List.map_eq_nil_iff.mp hnil))
    (List.forall_mem_map.mpr h), sum_const, List.length_map]

/-- Some group has no larger mean than all values together. -/
theorem exists_group_le (key : α → κ) (hne : l ≠ []) (h : ∀ a ∈ l, 0 ≤ f a) :
    ∃ k ∈ l.map key, truncatedMean ((l.filter fun a => key a = k).map f) ≤
      truncatedMean (l.map f) := by
  by_contra hnone
  push Not at hnone
  have hsum : (l.map fun _ => truncatedMean (l.map f) + 1).sum ≤ (l.map f).sum := by
    refine sum_le_of_groups key fun k hk => ?_
    refine (le_truncatedMean_map (filter_ne_nil hk) (fun a ha => ?_) _).mp (hnone k hk)
    exact h a (List.mem_filter.mp ha).1
  have hlarger := (le_truncatedMean_map hne h _).mpr hsum
  omega

/-- Some group has no smaller mean than all values together. -/
theorem exists_le_group (key : α → κ) (hne : l ≠ []) (h : ∀ a ∈ l, 0 ≤ f a) :
    ∃ k ∈ l.map key, truncatedMean (l.map f) ≤
      truncatedMean ((l.filter fun a => key a = k).map f) := by
  by_contra hnone
  push Not at hnone
  have hsum : (l.map f).sum < (l.map fun _ => truncatedMean (l.map f)).sum := by
    refine sum_lt_of_groups key hne fun k hk => ?_
    refine not_le.mp fun hle => (hnone k hk).not_ge ?_
    exact (le_truncatedMean_map (filter_ne_nil hk)
      (fun a ha => h a (List.mem_filter.mp ha).1) _).mpr hle
  exact absurd ((le_truncatedMean_map hne h _).mp (le_refl _)) (not_le.mpr hsum)

end Groups

section Averages

variable {α : Type} {l : List α} {a : α → ℤ} {x : α → ℚ} {c : ℚ}

theorem sum_le_add_const (h : ∀ i ∈ l, x i ≤ a i + c) :
    (l.map x).sum ≤ ((l.map a).sum : ℤ) + c * l.length := by
  induction l with
  | nil => simp
  | cons i rest ih =>
    obtain ⟨hfirst, hrest⟩ := List.forall_mem_cons.mp h
    have hsum := ih hrest
    rw [List.map_cons, List.map_cons, List.sum_cons, List.sum_cons, List.length_cons,
      Int.cast_add, Nat.cast_succ]
    linarith

theorem cast_sum_le (h : ∀ i ∈ l, (a i : ℚ) ≤ x i) : ((l.map a).sum : ℚ) ≤ (l.map x).sum := by
  induction l with
  | nil => simp
  | cons i rest ih =>
    obtain ⟨hfirst, hrest⟩ := List.forall_mem_cons.mp h
    have hsum := ih hrest
    rw [List.map_cons, List.map_cons, List.sum_cons, List.sum_cons, Int.cast_add]
    linarith

/-- Values that have lost at most `c` each have a mean that has lost less than `c + 1`. -/
theorem truncatedMean_close (hc : 0 ≤ c) (hnonneg : ∀ i ∈ l, 0 ≤ a i)
    (hle : ∀ i ∈ l, (a i : ℚ) ≤ x i) (hclose : ∀ i ∈ l, x i ≤ a i + c) :
    (truncatedMean (l.map a) : ℚ) ≤ average (l.map x) ∧
      average (l.map x) < truncatedMean (l.map a) + (c + 1) := by
  by_cases hne : l = []
  · subst hne
    simp only [List.map_nil, truncatedMean, average]
    norm_num
    linarith
  have hlower := (le_truncatedMean_map hne hnonneg _).mp (le_refl (truncatedMean (l.map a)))
  have hupper := (le_truncatedMean_map hne hnonneg (truncatedMean (l.map a) + 1)).not.mp
    (not_le.mpr (Int.lt_succ _))
  rw [sum_const] at hlower hupper
  have hlength : (0 : ℚ) < l.length := by exact_mod_cast List.length_pos_iff.mpr hne
  have hlower' : (truncatedMean (l.map a) : ℚ) * l.length ≤ (l.map a).sum := by
    exact_mod_cast hlower
  have hupper' : ((l.map a).sum : ℚ) < (truncatedMean (l.map a) + 1) * l.length := by
    exact_mod_cast not_le.mp hupper
  have hsum := cast_sum_le hle
  have hsum' := sum_le_add_const hclose
  unfold average
  rw [List.length_map]
  constructor
  · rw [le_div_iff₀ hlength]
    linarith
  · rw [div_lt_iff₀ hlength]
    linarith

end Averages

end AcaBSim.Means
