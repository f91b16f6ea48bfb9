import Mathlib.Data.ZMod.Basic
import Mathlib.Data.List.Pairwise
import Mathlib.Data.List.Perm.Subperm
import Mathlib.Tactic.Ring
import Mathlib.Tactic.Push

/-!
Open addressing on a ring of `n` cells. An entry has a home cell and lies at
or after it; its probe distance counts the cells from its home to where it
lies, both included, and that of a free cell is zero. A table is ordered if the
probe distance grows by at most one from each cell to the next. Then no free
cell separates an entry from its home, and the updates of an insertion and of a
deletion that shifts back keep the table ordered.
-/
namespace AcaBSim.RobinHood

variable {n : ℕ} {E α β : Type}

/-- The free cells are `none`. -/
abbrev Table (n : ℕ) (E : Type) := ZMod n → Option E

variable (home : E → ZMod n)

/-- How many cells there are from the home of `e` to `i`, both included. -/
def distance (e : E) (i : ZMod n) : ℕ := (i - home e).val + 1

def probe (T : Table n E) (i : ZMod n) : ℕ := (T i).elim 0 fun e => distance home e i

def Ordered (T : Table n E) : Prop := ∀ i, probe home T (i + 1) ≤ probe home T i + 1

variable {home} {T : Table n E} {e b : E} {i : ZMod n}

theorem probe_of_none (h : T i = none) : probe home T i = 0 := by
  rw [probe, h]
  rfl

theorem probe_of_some (h : T i = some e) : probe home T i = distance home e i := by
  rw [probe, h]
  rfl

theorem distance_pos (home : E → ZMod n) (e : E) (i : ZMod n) : 1 ≤ distance home e i :=
  Nat.le_add_left 1 _

theorem distance_home (home : E → ZMod n) (e : E) : distance home e (home e) = 1 := by
  rw [distance, sub_self, ZMod.val_zero]

theorem distance_add {s : ℕ} (hs : s < n) : distance home e (home e + s) = s + 1 := by
  rw [distance, add_sub_cancel_left, ZMod.val_natCast_of_lt hs]

/-- A free cell ahead of a taken one is ahead of the cell after it. -/
theorem free_ahead {k : ℕ} (hi : T i ≠ none) (hfree : ∃ m < k + 1, T (i + (m : ℕ)) = none) :
    ∃ m < k, T (i + 1 + (m : ℕ)) = none := by
  obtain ⟨m, hm, hfree⟩ := hfree
  cases m with
  | zero =>
    rw [Nat.cast_zero, add_zero] at hfree
    exact absurd hfree hi
  | succ m =>
    refine ⟨m, by omega, ?_⟩
    rwa [add_assoc, ← Nat.cast_one, ← Nat.cast_add, Nat.add_comm 1 m]

theorem update_free {j : ZMod n} {x : Option E} (hi : T i ≠ none) (hj : T j = none) :
    Function.update T i x j = none := by
  have hne : j ≠ i := fun h => hi (h ▸ hj)
  rw [Function.update_of_ne hne, hj]

namespace Ordered

theorem probe_le_before (h : Ordered home T) (i : ZMod n) (k : ℕ) :
    probe home T i ≤ probe home T (i - k) + k := by
  induction k with
  | zero => simp
  | succ k ih =>
    have hstep := h (i - (k + 1 : ℕ))
    have hcell : i - ((k + 1 : ℕ) : ZMod n) + 1 = i - k := by
      push_cast
      ring
    rw [hcell] at hstep
    omega

theorem update_of_le {x : Option E} (h : Ordered home T)
    (hnext : i + 1 ≠ i → probe home T (i + 1) ≤ probe home (Function.update T i x) i + 1)
    (hbefore : i - 1 ≠ i → probe home (Function.update T i x) i ≤ probe home T (i - 1) + 1) :
    Ordered home (Function.update T i x) := by
  have hother : ∀ j, j ≠ i → probe home (Function.update T i x) j = probe home T j := by
    intro j hj
    rw [probe, Function.update_of_ne hj, probe]
  intro j
  by_cases hj : j = i <;> by_cases hj' : j + 1 = i
  · rw [hj, show i + 1 = i by rw [← hj, hj', hj]]
    omega
  · subst hj
    rw [hother _ hj']
    exact hnext hj'
  · have hback : j = i - 1 := eq_sub_of_add_eq hj'
    rw [hj', hother j hj, hback]
    exact hbefore (hback ▸ hj)
  · rw [hother j hj, hother _ hj']
    exact h j

/-- The one kind of step of an insertion: a cell takes an entry that is at least as far
from its home as the old one, and no farther than the cell before allows. -/
theorem update_some (h : Ordered home T) (hold : probe home T i ≤ distance home e i)
    (hbefore : distance home e i ≤ probe home T (i - 1) + 1) :
    Ordered home (Function.update T i (some e)) := by
  have hself : probe home (Function.update T i (some e)) i = distance home e i :=
    probe_of_some (Function.update_self ..)
  refine h.update_of_le (fun _ => ?_) (fun _ => ?_)
  · rw [hself]
    exact (h i).trans (by omega)
  · rwa [hself]

/-- The last step of a deletion: a cell becomes free if the one after it is
free or holds an entry at its home. -/
theorem update_none (h : Ordered home T) (hnext : probe home T (i + 1) ≤ 1) :
    Ordered home (Function.update T i none) := by
  have hself : probe home (Function.update T i none) i = 0 :=
    probe_of_none (Function.update_self ..)
  refine h.update_of_le (fun _ => ?_) (fun _ => ?_)
  · rwa [hself]
  · rw [hself]
    omega

end Ordered

/-- The cells one after another. -/
def cells (n : ℕ) : List (ZMod n) := (List.range n).map Nat.cast

/-- The entries of a table in the order of their cells. -/
def held (T : Table n E) : List E := (cells n).filterMap T

theorem cells_nodup : (cells n).Nodup := by
  refine List.Nodup.map_on ?_ List.nodup_range
  intro a ha b hb hab
  have hval := congrArg ZMod.val hab
  rwa [ZMod.val_natCast_of_lt (List.mem_range.mp ha),
    ZMod.val_natCast_of_lt (List.mem_range.mp hb)] at hval

theorem cells_length : (cells n).length = n := by rw [cells, List.length_map, List.length_range]

theorem filterMap_update [DecidableEq α] {l : List α} (hl : l.Nodup) {a : α} (ha : a ∈ l)
    (f : α → Option β) (x : β) :
    (l.filterMap (Function.update f a (some x))).Perm
      (x :: l.filterMap (Function.update f a none)) := by
  induction l with
  | nil => cases ha
  | cons c l ih =>
    have hcl := List.nodup_cons.mp hl
    by_cases hc : c = a
    · subst hc
      have hrest : l.filterMap (Function.update f c (some x)) =
          l.filterMap (Function.update f c none) := by
        refine List.filterMap_congr fun d hd => ?_
        have hne : d ≠ c := fun h => hcl.1 (h ▸ hd)
        rw [Function.update_of_ne hne, Function.update_of_ne hne]
      simp [hrest]
    · have htail := ih hcl.2 (List.mem_of_ne_of_mem (Ne.symm hc) ha)
      rw [List.filterMap_cons, List.filterMap_cons, Function.update_of_ne hc,
        Function.update_of_ne hc]
      cases f c with
      | none => exact htail
      | some y => exact (htail.cons y).trans (List.Perm.swap ..)

variable [NeZero n]

theorem distance_le (home : E → ZMod n) (e : E) (i : ZMod n) : distance home e i ≤ n :=
  ZMod.val_lt _

theorem eq_home_add (home : E → ZMod n) (e : E) (i : ZMod n) :
    ∃ s : ℕ, i = home e + s ∧ distance home e i = s + 1 ∧ s < n := by
  refine ⟨(i - home e).val, ?_, rfl, ZMod.val_lt _⟩
  rw [ZMod.natCast_zmod_val, add_sub_cancel]

theorem distance_next (h : distance home e i < n) :
    distance home e (i + 1) = distance home e i + 1 := by
  obtain ⟨s, hi, hs, -⟩ := eq_home_add home e i
  have hnext : i + 1 = home e + ((s + 1 : ℕ) : ZMod n) := by rw [hi, Nat.cast_succ, add_assoc]
  rw [hnext, distance_add (by omega), hs]

/-- An entry one cell back is one step closer, unless it lies at its home. -/
theorem distance_back (h : 2 ≤ distance home e (i + 1)) :
    distance home e i + 1 = distance home e (i + 1) := by
  have hlt : distance home e i < n := by
    obtain ⟨s, hi, hs, hsn⟩ := eq_home_add home e i
    by_contra hnot
    have hhome : i + 1 = home e := by
      rw [hi, add_assoc, ← Nat.cast_succ, show s.succ = n by omega, ZMod.natCast_self, add_zero]
    rw [hhome, distance_home] at h
    omega
  exact (distance_next hlt).symm

theorem exists_steps (i j : ZMod n) : ∃ k < n, i + (k : ℕ) = j :=
  ⟨(j - i).val, ZMod.val_lt _, by rw [ZMod.natCast_zmod_val, add_sub_cancel]⟩

namespace Ordered

/-- Between its home and its cell an entry passes entries at least as far from
their homes as it was there. -/
theorem lt_probe (h : Ordered home T) (he : T i = some e) {s : ℕ} (hs : s < distance home e i) :
    s < probe home T (home e + s) := by
  obtain ⟨d, hi, hd, -⟩ := eq_home_add home e i
  have hle := h.probe_le_before i (d - s)
  have hcell : i - ((d - s : ℕ) : ZMod n) = home e + s := by
    rw [hi, Nat.cast_sub (by omega)]
    ring
  rw [hcell, probe_of_some he] at hle
  omega

/-- An entry that may stand next but finds its cell taken has not gone all the way round. -/
theorem distance_lt (h : Ordered home T) (hfree : ∃ j, T j = none) (hi : T i ≠ none)
    (hbefore : distance home e i ≤ probe home T (i - 1) + 1) : distance home e i < n := by
  by_contra hnot
  obtain ⟨j, hj⟩ := hfree
  obtain ⟨k, hk, hij⟩ := exists_steps j (i - 1)
  have hle := h.probe_le_before (i - 1) k
  rw [← hij, add_sub_cancel_right, hij, probe_of_none hj] at hle
  have hround : j = i := by
    have hcast : ((k + 1 : ℕ) : ZMod n) = 0 := by
      rw [show k + 1 = n by omega, ZMod.natCast_self]
    push_cast at hcast
    rw [← sub_add_cancel i 1, ← hij, add_assoc, hcast, add_zero]
  exact hi (hround ▸ hj)

/-- Any other step of a deletion: a cell takes the entry after it. -/
theorem update_shift (h : Ordered home T) (he : T (i + 1) = some e)
    (hfar : 2 ≤ distance home e (i + 1)) : Ordered home (Function.update T i (some e)) := by
  have hback := distance_back hfar
  have hself : probe home (Function.update T i (some e)) i = distance home e i :=
    probe_of_some (Function.update_self ..)
  have hcur := h (i - 1)
  have hnext := h i
  rw [probe_of_some he] at hnext
  rw [sub_add_cancel] at hcur
  refine h.update_of_le (fun _ => ?_) (fun _ => ?_)
  · rw [hself, probe_of_some he]
    omega
  · rw [hself]
    omega

end Ordered

theorem mem_cells (i : ZMod n) : i ∈ cells n :=
  List.mem_map.mpr ⟨i.val, List.mem_range.mpr (ZMod.val_lt i), ZMod.natCast_zmod_val i⟩

theorem mem_held : e ∈ held T ↔ ∃ i, T i = some e := by
  rw [held, List.mem_filterMap]
  exact ⟨fun ⟨i, _, hi⟩ => ⟨i, hi⟩, fun ⟨i, hi⟩ => ⟨i, mem_cells i, hi⟩⟩

theorem held_update_some (T : Table n E) (i : ZMod n) (e : E) :
    (held (Function.update T i (some e))).Perm (e :: held (Function.update T i none)) :=
  filterMap_update cells_nodup (mem_cells i) T e

theorem held_of_some (h : T i = some e) :
    (held T).Perm (e :: held (Function.update T i none)) := by
  have hself : Function.update T i (some e) = T := by rw [← h, Function.update_eq_self]
  simpa only [hself] using held_update_some T i e

theorem exists_free (h : (held T).length < n) : ∃ j, T j = none := by
  by_contra hfull
  have hsome : ∀ j ∈ cells n, (T j).isSome := by
    intro j _
    exact Option.isSome_iff_ne_none.mpr fun hj => hfull ⟨j, hj⟩
  have hlen := List.filterMap_length_eq_length.mpr hsome
  rw [cells_length] at hlen
  exact absurd hlen (by rw [held] at h; omega)

theorem Ordered.probe_le_held (h : Ordered home T) (i : ZMod n) :
    probe home T i ≤ (held T).length := by
  have hn : probe home T i ≤ n := by
    cases hi : T i with
    | none => rw [probe_of_none hi]; exact Nat.zero_le n
    | some e => rw [probe_of_some hi]; exact distance_le home e i
  have hnodup : ((List.range (probe home T i)).map fun s : ℕ => i - (s : ZMod n)).Nodup := by
    refine List.Nodup.map_on ?_ List.nodup_range
    intro a ha b hb hab
    have hval := congrArg ZMod.val (sub_right_injective hab)
    rwa [ZMod.val_natCast_of_lt ((List.mem_range.mp ha).trans_le hn),
      ZMod.val_natCast_of_lt ((List.mem_range.mp hb).trans_le hn)] at hval
  have hsub : ((List.range (probe home T i)).map fun s : ℕ => i - (s : ZMod n)) ⊆
      (cells n).filter fun j => (T j).isSome := by
    intro j hj
    obtain ⟨s, hs, rfl⟩ := List.mem_map.mp hj
    refine List.mem_filter.mpr ⟨mem_cells _, Option.isSome_iff_ne_none.mpr fun hnone => ?_⟩
    have hle := h.probe_le_before i s
    rw [probe_of_none hnone] at hle
    exact absurd (List.mem_range.mp hs) (by omega)
  have hlen := (List.subperm_of_subset hnodup hsub).length_le
  rwa [List.length_map, List.length_range, ← List.countP_eq_length_filter,
    ← List.length_filterMap_eq_countP] at hlen

end AcaBSim.RobinHood
