import Mathlib.Order.Lattice
import Mathlib.Data.List.Basic

/-!
The first position at which a list takes its least value, and how it is found
in a list put together from an element or two parts.
-/
namespace AcaBSim.Minima

variable {α : Type} [LinearOrder α]

/-- The least value of `l` is `a`, and `i` is the first index to hold it. -/
structure FirstLeast (l : List α) (i : ℕ) (a : α) : Prop where
  at_index : l[i]? = some a
  least : ∀ b ∈ l, a ≤ b
  first : ∀ b ∈ l.take i, a < b

namespace FirstLeast

variable {l l' : List α} {i : ℕ} {a b : α}

theorem mem (h : FirstLeast l i a) : a ∈ l := List.mem_of_getElem? h.at_index

theorem index_lt (h : FirstLeast l i a) : i < l.length :=
  (List.getElem?_eq_some_iff.mp h.at_index).1

theorem cons_here (h : ∀ b ∈ l, a ≤ b) : FirstLeast (a :: l) 0 a :=
  ⟨rfl, List.forall_mem_cons.mpr ⟨le_refl a, h⟩, by simp⟩

theorem cons_later (h : FirstLeast l i b) (hlt : b < a) : FirstLeast (a :: l) (i + 1) b :=
  ⟨h.at_index, List.forall_mem_cons.mpr ⟨hlt.le, h.least⟩,
    List.forall_mem_cons.mpr ⟨hlt, h.first⟩⟩

theorem append_left (h : FirstLeast l i a) (hle : ∀ b ∈ l', a ≤ b) :
    FirstLeast (l ++ l') i a where
  at_index := by
    rw [List.getElem?_append_left h.index_lt]
    exact h.at_index
  least b hb := by
    rcases List.mem_append.mp hb with hb | hb
    · exact h.least b hb
    · exact hle b hb
  first b hb := by
    rw [List.take_append_of_le_length (Nat.le_of_lt h.index_lt)] at hb
    exact h.first b hb

theorem append_right (h : FirstLeast l' i b) (hlt : ∀ a ∈ l, b < a) :
    FirstLeast (l ++ l') (l.length + i) b where
  at_index := by
    rw [List.getElem?_append_right (Nat.le_add_right _ _), Nat.add_sub_cancel_left]
    exact h.at_index
  least a ha := by
    rcases List.mem_append.mp ha with ha | ha
    · exact (hlt a ha).le
    · exact h.least a ha
  first a ha := by
    rw [List.take_length_add_append] at ha
    rcases List.mem_append.mp ha with ha | ha
    · exact hlt a ha
    · exact h.first a ha

end FirstLeast

end AcaBSim.Minima
