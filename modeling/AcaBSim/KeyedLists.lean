import Mathlib.Data.List.Pairwise
import Mathlib.Data.List.Perm.Basic

/-!
Finite maps as lists of entries, no two of which have the same key. Whether two
entries have the same key is an equivalence that need not be equality, and the
order of the list does not matter: every operation respects permutations.
-/
namespace AcaBSim.KeyedLists

variable {E : Type} (same : E → E → Bool)

def lookup (k : E) (l : List E) : Option E := l.find? (same k)

def erase (k : E) (l : List E) : List E := l.filter fun b => !same k b

def insert (e : E) (l : List E) : List E := e :: erase same e l

def Distinct (l : List E) : Prop := l.Pairwise fun a b => same a b = false

variable {same} {e k b : E} {l l' : List E}

theorem lookup_eq_none : lookup same k l = none ↔ ∀ b ∈ l, same k b = false := by
  simp [lookup, List.find?_eq_none]

theorem mem_of_lookup (h : lookup same k l = some b) : b ∈ l := List.mem_of_find?_eq_some h

theorem same_of_lookup (h : lookup same k l = some b) : same k b = true := List.find?_some h

theorem erase_of_lookup_none (h : lookup same k l = none) : erase same k l = l := by
  rw [erase, List.filter_eq_self]
  intro b hb
  rw [lookup_eq_none.mp h b hb, Bool.not_false]

theorem length_erase_le : (erase same k l).length ≤ l.length := List.length_filter_le ..

theorem erase_perm (h : l.Perm l') : (erase same k l).Perm (erase same k l') := h.filter _

theorem insert_perm (h : l.Perm l') : (insert same e l).Perm (insert same e l') :=
  (erase_perm h).cons e

theorem Distinct.erase (h : Distinct same l) : Distinct same (erase same k l) := h.filter _

theorem Distinct.perm (hsymm : ∀ a b, same a b = same b a) (h : Distinct same l)
    (hl : l.Perm l') : Distinct same l' :=
  hl.pairwise h fun hab => by rwa [hsymm]

theorem Distinct.insert (h : Distinct same l) : Distinct same (insert same e l) := by
  refine List.pairwise_cons.mpr ⟨fun b hb => ?_, h.erase⟩
  have hkept := (List.mem_filter.mp hb).2
  rwa [Bool.not_eq_true'] at hkept

variable (heqv : Equivalence fun a b => same a b = true)

include heqv

theorem same_comm (a b : E) : same a b = same b a := by
  rw [Bool.eq_iff_iff]
  exact ⟨heqv.symm, heqv.symm⟩

/-- Of the entries of a map only one has a given key. -/
theorem Distinct.eq_of_same (h : Distinct same l) {a : E} (ha : a ∈ l) (hb : b ∈ l)
    (hka : same k a = true) (hkb : same k b = true) : a = b := by
  by_contra hne
  have hsymm : Std.Symm fun a b => same a b = false :=
    ⟨fun a b hab => by rwa [same_comm heqv]⟩
  have hdiff := List.Pairwise.forall h ha hb hne
  rw [heqv.trans (heqv.symm hka) hkb] at hdiff
  cases hdiff

theorem Distinct.lookup_eq (h : Distinct same l) (hb : b ∈ l) (hkb : same k b = true) :
    lookup same k l = some b := by
  cases hget : lookup same k l with
  | none =>
    rw [lookup_eq_none.mp hget b hb] at hkb
    cases hkb
  | some a => rw [h.eq_of_same heqv (mem_of_lookup hget) hb (same_of_lookup hget) hkb]

theorem lookup_perm (h : Distinct same l) (hl : l.Perm l') :
    lookup same k l = lookup same k l' := by
  cases hget : lookup same k l' with
  | none => exact lookup_eq_none.mpr fun b hb => lookup_eq_none.mp hget b (hl.mem_iff.mp hb)
  | some b => exact h.lookup_eq heqv (hl.mem_iff.mpr (mem_of_lookup hget)) (same_of_lookup hget)

/-- A map is the entry of a key and the map without it. -/
theorem perm_of_lookup (h : Distinct same l) (hb : lookup same k l = some b) :
    l.Perm (b :: erase same k l) := by
  obtain ⟨pre, post, rfl⟩ := List.append_of_mem (mem_of_lookup hb)
  have hmid := h.perm (same_comm heqv) List.perm_middle
  have hrest : lookup same k (pre ++ post) = none := by
    refine lookup_eq_none.mpr fun a ha => ?_
    have hba := (List.pairwise_cons.mp hmid).1 a ha
    rw [Bool.eq_false_iff] at hba ⊢
    exact fun hka => hba (heqv.trans (heqv.symm (same_of_lookup hb)) hka)
  have herase : erase same k (pre ++ b :: post) = pre ++ post := by
    have hsplit : erase same k (pre ++ post) = pre ++ post := erase_of_lookup_none hrest
    rw [erase, List.filter_append] at hsplit ⊢
    rw [List.filter_cons_of_neg (by simp [same_of_lookup hb])]
    exact hsplit
  rw [herase]
  exact List.perm_middle

end AcaBSim.KeyedLists
