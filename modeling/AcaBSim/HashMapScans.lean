import AcaBSim.HashMapLayout
import Mathlib.Data.List.ReduceOption

/-!
The loops that go through all buckets: freeing, scanning and iterating. Each
visits the items of the table in the order of their buckets, every one once.
-/
namespace AcaBSim.HashMaps

open RobinHood IndexLoops

variable {α : Type} {n : ℕ} {map : Hashmap α} {T : Table n (Entry α)}

/-- The items in the buckets of `indices`. -/
def itemsAt (T : Table n (Entry α)) (indices : List ℕ) : List α :=
  (indices.filterMap fun i => T (i : ℕ)).map Prod.snd

theorem itemsAt_none {i : ℕ} (rest : List ℕ) (h : T (i : ℕ) = none) :
    itemsAt T (i :: rest) = itemsAt T rest := by
  rw [itemsAt, List.filterMap_cons_none (f := fun i : ℕ => T i) h]
  rfl

theorem itemsAt_some {i : ℕ} {e : Entry α} (rest : List ℕ) (h : T (i : ℕ) = some e) :
    itemsAt T (i :: rest) = e.2 :: itemsAt T rest := by
  rw [itemsAt, List.filterMap_cons_some (f := fun i : ℕ => T i) h]
  rfl

theorem itemsAt_range (T : Table n (Entry α)) :
    itemsAt T (List.range n) = (held T).map Prod.snd := by
  rw [itemsAt, held, cells, List.filterMap_map]
  rfl

theorem Stores.read_free {buckets : List (Bucket α)} {i : ℕ} (h : Stores buckets T) (hin : i < n)
    (hi : T (i : ℕ) = none) : ∃ b, bucketAt buckets i = .ok b ∧ b.dib = 0 := by
  have hread := h.free hi
  rwa [ZMod.val_natCast_of_lt hin] at hread

theorem Stores.read_taken {buckets : List (Bucket α)} {i : ℕ} {e : Entry α}
    (h : Stores buckets T) (hin : i < n) (hi : T (i : ℕ) = some e) :
    ∃ b, bucketAt buckets i = .ok b ∧ b.dib ≠ 0 ∧ b.item = e.2 := by
  have hread := (h _).read hi
  rw [ZMod.val_natCast_of_lt hin] at hread
  exact ⟨_, hread, Entry.bucketAt_dib_ne_zero e _, rfl⟩

theorem freeFrom_spec (hst : Stores map.buckets T) {indices : List ℕ}
    (hin : ∀ i ∈ indices, i < n) : freeFrom map indices = .ok (itemsAt T indices) := by
  induction indices with
  | nil => rfl
  | cons i rest ih =>
    have hrest := ih fun j hj => hin j (List.mem_cons_of_mem i hj)
    rw [freeFrom, hrest]
    cases hi : T (i : ℕ) with
    | none =>
      obtain ⟨b, hread, hdib⟩ := hst.read_free (hin i (List.mem_cons_self ..)) hi
      rw [hread, itemsAt_none rest hi, ok_bind, ok_bind, if_pos hdib]
      rfl
    | some e =>
      obtain ⟨b, hread, hdib, hitem⟩ := hst.read_taken (hin i (List.mem_cons_self ..)) hi
      rw [hread, itemsAt_some rest hi, ok_bind, ok_bind, if_neg hdib, hitem]
      rfl

/-- A scan over a list, which `iter` may stop. -/
def scanList {σ : Type} (iter : α → σ → Bool × σ) : List α → σ → Bool × σ
  | [], udata => (true, udata)
  | a :: rest, udata =>
    if (iter a udata).1 then scanList iter rest (iter a udata).2 else (false, (iter a udata).2)

theorem scanFrom_spec {σ : Type} (iter : α → σ → Bool × σ) (hst : Stores map.buckets T)
    {indices : List ℕ} (hin : ∀ i ∈ indices, i < n) (udata : σ) :
    scanFrom map iter indices udata = .ok (scanList iter (itemsAt T indices) udata) := by
  induction indices generalizing udata with
  | nil => rfl
  | cons i rest ih =>
    have hrest := ih fun j hj => hin j (List.mem_cons_of_mem i hj)
    rw [scanFrom]
    cases hi : T (i : ℕ) with
    | none =>
      obtain ⟨b, hread, hdib⟩ := hst.read_free (hin i (List.mem_cons_self ..)) hi
      rw [hread, itemsAt_none rest hi, ok_bind, if_pos hdib, hrest]
    | some e =>
      obtain ⟨b, hread, hdib, hitem⟩ := hst.read_taken (hin i (List.mem_cons_self ..)) hi
      rw [hread, itemsAt_some rest hi, ok_bind, if_neg hdib, hitem, scanList]
      split_ifs with hmore
      · simp only [hmore, if_true, hrest]
      · simp only [hmore]
        rfl

/-- The loop that the documentation of `hashmap_iter` describes: it starts with the
cursor zero and goes on while there are items. -/
def enumerate (map : Hashmap α) : ℕ → ℕ → Except MapFault (List α)
  | 0, _ => .error .endless
  | rounds + 1, i => do
    let (item, i) ← hashmapIter map i
    match item with
    | none => return []
    | some a => return a :: (← enumerate map rounds i)

/-- From a cursor, `hashmap_iter` yields the next item and stops behind its bucket. -/
theorem hashmapIter_spec (hnb : map.nbuckets = n) (hst : Stores map.buckets T) {i : ℕ}
    (hi : i ≤ n) :
    match itemsAt T (List.range' i (n - i)) with
    | [] => ∃ j, hashmapIter map i = .ok (none, j)
    | a :: rest => ∃ j ≤ n, hashmapIter map i = .ok (some a, j) ∧
        itemsAt T (List.range' j (n - j)) = rest := by
  induction hk : n - i generalizing i with
  | zero =>
    rw [List.range'_zero, hashmapIter, if_pos (by omega)]
    exact ⟨i, rfl⟩
  | succ k ih =>
    have hin : i < n := by omega
    have hrest := ih (i := i + 1) (by omega) (by omega)
    rw [List.range'_succ, hashmapIter, if_neg (by omega)]
    cases hcell : T (i : ℕ) with
    | none =>
      obtain ⟨b, hread, hdib⟩ := hst.read_free hin hcell
      rw [itemsAt_none _ hcell, hread, ok_bind, if_pos hdib]
      exact hrest
    | some e =>
      obtain ⟨b, hread, hdib, hitem⟩ := hst.read_taken hin hcell
      rw [itemsAt_some _ hcell, hread, ok_bind, if_neg hdib, hitem]
      exact ⟨i + 1, hin, rfl, by rw [show n - (i + 1) = k by omega]⟩

theorem enumerate_spec (hnb : map.nbuckets = n) (hst : Stores map.buckets T) {rounds i : ℕ}
    (hi : i ≤ n) (hrounds : (itemsAt T (List.range' i (n - i))).length < rounds) :
    enumerate map rounds i = .ok (itemsAt T (List.range' i (n - i))) := by
  induction rounds generalizing i with
  | zero => exact absurd hrounds (Nat.not_lt_zero _)
  | succ rounds ih =>
    have hiter := hashmapIter_spec hnb hst hi
    rw [enumerate]
    split at hiter
    case h_1 hnone =>
      obtain ⟨j, hrun⟩ := hiter
      rw [hrun, hnone]
      rfl
    case h_2 a rest hsome =>
      obtain ⟨j, hj, hrun, hrest⟩ := hiter
      rw [hsome, List.length_cons] at hrounds
      rw [hrun, hsome, ok_bind]
      change (enumerate map rounds j >>= fun later => .ok (a :: later)) = _
      rw [ih hj (by rw [hrest]; omega), hrest]
      rfl

/-- A position beyond the buckets counts round them. -/
theorem hashmapProbe_spec [NeZero n] (hmask : Masks n map.mask) (hst : Stores map.buckets T)
    (position : ℕ) :
    hashmapProbe map position = .ok ((T (position : ℕ)).map Prod.snd) := by
  have hlt : position % n < n := Nat.mod_lt _ (Nat.pos_of_neZero n)
  have hcell : T ((position % n : ℕ) : ZMod n) = T (position : ℕ) := by rw [ZMod.natCast_mod]
  rw [hashmapProbe, hmask]
  cases hT : T (position : ℕ) with
  | none =>
    obtain ⟨b, hread, hdib⟩ := hst.read_free hlt (hcell.trans hT)
    rw [hread, ok_bind, if_pos hdib]
    rfl
  | some e =>
    obtain ⟨b, hread, hdib, hitem⟩ := hst.read_taken hlt (hcell.trans hT)
    rw [hread, ok_bind, if_neg hdib, hitem]
    rfl

theorem mapM_hashmapProbe [NeZero n] (hmask : Masks n map.mask) (hst : Stores map.buckets T)
    (positions : List ℕ) : ∃ found, positions.mapM (hashmapProbe map) = .ok found ∧
      found.reduceOption = itemsAt T positions := by
  induction positions with
  | nil => exact ⟨[], rfl, rfl⟩
  | cons position rest ih =>
    obtain ⟨found, hrun, hfound⟩ := ih
    refine ⟨(T (position : ℕ)).map Prod.snd :: found, ?_, ?_⟩
    · rw [List.mapM_cons, hashmapProbe_spec hmask hst, hrun]
      rfl
    · cases hT : T (position : ℕ) with
      | none => rw [itemsAt_none rest hT, ← hfound, Option.map_none, List.reduceOption_cons_of_none]
      | some e =>
        rw [itemsAt_some rest hT, ← hfound, Option.map_some, List.reduceOption_cons_of_some]

end AcaBSim.HashMaps
