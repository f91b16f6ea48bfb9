import AcaBSim.HashMapLayout

/-!
The search for a key, which reading and deleting share, and the shift that
closes the gap a deletion leaves.
-/
namespace AcaBSim.HashMaps

open RobinHood KeyedLists IndexLoops

variable {α : Type} {n mask : ℕ} {cb : Callbacks α}

/-- Two entries have one key if the hashes are equal and `compare` sees no difference. -/
def Callbacks.key (cb : Callbacks α) (e b : Entry α) : Bool := e.1 == b.1 && cb.equal e.2 b.2

/-- The walk of `getLoop` and of `deleteLoop` to the bucket of a key. -/
def seek (cb : Callbacks α) (mask : ℕ) (buckets : List (Bucket α)) (key : α) (hash : ℕ) :
    ℕ → ℕ → Except MapFault (Option ℕ)
  | 0, _ => .error .endless
  | fuel + 1, i => do
    let bucket ← bucketAt buckets i
    if bucket.dib = 0 then return none
    else if bucket.hash == hash && cb.equal key bucket.item then return some i
    else seek cb mask buckets key hash fuel ((i + 1) &&& mask)

theorem getLoop_eq_seek (buckets : List (Bucket α)) (key : α) (hash fuel i : ℕ) :
    getLoop cb mask buckets key hash fuel i =
      (seek cb mask buckets key hash fuel i >>= fun
        | none => .ok none
        | some j => bucketAt buckets j >>= fun bucket => .ok (some bucket.item)) := by
  induction fuel generalizing i with
  | zero => rfl
  | succ fuel ih =>
    rw [getLoop, seek]
    cases hread : bucketAt buckets i with
    | error fault => rfl
    | ok bucket =>
      rw [ok_bind, ok_bind]
      split_ifs
      · rfl
      · change _ = bucketAt buckets i >>= _
        rw [hread]
        rfl
      · exact ih _

theorem deleteLoop_eq_seek (nbuckets : ℕ) (buckets : List (Bucket α)) (key : α)
    (hash fuel i : ℕ) :
    deleteLoop cb mask nbuckets buckets key hash fuel i =
      (seek cb mask buckets key hash fuel i >>= fun
        | none => .ok none
        | some j => bucketAt buckets j >>= fun bucket =>
          shiftBack mask nbuckets (buckets.set j { bucket with dib := 0 }) j >>= fun shifted =>
            .ok (some (shifted, bucket.item))) := by
  induction fuel generalizing i with
  | zero => rfl
  | succ fuel ih =>
    rw [deleteLoop, seek]
    cases hread : bucketAt buckets i with
    | error fault => rfl
    | ok bucket =>
      rw [ok_bind, ok_bind]
      split_ifs
      · rfl
      · change _ = bucketAt buckets i >>= _
        rw [hread]
        rfl
      · exact ih _

theorem Callbacks.key_bucketAt (cb : Callbacks α) (e b : Entry α) (i : ZMod n) :
    ((b.bucketAt i).hash == e.1 && cb.equal e.2 (b.bucketAt i).item) = cb.key e b := by
  rw [Callbacks.key, Bool.beq_comm]
  rfl

theorem Callbacks.hash_eq_of_key {e b : Entry α} (h : cb.key e b = true) : e.1 = b.1 := by
  rw [Callbacks.key, Bool.and_eq_true] at h
  exact beq_iff_eq.mp h.1

variable [NeZero n] {buckets : List (Bucket α)} {T : Table n (Entry α)} {i : ZMod n}
  {e b : Entry α} {l : List (Entry α)}

/-- The walk to the first free bucket ends there if no entry has the key. -/
theorem seek_none (hmask : Masks n mask) {fuel : ℕ} (hst : Stores buckets T)
    (hfree : ∃ k < fuel, T (i + (k : ℕ)) = none) (hnone : ∀ b ∈ held T, cb.key e b = false) :
    seek cb mask buckets e.2 e.1 fuel i.val = .ok none := by
  induction fuel generalizing i with
  | zero =>
    obtain ⟨k, hk, -⟩ := hfree
    exact absurd hk (Nat.not_lt_zero k)
  | succ fuel ih =>
    rw [seek]
    cases hi : T i with
    | none =>
      obtain ⟨b, hread, hdib⟩ := hst.free hi
      rw [hread, ok_bind, if_pos hdib]
      rfl
    | some b =>
      have hfull : T i ≠ none := by rw [hi]; exact Option.some_ne_none b
      rw [(hst i).read hi, ok_bind, if_neg (Entry.bucketAt_dib_ne_zero b i),
        Callbacks.key_bucketAt, hnone b (mem_held.mpr ⟨i, hi⟩), if_neg Bool.false_ne_true,
        hmask.next]
      exact ih (free_ahead hfull hfree)

theorem seek_some (hmask : Masks n mask) (heqv : Equivalence fun a b => cb.key a b = true)
    {fuel : ℕ} {j : ZMod n} (hst : Stores buckets T) (hord : Ordered home T)
    (hdistinct : Distinct cb.key (held T)) (hj : T j = some b) (hkey : cb.key e b = true)
    (hi : distance home e i ≤ distance home b j)
    (hfuel : distance home b j < distance home e i + fuel) :
    seek cb mask buckets e.2 e.1 fuel i.val = .ok (some j.val) := by
  have hhome : (home b : ZMod n) = home e := by
    rw [home, home, cb.hash_eq_of_key hkey]
  have hjn := distance_le home b j
  induction fuel generalizing i with
  | zero => omega
  | succ fuel ih =>
    obtain ⟨c, hc, -⟩ := on_the_way hord hj hhome hi
    rw [seek, (hst i).read hc, ok_bind, if_neg (Entry.bucketAt_dib_ne_zero c i),
      Callbacks.key_bucketAt]
    by_cases hec : cb.key e c = true
    · obtain rfl : i = j := cell_unique heqv hdistinct hc hj (heqv.trans (heqv.symm hec) hkey)
      rw [if_pos hec]
      rfl
    · have hlast : distance home e i ≠ distance home b j := by
        intro heq
        obtain rfl := eq_of_distance hhome heq
        exact hec (Option.some.inj (hc.symm.trans hj) ▸ hkey)
      have hnext : distance home e (i + 1) = distance home e i + 1 := distance_next (by omega)
      rw [if_neg hec, hmask.next]
      exact ih (by omega) (by omega)

/-- From the home of a key the walk ends at the entry of the key, if there is one. -/
theorem seek_spec (hmask : Masks n mask) (heqv : Equivalence fun a b => cb.key a b = true)
    (hst : Stores buckets T) (hord : Ordered home T) (hdistinct : Distinct cb.key (held T))
    (hlt : (held T).length < n) :
    match lookup cb.key e (held T) with
    | none => seek cb mask buckets e.2 e.1 n (e.1 &&& mask) = .ok none
    | some b => ∃ j : ZMod n, T j = some b ∧
        seek cb mask buckets e.2 e.1 n (e.1 &&& mask) = .ok (some j.val) := by
  rw [hmask.home]
  split
  case h_1 hget =>
    obtain ⟨j, hj⟩ := exists_free hlt
    obtain ⟨k, hk, hij⟩ := exists_steps (home e) j
    exact seek_none hmask hst ⟨k, hk, hij ▸ hj⟩ (lookup_eq_none.mp hget)
  case h_2 b hget =>
    obtain ⟨j, hj⟩ := mem_held.mp (mem_of_lookup hget)
    have hpos := distance_pos home b j
    have hle := distance_le home b j
    have hone := distance_home (home (n := n)) e
    exact ⟨j, hj, seek_some hmask heqv hst hord hdistinct hj (same_of_lookup hget) (by omega)
      (by omega)⟩

/-- `getLoop` from the home of a key looks it up in the finite map. -/
theorem getLoop_spec (hmask : Masks n mask) (heqv : Equivalence fun a b => cb.key a b = true)
    (hlays : Lays n buckets l) (hdistinct : Distinct cb.key l) (hlt : l.length < n) :
    getLoop cb mask buckets e.2 e.1 n (e.1 &&& mask) =
      .ok ((lookup cb.key e l).map Prod.snd) := by
  obtain ⟨T, hst, hord, hheld⟩ := hlays
  have hdistinct' := hdistinct.perm (same_comm heqv) hheld.symm
  have hseek := seek_spec (e := e) hmask heqv hst hord hdistinct' (by rwa [hheld.length_eq])
  rw [← lookup_perm heqv hdistinct' hheld, getLoop_eq_seek]
  split at hseek
  case h_1 hget => rw [hseek, hget]; rfl
  case h_2 b hget =>
    obtain ⟨j, hj, hrun⟩ := hseek
    rw [hrun, hget, ok_bind]
    change bucketAt buckets j.val >>= _ = _
    rw [(hst j).read hj]
    rfl

/-- Moving the entry after a gap into it moves the gap. -/
theorem held_gap_next {c : Entry α} (hc : T (i + 1) = some c) (hne : i + 1 ≠ i) :
    (held (Function.update (Function.update T i (some c)) (i + 1) none)).Perm
      (held (Function.update T i none)) := by
  have hgap : Function.update T i none (i + 1) = some c := by
    rw [Function.update_of_ne hne, hc]
  rw [Function.update_comm hne.symm]
  refine (held_update_some _ i c).trans ?_
  rw [Function.update_comm hne]
  exact (held_of_some hgap).symm

/-- A gap before a free bucket, or before an entry at its home, is closed by freeing it. -/
theorem lays_gap_freed (hroom : i.val < buckets.length) (hst : ∀ j, j ≠ i → Stored buckets T j)
    (hord : Ordered home T) (hprobe : probe home T (i + 1) ≤ 1) :
    Lays n (buckets.modify i.val fun b => { b with dib := 0 })
      (held (Function.update T i none)) := by
  refine ⟨Function.update T i none, fun j => ?_, hord.update_none hprobe, List.Perm.refl _⟩
  by_cases hj : j = i
  · subst hj
    rw [Stored, Function.update_self]
    exact ⟨_, by rw [List.getElem?_modify_eq, List.getElem?_eq_getElem hroom]; rfl, rfl⟩
  · refine (hst j hj).of_ne hj fun m hm => ?_
    rw [List.getElem?_modify_ne _ _ (Ne.symm hm)]

/-- The entry moved into the gap is in its cell, and the others are in theirs. -/
theorem stored_gap_filled {c : Entry α} (hroom : i.val < buckets.length)
    (hst : ∀ j, j ≠ i → Stored buckets T j) (j : ZMod n) :
    Stored (buckets.set i.val (c.bucketAt i)) (Function.update T i (some c)) j := by
  by_cases hj : j = i
  · subst hj
    exact Stored.set_self hroom c
  · exact (hst j hj).of_ne hj fun m hm => List.getElem?_set_ne (Ne.symm hm)

/-- The shift closes the gap at `i`, whatever bucket `i` has been left with. -/
theorem shiftBack_spec (hmask : Masks n mask) {fuel : ℕ} (hn : 1 < n)
    (hroom : i.val < buckets.length) (hst : ∀ j, j ≠ i → Stored buckets T j)
    (hord : Ordered home T) (hi : T i ≠ none)
    (hfree : ∃ k < fuel, T (i + 1 + (k : ℕ)) = none) :
    ∃ buckets', shiftBack mask fuel buckets i.val = .ok buckets' ∧
      Lays n buckets' (held (Function.update T i none)) := by
  induction fuel generalizing buckets T i with
  | zero =>
    obtain ⟨k, hk, -⟩ := hfree
    exact absurd hk (Nat.not_lt_zero k)
  | succ fuel ih =>
    have hone : Fact (1 < n) := ⟨hn⟩
    have hne : i + 1 ≠ i := by simp
    have hclose := lays_gap_freed hroom hst hord
    rw [shiftBack, hmask.next]
    cases hc : T (i + 1) with
    | none =>
      have hcell := hst _ hne
      rw [Stored, hc] at hcell
      obtain ⟨b, hb, hdib⟩ := hcell
      have hread : bucketAt buckets (i + 1).val = .ok b := by rw [bucketAt, readAt, hb]
      refine ⟨_, ?_, hclose (by rw [probe_of_none hc]; omega)⟩
      rw [hread, ok_bind, if_pos (by omega)]
      rfl
    | some c =>
      rw [(hst _ hne).read hc, ok_bind, Entry.dib_bucketAt]
      by_cases hnear : distance home c (i + 1) ≤ 1
      · rw [if_pos hnear]
        exact ⟨_, rfl, hclose (by rw [probe_of_some hc]; exact hnear)⟩
      · have hback : ({ c.bucketAt (i + 1) with dib := distance home c (i + 1) - 1 } : Bucket α) =
            c.bucketAt i := by
          rw [← distance_back (by omega : 2 ≤ distance home c (i + 1)), Nat.add_sub_cancel]
          rfl
        have hfull : T (i + 1) ≠ none := by rw [hc]; exact Option.some_ne_none c
        obtain ⟨k, hk, hfreek⟩ := free_ahead hfull hfree
        have hroom' : (i + 1).val < (buckets.set i.val (c.bucketAt i)).length := by
          rw [List.length_set]
          exact (hst _ hne).lt_length
        have hfull' : Function.update T i (some c) (i + 1) ≠ none := by
          rw [Function.update_of_ne hne]
          exact hfull
        obtain ⟨buckets', hrun, T', hst', hord', hheld'⟩ := ih hroom'
          (fun j _ => stored_gap_filled hroom hst j) (hord.update_shift hc (by omega)) hfull'
          ⟨k, hk, update_free hi hfreek⟩
        rw [if_neg hnear, hback]
        exact ⟨buckets', hrun, T', hst', hord', hheld'.trans (held_gap_next hc hne)⟩

/-- `deleteLoop` from the home of a key erases it from the finite map. -/
theorem deleteLoop_spec (hmask : Masks n mask) (hn : 1 < n)
    (heqv : Equivalence fun a b => cb.key a b = true) (hlays : Lays n buckets l)
    (hdistinct : Distinct cb.key l) (hlt : l.length < n) :
    match lookup cb.key e l with
    | none => deleteLoop cb mask n buckets e.2 e.1 n (e.1 &&& mask) = .ok none
    | some b => ∃ buckets',
        deleteLoop cb mask n buckets e.2 e.1 n (e.1 &&& mask) = .ok (some (buckets', b.2)) ∧
        Lays n buckets' (erase cb.key e l) := by
  obtain ⟨T, hst, hord, hheld⟩ := hlays
  have hdistinct' := hdistinct.perm (same_comm heqv) hheld.symm
  have hlt' : (held T).length < n := by rwa [hheld.length_eq]
  have hseek := seek_spec (e := e) hmask heqv hst hord hdistinct' hlt'
  rw [← lookup_perm heqv hdistinct' hheld, deleteLoop_eq_seek]
  split at hseek
  case h_1 hget => rw [hseek]; rfl
  case h_2 b hget =>
    obtain ⟨j, hj, hrun⟩ := hseek
    have hfull : T j ≠ none := by rw [hj]; exact Option.some_ne_none b
    obtain ⟨m, hm⟩ := exists_free hlt'
    obtain ⟨k, hk, hjm⟩ := exists_steps (j + 1) m
    have hroom : j.val < (buckets.set j.val { b.bucketAt j with dib := 0 }).length := by
      rw [List.length_set]
      exact (hst j).lt_length
    have hothers : ∀ i, i ≠ j →
        Stored (buckets.set j.val { b.bucketAt j with dib := 0 }) T i := by
      intro i hi
      have hcell := (hst i).of_ne (x := T j) hi fun m hm =>
        List.getElem?_set_ne (l := buckets) (a := { b.bucketAt j with dib := 0 }) (Ne.symm hm)
      rwa [Function.update_eq_self] at hcell
    have hfree : ∃ k < n, T (j + 1 + (k : ℕ)) = none := ⟨k, hk, hjm ▸ hm⟩
    obtain ⟨buckets', hshift, T', hst', hord', hheld'⟩ :=
      shiftBack_spec hmask hn hroom hothers hord hfull hfree
    have hrest : (held (Function.update T j none)).Perm (erase cb.key e l) :=
      ((held_of_some hj).symm.trans (perm_of_lookup heqv hdistinct' hget)).cons_inv.trans
        (erase_perm hheld)
    refine ⟨buckets', ?_, T', hst', hord', hheld'.trans hrest⟩
    rw [hrun, ok_bind]
    change bucketAt buckets j.val >>= _ = _
    rw [(hst j).read hj, ok_bind, hshift]
    rfl

end AcaBSim.HashMaps
