import AcaBSim.HashMapDeletion
import Mathlib.Tactic.Linarith

/-!
A hash map represents a finite map from keys to entries. Its size is a power of
two not below the capacity, its load leaves at least one bucket in twenty free,
and the size of its block fits `size_t`. Every operation of hashmap.c takes a map
that represents a finite map to one that represents the changed finite map, and
answers from that finite map.
-/
namespace AcaBSim.HashMaps

open RobinHood KeyedLists IndexLoops

variable {α : Type} {cb : Callbacks α} {map : Hashmap α} {l : List (Entry α)} {n : ℕ}

def PowerOfTwo (n : ℕ) : Prop := ∃ k, 4 ≤ k ∧ n = 2 ^ k

/-- What all operations keep of the numbers of a map. -/
structure Sized (map : Hashmap α) : Prop where
  cap : PowerOfTwo map.cap
  nbuckets : PowerOfTwo map.nbuckets
  cap_le : map.cap ≤ map.nbuckets
  mask : map.mask = map.nbuckets - 1
  growat : map.nbuckets * 50 / 100 ≤ map.growat ∧ map.growat ≤ map.nbuckets * 95 / 100
  shrinkat : map.shrinkat = map.nbuckets / 10
  loadfactor : 50 ≤ map.loadfactor ∧ map.loadfactor ≤ 95
  growpower : 1 ≤ map.growpower ∧ map.growpower ≤ 16

/-- A block of `n` buckets does not wrap around. -/
def Fits (cb : Callbacks α) (n : ℕ) : Prop := bucketSize cb.elsize * n < 2 ^ 64

instance (cb : Callbacks α) (n : ℕ) : Decidable (Fits cb n) :=
  inferInstanceAs (Decidable (bucketSize cb.elsize * n < 2 ^ 64))

structure Represents (cb : Callbacks α) (map : Hashmap α) (l : List (Entry α)) : Prop where
  sized : Sized map
  elsize : cb.elsize < 2 ^ 31
  fits : Fits cb map.nbuckets
  lays : Lays map.nbuckets map.buckets l
  distinct : Distinct cb.key l
  count : map.count = l.length
  load : l.length * 100 ≤ map.nbuckets * 95

theorem PowerOfTwo.sixteen_le (h : PowerOfTwo n) : 16 ≤ n := by
  obtain ⟨k, hk, rfl⟩ := h
  exact Nat.pow_le_pow_right (by omega : 0 < 2) hk

theorem PowerOfTwo.neZero (h : PowerOfTwo n) : NeZero n := ⟨by have := h.sixteen_le; omega⟩

theorem PowerOfTwo.masks (h : PowerOfTwo n) : Masks n (n - 1) := by
  obtain ⟨k, -, rfl⟩ := h
  exact masks_two_pow k

theorem PowerOfTwo.mul_two_pow (h : PowerOfTwo n) (p : ℕ) : PowerOfTwo (n * 2 ^ p) := by
  obtain ⟨k, hk, rfl⟩ := h
  exact ⟨k + p, by omega, (pow_add 2 k p).symm⟩

/-- A power of two above another one is at least twice as large. -/
theorem PowerOfTwo.half {m : ℕ} (hm : PowerOfTwo m) (hn : PowerOfTwo n) (h : m < n) :
    PowerOfTwo (n / 2) ∧ m ≤ n / 2 := by
  obtain ⟨j, hj, rfl⟩ := hm
  obtain ⟨k, -, rfl⟩ := hn
  have hjk : j < k := (Nat.pow_lt_pow_iff_right (by omega : 1 < 2)).mp h
  obtain ⟨k, rfl⟩ : ∃ k', k = k' + 1 := ⟨k - 1, by omega⟩
  rw [pow_succ, Nat.mul_div_cancel _ (by omega : 0 < 2)]
  exact ⟨⟨k, by omega, rfl⟩, Nat.pow_le_pow_right (by omega) (by omega)⟩

theorem bucketSize_bounds {elsize : ℕ} (h : elsize < 2 ^ 31) :
    0 < bucketSize elsize ∧ bucketSize elsize < 2 ^ 32 := by
  rw [bucketSize]
  omega

theorem Fits.mono {m : ℕ} (h : Fits cb n) (hle : m ≤ n) : Fits cb m :=
  (Nat.mul_le_mul_left _ hle).trans_lt h

theorem fits_of_le (hsize : cb.elsize < 2 ^ 31) (hn : n ≤ 2 ^ 32) : Fits cb n :=
  calc bucketSize cb.elsize * n ≤ bucketSize cb.elsize * 2 ^ 32 := Nat.mul_le_mul_left _ hn
    _ < 2 ^ 32 * 2 ^ 32 := Nat.mul_lt_mul_of_pos_right (bucketSize_bounds hsize).2 (by omega)
    _ = 2 ^ 64 := by norm_num

theorem Fits.lt (h : Fits cb n) (hsize : cb.elsize < 2 ^ 31) : n < 2 ^ 64 :=
  (Nat.le_mul_of_pos_left n (bucketSize_bounds hsize).1).trans_lt h

theorem Fits.blockBuckets_eq (h : Fits cb n) (hsize : cb.elsize < 2 ^ 31) :
    blockBuckets cb n = n := by
  rw [blockBuckets, Nat.mod_eq_of_lt h, Nat.mul_div_cancel_left n (bucketSize_bounds hsize).1]

/-- One round of the doubling, also the one that leads to 0. -/
theorem two_pow_succ_mod (k : ℕ) : 2 ^ k % 2 ^ 64 * 2 % 2 ^ 64 = 2 ^ (k + 1) % 2 ^ 64 := by
  rw [Nat.mul_mod, Nat.mod_mod, ← Nat.mul_mod, ← pow_succ]

theorem two_pow_mod (k : ℕ) : 2 ^ k % 2 ^ 64 = 0 ∨ (k ≤ 63 ∧ 2 ^ k % 2 ^ 64 = 2 ^ k) := by
  obtain hk | hk := Nat.lt_or_ge k 64
  · exact .inr ⟨by omega, Nat.mod_eq_of_lt ((Nat.pow_lt_pow_iff_right (by omega)).mpr hk)⟩
  · exact .inl (Nat.mod_eq_zero_of_dvd (Nat.pow_dvd_pow 2 hk))

/-- Above 2^63 the loop of `hashmap_new` goes on for ever, in any number of rounds. -/
theorem doubleUntil_endless {cap : ℕ} (hcap : 2 ^ 63 < cap) (fuel k : ℕ) :
    doubleUntil cap fuel (2 ^ k % 2 ^ 64) = .error .endless := by
  induction fuel generalizing k with
  | zero => rfl
  | succ fuel ih =>
    have hless : 2 ^ k % 2 ^ 64 < cap := by
      obtain hzero | ⟨hk, hpow⟩ := two_pow_mod k
      · omega
      · have := Nat.pow_le_pow_right (show 0 < 2 by omega) hk
        omega
    rw [doubleUntil, if_pos hless, two_pow_succ_mod]
    exact ih (k + 1)

theorem doubleUntil_eq {cap fuel k m : ℕ} (hcap : cap ≤ 2 ^ m) (hleast : ∀ j < m, 2 ^ j < cap)
    (hkm : k ≤ m) (hm : m ≤ 63) (hfuel : m - k < fuel) :
    doubleUntil cap fuel (2 ^ k) = .ok (2 ^ m) := by
  induction fuel generalizing k with
  | zero => omega
  | succ fuel ih =>
    rw [doubleUntil]
    obtain rfl | hlt := Nat.eq_or_lt_of_le hkm
    · rw [if_neg (Nat.not_lt.mpr hcap)]
      rfl
    · have hnext : 2 ^ (k + 1) < 2 ^ 64 := (Nat.pow_lt_pow_iff_right (by omega)).mpr (by omega)
      rw [if_pos (hleast k hlt), ← pow_succ, Nat.mod_eq_of_lt hnext]
      exact ih (by omega) (by omega)

theorem newCap_endless {cap : ℕ} (h : 2 ^ 63 < cap) : newCap cap = .error .endless := by
  rw [newCap, if_neg (by omega)]
  exact doubleUntil_endless h 60 4

/-- Up to 2^63 it is the least power of two that is enough, from 16 on. -/
theorem newCap_eq_clog {cap : ℕ} (h : cap ≤ 2 ^ 63) :
    newCap cap = .ok (2 ^ max 4 (Nat.clog 2 cap)) := by
  rw [newCap]
  split_ifs with hsmall
  · have hfour : Nat.clog 2 cap ≤ 4 := Nat.clog_le_of_le_pow (by omega)
    rw [max_eq_left hfour]
    rfl
  · have hfour : 4 ≤ Nat.clog 2 cap := (Nat.lt_clog_iff_pow_lt one_lt_two).mpr (by omega)
    have hmost : Nat.clog 2 cap ≤ 63 := Nat.clog_le_of_le_pow h
    rw [max_eq_right hfour]
    exact doubleUntil_eq (k := 4) (Nat.le_pow_clog one_lt_two cap)
      (fun j hj => Nat.pow_lt_of_lt_clog hj) hfour hmost (by omega)

theorem newCap_spec {cap c : ℕ} (h : newCap cap = .ok c) : PowerOfTwo c ∧ cap ≤ c := by
  obtain hcap | hcap := Nat.lt_or_ge (2 ^ 63) cap
  · rw [newCap_endless hcap] at h
    cases h
  · rw [newCap_eq_clog hcap] at h
    cases h
    exact ⟨⟨_, le_max_left .., rfl⟩, (Nat.le_pow_clog one_lt_two cap).trans
      (Nat.pow_le_pow_right two_pos (le_max_right ..))⟩

/-- The capacity a power of two asks for is that power itself. -/
theorem newCap_eq (h : PowerOfTwo n) (hlt : n < 2 ^ 64) : newCap n = .ok n := by
  obtain ⟨m, hm, rfl⟩ := h
  have hm64 : m < 64 := (Nat.pow_lt_pow_iff_right (by omega)).mp hlt
  rw [newCap_eq_clog (Nat.pow_le_pow_right two_pos (by omega)), Nat.clog_pow 2 m one_lt_two,
    max_eq_right hm]

theorem Lays.perm {buckets : List (Bucket α)} {l' : List (Entry α)} (h : Lays n buckets l)
    (hl : l.Perm l') : Lays n buckets l' := by
  obtain ⟨T, hst, hord, hheld⟩ := h
  exact ⟨T, hst, hord, hheld.trans hl⟩

theorem Lays.length_le [NeZero n] {buckets : List (Bucket α)} (h : Lays n buckets l) :
    n ≤ buckets.length := by
  obtain ⟨T, hst, -, -⟩ := h
  have hlast := (hst ((n - 1 : ℕ) : ZMod n)).lt_length
  have hpos := Nat.pos_of_neZero n
  rw [ZMod.val_natCast_of_lt (by omega)] at hlast
  omega

theorem lays_free [Inhabited α] [NeZero n] (rest : List (Bucket α)) :
    Lays n (freeBuckets n ++ rest) [] := by
  refine ⟨fun _ => none, fun i => ?_, fun i => ?_, ?_⟩
  · have hi := ZMod.val_lt i
    refine ⟨⟨0, 0, default⟩, ?_, rfl⟩
    rw [freeBuckets, List.getElem?_append_left (by rwa [List.length_replicate]),
      List.getElem?_replicate, if_pos hi]
  · rw [probe_of_none rfl]
    exact Nat.zero_le _
  · rw [held, List.filterMap_eq_nil_iff.mpr fun _ _ => rfl]

theorem Represents.lt_nbuckets (h : Represents cb map l) : l.length < map.nbuckets := by
  have hload := h.load
  have hpos := h.sized.nbuckets.sixteen_le
  omega

theorem Represents.masks (h : Represents cb map l) : Masks map.nbuckets map.mask := by
  rw [h.sized.mask]
  exact h.sized.nbuckets.masks

/-- `hashmap_new` yields an empty map, or nothing when an allocation is refused. -/
theorem hashmapNew_spec [Inhabited α] (grants : Grants) {cap : ℕ} (hcap : newCap cap = .ok n)
    (hsize : cb.elsize < 2 ^ 31) (hfits : Fits cb n) :
    (∃ map, hashmapNew cb grants cap = .ok (some map) ∧ Represents cb map [] ∧
        map.nbuckets = n ∧ map.growat = n * 60 / 100) ∨
      (hashmapNew cb grants cap = .ok none ∧ (grants.map = false ∨ grants.buckets = false)) := by
  have hpow := (newCap_spec hcap).1
  have hnz := hpow.neZero
  have hlays : Lays n (freeBuckets (blockBuckets cb n)) ([] : List (Entry α)) := by
    rw [hfits.blockBuckets_eq hsize, ← List.append_nil (freeBuckets n)]
    exact lays_free []
  rw [hashmapNew, hcap, ok_bind]
  by_cases hrefused : (!grants.map || !grants.buckets) = true
  · refine .inr ⟨if_pos hrefused, ?_⟩
    rwa [Bool.or_eq_true, Bool.not_eq_true', Bool.not_eq_true'] at hrefused
  · refine .inl ⟨_, if_neg hrefused, ⟨⟨hpow, hpow, le_refl _, rfl, ⟨?_, ?_⟩, rfl,
      ⟨by simp, by simp⟩, ⟨le_refl 1, by simp⟩⟩, hsize, hfits, hlays, List.Pairwise.nil, rfl,
      Nat.zero_le _⟩, rfl, rfl⟩
    · exact Nat.div_le_div_right (Nat.mul_le_mul_left _ (by omega))
    · exact Nat.div_le_div_right (Nat.mul_le_mul_left _ (by omega))

/-- A map that `hashmap_new` has returned has the capacity it settled on. -/
theorem newCap_of_new [Inhabited α] {grants : Grants} {cap : ℕ}
    (hnew : hashmapNew cb grants cap = .ok (some map)) : newCap cap = .ok map.nbuckets := by
  rw [hashmapNew] at hnew
  cases hcap : newCap cap with
  | error fault =>
    rw [hcap] at hnew
    cases hnew
  | ok n =>
    rw [hcap, ok_bind] at hnew
    split_ifs at hnew
    · cases hnew
    · cases hnew
      rfl

theorem represents_new [Inhabited α] {grants : Grants} {cap : ℕ}
    (hnew : hashmapNew cb grants cap = .ok (some map)) (hsize : cb.elsize < 2 ^ 31)
    (hfits : Fits cb map.nbuckets) : Represents cb map [] := by
  obtain ⟨map', hrun, hrep, -⟩ | ⟨hrun, -⟩ :=
    hashmapNew_spec grants (newCap_of_new hnew) hsize hfits
  · rw [hnew] at hrun
    cases hrun
    exact hrep
  · rw [hnew] at hrun
    cases hrun

/-- The loop of `resize0` is that of `hashmap_set` without the search for the key. -/
theorem reinsert_eq_setLoop (mask fuel : ℕ) (buckets : List (Bucket α)) (entry : Bucket α)
    (j : ℕ) :
    reinsert mask fuel buckets entry j =
      (setLoop (fun _ _ => false) mask fuel buckets entry j >>= fun p => .ok p.1) := by
  induction fuel generalizing buckets entry j with
  | zero => rfl
  | succ fuel ih =>
    rw [reinsert, setLoop]
    cases bucketAt buckets j with
    | error fault => rfl
    | ok bucket =>
      rw [ok_bind, ok_bind, if_neg Bool.false_ne_true]
      split_ifs
      · rfl
      · exact ih ..
      · exact ih ..

/-- An entry finds a place from its home on, as long as some bucket is free. -/
theorem reinsert_spec [NeZero n] {mask : ℕ} (hmask : Masks n mask) {buckets : List (Bucket α)}
    {e : Entry α} (hlays : Lays n buckets l) (hlt : l.length < n) (hlen : l.length < 65535) :
    ∃ buckets', reinsert mask n buckets ⟨e.1, 1, e.2⟩ (e.1 &&& mask) = .ok buckets' ∧
      Lays n buckets' (e :: l) := by
  obtain ⟨T, hst, hord, hheld⟩ := hlays
  have hcount := hheld.length_eq
  have hstart : (⟨e.1, 1, e.2⟩ : Bucket α) = e.bucketAt (home e : ZMod n) := by
    rw [Entry.bucketAt, distance_home]
  obtain ⟨j, hj⟩ := exists_free (T := T) (by omega)
  obtain ⟨k, hk, hij⟩ := exists_steps (home e) j
  -- no two entries are compared, as if none were ever the same
  have hdistinct : Distinct (fun _ _ => false) (e :: held T) :=
    List.pairwise_of_forall fun _ _ => rfl
  have hfree : ∃ k < n, T ((home e : ZMod n) + (k : ℕ)) = none := ⟨k, hk, hij ▸ hj⟩
  obtain ⟨buckets', hrun, hlays⟩ := @setLoop_fresh α n mask buckets T (home e) e _
    (fun _ _ => false) (fun _ _ => false) hmask (fun _ _ => rfl) (fun _ _ _ => rfl) n hst hord
    hfree (by rw [distance_home]; omega) hdistinct (by omega)
  refine ⟨buckets', ?_, hlays.perm (hheld.cons e)⟩
  rw [reinsert_eq_setLoop, hstart, hmask.home, hrun]
  rfl

/-- The entries in the buckets of `indices` move into the new buckets. -/
theorem foldlM_reinsertAt [NeZero n] {map2 : Hashmap α} (hmask : Masks map2.nbuckets map2.mask)
    [NeZero map2.nbuckets] {T : Table n (Entry α)} (hst : Stores map.buckets T)
    {indices : List ℕ} (hin : ∀ i ∈ indices, i < n) {buckets : List (Bucket α)}
    (hlays : Lays map2.nbuckets buckets l)
    (hlt : l.length + (indices.filterMap fun i => T (i : ℕ)).length < map2.nbuckets)
    (hlen : l.length + (indices.filterMap fun i => T (i : ℕ)).length ≤ 65535) :
    ∃ buckets', indices.foldlM (reinsertAt map map2) buckets = .ok buckets' ∧
      Lays map2.nbuckets buckets' ((indices.filterMap fun i => T (i : ℕ)) ++ l) := by
  induction indices generalizing buckets l with
  | nil => exact ⟨buckets, rfl, hlays⟩
  | cons i rest ih =>
    have hval : ((i : ℕ) : ZMod n).val = i := ZMod.val_natCast_of_lt (hin i (List.mem_cons_self ..))
    have hrest : ∀ j ∈ rest, j < n := fun j hj => hin j (List.mem_cons_of_mem i hj)
    rw [List.foldlM_cons, reinsertAt]
    cases hi : T (i : ℕ) with
    | none =>
      obtain ⟨b, hread, hdib⟩ := hst.free hi
      rw [hval] at hread
      rw [List.filterMap_cons_none (f := fun i : ℕ => T i) hi] at hlt hlen ⊢
      rw [hread, ok_bind, if_pos hdib]
      exact ih hrest hlays hlt hlen
    | some e =>
      have hread := (hst _).read hi
      rw [hval] at hread
      rw [List.filterMap_cons_some (f := fun i : ℕ => T i) hi, List.length_cons] at hlt hlen
      obtain ⟨buckets', hrun, hlays'⟩ := reinsert_spec (e := e) hmask hlays (by omega) (by omega)
      obtain ⟨buckets'', hrun', hlays''⟩ := ih hrest hlays' (by rw [List.length_cons]; omega)
        (by rw [List.length_cons]; omega)
      refine ⟨buckets'', ?_, ?_⟩
      · rw [hread, ok_bind, if_neg (Entry.bucketAt_dib_ne_zero e _)]
        change reinsert map2.mask map2.nbuckets buckets ⟨e.1, 1, e.2⟩ (e.1 &&& map2.mask) >>= _ = _
        rw [hrun]
        exact hrun'
      · rw [List.filterMap_cons_some (f := fun i : ℕ => T i) hi]
        exact hlays''.perm List.perm_middle

/-- A resize to a power of two with room enough changes nothing but the buckets. -/
theorem resize_spec [Inhabited α] (grants : Grants) (h : Represents cb map l)
    (hcap : PowerOfTwo n) (hle : map.cap ≤ n) (hfits : Fits cb n)
    (hroom : l.length * 100 ≤ n * 95) (hlen : l.length ≤ 65535) :
    (∃ map', resize cb grants map n = .ok (true, map') ∧ Represents cb map' l ∧
        map'.nbuckets = n ∧ map'.growat = n * 60 / 100 ∧ map'.oom = map.oom) ∨
      (resize cb grants map n = .ok (false, map) ∧
        (grants.map = false ∨ grants.buckets = false)) := by
  have hnew := newCap_eq hcap (hfits.lt h.elsize)
  rw [resize]
  obtain ⟨map2, hnew, hempty, hnb, hgrow⟩ | ⟨hnew, hrefused⟩ :=
    hashmapNew_spec grants hnew h.elsize hfits
  · have hnz := h.sized.nbuckets.neZero
    have hnz2 := hempty.sized.nbuckets.neZero
    have hpos := hcap.sixteen_le
    obtain ⟨T, hst, -, hheld⟩ := h.lays
    have hmoved : ((List.range map.nbuckets).filterMap fun i => T (i : ℕ)) = held T := by
      rw [held, cells, List.filterMap_map]
      rfl
    have hcount := hheld.length_eq
    have hin : ∀ i ∈ List.range map.nbuckets, i < map.nbuckets := fun i => List.mem_range.mp
    obtain ⟨buckets', hrun, hlays'⟩ := foldlM_reinsertAt hempty.masks hst hin hempty.lays
      (by rw [hmoved, hnb, List.length_nil]; omega) (by rw [hmoved, List.length_nil]; omega)
    rw [hmoved, List.append_nil, hnb] at hlays'
    refine .inl ⟨{ map with
      buckets := buckets'
      nbuckets := map2.nbuckets
      mask := map2.mask
      growat := map2.growat
      shrinkat := map2.shrinkat }, ?_, ?_, hnb, hgrow, rfl⟩
    · rw [hnew, ok_bind]
      simp only [hrun]
      rfl
    · have hsized := hempty.sized
      exact ⟨⟨h.sized.cap, hsized.nbuckets, by rw [hnb]; exact hle, hsized.mask, hsized.growat,
        hsized.shrinkat, h.sized.loadfactor, h.sized.growpower⟩, h.elsize, hempty.fits,
        by rw [hnb]; exact hlays'.perm hheld, h.distinct, h.count, by rw [hnb]; exact hroom⟩
  · rw [hnew]
    exact .inr ⟨rfl, hrefused⟩

theorem Represents.withOom (h : Represents cb map l) (oom : Bool) :
    Represents cb { map with oom := oom } l :=
  ⟨⟨h.sized.cap, h.sized.nbuckets, h.sized.cap_le, h.sized.mask, h.sized.growat,
    h.sized.shrinkat, h.sized.loadfactor, h.sized.growpower⟩, h.elsize, h.fits, h.lays,
    h.distinct, h.count, h.load⟩

/-- Other entries in as many buckets. -/
theorem Represents.withEntries {buckets : List (Bucket α)} {l' : List (Entry α)}
    (h : Represents cb map l) (hlays : Lays map.nbuckets buckets l')
    (hdistinct : Distinct cb.key l') (hload : l'.length * 100 ≤ map.nbuckets * 95) {count : ℕ}
    (hcount : count = l'.length) :
    Represents cb { map with buckets := buckets, count := count } l' :=
  ⟨⟨h.sized.cap, h.sized.nbuckets, h.sized.cap_le, h.sized.mask, h.sized.growat,
    h.sized.shrinkat, h.sized.loadfactor, h.sized.growpower⟩, h.elsize, h.fits, hlays,
    hdistinct, hcount, hload⟩

/-- A map that is full with fewer than 65535 entries has at most 2^16 buckets, and grows
to at most 2^32. -/
theorem Represents.grown_fits (h : Represents cb map l) (hlen : l.length < 65535)
    (hfull : map.count ≥ map.growat) : Fits cb (map.nbuckets * 2 ^ map.growpower) := by
  have hcount := h.count
  have hgrow := h.sized.growat.1
  have hsmall : map.nbuckets ≤ 2 ^ 16 := by
    obtain ⟨k, -, hk⟩ := h.sized.nbuckets
    have hlt : 2 ^ k < 2 ^ 17 := by omega
    rw [hk]
    exact Nat.pow_le_pow_right (by omega)
      (Nat.le_of_lt_succ ((Nat.pow_lt_pow_iff_right (by omega)).mp hlt))
  have hpow : 2 ^ map.growpower ≤ 2 ^ 16 :=
    Nat.pow_le_pow_right (by omega) h.sized.growpower.2
  refine fits_of_le h.elsize ?_
  calc map.nbuckets * 2 ^ map.growpower ≤ 2 ^ 16 * 2 ^ 16 := Nat.mul_le_mul hsmall hpow
    _ = 2 ^ 32 := by norm_num

variable (heqv : Equivalence fun a b => cb.key a b = true)

include heqv

theorem hashmapGetWithHash_spec (h : Represents cb map l) (key : α) (hash : UInt64) :
    hashmapGetWithHash cb map key hash =
      .ok ((lookup cb.key (clipHash hash, key) l).map Prod.snd) := by
  have hnz := h.sized.nbuckets.neZero
  exact getLoop_spec (e := (clipHash hash, key)) h.masks heqv h.lays h.distinct h.lt_nbuckets

/-- The part of `hashmap_set_with_hash` after the map has grown. -/
theorem setLoop_represents (h : Represents cb map l) (e : Entry α) (hlen : l.length < 65535)
    (hroom : (l.length + 1) * 100 ≤ map.nbuckets * 95) :
    ∃ buckets', setLoop cb.same map.mask map.nbuckets map.buckets ⟨e.1, 1, e.2⟩
        (e.1 &&& map.mask) = .ok (buckets', (lookup cb.key e l).map Prod.snd) ∧
      Represents cb { map with
        buckets := buckets'
        count := if ((lookup cb.key e l).map Prod.snd).isNone then map.count + 1 else map.count }
        (insert cb.key e l) := by
  have hnz := h.sized.nbuckets.neZero
  have hsame : ∀ (a b : Entry α) (i : ZMod map.nbuckets),
      cb.same (a.bucketAt i) (b.bucketAt i) = cb.key a b := fun _ _ _ => rfl
  obtain ⟨buckets', hrun, hlays⟩ := setLoop_spec (e := e) h.masks heqv
    (fun _ _ => cb.hash_eq_of_key) hsame h.lays h.distinct h.lt_nbuckets hlen
  have hcount : (if ((lookup cb.key e l).map Prod.snd).isNone then map.count + 1
      else map.count) = (insert cb.key e l).length := by
    rw [KeyedLists.insert, List.length_cons, h.count]
    cases hget : lookup cb.key e l with
    | none => rw [erase_of_lookup_none hget]; rfl
    | some b => exact (perm_of_lookup heqv h.distinct hget).length_eq
  refine ⟨buckets', hrun, h.withEntries hlays h.distinct.insert ?_ hcount⟩
  have hle : (erase cb.key e l).length ≤ l.length := length_erase_le
  rw [KeyedLists.insert, List.length_cons]
  omega

variable [Inhabited α]

/-- A set changes the finite map, unless memory for a larger table is refused. -/
theorem hashmapSetWithHash_spec (h : Represents cb map l) (grants : Grants) (item : α)
    (hash : UInt64) (hlen : l.length < 65535) :
    (∃ map', hashmapSetWithHash cb grants map item hash =
          .ok (map', (lookup cb.key (clipHash hash, item) l).map Prod.snd) ∧
        map'.oom = false ∧ Represents cb map' (insert cb.key (clipHash hash, item) l)) ∨
      (∃ map', hashmapSetWithHash cb grants map item hash = .ok (map', none) ∧
        map'.oom = true ∧ Represents cb map' l ∧
        (grants.map = false ∨ grants.buckets = false)) := by
  have hload := h.load
  have hpos := h.sized.nbuckets.sixteen_le
  rw [hashmapSetWithHash]
  by_cases hfull : map.count ≥ map.growat
  · have hpow := Nat.pow_le_pow_right (show 0 < 2 by omega) h.sized.growpower.1
    have hgrown : map.nbuckets * 2 ≤ map.nbuckets * 2 ^ map.growpower :=
      Nat.mul_le_mul_left _ (by omega)
    have hfits := h.grown_fits hlen hfull
    have hresize := resize_spec (n := map.nbuckets * 2 ^ map.growpower) grants (h.withOom false)
      (h.sized.nbuckets.mul_two_pow _) (h.sized.cap_le.trans (by omega)) hfits (by omega)
      (by omega)
    rw [if_pos hfull, Nat.mod_eq_of_lt (hfits.lt h.elsize)]
    obtain ⟨map', hrun, hrep, hnb, -, hoom⟩ | ⟨hrun, hrefused⟩ := hresize
    · obtain ⟨buckets', hset, hrep'⟩ := setLoop_represents heqv hrep (clipHash hash, item) hlen
        (by rw [hnb]; omega)
      refine .inl ⟨_, ?_, ?_, hrep'⟩
      · rw [hrun, ok_bind]
        simp only [Bool.not_true, Bool.false_eq_true, if_false, hset]
        rfl
      · exact hoom
    · refine .inr ⟨{ map with oom := true }, ?_, rfl, h.withOom true, hrefused⟩
      rw [hrun, ok_bind]
      rfl
  · have hgrow := h.sized.growat.2
    have hcount := h.count
    obtain ⟨buckets', hset, hrep'⟩ := setLoop_represents heqv (h.withOom false)
      (clipHash hash, item) hlen (by
        change _ ≤ map.nbuckets * 95
        omega)
    refine .inl ⟨_, ?_, rfl, hrep'⟩
    rw [if_neg hfull, pure_bind]
    simp only [Bool.not_true, Bool.false_eq_true, if_false, hset]
    rfl

/-- A deletion takes the entry of the key out; a refused shrink leaves the larger table. -/
theorem hashmapDeleteWithHash_spec (h : Represents cb map l) (grants : Grants) (key : α)
    (hash : UInt64) (hlen : l.length ≤ 65535) :
    ∃ map', hashmapDeleteWithHash cb grants map key hash =
        .ok (map', (lookup cb.key (clipHash hash, key) l).map Prod.snd) ∧
      Represents cb map' (erase cb.key (clipHash hash, key) l) := by
  have hnz := h.sized.nbuckets.neZero
  have hpos := h.sized.nbuckets.sixteen_le
  have hload := h.load
  have hdelete := deleteLoop_spec (e := (clipHash hash, key)) h.masks (by omega) heqv h.lays
    h.distinct h.lt_nbuckets
  rw [hashmapDeleteWithHash]
  split at hdelete
  case h_1 hget =>
    refine ⟨{ map with oom := false }, ?_, ?_⟩
    · rw [hdelete, hget]
      rfl
    · rw [erase_of_lookup_none hget]
      exact h.withOom false
  case h_2 b hget =>
    obtain ⟨buckets', hrun, hlays⟩ := hdelete
    have hlost := (perm_of_lookup heqv h.distinct hget).length_eq
    rw [List.length_cons] at hlost
    have hcount := h.count
    have hsized := h.sized
    have hrep : Represents cb
        { map with oom := false, buckets := buckets', count := map.count - 1 }
        (erase cb.key (clipHash hash, key) l) :=
      (h.withOom false).withEntries hlays h.distinct.erase (by change _ ≤ map.nbuckets * 95; omega)
        (by omega)
    simp only [hrun, ok_bind, hget]
    by_cases hshrink : map.nbuckets > map.cap ∧ map.count - 1 ≤ map.shrinkat
    · have hhalf := hsized.cap.half hsized.nbuckets hshrink.1
      have htenth := hsized.shrinkat
      rw [if_pos hshrink]
      obtain ⟨map', hresize, hrep', -⟩ | ⟨hresize, -⟩ := resize_spec grants hrep hhalf.1 hhalf.2
        (h.fits.mono (Nat.div_le_self ..)) (by omega) (by omega)
      · refine ⟨map', ?_, hrep'⟩
        rw [hresize]
        rfl
      · refine ⟨_, ?_, hrep⟩
        rw [hresize]
        rfl
    · rw [if_neg hshrink]
      exact ⟨_, rfl, hrep⟩

end AcaBSim.HashMaps
