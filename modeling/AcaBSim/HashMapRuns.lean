import AcaBSim.HashMapOperations
import AcaBSim.HashMapScans

/-!
Runs of a hash map from `hashmap_new` on, with any calls, any hashes and any
refused allocations. What the map holds is read off the calls and their answers
alone; that finite map decides every later answer, and the map is at all times
a Robin Hood table of its entries. The `dib` of a bucket has 16 bits, so the runs
are followed while the map holds fewer than 65535 entries; the elements take less
than 2^31 bytes each, and the block of the initial capacity fits `size_t`.
-/
namespace AcaBSim.HashMaps

open RobinHood KeyedLists IndexLoops

variable {α : Type} {cb : Callbacks α} {map map' : Hashmap α} {l : List (Entry α)}

inductive Call (α : Type)
  | set (item : α) (hash : UInt64) (grants : Grants)
  | get (key : α) (hash : UInt64)
  | delete (key : α) (hash : UInt64) (grants : Grants)
  | clear (updateCap granted : Bool)
  | setLoadFactor (factor : Option ℚ)
  | setGrowByPower (power : ℕ)

inductive Answer (α : Type)
  | item (found : Option α)
  | outOfMemory
  | freed (items : List α)
  | done

/-- What the finite map `l` has become after a call with this answer. -/
def contents (cb : Callbacks α) (l : List (Entry α)) : Call α → Answer α → List (Entry α)
  | .set _ _ _, .outOfMemory => l
  | .set item hash _, _ => insert cb.key (clipHash hash, item) l
  | .get _ _, _ => l
  | .delete key hash _, _ => erase cb.key (clipHash hash, key) l
  | .clear _ _, _ => []
  | .setLoadFactor _, _ => l
  | .setGrowByPower _, _ => l

/-- The answers that the finite map `l` allows. -/
def Answers (cb : Callbacks α) (l : List (Entry α)) : Call α → Answer α → Prop
  | .set item hash grants, a =>
    a = .item ((lookup cb.key (clipHash hash, item) l).map Prod.snd) ∨
      (a = .outOfMemory ∧ (grants.map = false ∨ grants.buckets = false))
  | .get key hash, a => a = .item ((lookup cb.key (clipHash hash, key) l).map Prod.snd)
  | .delete key hash _, a => a = .item ((lookup cb.key (clipHash hash, key) l).map Prod.snd)
  | .clear _ _, a => ∃ items, a = .freed items ∧
      items.Perm (if cb.elfree then l.map Prod.snd else [])
  | .setLoadFactor _, a => a = .done
  | .setGrowByPower _, a => a = .done

/-- Freeing goes through the held items in the order of their buckets. -/
theorem freeElements_spec (h : Represents cb map l) :
    ∃ items, freeElements cb map = .ok items ∧
      items.Perm (if cb.elfree then l.map Prod.snd else []) := by
  have hnz := h.sized.nbuckets.neZero
  obtain ⟨T, hst, -, hheld⟩ := h.lays
  rw [freeElements]
  split_ifs with hfree
  · refine ⟨_, freeFrom_spec hst fun i hi => List.mem_range.mp hi, ?_⟩
    rw [itemsAt_range]
    exact hheld.map Prod.snd
  · exact ⟨[], rfl, List.Perm.refl _⟩

theorem clampLoadFactor_mem (factor : Option ℚ) {defaultFactor : ℚ}
    (h : 1 / 2 ≤ defaultFactor ∧ defaultFactor ≤ 95 / 100) :
    1 / 2 ≤ clampLoadFactor factor defaultFactor ∧
      clampLoadFactor factor defaultFactor ≤ 95 / 100 := by
  cases factor with
  | none => exact h
  | some f =>
    rw [clampLoadFactor]
    split_ifs with hlow hhigh
    · norm_num
    · norm_num
    · exact ⟨not_lt.mp hlow, not_lt.mp hhigh⟩

theorem hashmapSetLoadFactor_spec (h : Represents cb map l) (factor : Option ℚ) :
    Represents cb (hashmapSetLoadFactor map factor) l := by
  have hold : (1 / 2 : ℚ) ≤ map.loadfactor / 100 ∧ (map.loadfactor / 100 : ℚ) ≤ 95 / 100 := by
    have hlow : (50 : ℚ) ≤ map.loadfactor := by exact_mod_cast h.sized.loadfactor.1
    have hhigh : (map.loadfactor : ℚ) ≤ 95 := by exact_mod_cast h.sized.loadfactor.2
    constructor <;> linarith
  obtain ⟨hlow, hhigh⟩ := clampLoadFactor_mem factor hold
  have hfloor : 50 ≤ ⌊clampLoadFactor factor (map.loadfactor / 100) * 100⌋ ∧
      ⌊clampLoadFactor factor (map.loadfactor / 100) * 100⌋ ≤ 95 := by
    constructor
    · rw [Int.le_floor]
      push_cast
      linarith
    · rw [← Int.cast_le (R := ℚ)]
      refine (Int.floor_le _).trans ?_
      push_cast
      linarith
  have hfactor : 50 ≤ (hashmapSetLoadFactor map factor).loadfactor ∧
      (hashmapSetLoadFactor map factor).loadfactor ≤ 95 := by
    rw [hashmapSetLoadFactor]
    dsimp only
    omega
  exact ⟨⟨h.sized.cap, h.sized.nbuckets, h.sized.cap_le, h.sized.mask,
    ⟨Nat.div_le_div_right (Nat.mul_le_mul_left _ hfactor.1),
      Nat.div_le_div_right (Nat.mul_le_mul_left _ hfactor.2)⟩, h.sized.shrinkat, hfactor,
    h.sized.growpower⟩, h.elsize, h.fits, h.lays, h.distinct, h.count, h.load⟩

theorem hashmapSetGrowByPower_spec (h : Represents cb map l) (power : ℕ) :
    Represents cb (hashmapSetGrowByPower map power) l := by
  have hpower : 1 ≤ (hashmapSetGrowByPower map power).growpower ∧
      (hashmapSetGrowByPower map power).growpower ≤ 16 := by
    rw [hashmapSetGrowByPower]
    dsimp only
    split_ifs <;> omega
  exact ⟨⟨h.sized.cap, h.sized.nbuckets, h.sized.cap_le, h.sized.mask, h.sized.growat,
    h.sized.shrinkat, h.sized.loadfactor, hpower⟩, h.elsize, h.fits, h.lays, h.distinct,
    h.count, h.load⟩

/-- Two entries have one key exactly if the hashes agree and `compare` finds them equal. -/
theorem Callbacks.key_equivalence (heqv : Equivalence fun a b => cb.equal a b = true) :
    Equivalence fun a b => cb.key a b = true := by
  have hiff : ∀ a b : Entry α, cb.key a b = true ↔ a.1 = b.1 ∧ cb.equal a.2 b.2 = true := by
    intro a b
    rw [Callbacks.key, Bool.and_eq_true, beq_iff_eq]
  refine ⟨fun a => ?_, fun {a b} hab => ?_, fun {a b c} hab hbc => ?_⟩
  · exact (hiff a a).mpr ⟨rfl, heqv.refl a.2⟩
  · rw [hiff] at hab ⊢
    exact ⟨hab.1.symm, heqv.symm hab.2⟩
  · rw [hiff] at hab hbc ⊢
    exact ⟨hab.1.trans hbc.1, heqv.trans hab.2 hbc.2⟩

variable [Inhabited α]

/-- Whether memory was short is asked of `hashmap_oom`. -/
def call (cb : Callbacks α) (map : Hashmap α) :
    Call α → Except MapFault (Hashmap α × Answer α)
  | .set item hash grants => do
    let (map, old) ← hashmapSetWithHash cb grants map item hash
    return (map, if hashmapOom map then .outOfMemory else .item old)
  | .get key hash => do
    let found ← hashmapGetWithHash cb map key hash
    return (map, .item found)
  | .delete key hash grants => do
    let (map, old) ← hashmapDeleteWithHash cb grants map key hash
    return (map, .item old)
  | .clear updateCap granted => do
    let (map, items) ← hashmapClear cb granted map updateCap
    return (map, .freed items)
  | .setLoadFactor factor => return (hashmapSetLoadFactor map factor, .done)
  | .setGrowByPower power => return (hashmapSetGrowByPower map power, .done)

/-- The maps that calls make of a new one, each with what it holds by the answers. -/
inductive Reached (cb : Callbacks α) : Hashmap α → List (Entry α) → Prop
  | new {grants : Grants} {cap : ℕ} {map : Hashmap α}
    (h : hashmapNew cb grants cap = .ok (some map)) (hsize : cb.elsize < 2 ^ 31)
    (hfits : Fits cb map.nbuckets) : Reached cb map []
  | call {map map' : Hashmap α} {l : List (Entry α)} {c : Call α} {a : Answer α}
    (h : Reached cb map l) (hlen : l.length < 65535)
    (hcall : HashMaps.call cb map c = .ok (map', a)) : Reached cb map' (contents cb l c a)

theorem hashmapClear_spec (h : Represents cb map l) (updateCap granted : Bool) :
    ∃ map' items, hashmapClear cb granted map updateCap = .ok (map', items) ∧
      Represents cb map' [] ∧ items.Perm (if cb.elfree then l.map Prod.snd else []) := by
  obtain ⟨items, hfreed, hperm⟩ := freeElements_spec h
  have hnz := h.sized.nbuckets.neZero
  have hroom := h.lays.length_le
  have hsized := h.sized
  have hcap : ∀ cap, PowerOfTwo cap → cap ≤ map.nbuckets → ∀ buckets : List (Bucket α),
      Represents cb { map with
        count := 0
        cap := cap
        nbuckets := cap
        buckets := freeBuckets cap ++ buckets.drop cap
        mask := cap - 1
        growat := cap * map.loadfactor / 100
        shrinkat := cap / 10 } [] := by
    intro cap hpow hle buckets
    have hnz := hpow.neZero
    exact ⟨⟨hpow, hpow, le_refl cap, rfl,
      ⟨Nat.div_le_div_right (Nat.mul_le_mul_left cap hsized.loadfactor.1),
        Nat.div_le_div_right (Nat.mul_le_mul_left cap hsized.loadfactor.2)⟩, rfl,
      hsized.loadfactor, hsized.growpower⟩, h.elsize, h.fits.mono hle, lays_free _,
      List.Pairwise.nil, rfl, Nat.zero_le _⟩
  rw [hashmapClear, hfreed]
  cases updateCap with
  | true =>
    refine ⟨_, items, ?_, hcap map.nbuckets hsized.nbuckets (le_refl _) map.buckets, hperm⟩
    simp only [ok_bind, if_true, bne_self_eq_false, Bool.false_and, Bool.false_eq_true, if_false,
      h.fits.blockBuckets_eq h.elsize, if_neg (Nat.not_lt.mpr hroom)]
    rfl
  | false =>
    have hlong : map.cap ≤ (if map.nbuckets != map.cap && granted then freeBuckets map.cap
        else map.buckets).length := by
      split_ifs
      · rw [freeBuckets, List.length_replicate]
      · exact hsized.cap_le.trans hroom
    refine ⟨_, items, ?_, hcap map.cap hsized.cap hsized.cap_le
      (if map.nbuckets != map.cap && granted then freeBuckets map.cap else map.buckets), hperm⟩
    simp only [ok_bind, Bool.false_eq_true, if_false,
      (h.fits.mono hsized.cap_le).blockBuckets_eq h.elsize, if_neg (Nat.not_lt.mpr hlong)]
    rfl

/-- One call: it returns, the answer is right, and the map is that of the answer. -/
theorem call_spec (heqv : Equivalence fun a b => cb.equal a b = true)
    (h : Represents cb map l) (hlen : l.length < 65535) (c : Call α) :
    ∃ map' a, call cb map c = .ok (map', a) ∧ Answers cb l c a ∧
      Represents cb map' (contents cb l c a) := by
  have hkey := Callbacks.key_equivalence heqv
  cases c with
  | set item hash grants =>
    obtain ⟨map', hrun, hoom, hrep⟩ | ⟨map', hrun, hoom, hrep, hrefused⟩ :=
      hashmapSetWithHash_spec hkey h grants item hash hlen
    · refine ⟨map', .item ((lookup cb.key (clipHash hash, item) l).map Prod.snd), ?_, .inl rfl,
        hrep⟩
      rw [call, hrun, ok_bind]
      simp only [hashmapOom, hoom]
      rfl
    · refine ⟨map', .outOfMemory, ?_, .inr ⟨rfl, hrefused⟩, hrep⟩
      rw [call, hrun, ok_bind]
      simp only [hashmapOom, hoom]
      rfl
  | get key hash =>
    refine ⟨map, .item ((lookup cb.key (clipHash hash, key) l).map Prod.snd), ?_, rfl, h⟩
    rw [call, hashmapGetWithHash_spec hkey h]
    rfl
  | delete key hash grants =>
    obtain ⟨map', hrun, hrep⟩ := hashmapDeleteWithHash_spec hkey h grants key hash (by omega)
    refine ⟨map', .item ((lookup cb.key (clipHash hash, key) l).map Prod.snd), ?_, rfl, hrep⟩
    rw [call, hrun]
    rfl
  | clear updateCap granted =>
    obtain ⟨map', items, hrun, hrep, hfreed⟩ := hashmapClear_spec h updateCap granted
    refine ⟨map', .freed items, ?_, ⟨items, rfl, hfreed⟩, hrep⟩
    rw [call, hrun]
    rfl
  | setLoadFactor factor => exact ⟨_, .done, rfl, rfl, hashmapSetLoadFactor_spec h factor⟩
  | setGrowByPower power => exact ⟨_, .done, rfl, rfl, hashmapSetGrowByPower_spec h power⟩

theorem Reached.represents (heqv : Equivalence fun a b => cb.equal a b = true)
    (h : Reached cb map l) : Represents cb map l := by
  induction h with
  | new hnew hsize hfits => exact represents_new hnew hsize hfits
  | @call map map' l c a _ hlen hcall ih =>
    obtain ⟨map'', a', hrun, -, hrep⟩ := call_spec heqv ih hlen c
    rw [hcall] at hrun
    cases hrun
    exact hrep

/-- Three numbers in a map of sixteen buckets, where all numbers have the same hash. -/
def crowded : Callbacks ℕ where
  elsize := 8
  seed0 := 0
  seed1 := 0
  hash _ _ _ := 7
  compare := some fun a b => if a = b then 0 else 1
  elfree := true

theorem crowded_equal : Equivalence fun a b => crowded.equal a b = true := by
  have hiff : ∀ a b, crowded.equal a b = true ↔ a = b := by
    intro a b
    by_cases hab : a = b <;> simp [Callbacks.equal, crowded, hab]
  simp only [hiff]
  exact eq_equivalence

def allGranted : Grants := ⟨true, true⟩

def crowdedMap : Hashmap ℕ where
  cap := 16
  nbuckets := 16
  count := 3
  mask := 15
  growat := 9
  shrinkat := 1
  loadfactor := 60
  growpower := 1
  oom := false
  buckets := freeBuckets 7 ++ [⟨7, 1, 1⟩, ⟨7, 2, 2⟩, ⟨7, 3, 3⟩] ++ freeBuckets 6

theorem crowded_reached : Reached crowded crowdedMap [(7, 3), (7, 2), (7, 1)] := by
  have hnew : hashmapNew crowded allGranted 0 = .ok (some _) := rfl
  have h0 : Reached crowded _ [] := .new hnew (by decide) (by decide)
  have h1 := h0.call (c := .set 1 7 allGranted) (by decide) rfl
  have h2 := h1.call (c := .set 2 7 allGranted) (by decide) rfl
  exact h2.call (c := .set 3 7 allGranted) (by decide) rfl

/-- Every call on a map that has been reached returns, and answers as the finite
map of the earlier answers does. -/
theorem reached_call_answers (heqv : Equivalence fun a b => cb.equal a b = true)
    (h : Reached cb map l) (hlen : l.length < 65535) (c : Call α) :
    ∃ map' a, call cb map c = .ok (map', a) ∧ Answers cb l c a ∧
      Reached cb map' (contents cb l c a) ∧
      hashmapCount map' = (contents cb l c a).length ∧ hashmapCount map' < map'.nbuckets := by
  obtain ⟨map', a, hrun, hanswer, hrep⟩ := call_spec heqv (h.represents heqv) hlen c
  refine ⟨map', a, hrun, hanswer, h.call hlen hrun, hrep.count, ?_⟩
  rw [hashmapCount, hrep.count]
  exact hrep.lt_nbuckets

/-- A deletion among three entries with one hash. -/
theorem reached_call_answers_crowded : ∃ map' a,
    call crowded crowdedMap (.delete 2 7 allGranted) = .ok (map', a) ∧
      Answers crowded [(7, 3), (7, 2), (7, 1)] (.delete 2 7 allGranted) a := by
  obtain ⟨map', a, hcall, hanswer, -⟩ :=
    reached_call_answers crowded_equal crowded_reached (by decide) (.delete 2 7 allGranted)
  exact ⟨map', a, hcall, hanswer⟩

/-- Freeing, scanning, iterating and probing one bucket after the other visit what the
map holds, every item once and all four in one order. -/
theorem reached_scans (heqv : Equivalence fun a b => cb.equal a b = true)
    (h : Reached cb map l) :
    ∃ items, items.Perm (l.map Prod.snd) ∧
      hashmapFree cb (some map) = .ok (if cb.elfree then items else []) ∧
      enumerate map (hashmapCount map + 1) 0 = .ok items ∧
      (∃ found, (List.range map.nbuckets).mapM (hashmapProbe map) = .ok found ∧
        found.reduceOption = items) ∧
      ∀ (σ : Type) (iter : α → σ → Bool × σ) (udata : σ),
        hashmapScan map iter udata = .ok (scanList iter items udata) := by
  have hrep := h.represents heqv
  have hnz := hrep.sized.nbuckets.neZero
  obtain ⟨T, hst, -, hheld⟩ := hrep.lays
  have hall : itemsAt T (List.range map.nbuckets) = (held T).map Prod.snd := itemsAt_range T
  have hin : ∀ i ∈ List.range map.nbuckets, i < map.nbuckets := fun i hi => List.mem_range.mp hi
  refine ⟨(held T).map Prod.snd, hheld.map Prod.snd, ?_, ?_, ?_, fun σ iter udata => ?_⟩
  · rw [hashmapFree, freeElements]
    split_ifs
    · rw [freeFrom_spec hst hin, hall]
    · rfl
  · have hshort : (itemsAt T (List.range' 0 (map.nbuckets - 0))).length < hashmapCount map + 1 := by
      rw [Nat.sub_zero, ← List.range_eq_range', hall, List.length_map, hheld.length_eq,
        hashmapCount, hrep.count]
      exact Nat.lt_succ_self _
    have hiter := enumerate_spec rfl hst (Nat.zero_le _) hshort
    rwa [Nat.sub_zero, ← List.range_eq_range', hall] at hiter
  · rw [← hall]
    exact mapM_hashmapProbe hrep.masks hst (List.range map.nbuckets)
  · rw [hashmapScan, scanFrom_spec iter hst hin, hall]

theorem reached_scans_crowded : ∃ items, items.Perm [3, 2, 1] ∧
    enumerate crowdedMap (hashmapCount crowdedMap + 1) 0 = .ok items := by
  obtain ⟨items, hperm, -, hiter, -⟩ := reached_scans crowded_equal crowded_reached
  exact ⟨items, hperm, hiter⟩

/-- A taken bucket lies `dib - 1` buckets after the home of its hash, and on the way
there no bucket is free or closer to its own home. -/
theorem reached_layout (heqv : Equivalence fun a b => cb.equal a b = true)
    (h : Reached cb map l) {i : ℕ} {b : Bucket α} (hi : i < map.nbuckets)
    (hb : map.buckets[i]? = some b) (htaken : b.dib ≠ 0) :
    (b.hash, b.item) ∈ l ∧ b.dib ≤ hashmapCount map ∧
      i = (b.hash + (b.dib - 1)) % map.nbuckets ∧
      ∀ s < b.dib, ∃ c, map.buckets[(b.hash + s) % map.nbuckets]? = some c ∧ s < c.dib := by
  have hrep := h.represents heqv
  have hnz := hrep.sized.nbuckets.neZero
  obtain ⟨T, hst, hord, hheld⟩ := hrep.lays
  have hval : ((i : ℕ) : ZMod map.nbuckets).val = i := ZMod.val_natCast_of_lt hi
  have hcell := hst (i : ℕ)
  rw [Stored, hval, hb] at hcell
  cases hT : T (i : ℕ) with
  | none =>
    rw [hT] at hcell
    obtain ⟨c, hc, hdib⟩ := hcell
    exact absurd hdib (Option.some.inj hc ▸ htaken)
  | some e =>
    rw [hT] at hcell
    change some b = some (e.bucketAt ((i : ℕ) : ZMod map.nbuckets)) at hcell
    obtain rfl : b = e.bucketAt ((i : ℕ) : ZMod map.nbuckets) := Option.some.inj hcell
    have hprobe := hord.probe_le_held (i : ℕ)
    rw [probe_of_some hT] at hprobe
    refine ⟨hheld.mem_iff.mp (mem_held.mpr ⟨_, hT⟩), ?_, ?_, fun s hs => ?_⟩
    · rw [Entry.dib_bucketAt, hashmapCount, hrep.count, ← hheld.length_eq]
      exact hprobe
    · obtain ⟨d, hd, hdist, -⟩ := eq_home_add home e ((i : ℕ) : ZMod map.nbuckets)
      rw [Entry.dib_bucketAt, hdist, Nat.add_sub_cancel, ← ZMod.val_natCast, Nat.cast_add]
      exact hval.symm.trans (congrArg ZMod.val hd)
    · have hpass := hord.lt_probe hT (s := s) hs
      obtain ⟨j, hj⟩ : ∃ j : ZMod map.nbuckets, home e + (s : ZMod map.nbuckets) = j := ⟨_, rfl⟩
      have hindex : j.val = (e.1 + s) % map.nbuckets := by
        rw [← hj, home, ← Nat.cast_add, ZMod.val_natCast]
      have hother := hst j
      rw [Stored, hindex] at hother
      rw [hj] at hpass
      cases hc : T j with
      | none =>
        rw [probe_of_none hc] at hpass
        omega
      | some c =>
        rw [hc] at hother
        rw [probe_of_some hc] at hpass
        exact ⟨_, hother, hpass⟩

theorem reached_layout_crowded : (7, 3) ∈ [(7, 3), (7, 2), (7, 1)] ∧
    9 = (7 + (3 - 1)) % crowdedMap.nbuckets := by
  obtain ⟨hmem, -, hindex, -⟩ := reached_layout (i := 9) (b := ⟨7, 3, 3⟩) crowded_equal
    crowded_reached (by decide) rfl (by decide)
  exact ⟨hmem, hindex⟩

end AcaBSim.HashMaps
