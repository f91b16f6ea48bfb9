import AcaBSim.IndexLoops
import Mathlib.Data.Rat.Floor

/-!
The hash map of hashmap.c: open addressing with linear probing, in which an
entry farther from its home takes the place of one closer to it. `item` stands
for the `elsize` bytes behind a bucket, `compare` and `hash` for the callbacks
of `hashmap_new`. The scratch buckets `edata` and `spare` are the local `entry`
and the returned item. A loop that ends only at a free bucket or at its key has
as many rounds as there are buckets, and `endless` stands for any more.
Sizes are `size_t`: the request for `nbuckets` buckets may wrap around, and the
block then has fewer of them. Load factors are exact rational numbers.
-/
namespace AcaBSim.HashMaps

open IndexLoops

inductive MapFault
  | outOfBounds
  | endless
deriving DecidableEq, Repr

/-- `hash` has 48 bits and `dib` has 16; a free bucket has the `dib` zero. -/
structure Bucket (α : Type) where
  hash : ℕ
  dib : ℕ
  item : α
deriving DecidableEq, Repr

structure Hashmap (α : Type) where
  cap : ℕ
  nbuckets : ℕ
  count : ℕ
  mask : ℕ
  growat : ℕ
  shrinkat : ℕ
  loadfactor : ℕ
  growpower : ℕ
  oom : Bool
  buckets : List (Bucket α)
deriving DecidableEq, Repr

/-- What `hashmap_new` is given besides the capacity; a null `compare` is `none`,
and `elfree` says whether there is a function to free an item with. -/
structure Callbacks (α : Type) where
  elsize : ℕ
  seed0 : UInt64
  seed1 : UInt64
  hash : α → UInt64 → UInt64 → UInt64
  compare : Option (α → α → ℤ)
  elfree : Bool

/-- What the two allocations of `hashmap_new` come to. -/
structure Grants where
  map : Bool
  buckets : Bool
deriving DecidableEq, Repr

variable {α : Type}

def hashmapSetGrowByPower (map : Hashmap α) (power : ℕ) : Hashmap α :=
  { map with growpower := if power < 1 then 1 else if power > 16 then 16 else power }

/-- The factor `none` is not a number. -/
def clampLoadFactor (factor : Option ℚ) (defaultFactor : ℚ) : ℚ :=
  match factor with
  | none => defaultFactor
  | some f => if f < 1 / 2 then 1 / 2 else if f > 95 / 100 then 95 / 100 else f

def hashmapSetLoadFactor (map : Hashmap α) (factor : Option ℚ) : Hashmap α :=
  let loadfactor := ⌊clampLoadFactor factor (map.loadfactor / 100) * 100⌋.toNat
  { map with loadfactor := loadfactor, growat := map.nbuckets * loadfactor / 100 }

def bucketAt (buckets : List (Bucket α)) (i : ℕ) : Except MapFault (Bucket α) :=
  readAt .outOfBounds buckets i

def clipHash (hash : UInt64) : ℕ := (hash &&& 0xFFFFFFFFFFFF).toNat

def getHash (cb : Callbacks α) (key : α) : UInt64 := cb.hash key cb.seed0 cb.seed1

/-- `dib++` in 16 bits. -/
def Bucket.farther (entry : Bucket α) : Bucket α := { entry with dib := (entry.dib + 1) % 2 ^ 16 }

def freeBuckets [Inhabited α] (n : ℕ) : List (Bucket α) := List.replicate n ⟨0, 0, default⟩

/-- `bucketsz`: the eight bytes of a `struct bucket` and the element, filled up to whole words. -/
def bucketSize (elsize : ℕ) : ℕ := (8 + elsize + 7) / 8 * 8 % 2 ^ 64

/-- The buckets of the block that is allocated for `n` of them. -/
def blockBuckets (cb : Callbacks α) (n : ℕ) : ℕ :=
  bucketSize cb.elsize * n % 2 ^ 64 / bucketSize cb.elsize

/-- `while (ncap < cap) ncap *= 2`. -/
def doubleUntil (cap : ℕ) : ℕ → ℕ → Except MapFault ℕ
  | 0, _ => .error .endless
  | fuel + 1, ncap =>
    if ncap < cap then doubleUntil cap fuel (ncap * 2 % 2 ^ 64) else return ncap

/-- There are 60 powers of two from 16 on; after the last `ncap` is 0 and stays so. -/
def newCap (cap : ℕ) : Except MapFault ℕ := if cap < 16 then return 16 else doubleUntil cap 60 16

def hashmapNew [Inhabited α] (cb : Callbacks α) (grants : Grants) (cap : ℕ) :
    Except MapFault (Option (Hashmap α)) := do
  let cap ← newCap cap
  if !grants.map || !grants.buckets then return none
  else return some {
    cap := cap
    nbuckets := cap
    count := 0
    mask := cap - 1
    growat := cap * 60 / 100
    shrinkat := cap / 10
    loadfactor := 60
    growpower := 1
    oom := false
    buckets := freeBuckets (blockBuckets cb cap) }

def freeFrom (map : Hashmap α) : List ℕ → Except MapFault (List α)
  | [] => return []
  | i :: rest => do
    let bucket ← bucketAt map.buckets i
    let later ← freeFrom map rest
    return if bucket.dib = 0 then later else bucket.item :: later

/-- The items `elfree` is called with. -/
def freeElements (cb : Callbacks α) (map : Hashmap α) : Except MapFault (List α) :=
  if cb.elfree then freeFrom map (List.range map.nbuckets) else return []

/-- A refused allocation leaves the old buckets, of which the first `cap` remain in use. -/
def hashmapClear [Inhabited α] (cb : Callbacks α) (granted : Bool) (map : Hashmap α)
    (updateCap : Bool) : Except MapFault (Hashmap α × List α) := do
  let freed ← freeElements cb map
  let cap := if updateCap then map.nbuckets else map.cap
  let block := blockBuckets cb cap
  let buckets := if map.nbuckets != cap && granted then freeBuckets block else map.buckets
  if buckets.length < block then throw .outOfBounds
  return ({ map with
    count := 0
    cap := cap
    nbuckets := cap
    buckets := freeBuckets block ++ buckets.drop block
    mask := cap - 1
    growat := cap * map.loadfactor / 100
    shrinkat := cap / 10 }, freed)

/-- The loop of `resize0` that places one entry. -/
def reinsert (mask : ℕ) : ℕ → List (Bucket α) → Bucket α → ℕ → Except MapFault (List (Bucket α))
  | 0, _, _, _ => .error .endless
  | fuel + 1, buckets, entry, j => do
    let bucket ← bucketAt buckets j
    if bucket.dib = 0 then return buckets.set j entry
    else if bucket.dib < entry.dib then
      reinsert mask fuel (buckets.set j entry) bucket.farther ((j + 1) &&& mask)
    else reinsert mask fuel buckets entry.farther ((j + 1) &&& mask)

/-- Moves what bucket `i` holds into the buckets of `map2`. -/
def reinsertAt (map map2 : Hashmap α) (buckets : List (Bucket α)) (i : ℕ) :
    Except MapFault (List (Bucket α)) := do
  let entry ← bucketAt map.buckets i
  if entry.dib = 0 then return buckets
  else
    let start := entry.hash &&& map2.mask
    reinsert map2.mask map2.nbuckets buckets { entry with dib := 1 } start

/-- Says whether the map has been resized. -/
def resize [Inhabited α] (cb : Callbacks α) (grants : Grants) (map : Hashmap α) (newCap : ℕ) :
    Except MapFault (Bool × Hashmap α) := do
  match ← hashmapNew cb grants newCap with
  | none => return (false, map)
  | some map2 =>
    let buckets ← (List.range map.nbuckets).foldlM (reinsertAt map map2) map2.buckets
    return (true, { map with
      buckets := buckets
      nbuckets := map2.nbuckets
      mask := map2.mask
      growat := map2.growat
      shrinkat := map2.shrinkat })

/-- The test of `compare`, which a map may do without. -/
def Callbacks.equal (cb : Callbacks α) (a b : α) : Bool :=
  match cb.compare with
  | none => true
  | some compare => compare a b == 0

/-- Yields the item that was replaced. -/
def setLoop (same : Bucket α → Bucket α → Bool) (mask : ℕ) :
    ℕ → List (Bucket α) → Bucket α → ℕ → Except MapFault (List (Bucket α) × Option α)
  | 0, _, _, _ => .error .endless
  | fuel + 1, buckets, entry, i => do
    let bucket ← bucketAt buckets i
    if bucket.dib = 0 then return (buckets.set i entry, none)
    else if same entry bucket then
      return (buckets.set i { bucket with item := entry.item }, some bucket.item)
    else if bucket.dib < entry.dib then
      setLoop same mask fuel (buckets.set i entry) bucket.farther ((i + 1) &&& mask)
    else setLoop same mask fuel buckets entry.farther ((i + 1) &&& mask)

def Callbacks.same (cb : Callbacks α) (entry bucket : Bucket α) : Bool :=
  entry.hash == bucket.hash && cb.equal entry.item bucket.item

def hashmapSetWithHash [Inhabited α] (cb : Callbacks α) (grants : Grants) (map : Hashmap α)
    (item : α) (hash : UInt64) : Except MapFault (Hashmap α × Option α) := do
  let hash := clipHash hash
  let map := { map with oom := false }
  let (roomy, map) ←
    if map.count ≥ map.growat then
      resize cb grants map (map.nbuckets * 2 ^ map.growpower % 2 ^ 64)
    else pure (true, map)
  if !roomy then return ({ map with oom := true }, none)
  else
    let (buckets, old) ←
      setLoop cb.same map.mask map.nbuckets map.buckets ⟨hash, 1, item⟩ (hash &&& map.mask)
    let count := if old.isNone then map.count + 1 else map.count
    return ({ map with buckets := buckets, count := count }, old)

def hashmapSet [Inhabited α] (cb : Callbacks α) (grants : Grants) (map : Hashmap α) (item : α) :
    Except MapFault (Hashmap α × Option α) :=
  hashmapSetWithHash cb grants map item (getHash cb item)

def getLoop (cb : Callbacks α) (mask : ℕ) (buckets : List (Bucket α)) (key : α) (hash : ℕ) :
    ℕ → ℕ → Except MapFault (Option α)
  | 0, _ => .error .endless
  | fuel + 1, i => do
    let bucket ← bucketAt buckets i
    if bucket.dib = 0 then return none
    else if bucket.hash == hash && cb.equal key bucket.item then return some bucket.item
    else getLoop cb mask buckets key hash fuel ((i + 1) &&& mask)

def hashmapGetWithHash (cb : Callbacks α) (map : Hashmap α) (key : α) (hash : UInt64) :
    Except MapFault (Option α) :=
  let hash := clipHash hash
  getLoop cb map.mask map.buckets key hash map.nbuckets (hash &&& map.mask)

def hashmapGet (cb : Callbacks α) (map : Hashmap α) (key : α) : Except MapFault (Option α) :=
  hashmapGetWithHash cb map key (getHash cb key)

def hashmapProbe (map : Hashmap α) (position : ℕ) : Except MapFault (Option α) := do
  let bucket ← bucketAt map.buckets (position &&& map.mask)
  if bucket.dib = 0 then return none else return some bucket.item

/-- Shifts the buckets after `i` back by one, up to a free one or one at its home. -/
def shiftBack (mask : ℕ) : ℕ → List (Bucket α) → ℕ → Except MapFault (List (Bucket α))
  | 0, _, _ => .error .endless
  | fuel + 1, buckets, prev => do
    let i := (prev + 1) &&& mask
    let bucket ← bucketAt buckets i
    if bucket.dib ≤ 1 then return buckets.modify prev fun b => { b with dib := 0 }
    else shiftBack mask fuel (buckets.set prev { bucket with dib := bucket.dib - 1 }) i

/-- Yields the buckets without the entry of the key, and its item. -/
def deleteLoop (cb : Callbacks α) (mask nbuckets : ℕ) (buckets : List (Bucket α)) (key : α)
    (hash : ℕ) : ℕ → ℕ → Except MapFault (Option (List (Bucket α) × α))
  | 0, _ => .error .endless
  | fuel + 1, i => do
    let bucket ← bucketAt buckets i
    if bucket.dib = 0 then return none
    else if bucket.hash == hash && cb.equal key bucket.item then
      let shifted ← shiftBack mask nbuckets (buckets.set i { bucket with dib := 0 }) i
      return some (shifted, bucket.item)
    else deleteLoop cb mask nbuckets buckets key hash fuel ((i + 1) &&& mask)

def hashmapDeleteWithHash [Inhabited α] (cb : Callbacks α) (grants : Grants) (map : Hashmap α)
    (key : α) (hash : UInt64) : Except MapFault (Hashmap α × Option α) := do
  let hash := clipHash hash
  let map := { map with oom := false }
  let found ←
    deleteLoop cb map.mask map.nbuckets map.buckets key hash map.nbuckets (hash &&& map.mask)
  match found with
  | none => return (map, none)
  | some (buckets, item) =>
    let map := { map with buckets := buckets, count := map.count - 1 }
    if map.nbuckets > map.cap ∧ map.count ≤ map.shrinkat then
      let (_, map) ← resize cb grants map (map.nbuckets / 2)
      return (map, some item)
    else return (map, some item)

def hashmapDelete [Inhabited α] (cb : Callbacks α) (grants : Grants) (map : Hashmap α) (key : α) :
    Except MapFault (Hashmap α × Option α) :=
  hashmapDeleteWithHash cb grants map key (getHash cb key)

def hashmapCount (map : Hashmap α) : ℕ := map.count

def hashmapOom (map : Hashmap α) : Bool := map.oom

/-- The items `elfree` is called with before the memory of the map goes. -/
def hashmapFree (cb : Callbacks α) : Option (Hashmap α) → Except MapFault (List α)
  | none => return []
  | some map => freeElements cb map

def scanFrom {σ : Type} (map : Hashmap α) (iter : α → σ → Bool × σ) :
    List ℕ → σ → Except MapFault (Bool × σ)
  | [], udata => return (true, udata)
  | i :: rest, udata => do
    let bucket ← bucketAt map.buckets i
    if bucket.dib = 0 then scanFrom map iter rest udata
    else
      let (more, udata) := iter bucket.item udata
      if more then scanFrom map iter rest udata else return (false, udata)

/-- `iter` may stop the scan by `false`; `udata` is what it keeps. -/
def hashmapScan {σ : Type} (map : Hashmap α) (iter : α → σ → Bool × σ) (udata : σ) :
    Except MapFault (Bool × σ) :=
  scanFrom map iter (List.range map.nbuckets) udata

/-- Yields the item, if there is one, and where the cursor is left. -/
def hashmapIter (map : Hashmap α) (i : ℕ) : Except MapFault (Option α × ℕ) := do
  if i ≥ map.nbuckets then return (none, i)
  else
    let bucket ← bucketAt map.buckets i
    if bucket.dib = 0 then hashmapIter map (i + 1) else return (some bucket.item, i + 1)
termination_by map.nbuckets - i

end AcaBSim.HashMaps
