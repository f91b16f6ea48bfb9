import AcaBSim.HashMapItems
import AcaBSim.SipHash
import AcaBSim.Servers

/-!
The service table of server.c as the hash map it is, with the hash and the
comparison of server.c. The servers of the model read a finite map; a lookup in
the hash map finds exactly what they read.
-/
namespace AcaBSim.ServiceTables

open Clients Servers HashMaps SipHash KeyedLists

instance : Inhabited Service := ⟨⟨.noDisability, .dest1, 0⟩⟩

/-- The value of the enumerator; the other values of the type fill the gaps. -/
def disabilityValue : DisabilityType → ℕ
  | .noDisability => 0
  | .type1 => 2
  | .type2 => 3
  | .type3 => 4
  | .other raw => if raw = 0 then 1 else raw + 4

def destinationValue : Destination → ℕ
  | .dest1 => 0
  | .dest2 => 1
  | .other raw => raw + 2

/-- The four bytes of an enumeration in memory. -/
def enumBytes (value : ℕ) : List UInt8 :=
  [UInt8.ofNat value, UInt8.ofNat (value / 2 ^ 8), UInt8.ofNat (value / 2 ^ 16),
    UInt8.ofNat (value / 2 ^ 24)]

def serviceHash (item : Service) (seed0 seed1 : UInt64) : UInt64 :=
  hashmapSip (enumBytes (disabilityValue item.disabilityType)) seed0 seed1 ^^^
    hashmapSip (enumBytes (destinationValue item.dest)) seed0 seed1

def serviceCallbacks : Callbacks Service where
  elsize := 12
  seed0 := 0
  seed1 := 0
  hash := serviceHash
  compare := some fun a b => if serviceCompare a b then 1 else 0
  elfree := false

def initialTableSize : ℕ := 8

def services : List Service :=
  [⟨.noDisability, .dest1, 4⟩, ⟨.noDisability, .dest2, 6⟩, ⟨.type1, .dest1, 8⟩,
    ⟨.type1, .dest2, 10⟩, ⟨.type2, .dest1, 10⟩, ⟨.type2, .dest2, 14⟩, ⟨.type3, .dest1, 18⟩,
    ⟨.type3, .dest2, 16⟩]

/-- `init_table`; a set on the null map that a refused allocation leaves has no result.
The table never grows, so no later allocation is asked for. -/
def initTable (grants : Grants) : Option (Except MapFault (Hashmap Service)) :=
  match hashmapNew serviceCallbacks grants initialTableSize with
  | .error fault => some (.error fault)
  | .ok none => none
  | .ok (some map) => some (services.foldlM (fun map item => do
      let (map, _) ← hashmapSet serviceCallbacks grants map item
      return map) map)

theorem serviceCallbacks_equal (a b : Service) :
    serviceCallbacks.equal a b = !serviceCompare a b := by
  rw [Callbacks.equal]
  cases h : serviceCompare a b <;> simp [serviceCallbacks, h]

theorem serviceCompare_eq_false {a b : Service} :
    serviceCompare a b = false ↔ a.disabilityType = b.disabilityType ∧ a.dest = b.dest := by
  simp [serviceCompare]

theorem equal_iff {a b : Service} : serviceCallbacks.equal a b = true ↔
    a.disabilityType = b.disabilityType ∧ a.dest = b.dest := by
  rw [serviceCallbacks_equal, Bool.not_eq_true', serviceCompare_eq_false]

theorem serviceCallbacks_equivalence :
    Equivalence fun a b => serviceCallbacks.equal a b = true := by
  simp only [equal_iff]
  exact ⟨fun _ => ⟨rfl, rfl⟩, fun h => ⟨h.1.symm, h.2.symm⟩,
    fun h h' => ⟨h.1.trans h'.1, h.2.trans h'.2⟩⟩

/-- The hash looks at the key alone. -/
theorem serviceCallbacks_respects : serviceCallbacks.Respects := by
  intro a b hequal
  obtain ⟨htype, hdest⟩ := equal_iff.mp hequal
  change serviceHash a 0 0 = serviceHash b 0 0
  rw [serviceHash, serviceHash, htype, hdest]

/-- Sets one after another change the items one after another. -/
theorem foldlM_hashmapSet {map : Hashmap Service} {items : List Service}
    (h : RepresentsItems serviceCallbacks map items) {new : List Service}
    (hlen : items.length + new.length < 65535) :
    ∃ map', new.foldlM (fun map item => do
        let (map, _) ← hashmapSet serviceCallbacks allGranted map item
        return map) map = .ok map' ∧
      RepresentsItems serviceCallbacks map'
        (new.foldl (fun items item => insert serviceCallbacks.equal item items) items) := by
  induction new generalizing map items with
  | nil => exact ⟨map, rfl, h⟩
  | cons item rest ih =>
    rw [List.length_cons] at hlen
    obtain ⟨map', hrun, hrep⟩ := itemCall_spec serviceCallbacks_equivalence
      serviceCallbacks_respects h (by omega) (.set item)
    have hshort : (insert serviceCallbacks.equal item items).length ≤ items.length + 1 :=
      Nat.succ_le_succ length_erase_le
    obtain ⟨map'', hrun', hrep'⟩ := ih hrep (by
      change (insert serviceCallbacks.equal item items).length + rest.length < 65535
      omega)
    refine ⟨map'', ?_, hrep'⟩
    rw [List.foldlM_cons]
    change ((itemCall serviceCallbacks map (.set item) >>= fun p => .ok p.1) >>= _) = _
    rw [hrun]
    exact hrun'

theorem lookup_services (key : Service) :
    lookup serviceCallbacks.equal key
        (services.foldl (fun items item => insert serviceCallbacks.equal item items) []) =
      Servers.hashmapGet Servers.initTable key := by
  obtain ⟨type, dest, time⟩ := key
  cases type <;> cases dest <;> rfl

/-- Whenever `init_table` is given its memory, the table has the eight services, and
`hashmap_get` returns on it what the servers of the model read, for every key. -/
theorem initTable_get {grants : Grants} {result : Except MapFault (Hashmap Service)}
    (h : initTable grants = some result) :
    ∃ map, result = .ok map ∧ hashmapCount map = 8 ∧
      ∀ key, HashMaps.hashmapGet serviceCallbacks map key =
        .ok (Servers.hashmapGet Servers.initTable key) := by
  have hcap : newCap initialTableSize = .ok 16 := rfl
  have hsize : serviceCallbacks.elsize < 2 ^ 31 := by decide
  have hfits : Fits serviceCallbacks 16 := by decide
  have hlen : ([] : List Service).length + services.length < 65535 := by decide
  rw [initTable] at h
  obtain ⟨map, hnew, hrep, -⟩ | ⟨hnew, -⟩ := hashmapNew_spec grants hcap hsize hfits
  case inr =>
    rw [hnew] at h
    cases h
  obtain rfl := granted_of_new hnew
  rw [hnew] at h
  obtain rfl := Option.some.inj h
  have hempty : RepresentsItems serviceCallbacks map [] := hrep
  obtain ⟨map', hrun, hrep⟩ := foldlM_hashmapSet hempty hlen
  refine ⟨map', hrun, ?_, fun key => ?_⟩
  · rw [hashmapCount, hrep.count, List.length_map]
    rfl
  · rw [hashmapGet_spec serviceCallbacks_equivalence serviceCallbacks_respects hrep,
      lookup_services]

theorem initTable_get_granted : ∃ result map, initTable allGranted = some result ∧
    result = .ok map ∧ HashMaps.hashmapGet serviceCallbacks map ⟨.type3, .dest2, 0⟩ =
      .ok (some ⟨.type3, .dest2, 16⟩) := by
  have hnew : initTable allGranted = some _ := rfl
  obtain ⟨map, hmap, -, hget⟩ := initTable_get hnew
  exact ⟨_, map, hnew, hmap, hget _⟩

end AcaBSim.ServiceTables
