import AcaBSim.HashMapRuns

/-!
A map that is used through `hashmap_set`, `hashmap_get` and `hashmap_delete`
alone, with a hash that agrees with `compare`. It is then a finite map of items,
and neither the hash, nor the capacity, nor a resize shows in any answer, as long
as it holds fewer than 65535 items and the block of its capacity fits `size_t`.
-/
namespace AcaBSim.HashMaps

open KeyedLists

variable {α : Type} {cb : Callbacks α} {map : Hashmap α} {l : List (Entry α)} {items : List α}

/-- Items that `compare` finds equal have one hash. -/
def Callbacks.Respects (cb : Callbacks α) : Prop :=
  ∀ a b, cb.equal a b = true → getHash cb a = getHash cb b

def entry (cb : Callbacks α) (a : α) : Entry α := (clipHash (getHash cb a), a)

/-- The items of a map whose entries all have the hashes of their items. -/
def RepresentsItems (cb : Callbacks α) (map : Hashmap α) (items : List α) : Prop :=
  Represents cb map (items.map (entry cb))

inductive ItemCall (α : Type)
  | set (item : α)
  | get (key : α)
  | delete (key : α) (grants : Grants)

def ItemCall.key : ItemCall α → α
  | .set item => item
  | .get key => key
  | .delete key _ => key

/-- The items after a call; each call answers with the item that had the key. -/
def itemsAfter (equal : α → α → Bool) (items : List α) : ItemCall α → List α
  | .set item => insert equal item items
  | .get _ => items
  | .delete key _ => erase equal key items

def itemAnswers (equal : α → α → Bool) : List α → List (ItemCall α) → List (Option α)
  | _, [] => []
  | items, c :: rest =>
    lookup equal c.key items :: itemAnswers equal (itemsAfter equal items c) rest

/-- Each call adds at most one item. -/
theorem length_itemsAfter (equal : α → α → Bool) (items : List α) (calls : List (ItemCall α)) :
    (calls.foldl (itemsAfter equal) items).length ≤ items.length + calls.length := by
  induction calls generalizing items with
  | nil => exact le_refl _
  | cons c rest ih =>
    have herase : ∀ k, (erase equal k items).length ≤ items.length := fun k => length_erase_le
    have hone : (itemsAfter equal items c).length ≤ items.length + 1 := by
      cases c with
      | set item => exact Nat.succ_le_succ (herase item)
      | get key => exact Nat.le_succ _
      | delete key grants => exact (herase key).trans (Nat.le_succ _)
    have hrest := ih (itemsAfter equal items c)
    rw [List.foldl_cons, List.length_cons]
    omega

theorem key_entry (hresp : cb.Respects) (k a : α) :
    cb.key (entry cb k) (entry cb a) = cb.equal k a := by
  rw [Callbacks.key, entry, entry]
  cases hequal : cb.equal k a with
  | false => rw [Bool.and_false]
  | true => rw [hresp k a hequal, beq_self_eq_true, Bool.and_self]

theorem lookup_entry (hresp : cb.Respects) (k : α) (items : List α) :
    (lookup cb.key (entry cb k) (items.map (entry cb))).map Prod.snd =
      lookup cb.equal k items := by
  have hkey : cb.key (entry cb k) ∘ entry cb = cb.equal k := funext (key_entry hresp k)
  have hid : (Prod.snd ∘ entry cb : α → α) = id := rfl
  rw [lookup, lookup, List.find?_map, hkey, Option.map_map, hid, Option.map_id_fun, id]

theorem erase_entry (hresp : cb.Respects) (k : α) (items : List α) :
    erase cb.key (entry cb k) (items.map (entry cb)) = (erase cb.equal k items).map (entry cb) := by
  have hkey : (fun b => !cb.key (entry cb k) b) ∘ entry cb = fun b => !cb.equal k b :=
    funext fun a => congrArg _ (key_entry hresp k a)
  rw [erase, erase, List.filter_map, hkey]

theorem insert_entry (hresp : cb.Respects) (a : α) (items : List α) :
    insert cb.key (entry cb a) (items.map (entry cb)) =
      (insert cb.equal a items).map (entry cb) := by
  rw [KeyedLists.insert, KeyedLists.insert, erase_entry hresp, List.map_cons]

theorem hashmapGet_spec (heqv : Equivalence fun a b => cb.equal a b = true)
    (hresp : cb.Respects) (h : RepresentsItems cb map items) (key : α) :
    hashmapGet cb map key = .ok (lookup cb.equal key items) := by
  rw [hashmapGet, hashmapGetWithHash_spec (Callbacks.key_equivalence heqv) h]
  exact congrArg Except.ok (lookup_entry hresp key items)

variable [Inhabited α]

theorem granted_of_new {grants : Grants} {cap : ℕ}
    (hnew : hashmapNew cb grants cap = .ok (some map)) : grants = allGranted := by
  rw [hashmapNew, newCap_of_new hnew, ok_bind] at hnew
  obtain ⟨forMap, forBuckets⟩ := grants
  cases forMap <;> cases forBuckets <;> first | rfl | cases hnew

def itemCall (cb : Callbacks α) (map : Hashmap α) :
    ItemCall α → Except MapFault (Hashmap α × Option α)
  | .set item => hashmapSet cb allGranted map item
  | .get key => do
    let found ← hashmapGet cb map key
    return (map, found)
  | .delete key grants => hashmapDelete cb grants map key

def runItems (cb : Callbacks α) : Hashmap α → List (ItemCall α) → Except MapFault (List (Option α))
  | _, [] => return []
  | map, c :: rest => do
    let (map, answer) ← itemCall cb map c
    return answer :: (← runItems cb map rest)

theorem itemCall_spec (heqv : Equivalence fun a b => cb.equal a b = true) (hresp : cb.Respects)
    (h : RepresentsItems cb map items) (hlen : items.length < 65535) (c : ItemCall α) :
    ∃ map', itemCall cb map c = .ok (map', lookup cb.equal c.key items) ∧
      RepresentsItems cb map' (itemsAfter cb.equal items c) := by
  have hkey := Callbacks.key_equivalence heqv
  have hfound := lookup_entry hresp c.key items
  rw [← List.length_map (f := entry cb)] at hlen
  cases c with
  | set item =>
    obtain ⟨map', hrun, -, hrep⟩ | ⟨-, -, -, -, hrefused⟩ :=
      hashmapSetWithHash_spec hkey h allGranted item (getHash cb item) hlen
    · refine ⟨map', hrun.trans (congrArg (fun x => Except.ok (map', x)) hfound), ?_⟩
      rw [RepresentsItems, itemsAfter, ← insert_entry hresp]
      exact hrep
    · exact absurd hrefused (by decide)
  | get key =>
    refine ⟨map, ?_, h⟩
    rw [itemCall, hashmapGet_spec heqv hresp h]
    rfl
  | delete key grants =>
    obtain ⟨map', hrun, hrep⟩ :=
      hashmapDeleteWithHash_spec hkey h grants key (getHash cb key) hlen.le
    refine ⟨map', hrun.trans (congrArg (fun x => Except.ok (map', x)) hfound), ?_⟩
    rw [RepresentsItems, itemsAfter, ← erase_entry hresp]
    exact hrep

theorem runItems_spec (heqv : Equivalence fun a b => cb.equal a b = true) (hresp : cb.Respects)
    {calls : List (ItemCall α)} (h : RepresentsItems cb map items)
    (hsmall : ∀ k, ((calls.take k).foldl (itemsAfter cb.equal) items).length < 65535) :
    runItems cb map calls = .ok (itemAnswers cb.equal items calls) := by
  induction calls generalizing map items with
  | nil => rfl
  | cons c rest ih =>
    obtain ⟨map', hrun, hrep⟩ := itemCall_spec heqv hresp h (hsmall 0) c
    have hlater := ih hrep fun k => hsmall (k + 1)
    rw [runItems, hrun, ok_bind]
    change (runItems cb map' rest >>= fun later => .ok (_ :: later)) = _
    rw [hlater]
    rfl

end AcaBSim.HashMaps
