import AcaBSim.Machine
import Mathlib.Data.List.ReduceOption

/-!
The resizing array queue of queue.c. `items[size - 1]` is the front and
`items[0]` the back; a push shifts every item one cell up, a pop clears the
front cell and halves the array once it is less than half full. An access
outside the allocated cells stops the run.
-/
namespace AcaBSim.ArrayQueue

open Machine

/-- `items` holds the allocated cells, `none` for NULL or for memory that
`malloc` or `realloc` returned and nothing has written. -/
structure Queue (α : Type) where
  items : List (Option α)
  size : ℕ
  capacity : ℕ
deriving DecidableEq, Repr

variable {α : Type}

/-- `QUEUE_BASE_SIZE`. -/
def queueBaseSize : ℕ := 128

def readItem (items : List (Option α)) (i : ℕ) : Except Fault (Option α) :=
  match items[i]? with
  | some cell => .ok cell
  | none => .error .outOfBounds

def writeItem (items : List (Option α)) (i : ℕ) (cell : Option α) :
    Except Fault (List (Option α)) :=
  if i < items.length then .ok (items.set i cell) else .error .outOfBounds

/-- `realloc` to `capacity` cells: the common part is kept. -/
def reallocItems (items : List (Option α)) (capacity : ℕ) : List (Option α) :=
  items.take capacity ++ List.replicate (capacity - items.length) none

/-- The two flags say whether the `malloc` of the queue and that of its items
are served. -/
def queueInit (grantedQueue grantedItems : Bool) (capacity : ℕ) : Option (Queue α) :=
  if !grantedQueue then none
  else if !grantedItems then none
  else some { items := List.replicate capacity none, size := 0, capacity := capacity }

def queueSize (q : Queue α) : ℕ := q.size

def queueIsEmpty (q : Queue α) : Bool := q.size == 0

def queueResize (granted : Bool) (q : Queue α) (capacity : ℕ) : Bool × Queue α :=
  if granted then
    let resized := { q with items := reallocItems q.items capacity, capacity := capacity }
    (true, if resized.size > resized.capacity then { resized with size := capacity } else resized)
  else (false, q)

/-- The loop of `queue_push` from index `i` on, with `n` iterations left. -/
def shiftItems : ℕ → ℕ → Option α → List (Option α) → Except Fault (List (Option α))
  | 0, _, _, items => .ok items
  | n + 1, i, last, items => do
    let next ← readItem items i
    let items ← writeItem items i last
    shiftItems n (i + 1) next items

/-- The part of `queue_push` that shifts the array and stores the new item. -/
def pushBack (q : Queue α) (item : Option α) : Except Fault (Bool × Queue α) := do
  let last ← readItem q.items 0
  let items ← shiftItems q.size 1 last q.items
  let items ← writeItem items 0 item
  .ok (true, { q with items := items, size := wrapUnsigned (q.size + 1) })

/-- `granted` says whether the `realloc` of a full queue is served. -/
def queuePush (granted : Bool) (q : Queue α) (item : Option α) :
    Except Fault (Bool × Queue α) :=
  match item with
  | none => .ok (false, q)
  | some _ =>
    if q.size ≥ q.capacity then
      match queueResize granted q (wrapUnsigned (q.capacity * 2)) with
      | (false, q) => .ok (false, q)
      | (true, q) => pushBack q item
    else if queueIsEmpty q then do
      let items ← writeItem q.items 0 item
      .ok (true, { q with items := items, size := 1 })
    else pushBack q item

def queueTop (q : Queue α) : Except Fault (Option α) :=
  if !queueIsEmpty q then readItem q.items (q.size - 1) else .ok none

/-- The value of the shrinking `queue_resize` is ignored, as in the code. -/
def queuePop (granted : Bool) (q : Queue α) : Except Fault (Bool × Queue α) :=
  if queueIsEmpty q then .ok (false, q)
  else do
    let size := q.size - 1
    let items ← writeItem q.items size none
    let popped := { q with items := items, size := size }
    if popped.size < popped.capacity / 2 then
      .ok (true, (queueResize granted popped (popped.capacity / 2)).2)
    else .ok (true, popped)

structure QueueIterator (α : Type) where
  queue : Queue α
  index : ℕ
deriving DecidableEq, Repr

/-- `granted` says whether the `malloc` of the iterator is served. -/
def queueIteratorCreate (granted : Bool) (q : Queue α) : Option (QueueIterator α) :=
  if queueIsEmpty q then none
  else if !granted then none
  else some { queue := q, index := 0 }

def queueIteratorHasNext : Option (QueueIterator α) → Bool
  | none => false
  | some iterator => iterator.index < iterator.queue.size

def queueIteratorNext (iterator : Option (QueueIterator α)) :
    Except Fault (Option α × Option (QueueIterator α)) :=
  match iterator with
  | none => .ok (none, none)
  | some it =>
    if !queueIteratorHasNext (some it) then .ok (none, some it)
    else do
      let item ← readItem it.queue.items it.index
      .ok (item, some { it with index := it.index + 1 })

/-- The held items, oldest first: `items[size - 1], ..., items[0]`. -/
def contents (q : Queue α) : List α := ((q.items.take q.size).reduceOption).reverse

/-- A queue in the states its own operations produce from a positive capacity. -/
structure Queue.Valid (q : Queue α) : Prop where
  capacity_pos : 1 ≤ q.capacity
  size_le : q.size ≤ q.capacity
  length_items : q.items.length = q.capacity
  live : ∃ held : List α, q.items.take q.size = held.map some

private theorem reduceOption_map_some (l : List α) : (l.map some).reduceOption = l := by
  induction l with
  | nil => rfl
  | cons a l ih => rw [List.map_cons, List.reduceOption_cons_of_some, ih]

/-- The array of a queue in a state that stands for the list `l`, oldest first. -/
theorem represents_of_items {q : Queue α} {l : List α} {u : List (Option α)}
    (hitems : q.items = l.reverse.map some ++ u) (hsize : q.size = l.length)
    (hlength : q.items.length = q.capacity) (hcap : 1 ≤ q.capacity) :
    q.Valid ∧ contents q = l := by
  have hlen : (l.reverse.map some).length = q.size := by simp [hsize]
  have htake : q.items.take q.size = l.reverse.map some := by
    rw [hitems, ← hlen, List.take_left]
  refine ⟨⟨hcap, ?_, hlength, ⟨l.reverse, htake⟩⟩, ?_⟩
  · rw [← hlength, hitems, List.length_append, hlen]
    omega
  · rw [contents, htake, reduceOption_map_some, List.reverse_reverse]

namespace Queue.Valid

variable {q : Queue α}

theorem take_items (h : q.Valid) :
    q.items.take q.size = (contents q).reverse.map some := by
  obtain ⟨held, hheld⟩ := h.live
  rw [contents, hheld, reduceOption_map_some, List.reverse_reverse]

theorem items_eq (h : q.Valid) :
    q.items = (contents q).reverse.map some ++ q.items.drop q.size := by
  rw [← h.take_items, List.take_append_drop]

theorem length_contents (h : q.Valid) : (contents q).length = q.size := by
  have hlen := congrArg List.length h.take_items
  have hle : q.size ≤ q.items.length := h.length_items ▸ h.size_le
  simp only [List.length_take, List.length_map, List.length_reverse] at hlen
  omega

theorem isEmpty_iff (h : q.Valid) : queueIsEmpty q = true ↔ contents q = [] := by
  rw [queueIsEmpty, beq_iff_eq, ← h.length_contents, List.length_eq_zero_iff]

end Queue.Valid

theorem valid_of_queueInit {a b : Bool} {n : ℕ} {q : Queue α} (hn : 1 ≤ n)
    (h : queueInit a b n = some q) : q.Valid ∧ contents q = [] := by
  have hq : ({ items := List.replicate n none, size := 0, capacity := n } : Queue α) = q := by
    unfold queueInit at h
    split at h
    · cases h
    · split at h
      · cases h
      · exact Option.some.inj h
  subst hq
  exact represents_of_items (u := List.replicate n none) (by simp) rfl (by simp) hn

@[simp] theorem length_reallocItems (items : List (Option α)) (n : ℕ) :
    (reallocItems items n).length = n := by
  simp only [reallocItems, List.length_append, List.length_take, List.length_replicate]
  omega

theorem queueResize_length (q : Queue α) (n : ℕ) :
    (queueResize true q n).2.items.length = (queueResize true q n).2.capacity := by
  simp only [queueResize, if_true]
  split <;> exact length_reallocItems q.items n

theorem queueResize_valid {q : Queue α} (h : q.Valid) {n : ℕ} (hsize : q.size ≤ n)
    (hcap : 1 ≤ n) :
    ∃ q', queueResize true q n = (true, q') ∧ q'.Valid ∧
      contents q' = contents q ∧ q'.size = q.size ∧ q'.capacity = n := by
  have hle : q.size ≤ q.items.length := h.length_items ▸ h.size_le
  have hitems : reallocItems q.items n =
      (contents q).reverse.map some ++ (reallocItems q.items n).drop q.size := by
    have htake : (reallocItems q.items n).take q.size =
        (contents q).reverse.map some := by
      rw [reallocItems, List.take_append_of_le_length (by simp; omega), List.take_take,
        Nat.min_eq_left hsize, h.take_items]
    rw [← htake, List.take_append_drop]
  refine ⟨{ q with items := reallocItems q.items n, capacity := n }, ?_, ?_⟩
  · simp only [queueResize, if_true]
    rw [if_neg (by simpa using hsize)]
  · obtain ⟨hvalid, hcontents⟩ := represents_of_items
      (q := { q with items := reallocItems q.items n, capacity := n })
      hitems h.length_contents.symm (length_reallocItems q.items n) hcap
    exact ⟨hvalid, hcontents, rfl, rfl⟩

theorem readItem_append {l r : List (Option α)} {c : Option α} {i : ℕ} (hi : l.length = i) :
    readItem (l ++ c :: r) i = .ok c := by
  subst hi
  simp [readItem]

theorem writeItem_append {l r : List (Option α)} {c d : Option α} {i : ℕ} (hi : l.length = i) :
    writeItem (l ++ d :: r) i c = .ok (l ++ c :: r) := by
  subst hi
  simp [writeItem]

/-- The shifting loop moves the block above `pre` one cell up and drops its last cell. -/
theorem shiftItems_block (block : List (Option α)) (pre post : List (Option α))
    (last : Option α) (i : ℕ) (hi : pre.length = i) :
    shiftItems block.length i last (pre ++ block ++ post) =
      .ok (pre ++ (last :: block).take block.length ++ post) := by
  induction block generalizing pre last i with
  | nil => simp [shiftItems]
  | cons cell rest ih =>
    have hnext := ih (pre ++ [last]) cell (i + 1) (by simp [hi])
    simp only [List.append_assoc, List.cons_append, List.nil_append] at hnext
    simp only [List.length_cons, shiftItems, List.append_assoc, List.cons_append]
    rw [readItem_append hi]
    simp only [Bind.bind, Except.bind]
    rw [writeItem_append hi]
    simpa using hnext

theorem pushBack_valid {q : Queue α} (h : q.Valid) (hroom : q.size < q.capacity)
    (hsize : q.size + 1 < 2 ^ 32) (a : α) :
    ∃ q', pushBack q (some a) = .ok (true, q') ∧ q'.Valid ∧
      contents q' = contents q ++ [a] := by
  have hlen : ((contents q).reverse.map some).length = q.size := by
    simp [h.length_contents]
  -- the cell above the live ones exists, since the array is not full
  obtain ⟨next, post, hpost⟩ : ∃ next post, q.items.drop q.size = next :: post := by
    cases hdrop : q.items.drop q.size with
    | nil =>
      have hle := List.drop_eq_nil_iff.mp hdrop
      have hitems := h.length_items
      omega
    | cons next post => exact ⟨next, post, rfl⟩
  have hitems : q.items = ((contents q).reverse.map some ++ [next]) ++ post := by
    rw [h.items_eq, hpost]
    simp
  obtain ⟨first, block, hblock⟩ :
      ∃ first block, (contents q).reverse.map some ++ [next] = first :: block := by
    cases hcells : (contents q).reverse.map some ++ [next] with
    | nil => simp at hcells
    | cons first block => exact ⟨first, block, rfl⟩
  have hcount : block.length = q.size := by
    have hlength := congrArg List.length hblock
    simp only [List.length_append, hlen, List.length_cons, List.length_nil] at hlength
    omega
  have hshift := shiftItems_block block [first] post first 1 rfl
  have hcells : (first :: block).take block.length = (contents q).reverse.map some := by
    rw [← hblock, hcount, ← hlen, List.take_left]
  refine ⟨{ q with items := some a :: ((contents q).reverse.map some ++ post),
                   size := q.size + 1 }, ?_, ?_⟩
  · rw [hcells, hcount] at hshift
    have hread : readItem q.items 0 = .ok first := by
      rw [hitems, hblock]
      rfl
    have hloop : shiftItems q.size 1 first q.items =
        .ok (first :: ((contents q).reverse.map some ++ post)) := by
      rw [hitems, hblock]
      simpa using hshift
    simp only [pushBack, hread, hloop, Bind.bind, Except.bind]
    rw [wrapUnsigned_of_lt hsize]
    simp [writeItem]
  · apply represents_of_items (u := post)
    · simp
    · simp [h.length_contents]
    · have hlength := congrArg List.length hitems
      rw [h.length_items] at hlength
      simp only [List.length_append, List.length_cons, List.length_nil] at hlength ⊢
      omega
    · exact h.capacity_pos

/-- A full queue whose `realloc` is refused is left as it was. -/
theorem queuePush_refused {q : Queue α} (hfull : q.capacity ≤ q.size) (a : α) :
    queuePush false q (some a) = .ok (false, q) := by
  simp [queuePush, queueResize, hfull]

/-- A queue with room, or one that can still double its capacity, takes the item. -/
theorem queuePush_room {q : Queue α} (h : q.Valid) (hsize : q.size + 1 < 2 ^ 32)
    {granted : Bool} (hroom : q.size < q.capacity ∨ granted = true ∧ q.capacity < 2 ^ 31)
    (a : α) :
    ∃ q', queuePush granted q (some a) = .ok (true, q') ∧ q'.Valid ∧
      contents q' = contents q ++ [a] := by
  by_cases hfull : q.capacity ≤ q.size
  · obtain ⟨hgranted, hdoubles⟩ := hroom.resolve_left (not_lt.mpr hfull)
    have hle := h.size_le
    have hdouble : wrapUnsigned (q.capacity * 2) = q.capacity * 2 :=
      wrapUnsigned_of_lt (by omega)
    have hcap := h.capacity_pos
    obtain ⟨grown, hgrown, hvalid, hcontents, hsame, hcapacity⟩ :=
      queueResize_valid h (n := q.capacity * 2) (by omega) (by omega)
    obtain ⟨q', hpush, hvalid', hcontents'⟩ :=
      pushBack_valid hvalid (by omega) (by omega) a
    refine ⟨q', ?_, hvalid', by rw [hcontents', hcontents]⟩
    simp only [queuePush, ge_iff_le, if_pos hfull, hgranted, hdouble, hgrown]
    exact hpush
  · have hlt : q.size < q.capacity := not_le.mp hfull
    by_cases hempty : queueIsEmpty q = true
    · have hnil := h.isEmpty_iff.mp hempty
      have hzero : q.size = 0 := by simpa [queueIsEmpty] using hempty
      obtain ⟨cell, rest, hitems⟩ : ∃ cell rest, q.items = cell :: rest := by
        cases hq : q.items with
        | nil =>
          have hlength := h.length_items
          simp only [hq, List.length_nil] at hlength
          omega
        | cons cell rest => exact ⟨cell, rest, rfl⟩
      refine ⟨{ q with items := some a :: rest, size := 1 }, ?_, ?_⟩
      · simp [queuePush, not_le.mpr hlt, hempty, writeItem, hitems, Bind.bind, Except.bind]
      · apply represents_of_items (u := rest)
        · simp [hnil]
        · simp [hnil]
        · simpa [hitems] using h.length_items
        · exact h.capacity_pos
    · obtain ⟨q', hpush, hvalid', hcontents'⟩ := pushBack_valid h hlt hsize a
      refine ⟨q', ?_, hvalid', hcontents'⟩
      simp only [queuePush, ge_iff_le, if_neg hfull, if_neg hempty]
      exact hpush

theorem queuePush_valid {q : Queue α} (h : q.Valid) (hsize : q.size < 2 ^ 31)
    {granted : Bool} (hroom : q.size < q.capacity ∨ granted = true) (a : α) :
    ∃ q', queuePush granted q (some a) = .ok (true, q') ∧ q'.Valid ∧
      contents q' = contents q ++ [a] := by
  refine queuePush_room h (by omega) ?_ a
  by_cases hfull : q.capacity ≤ q.size
  · exact Or.inr ⟨hroom.resolve_left (not_lt.mpr hfull), by omega⟩
  · exact Or.inl (not_le.mp hfull)

/-- A push appends the item, or leaves a full queue as it was. -/
theorem queuePush_cases {q : Queue α} (h : q.Valid) (hsize : q.size < 2 ^ 31) (granted : Bool)
    (a : α) :
    (∃ q', queuePush granted q (some a) = .ok (true, q') ∧ q'.Valid ∧
      contents q' = contents q ++ [a]) ∨
    (queuePush granted q (some a) = .ok (false, q) ∧ q.capacity ≤ q.size ∧ granted = false) := by
  by_cases hroom : q.size < q.capacity ∨ granted = true
  · exact Or.inl (queuePush_valid h hsize hroom a)
  · rw [not_or, not_lt, Bool.not_eq_true] at hroom
    obtain ⟨hfull, rfl⟩ := hroom
    exact Or.inr ⟨queuePush_refused hfull a, hfull, rfl⟩

theorem queueTop_valid {q : Queue α} (h : q.Valid) :
    queueTop q = .ok (contents q).head? := by
  by_cases hempty : queueIsEmpty q = true
  · simp [queueTop, hempty, h.isEmpty_iff.mp hempty]
  · obtain ⟨a, rest, hcons⟩ := List.exists_cons_of_ne_nil
      (fun hnil => hempty (h.isEmpty_iff.mpr hnil))
    have hlen := h.length_contents
    have hitems : q.items = rest.reverse.map some ++ some a :: q.items.drop q.size := by
      conv_lhs => rw [h.items_eq, hcons]
      simp
    rw [hcons, List.length_cons] at hlen
    have hread := readItem_append (l := rest.reverse.map some) (c := some a)
      (r := q.items.drop q.size) (i := q.size - 1) (by simp; omega)
    rw [← hitems] at hread
    simp [queueTop, hempty, hread, hcons]

theorem queuePop_empty {q : Queue α} (h : q.Valid) (hnil : contents q = [])
    (granted : Bool) : queuePop granted q = .ok (false, q) := by
  simp [queuePop, h.isEmpty_iff.mpr hnil]

theorem queuePop_valid {q : Queue α} (h : q.Valid) {a : α} {rest : List α}
    (hcons : contents q = a :: rest) (granted : Bool) :
    ∃ q', queuePop granted q = .ok (true, q') ∧ q'.Valid ∧ contents q' = rest := by
  have hempty : ¬ queueIsEmpty q = true := by
    rw [h.isEmpty_iff, hcons]
    simp
  have hlen := h.length_contents
  rw [hcons, List.length_cons] at hlen
  have hitems : q.items = rest.reverse.map some ++ some a :: q.items.drop q.size := by
    conv_lhs => rw [h.items_eq, hcons]
    simp
  have hwrite := writeItem_append (l := rest.reverse.map some) (d := some a)
    (c := none) (r := q.items.drop q.size) (i := q.size - 1) (by simp; omega)
  rw [← hitems] at hwrite
  obtain ⟨hvalid, hcontents⟩ := represents_of_items (l := rest)
    (q := { q with items := rest.reverse.map some ++ none :: q.items.drop q.size,
                   size := q.size - 1 })
    (u := none :: q.items.drop q.size) rfl (by simp; omega)
    (by rw [← h.length_items]; conv_rhs => rw [hitems]
        simp) h.capacity_pos
  simp only [queuePop, if_neg hempty, hwrite, Bind.bind, Except.bind]
  split
  · rename_i hshrink
    cases granted with
    | false => exact ⟨_, rfl, hvalid, hcontents⟩
    | true =>
      obtain ⟨q', hresize, hvalid', hcontents', -, -⟩ :=
        queueResize_valid hvalid hshrink.le (by omega)
      exact ⟨q', by rw [hresize], hvalid', hcontents'.trans hcontents⟩
  · exact ⟨_, rfl, hvalid, hcontents⟩

end AcaBSim.ArrayQueue
