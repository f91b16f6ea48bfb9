import AcaBSim.QueueGrowth

/-!
Which calls keep to the array. Every access to `items` is listed together with
the capacity at that moment, and a call returns exactly if its accesses are in
bounds. With memory for every request a sequence of calls keeps to the array as
long as its pushes and pops find at least one cell and none of its pushes finds
a full array of 2^31 cells or more.
-/
namespace AcaBSim.QueueBounds

open Machine ArrayQueue QueueRefinement QueueGrowth

variable {α : Type} {q : Queue α} {a : α}

/-- One read or write of `items`. -/
structure Access where
  index : ℕ
  capacity : ℕ
deriving DecidableEq, Repr

def Access.InBounds (x : Access) : Prop := x.index < x.capacity

/-- The loop of `queue_push` from index `i` on reads and writes each cell once. -/
def shiftIndices : ℕ → ℕ → List ℕ
  | 0, _ => []
  | n + 1, i => i :: i :: shiftIndices n (i + 1)

/-- The loop starts from what `items[0]` holds, and the new item is written there. -/
def pushBackAccesses (q : Queue α) : List Access :=
  (0 :: (shiftIndices q.size 1 ++ [0])).map fun i => ⟨i, q.capacity⟩

/-- A push to a full queue touches the array only after its `realloc`. -/
def pushAccesses (q : Queue α) : List Access :=
  if q.size ≥ q.capacity then
    pushBackAccesses (queueResize true q (wrapUnsigned (q.capacity * 2))).2
  else if queueIsEmpty q then [⟨0, q.capacity⟩]
  else pushBackAccesses q

def topAccesses (q : Queue α) : List Access :=
  if queueIsEmpty q then [] else [⟨q.size - 1, q.capacity⟩]

/-- A pop clears the front cell before its `realloc`. -/
def popAccesses (q : Queue α) : List Access :=
  if queueIsEmpty q then [] else [⟨q.size - 1, q.capacity⟩]

theorem readItem_returns_iff (items : List (Option α)) (i : ℕ) :
    (∃ cell, readItem items i = .ok cell) ↔ i < items.length := by
  by_cases hi : i < items.length <;> simp [readItem, hi]

theorem writeItem_returns_iff (items : List (Option α)) (i : ℕ) (cell : Option α) :
    (∃ written, writeItem items i cell = .ok written) ↔ i < items.length := by
  by_cases hi : i < items.length <;> simp [writeItem, hi]

theorem shiftItems_returns_iff (n i : ℕ) (last : Option α) (items : List (Option α)) :
    (∃ shifted, shiftItems n i last items = .ok shifted) ↔
      ∀ j ∈ shiftIndices n i, j < items.length := by
  induction n generalizing i last items with
  | zero => simp [shiftItems, shiftIndices]
  | succ n ih =>
    by_cases hi : i < items.length
    · rw [shiftItems_step hi, ih, List.length_set]
      simp [shiftIndices, hi]
    · rw [shiftItems_stop (not_lt.mp hi)]
      simp [shiftIndices, hi]

theorem length_shiftItems {n i : ℕ} {last : Option α} {items shifted : List (Option α)}
    (h : shiftItems n i last items = .ok shifted) : shifted.length = items.length := by
  induction n generalizing i last items with
  | zero =>
    cases h
    rfl
  | succ n ih =>
    by_cases hi : i < items.length
    · rw [shiftItems_step hi] at h
      rw [ih h, List.length_set]
    · rw [shiftItems_stop (not_lt.mp hi)] at h
      cases h

theorem pushBackAccesses_inBounds_iff (q : Queue α) :
    (∀ x ∈ pushBackAccesses q, x.InBounds) ↔
      0 < q.capacity ∧ ∀ j ∈ shiftIndices q.size 1, j < q.capacity := by
  simp only [pushBackAccesses, Access.InBounds, List.forall_mem_map, List.forall_mem_cons,
    List.forall_mem_append]
  constructor
  · rintro ⟨hfirst, hloop, -⟩
    exact ⟨hfirst, hloop⟩
  · rintro ⟨hfirst, hloop⟩
    exact ⟨hfirst, hloop, hfirst, List.forall_mem_nil _⟩

/-- The shifting part of a push returns exactly if it keeps to the array. -/
theorem pushBack_returns_iff (hlength : q.items.length = q.capacity) (item : Option α) :
    (∃ r, pushBack q item = .ok r) ↔ ∀ x ∈ pushBackAccesses q, x.InBounds := by
  rw [pushBackAccesses_inBounds_iff]
  cases hitems : q.items with
  | nil =>
    rw [hitems, List.length_nil] at hlength
    simp [pushBack, readItem, hitems, ← hlength, Bind.bind, Except.bind]
  | cons first rest =>
    have hread : readItem q.items 0 = .ok first := by
      rw [hitems]
      rfl
    have hpos : 0 < q.items.length := by
      rw [hitems]
      exact Nat.succ_pos _
    rw [← hlength, ← shiftItems_returns_iff q.size 1 first]
    cases hshift : shiftItems q.size 1 first q.items with
    | error e => simp [pushBack, hread, hshift, Bind.bind, Except.bind]
    | ok shifted =>
      have hwrite := length_shiftItems hshift ▸ hpos
      simp [pushBack, writeItem, hread, hshift, hwrite, hpos, Bind.bind, Except.bind]

theorem queuePush_returns_iff (hlength : q.items.length = q.capacity) (a : α) :
    (∃ r, queuePush true q (some a) = .ok r) ↔ ∀ x ∈ pushAccesses q, x.InBounds := by
  by_cases hfull : q.size ≥ q.capacity
  · have hresized := queueResize_length q (wrapUnsigned (q.capacity * 2))
    simp only [queuePush, pushAccesses, if_pos hfull]
    rw [← pushBack_returns_iff hresized (some a)]
    rfl
  · by_cases hempty : queueIsEmpty q = true
    · rw [pushAccesses, if_neg hfull, if_pos hempty, List.forall_mem_singleton]
      simp only [queuePush, if_neg hfull, if_pos hempty]
      have hpos : 0 < q.items.length := by omega
      simp [writeItem, Access.InBounds, hpos, hlength ▸ hpos, Bind.bind, Except.bind]
    · simp only [queuePush, pushAccesses, if_neg hfull, if_neg hempty]
      exact pushBack_returns_iff hlength (some a)

theorem queueTop_returns_iff (hlength : q.items.length = q.capacity) :
    (∃ r, queueTop q = .ok r) ↔ ∀ x ∈ topAccesses q, x.InBounds := by
  by_cases hempty : queueIsEmpty q = true
  · simp [queueTop, topAccesses, hempty]
  · rw [topAccesses, if_neg hempty, List.forall_mem_singleton, Access.InBounds, ← hlength,
      ← readItem_returns_iff]
    simp [queueTop, hempty]

theorem queuePop_returns_iff (hlength : q.items.length = q.capacity) :
    (∃ r, queuePop true q = .ok r) ↔ ∀ x ∈ popAccesses q, x.InBounds := by
  by_cases hempty : queueIsEmpty q = true
  · simp [queuePop, popAccesses, hempty]
  · rw [popAccesses, if_neg hempty, List.forall_mem_singleton, Access.InBounds, ← hlength,
      ← writeItem_returns_iff q.items (q.size - 1) none]
    simp only [queuePop, if_neg hempty]
    cases hwrite : writeItem q.items (q.size - 1) none with
    | error e => simp [Bind.bind, Except.bind]
    | ok items =>
      simp only [Bind.bind, Except.bind]
      split <;> simp

/-- One call, with every request for memory granted. -/
def grantedCall (q : Queue α) (op : Fifo.Op α) : Except Fault (Fifo.Response α × Queue α) :=
  queueOp q true op

/-- A call keeps to the array, a push is accepted and leaves the size within the
capacity, and a pop leaves at least one cell. -/
def CallInBounds (q : Queue α) : Fifo.Op α → Prop
  | .push a => (∀ x ∈ pushAccesses q, x.InBounds) ∧
      ∃ q', queuePush true q (some a) = .ok (true, q') ∧ q'.size ≤ q'.capacity
  | .pop => (∀ x ∈ popAccesses q, x.InBounds) ∧
      ∃ removed q', queuePop true q = .ok (removed, q') ∧ 1 ≤ q'.capacity
  | .top => ∀ x ∈ topAccesses q, x.InBounds
  | .size => True
  | .isEmpty => True

/-- A push finds a free cell or a capacity that doubling enlarges, a pop at
least one cell. -/
def CellsSuffice (q : Queue α) : Fifo.Op α → Prop
  | .push _ => q.size < q.capacity ∨ 1 ≤ q.capacity ∧ q.capacity < 2 ^ 31
  | .pop => 1 ≤ q.capacity
  | .top => True
  | .size => True
  | .isEmpty => True

instance (q : Queue α) (op : Fifo.Op α) : Decidable (CellsSuffice q op) :=
  match op with
  | .push _ => inferInstanceAs (Decidable (_ ∨ _))
  | .pop => inferInstanceAs (Decidable (_ ≤ _))
  | .top => isTrue trivial
  | .size => isTrue trivial
  | .isEmpty => isTrue trivial

/-- What `queue_init (0)` makes. -/
def noCells : Queue α := { items := [], size := 0, capacity := 0 }

/-- Twice no capacity is none, so the push reads `items[0]` of an empty array. -/
theorem queuePush_noCells (a : α) : queuePush true noCells (some a) = .error .outOfBounds := rfl

theorem not_cellsSuffice_push (a : α) : ¬ CellsSuffice noCells (.push a) := by
  rintro (hfree | ⟨hpos, -⟩)
  · exact lt_irrefl 0 hfree
  · exact Nat.not_succ_le_zero 0 hpos

theorem not_cellsSuffice_pop : ¬ CellsSuffice (noCells : Queue α) .pop :=
  Nat.not_succ_le_zero 0

theorem callInBounds_noCells (op : Fifo.Op α) :
    CallInBounds noCells op ↔ CellsSuffice noCells op := by
  cases op with
  | push a =>
    refine iff_of_false ?_ (not_cellsSuffice_push a)
    rintro ⟨-, q', hpush, -⟩
    rw [queuePush_noCells] at hpush
    cases hpush
  | pop =>
    refine iff_of_false ?_ not_cellsSuffice_pop
    rintro ⟨-, removed, q', hpop, hpos⟩
    cases hpop
    exact Nat.not_succ_le_zero 0 hpos
  | top => simp [CallInBounds, CellsSuffice, topAccesses, queueIsEmpty, noCells]
  | size => exact Iff.rfl
  | isEmpty => exact Iff.rfl

theorem callInBounds_iff (h : InRange q) (op : Fifo.Op α) :
    CallInBounds q op ↔ CellsSuffice q op := by
  have hcap := h.valid.capacity_pos
  have hlength := h.valid.length_items
  cases op with
  | push a =>
    have hroom : CellsSuffice q (.push a) ↔ HasRoom true q := by
      simp [CellsSuffice, HasRoom, hcap]
    rw [hroom]
    constructor
    · rintro ⟨-, q', hpush, -⟩
      by_contra hfull
      rw [h.push_error hfull] at hpush
      cases hpush
    · intro hroom
      rcases h.push_cases true a with ⟨-, q', hpush, hrange, -⟩ | ⟨hfull, -⟩
      · exact ⟨(queuePush_returns_iff hlength a).mp ⟨_, hpush⟩, q', hpush, hrange.valid.size_le⟩
      · exact absurd hroom hfull
  | pop =>
    refine iff_of_true ?_ hcap
    obtain ⟨removed, q', hpop, hvalid⟩ :
        ∃ removed q', queuePop true q = .ok (removed, q') ∧ q'.Valid := by
      cases hcontents : contents q with
      | nil => exact ⟨false, q, queuePop_empty h.valid hcontents true, h.valid⟩
      | cons a rest =>
        obtain ⟨q', hpop, hvalid, -⟩ := queuePop_valid h.valid hcontents true
        exact ⟨true, q', hpop, hvalid⟩
    exact ⟨(queuePop_returns_iff hlength).mp ⟨_, hpop⟩, removed, q', hpop, hvalid.capacity_pos⟩
  | top =>
    exact iff_of_true ((queueTop_returns_iff hlength).mp ⟨_, queueTop_valid h.valid⟩) trivial
  | size => exact Iff.rfl
  | isEmpty => exact Iff.rfl

/-- A queue without cells in which no push or pop is made stays as it is. -/
theorem grantedCall_noCells {op : Fifo.Op α} {r : Fifo.Response α}
    (hcells : CellsSuffice noCells op) (hcall : grantedCall noCells op = .ok (r, q)) :
    q = noCells := by
  rcases queueOp_cases hcall with ⟨a, accepted, rfl, -⟩ | ⟨removed, rfl, -⟩ | hsame
  · exact absurd hcells (not_cellsSuffice_push a)
  · exact absurd hcells not_cellsSuffice_pop
  · exact hsame

/-- The queue that `queue_init` returns has no cells or a capacity in range. -/
theorem noCells_or_inRange {capacity : ℕ} (hlt : capacity < 2 ^ 32) {q₀ : Queue α}
    (hinit : queueInit true true capacity = some q₀) : q₀ = noCells ∨ InRange q₀ := by
  rcases Nat.eq_zero_or_pos capacity with rfl | hpos
  · cases hinit
    exact Or.inl rfl
  · exact Or.inr (inRange_of_queueInit hpos hlt hinit)

/-- The run rule: the calls of a sequence keep to the array as long as they
find cells enough. -/
theorem atEachCall_inBounds_iff (hq : q = noCells ∨ InRange q) (ops : List (Fifo.Op α)) :
    Fifo.AtEachCall grantedCall CallInBounds q ops ↔
      Fifo.AtEachCall grantedCall CellsSuffice q ops := by
  refine Fifo.atEachCall_iff (fun q => q = noCells ∨ InRange q) ?_ ?_ hq ops
  · rintro q op (rfl | hrange)
    · exact callInBounds_noCells op
    · exact callInBounds_iff hrange op
  · rintro q op r q' (rfl | hrange) hcells hcall
    · exact Or.inl (grantedCall_noCells hcells hcall)
    · exact Or.inr (hrange.queueOp hcall)

/-- Whatever the capacity, a sequence of calls keeps to the array if and only if
its pushes and pops all find cells enough. -/
theorem queueCalls_inBounds_iff (capacity : ℕ) (hlt : capacity < 2 ^ 32) (q₀ : Queue α)
    (hinit : queueInit true true capacity = some q₀) (ops : List (Fifo.Op α)) :
    Fifo.AtEachCall grantedCall CallInBounds q₀ ops ↔
      Fifo.AtEachCall grantedCall CellsSuffice q₀ ops :=
  atEachCall_inBounds_iff (noCells_or_inRange hlt hinit) ops

/-- From one cell on: two pushes double the capacity, two pops halve it again,
and the last pop finds the queue empty. -/
theorem queueCalls_inBounds_from_one_cell :
    Fifo.AtEachCall grantedCall CallInBounds { items := [none], size := 0, capacity := 1 }
      [.push 7, .push 8, .push 9, .top, .pop, .pop, .pop, .pop] := by
  apply (queueCalls_inBounds_iff 1 (by decide) { items := [none], size := 0, capacity := 1 }
    rfl _).mpr
  decide

/-- A queue made with capacity 0: the first push reads and writes `items[0]`
of no cells, and a pop leaves the capacity at 0. -/
theorem queueCalls_without_cells :
    queueInit true true 0 = some (noCells : Queue ℕ) ∧
      pushAccesses (noCells : Queue ℕ) = [⟨0, 0⟩, ⟨0, 0⟩] ∧
      queuePush true noCells (some 7) = .error .outOfBounds ∧
      ¬ Fifo.AtEachCall grantedCall CallInBounds noCells [.push 7] ∧
      queuePop true noCells = .ok (false, (noCells : Queue ℕ)) ∧
      ¬ Fifo.AtEachCall grantedCall CallInBounds (noCells : Queue ℕ) [.pop] := by
  refine ⟨rfl, rfl, rfl, ?_, rfl, ?_⟩
  · rintro ⟨hpush, -⟩
    exact not_cellsSuffice_push 7 ((callInBounds_noCells _).mp hpush)
  · rintro ⟨hpop, -⟩
    exact not_cellsSuffice_pop ((callInBounds_noCells _).mp hpop)

/-- A push that keeps to the array adds one item. -/
theorem grantedCall_push (h : InRange q) (hcells : CellsSuffice q (.push a)) :
    ∃ q', grantedCall q (.push a) = .ok (.pushed true, q') ∧ InRange q' ∧
      q'.size = q.size + 1 := by
  obtain ⟨-, q', hpush, -⟩ := (callInBounds_iff h _).mpr hcells
  rcases h.push_cases true a with ⟨-, q'', hpush', hrange, hcontents⟩ | ⟨-, hpush' | hpush'⟩
  · refine ⟨q'', queueOp_push hpush', hrange, ?_⟩
    rw [← hrange.valid.length_contents, hcontents, List.length_append,
      h.valid.length_contents, List.length_singleton]
  · rw [hpush'] at hpush
    cases hpush
  · rw [hpush'] at hpush
    cases hpush

/-- Pushes that keep to the array leave their number of items below 2^32. -/
theorem pushes_lt (h : InRange q) {n : ℕ}
    (hpushes : Fifo.AtEachCall grantedCall CellsSuffice q (List.replicate n (.push a))) :
    q.size + n < 2 ^ 32 := by
  induction n generalizing q with
  | zero => exact h.valid.size_le.trans_lt h.capacity_lt
  | succ n ih =>
    obtain ⟨hcells, hrest⟩ := hpushes
    obtain ⟨q', hcall, hrange, hsize⟩ := grantedCall_push h hcells
    have hlt := ih hrange (hrest _ q' hcall)
    omega

/-- No capacity is proof against every sequence: 2^32 pushes leave the array. -/
theorem pushes_not_inBounds {capacity : ℕ} (hlt : capacity < 2 ^ 32) {q₀ : Queue α}
    (hinit : queueInit true true capacity = some q₀) {n : ℕ} (hn : 2 ^ 32 ≤ n) (a : α) :
    ¬ Fifo.AtEachCall grantedCall CallInBounds q₀ (List.replicate n (.push a)) := by
  have hstart := noCells_or_inRange hlt hinit
  rw [atEachCall_inBounds_iff hstart]
  intro hpushes
  rcases hstart with rfl | hrange
  · obtain ⟨n, rfl⟩ := Nat.exists_eq_succ_of_ne_zero (show n ≠ 0 by omega)
    exact not_cellsSuffice_push a hpushes.1
  · have hbound := pushes_lt hrange hpushes
    omega

/-- Only a push makes the queue longer, by one item. -/
theorem grantedCall_size_le (h : InRange q) {op : Fifo.Op α} {r : Fifo.Response α}
    {q' : Queue α} (hcells : CellsSuffice q op) (hcall : grantedCall q op = .ok (r, q')) :
    q'.size ≤ q.size + if op.isPush then 1 else 0 := by
  rcases queueOp_cases hcall with ⟨a, accepted, rfl, -⟩ | ⟨removed, rfl, hpop⟩ | rfl
  · obtain ⟨q'', hcall', -, hsize⟩ := grantedCall_push h hcells
    rw [hcall'] at hcall
    cases hcall
    exact hsize.le
  · refine le_trans ?_ (Nat.le_add_right _ _)
    cases hcontents : contents q with
    | nil =>
      rw [queuePop_empty h.valid hcontents] at hpop
      cases hpop
      exact le_refl _
    | cons a rest =>
      obtain ⟨q'', hpop', hvalid, hrest⟩ := queuePop_valid h.valid hcontents true
      rw [hpop'] at hpop
      cases hpop
      rw [← hvalid.length_contents, hrest, ← h.valid.length_contents, hcontents]
      exact Nat.le_succ _
  · exact Nat.le_add_right _ _

/-- A queue in range has cells enough for pushes up to 2^31 items. -/
theorem cellsSuffice_of_pushes_le (h : InRange q) {ops : List (Fifo.Op α)}
    (hfew : q.size + ops.countP Fifo.Op.isPush ≤ 2 ^ 31) :
    Fifo.AtEachCall grantedCall CellsSuffice q ops := by
  induction ops generalizing q with
  | nil => trivial
  | cons op rest ih =>
    rw [List.countP_cons] at hfew
    have hcells : CellsSuffice q op := by
      have hcap := h.valid.capacity_pos
      cases op with
      | push a =>
        simp only [Fifo.Op.isPush, if_true] at hfew
        unfold CellsSuffice
        omega
      | pop => exact hcap
      | top => trivial
      | size => trivial
      | isEmpty => trivial
    refine ⟨hcells, fun r q' hcall => ih (h.queueOp hcall) ?_⟩
    have hsize := grantedCall_size_le h hcells hcall
    omega

/-- From every positive capacity on, sequences with up to 2^31 pushes keep to
the array, whatever they pop in between. -/
theorem calls_inBounds_of_pushes_le {capacity : ℕ} (hpos : 1 ≤ capacity)
    (hlt : capacity < 2 ^ 32) {q₀ : Queue α} (hinit : queueInit true true capacity = some q₀)
    {ops : List (Fifo.Op α)} (hfew : ops.countP Fifo.Op.isPush ≤ 2 ^ 31) :
    Fifo.AtEachCall grantedCall CallInBounds q₀ ops := by
  have hrange : InRange q₀ := inRange_of_queueInit hpos hlt hinit
  have hempty : q₀.size = 0 := by
    cases hinit
    rfl
  rw [atEachCall_inBounds_iff (Or.inr hrange)]
  apply cellsSuffice_of_pushes_le hrange
  rwa [hempty, Nat.zero_add]

end AcaBSim.QueueBounds
