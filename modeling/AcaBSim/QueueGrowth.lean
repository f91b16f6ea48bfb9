import AcaBSim.QueueRefinement

/-!
The array queue up to the limit of its `unsigned` capacity. A full queue of
2^31 cells or more cannot double: the product wraps, the resize cuts the array
and the shifting loop runs out of it. Short of that every call that returns
leaves a queue in good order, however many items it holds.
-/
namespace AcaBSim.QueueGrowth

open Machine ArrayQueue QueueRefinement

variable {α : Type} {q q' : Queue α} {granted accepted : Bool} {a : α}

theorem shiftItems_step {n i : ℕ} {items : List (Option α)} (hi : i < items.length)
    (last : Option α) :
    shiftItems (n + 1) i last items = shiftItems n (i + 1) items[i] (items.set i last) := by
  simp [shiftItems, readItem, writeItem, hi, Bind.bind, Except.bind]

theorem shiftItems_stop {n i : ℕ} {items : List (Option α)} (hi : items.length ≤ i)
    (last : Option α) : shiftItems (n + 1) i last items = .error .outOfBounds := by
  have hread : items[i]? = none := List.getElem?_eq_none hi
  simp [shiftItems, readItem, hread, Bind.bind, Except.bind]

/-- The shifting loop stops at the first cell that does not exist. -/
theorem shiftItems_outOfBounds {n i : ℕ} {last : Option α} {items : List (Option α)}
    (hn : 0 < n) (hlen : items.length < i + n) :
    shiftItems n i last items = .error .outOfBounds := by
  induction n generalizing i last items with
  | zero => exact absurd hn (lt_irrefl 0)
  | succ n ih =>
    by_cases hi : i < items.length
    · rw [shiftItems_step hi]
      apply ih (by omega)
      rw [List.length_set]
      omega
    · exact shiftItems_stop (not_lt.mp hi) last

/-- A push that resizes a full queue to fewer cells runs out of them. -/
theorem pushBack_outOfBounds {n : ℕ} (hlen : q.items.length = n) (hsize : q.size = n) (a : α) :
    pushBack q (some a) = .error .outOfBounds := by
  cases hitems : q.items with
  | nil => simp [pushBack, readItem, hitems, Bind.bind, Except.bind]
  | cons last rest =>
    rw [hitems, List.length_cons] at hlen
    have hloop : shiftItems q.size 1 last q.items = .error .outOfBounds := by
      apply shiftItems_outOfBounds (by omega)
      rw [hitems, List.length_cons]
      omega
    have hread : readItem q.items 0 = .ok last := by
      rw [hitems]
      rfl
    simp only [pushBack, hread, hloop, Bind.bind, Except.bind]

/-- At 2^31 cells the doubled capacity wraps below the size. -/
theorem queuePush_overgrown (hfull : q.capacity ≤ q.size)
    (hlow : 2 ^ 31 ≤ q.capacity) (hhigh : q.capacity < 2 ^ 32) (a : α) :
    queuePush true q (some a) = .error .outOfBounds := by
  obtain ⟨cells, hcells⟩ : ∃ cells, wrapUnsigned (q.capacity * 2) = cells := ⟨_, rfl⟩
  have hcut : cells < q.size := by
    unfold wrapUnsigned at hcells
    omega
  simp only [queuePush, ge_iff_le, if_pos hfull, hcells, queueResize,
    gt_iff_lt, if_pos hcut]
  exact pushBack_outOfBounds (length_reallocItems q.items cells) rfl a

/-- The states of a queue whose capacity is an `unsigned`. -/
structure InRange (q : Queue α) : Prop where
  valid : q.Valid
  capacity_lt : q.capacity < 2 ^ 32

/-- A free cell, or memory for twice as many. -/
def HasRoom (granted : Bool) (q : Queue α) : Prop :=
  q.size < q.capacity ∨ granted = true ∧ q.capacity < 2 ^ 31

theorem pushBack_capacity {item : Option α} (h : pushBack q item = .ok (accepted, q')) :
    q'.capacity = q.capacity := by
  simp only [pushBack, Bind.bind, Except.bind] at h
  split at h
  · cases h
  · split at h
    · cases h
    · split at h
      · cases h
      · cases h
        rfl

/-- A push leaves the capacity alone or doubles it. -/
theorem queuePush_capacity (h : queuePush granted q (some a) = .ok (accepted, q')) :
    q'.capacity = q.capacity ∨ q'.capacity = wrapUnsigned (q.capacity * 2) := by
  simp only [queuePush] at h
  split at h
  · cases granted with
    | false =>
      cases h
      exact Or.inl rfl
    | true =>
      refine Or.inr ((pushBack_capacity h).trans ?_)
      dsimp only
      split <;> rfl
  · split at h
    · simp only [Bind.bind, Except.bind] at h
      split at h
      · cases h
      · cases h
        exact Or.inl rfl
    · exact Or.inl (pushBack_capacity h)

/-- A pop leaves the capacity alone or halves it. -/
theorem queuePop_capacity (h : queuePop granted q = .ok (accepted, q')) :
    q'.capacity ≤ q.capacity := by
  simp only [queuePop] at h
  split at h
  · cases h
    exact le_refl _
  · simp only [Bind.bind, Except.bind] at h
    split at h
    · cases h
    · split at h
      · cases h
        cases granted with
        | false => exact le_refl _
        | true =>
          simp only [queueResize, if_true]
          split <;> exact Nat.div_le_self _ _
      · cases h
        exact le_refl _

namespace InRange

/-- A push with room for it appends its item; one without is refused, or runs
out of the array. -/
theorem push_cases (h : InRange q) (granted : Bool) (a : α) :
    (HasRoom granted q ∧ ∃ q', ArrayQueue.queuePush granted q (some a) = .ok (true, q') ∧
      InRange q' ∧ contents q' = contents q ++ [a]) ∨
    (¬ HasRoom granted q ∧ (ArrayQueue.queuePush granted q (some a) = .ok (false, q) ∨
      ArrayQueue.queuePush granted q (some a) = .error .outOfBounds)) := by
  by_cases hroom : HasRoom granted q
  · have hle := h.valid.size_le
    have hlt := h.capacity_lt
    have hsize : q.size + 1 < 2 ^ 32 := by
      unfold HasRoom at hroom
      omega
    obtain ⟨q', hpush, hvalid, hcontents⟩ := queuePush_room h.valid hsize hroom a
    refine Or.inl ⟨hroom, q', hpush, ⟨hvalid, ?_⟩, hcontents⟩
    rcases queuePush_capacity hpush with hsame | hdouble
    · rwa [hsame]
    · rw [hdouble]
      exact Nat.mod_lt _ (by decide)
  · refine Or.inr ⟨hroom, ?_⟩
    rw [HasRoom, not_or, not_lt, not_and, not_lt] at hroom
    cases granted with
    | true => exact Or.inr (queuePush_overgrown hroom.1 (hroom.2 rfl) h.capacity_lt a)
    | false => exact Or.inl (queuePush_refused hroom.1 a)

/-- With memory for every request a push without room runs out of the array. -/
theorem push_error (h : InRange q) (hfull : ¬ HasRoom true q) (a : α) :
    ArrayQueue.queuePush true q (some a) = .error .outOfBounds := by
  rw [HasRoom, not_or, not_lt, not_and, not_lt] at hfull
  exact queuePush_overgrown hfull.1 (hfull.2 rfl) h.capacity_lt a

theorem queuePush (h : InRange q) (hpush : queuePush granted q (some a) = .ok (accepted, q')) :
    InRange q' := by
  rcases h.push_cases granted a with ⟨-, q₁, hpush₁, hrange, -⟩ | ⟨-, hpush₁ | hpush₁⟩
  · rw [hpush₁] at hpush
    cases hpush
    exact hrange
  · rw [hpush₁] at hpush
    cases hpush
    exact h
  · rw [hpush₁] at hpush
    cases hpush

theorem queuePop (h : InRange q) (hpop : queuePop granted q = .ok (accepted, q')) :
    InRange q' := by
  refine ⟨?_, (queuePop_capacity hpop).trans_lt h.capacity_lt⟩
  cases hcontents : contents q with
  | nil =>
    rw [queuePop_empty h.valid hcontents] at hpop
    cases hpop
    exact h.valid
  | cons a rest =>
    obtain ⟨q₁, hpop₁, hvalid, -⟩ := queuePop_valid h.valid hcontents granted
    rw [hpop₁] at hpop
    cases hpop
    exact hvalid

/-- Every call that returns leaves a queue in good order. -/
theorem queueOp (h : InRange q) {op : Fifo.Op α} {r : Fifo.Response α}
    (hop : queueOp q granted op = .ok (r, q')) : InRange q' := by
  rcases queueOp_cases hop with ⟨a, accepted, -, hpush⟩ | ⟨removed, -, hpop⟩ | rfl
  · exact InRange.queuePush h hpush
  · exact InRange.queuePop h hpop
  · exact h

end InRange

theorem inRange_of_queueInit {capacity : ℕ} (hpos : 1 ≤ capacity) (hlt : capacity < 2 ^ 32)
    {q₀ : Queue α} (hinit : queueInit true true capacity = some q₀) : InRange q₀ := by
  refine ⟨(valid_of_queueInit hpos hinit).1, ?_⟩
  cases hinit
  exact hlt

/-- Every history of calls that return, from a positive capacity on. -/
theorem inRange_of_runAll {capacity : ℕ} (hpos : 1 ≤ capacity) (hlt : capacity < 2 ^ 32)
    {q₀ : Queue α} (hinit : queueInit true true capacity = some q₀) {ops : List (Bool × Fifo.Op α)}
    {responses : List (Fifo.Response α)} (hrun : Fifo.runAll queueOp q₀ ops = .ok (responses, q)) :
    InRange q :=
  Fifo.run_keeps queueOp InRange (fun _ _ _ _ _ h hop => h.queueOp hop)
    (inRange_of_queueInit hpos hlt hinit) hrun

end AcaBSim.QueueGrowth
