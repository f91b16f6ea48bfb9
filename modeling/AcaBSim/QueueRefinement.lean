import AcaBSim.ArrayQueue
import AcaBSim.Fifo

/-!
The array queue implements the abstract first-in first-out list, for every
positive initial capacity and every pattern of granted and refused `realloc`
calls, as long as it holds fewer than 2^31 items.
-/
namespace AcaBSim.QueueRefinement

open Machine ArrayQueue

variable {α : Type}

/-- One call of the queue's interface; `granted` is the fate of its `realloc`. -/
def queueOp (q : Queue α) (granted : Bool) :
    Fifo.Op α → Except Fault (Fifo.Response α × Queue α)
  | .push item => do
    let (accepted, q) ← queuePush granted q (some item)
    .ok (.pushed accepted, q)
  | .pop => do
    let (removed, q) ← queuePop granted q
    .ok (.popped removed, q)
  | .top => do
    let item ← queueTop q
    .ok (.top item, q)
  | .size => .ok (.size (queueSize q), q)
  | .isEmpty => .ok (.isEmpty (queueIsEmpty q), q)

theorem queueOp_push {q q' : Queue α} {granted accepted : Bool} {a : α}
    (h : queuePush granted q (some a) = .ok (accepted, q')) :
    queueOp q granted (.push a) = .ok (.pushed accepted, q') := by
  simp only [queueOp, h, Bind.bind, Except.bind]

theorem queueOp_pop {q q' : Queue α} {granted removed : Bool}
    (h : queuePop granted q = .ok (removed, q')) :
    queueOp q granted .pop = .ok (.popped removed, q') := by
  simp only [queueOp, h, Bind.bind, Except.bind]

theorem queueOp_top {q : Queue α} {item : Option α} (h : queueTop q = .ok item)
    (granted : Bool) : queueOp q granted .top = .ok (.top item, q) := by
  simp only [queueOp, h, Bind.bind, Except.bind]

/-- Only a push or a pop replaces the queue. -/
theorem queueOp_cases {q q' : Queue α} {granted : Bool} {op : Fifo.Op α} {r : Fifo.Response α}
    (h : queueOp q granted op = .ok (r, q')) :
    (∃ a accepted, op = .push a ∧ queuePush granted q (some a) = .ok (accepted, q')) ∨
      (∃ removed, op = .pop ∧ queuePop granted q = .ok (removed, q')) ∨ q' = q := by
  cases op with
  | push a =>
    cases hpush : queuePush granted q (some a) with
    | error e =>
      rw [queueOp, hpush] at h
      cases h
    | ok result =>
      rw [queueOp_push hpush] at h
      cases h
      exact Or.inl ⟨a, result.1, rfl, hpush⟩
  | pop =>
    cases hpop : queuePop granted q with
    | error e =>
      rw [queueOp, hpop] at h
      cases h
    | ok result =>
      rw [queueOp_pop hpop] at h
      cases h
      exact Or.inr (Or.inl ⟨result.1, rfl, rfl⟩)
  | top =>
    cases htop : queueTop q with
    | error e =>
      rw [queueOp, htop] at h
      cases h
    | ok item =>
      rw [queueOp_top htop] at h
      cases h
      exact Or.inr (Or.inr rfl)
  | size =>
    cases h
    exact Or.inr (Or.inr rfl)
  | isEmpty =>
    cases h
    exact Or.inr (Or.inr rfl)

/-- The queue that `queue_pop` hands to `queue_resize`. -/
def clearFront (q : Queue α) : Queue α :=
  { q with items := q.items.set (q.size - 1) none, size := q.size - 1 }

/-- What every call does from `q`, over all items and `realloc` outcomes. -/
structure RefinesFifo (q : Queue α) : Prop where
  push_returns : ∀ granted a, ∃ accepted q',
    queuePush granted q (some a) = .ok (accepted, q')
  push_accepted : ∀ granted a q', queuePush granted q (some a) = .ok (true, q') →
    contents q' = contents q ++ [a]
  push_refused : ∀ granted a q', queuePush granted q (some a) = .ok (false, q') →
    contents q' = contents q ∧ q.size = q.capacity ∧ granted = false
  top_oldest : queueTop q = .ok (contents q).head?
  pop_oldest : ∀ granted a rest, contents q = a :: rest →
    ∃ q', queuePop granted q = .ok (true, q') ∧ contents q' = rest
  pop_empty : ∀ granted, contents q = [] → queuePop granted q = .ok (false, q)
  growth_keeps : ∀ granted, q.capacity ≤ q.size →
    contents (queueResize granted q (wrapUnsigned (q.capacity * 2))).2 = contents q
  shrink_keeps : ∀ granted, contents q ≠ [] →
    (clearFront q).size < (clearFront q).capacity / 2 →
    contents (queueResize granted (clearFront q) ((clearFront q).capacity / 2)).2 =
      (contents q).tail

theorem clearFront_valid {q : Queue α} (h : q.Valid) (hne : contents q ≠ []) :
    (clearFront q).Valid ∧ contents (clearFront q) = (contents q).tail := by
  obtain ⟨a, rest, hcons⟩ := List.exists_cons_of_ne_nil hne
  have hlen := h.length_contents
  rw [hcons, List.length_cons] at hlen
  have hitems : q.items = rest.reverse.map some ++ some a :: q.items.drop q.size := by
    conv_lhs => rw [h.items_eq, hcons]
    simp
  have hindex : q.size - 1 = (rest.reverse.map (some (α := α))).length := by simp; omega
  have hset : (clearFront q).items =
      rest.reverse.map some ++ none :: q.items.drop q.size := by
    change q.items.set (q.size - 1) none = _
    conv_lhs => rw [hitems, hindex]
    simp
  rw [hcons, List.tail_cons]
  refine represents_of_items hset ?_ ?_ h.capacity_pos
  · change q.size - 1 = rest.length
    omega
  · change (q.items.set (q.size - 1) none).length = q.capacity
    rw [List.length_set, h.length_items]

theorem refinesFifo_of_valid {q : Queue α} (h : q.Valid) (hsize : q.size < 2 ^ 31) :
    RefinesFifo q := by
  have hle := h.size_le
  have hcap := h.capacity_pos
  have hpush := queuePush_cases h hsize
  refine {
    push_returns := ?_
    push_accepted := ?_
    push_refused := ?_
    top_oldest := queueTop_valid h
    pop_oldest := ?_
    pop_empty := fun granted hnil => queuePop_empty h hnil granted
    growth_keeps := ?_
    shrink_keeps := ?_
  }
  · intro granted a
    rcases hpush granted a with ⟨q', hq', -⟩ | ⟨hq, -⟩
    · exact ⟨true, q', hq'⟩
    · exact ⟨false, q, hq⟩
  · intro granted a q' hq'
    rcases hpush granted a with ⟨p, hp, -, hcontents⟩ | ⟨hp, -⟩
    · rw [hp] at hq'
      cases hq'
      exact hcontents
    · rw [hp] at hq'
      cases hq'
  · intro granted a q' hq'
    rcases hpush granted a with ⟨p, hp, -⟩ | ⟨hp, hfull, hrefused⟩
    · rw [hp] at hq'
      cases hq'
    · rw [hp] at hq'
      cases hq'
      exact ⟨rfl, le_antisymm hle hfull, hrefused⟩
  · intro granted a rest hcons
    obtain ⟨q', hq', -, hcontents⟩ := queuePop_valid h hcons granted
    exact ⟨q', hq', hcontents⟩
  · intro granted hfull
    cases granted with
    | false => rfl
    | true =>
      rw [wrapUnsigned_of_lt (by omega)]
      obtain ⟨q', hq', -, hcontents, -⟩ :=
        queueResize_valid h (n := q.capacity * 2) (by omega) (by omega)
      rw [hq', hcontents]
  · intro granted hne hshrink
    obtain ⟨hvalid, hcontents⟩ := clearFront_valid h hne
    cases granted with
    | false => exact hcontents
    | true =>
      obtain ⟨q', hq', -, hkept, -⟩ := queueResize_valid hvalid hshrink.le (by omega)
      rw [hq', hkept, hcontents]

/-- Every call keeps the array well formed and acts on its contents as the
abstract list does. -/
theorem queueOp_step {q : Queue α} (h : q.Valid) (hsize : q.size < 2 ^ 31)
    (granted : Bool) (op : Fifo.Op α) :
    ∃ r q', queueOp q granted op = .ok (r, q') ∧
      Fifo.Step (contents q) op r (contents q') ∧ q'.Valid := by
  cases op with
  | push a =>
    rcases queuePush_cases h hsize granted a with ⟨q', hq', hvalid, hcontents⟩ | ⟨hq, -, -⟩
    · refine ⟨.pushed true, q', queueOp_push hq', ?_, hvalid⟩
      rw [hcontents]
      exact Fifo.Step.pushAccepted _ a
    · exact ⟨.pushed false, q, queueOp_push hq, Fifo.Step.pushRefused _ a, h⟩
  | pop =>
    cases hcons : contents q with
    | nil =>
      have hq := queuePop_empty h hcons granted
      refine ⟨.popped false, q, queueOp_pop hq, ?_, h⟩
      rw [hcons]
      exact Fifo.Step.popEmpty
    | cons a rest =>
      obtain ⟨q', hq', hvalid, hcontents⟩ := queuePop_valid h hcons granted
      refine ⟨.popped true, q', queueOp_pop hq', ?_, hvalid⟩
      rw [hcontents]
      exact Fifo.Step.popFront a rest
  | top =>
    exact ⟨.top (contents q).head?, q, queueOp_top (queueTop_valid h) granted,
      Fifo.Step.top _, h⟩
  | size =>
    refine ⟨.size (contents q).length, q, ?_, Fifo.Step.size _, h⟩
    simp [queueOp, queueSize, h.length_contents]
  | isEmpty =>
    refine ⟨.isEmpty (contents q).isEmpty, q, ?_, Fifo.Step.isEmpty _, h⟩
    have hsame : queueIsEmpty q = (contents q).isEmpty := by
      rw [queueIsEmpty, ← h.length_contents]
      cases contents q <;> rfl
    simp [queueOp, hsame]

/-- Every history of calls on a queue made with a positive capacity runs as on
the abstract list, and every next call does too. -/
theorem arrayQueue_refines_fifo (capacity : ℕ) (hcap : 1 ≤ capacity) (q₀ : Queue α)
    (hinit : queueInit true true capacity = some q₀) (ops : List (Bool × Fifo.Op α))
    (hheld : Fifo.Throughout queueOp (fun q => (contents q).length < 2 ^ 31) q₀ ops) :
    ∃ responses q, Fifo.runAll queueOp q₀ ops = .ok (responses, q) ∧
      Fifo.Run [] (ops.map Prod.snd) responses (contents q) ∧ RefinesFifo q := by
  obtain ⟨hvalid, hempty⟩ := valid_of_queueInit hcap hinit
  have hsize : ∀ q : Queue α, q.Valid → (contents q).length < 2 ^ 31 → q.size < 2 ^ 31 :=
    fun q hq hlt => hq.length_contents ▸ hlt
  obtain ⟨responses, q, hrun, habs, hq, hq31⟩ := Fifo.run_refines queueOp contents
    (fun q => q.Valid ∧ q.size < 2 ^ 31) (fun q => (contents q).length < 2 ^ 31)
    (fun q granted op hq => by
      obtain ⟨r, t, hstep, habs, hvalid⟩ := queueOp_step hq.1 hq.2 granted op
      exact ⟨r, t, hstep, habs, fun hlt => ⟨hvalid, hsize t hvalid hlt⟩⟩)
    ops q₀ ⟨hvalid, hsize q₀ hvalid (by simp [hempty])⟩ hheld
  rw [hempty] at habs
  exact ⟨responses, q, hrun, habs, refinesFifo_of_valid hq hq31⟩

/-- One cell, filled by a push; the next push is refused and the one after it
is granted; both items come out in order, though the shrinking is refused. -/
theorem arrayQueue_refines_fifo_single_cell :
    ∃ responses q, Fifo.runAll queueOp { items := [none], size := 0, capacity := 1 }
        [(true, .push 7), (false, .push 8), (true, .push 9), (false, .pop), (false, .pop)] =
        .ok (responses, q) ∧
      Fifo.Run [] [.push 7, .push 8, .push 9, .pop, .pop] responses (contents q) ∧
      RefinesFifo q := by
  refine arrayQueue_refines_fifo 1 (le_refl 1) { items := [none], size := 0, capacity := 1 } rfl
    [(true, .push 7), (false, .push 8), (true, .push 9), (false, .pop), (false, .pop)] ?_
  apply Fifo.throughout_cons rfl (by decide)
  apply Fifo.throughout_cons rfl (by decide)
  apply Fifo.throughout_cons rfl (by decide)
  apply Fifo.throughout_cons rfl (by decide)
  exact Fifo.throughout_cons rfl (by decide) trivial

end AcaBSim.QueueRefinement
