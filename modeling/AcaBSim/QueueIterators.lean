import AcaBSim.QueueGrowth

/-!
The two ways to enumerate a queue. The iterator walks the array from
`items[0]`, the back of the queue, while popping delivers `items[size - 1]`,
the front, first. The loops are relations between where they begin and what
they deliver, so that a loop which stops with an error delivers nothing.
-/
namespace AcaBSim.QueueIterators

open Machine ArrayQueue QueueRefinement QueueGrowth

variable {α : Type} {q : Queue α}

/-- `queue_iterator_next` until `queue_iterator_has_next` is false. -/
inductive Iteration : Option (QueueIterator α) → List (Option α) → Prop
  | done {iterator : Option (QueueIterator α)} (hend : queueIteratorHasNext iterator = false) :
      Iteration iterator []
  | next {iterator rest : Option (QueueIterator α)} {item : Option α} {items : List (Option α)}
      (hmore : queueIteratorHasNext iterator = true)
      (hitem : queueIteratorNext iterator = .ok (item, rest)) (hrest : Iteration rest items) :
      Iteration iterator (item :: items)

/-- `queue_top` and `queue_pop` until the queue is empty. The memory for the
shrinking may be served or not. -/
inductive Popping : Queue α → List (Option α) → Prop
  | done {q : Queue α} (hend : queueIsEmpty q = true) : Popping q []
  | next {q rest : Queue α} {item : Option α} {items : List (Option α)} {granted : Bool}
      (hmore : queueIsEmpty q = false) (htop : queueTop q = .ok item)
      (hpop : queuePop granted q = .ok (true, rest)) (hrest : Popping rest items) :
      Popping q (item :: items)

/-- The iterator delivers what popping delivers, in the same order. -/
def EnumeratesAlike (granted : Bool) (q : Queue α) : Prop :=
  ∃ items, Iteration (queueIteratorCreate granted q) items ∧ Popping q items

theorem Iteration.unique {iterator : Option (QueueIterator α)} {items items' : List (Option α)}
    (h : Iteration iterator items) (h' : Iteration iterator items') : items = items' := by
  induction h generalizing items' with
  | done hend =>
    cases h' with
    | done => rfl
    | next hmore => simp [hend] at hmore
  | next hmore hitem _ ih =>
    cases h' with
    | done hend => simp [hend] at hmore
    | next _ hitem' hrest' =>
      rw [hitem] at hitem'
      cases hitem'
      rw [ih hrest']

/-- Popping a queue in good order delivers what it holds, the oldest first. -/
theorem popping_eq (h : q.Valid) {items : List (Option α)} (hpopping : Popping q items) :
    items = (contents q).map some := by
  induction hpopping with
  | done hend => rw [h.isEmpty_iff.mp hend, List.map_nil]
  | @next q rest item items granted hmore htop hpop _ ih =>
    obtain ⟨a, held, hcons⟩ := List.exists_cons_of_ne_nil
      (fun hnil => by simp [h.isEmpty_iff.mpr hnil] at hmore)
    obtain ⟨q', hpop', hvalid, hcontents⟩ := queuePop_valid h hcons granted
    rw [hpop'] at hpop
    cases hpop
    rw [queueTop_valid h, hcons, List.head?_cons] at htop
    cases htop
    rw [ih hvalid, hcontents, hcons, List.map_cons]

/-- Popping comes to its end, by induction on what the queue holds. -/
theorem popping_contents (h : q.Valid) : Popping q ((contents q).map some) := by
  obtain ⟨held, hheld⟩ : ∃ held, contents q = held := ⟨_, rfl⟩
  rw [hheld]
  induction held generalizing q with
  | nil => exact .done (h.isEmpty_iff.mpr hheld)
  | cons a held ih =>
    obtain ⟨q', hpop, hvalid, hcontents⟩ := queuePop_valid h hheld true
    have htop : queueTop q = .ok (some a) := by rw [queueTop_valid h, hheld, List.head?_cons]
    refine .next ?_ htop hpop ?_
    · rw [← Bool.not_eq_true, h.isEmpty_iff, hheld]
      exact List.cons_ne_nil a held
    · exact ih hvalid hcontents

/-- From any index on, the iterator delivers the cells that are left. -/
theorem iteration_drop (h : q.Valid) (n i : ℕ) (hn : i + n = q.size) :
    Iteration (some ⟨q, i⟩) ((q.items.take q.size).drop i) := by
  have hle : q.size ≤ q.items.length := h.length_items ▸ h.size_le
  induction n generalizing i with
  | zero =>
    have hend : (q.items.take q.size).drop i = [] := by
      rw [List.drop_eq_nil_iff, List.length_take]
      omega
    rw [hend]
    exact .done (by simp [queueIteratorHasNext]; omega)
  | succ n ih =>
    have hi : i < (q.items.take q.size).length := by
      rw [List.length_take]
      omega
    rw [List.drop_eq_getElem_cons hi]
    have hmore : queueIteratorHasNext (some (⟨q, i⟩ : QueueIterator α)) = true := by
      simp [queueIteratorHasNext]
      omega
    have hread : readItem q.items i = .ok (q.items.take q.size)[i] := by
      simp [readItem, show i < q.items.length by omega]
    have hnext : queueIteratorNext (some ⟨q, i⟩) =
        .ok ((q.items.take q.size)[i], some ⟨q, i + 1⟩) := by
      simp [queueIteratorNext, hmore, hread, Bind.bind, Except.bind]
    exact .next hmore hnext (ih (i + 1) (by omega))

/-- An iterator that is served delivers what the queue holds, the newest first. -/
theorem iteration_contents (h : q.Valid) :
    Iteration (queueIteratorCreate true q) ((contents q).reverse.map some) := by
  by_cases hempty : queueIsEmpty q = true
  · rw [h.isEmpty_iff.mp hempty]
    simpa [queueIteratorCreate, hempty] using Iteration.done rfl
  · have hcells := iteration_drop h q.size 0 (Nat.zero_add _)
    rw [List.drop_zero, h.take_items] at hcells
    simpa [queueIteratorCreate, hempty] using hcells

/-- The iterator and popping agree on a queue whose iterator is served just if
it reads the same from both ends. -/
theorem enumeratesAlike_iff (h : q.Valid) (granted : Bool) :
    EnumeratesAlike granted q ↔
      (contents q = [] ∨ granted = true) ∧ (contents q).reverse = contents q := by
  have hpalindrome : (contents q).reverse.map some = (contents q).map some ↔
      (contents q).reverse = contents q :=
    (List.map_injective_iff.mpr (Option.some_injective α)).eq_iff
  cases granted with
  | true =>
    rw [or_iff_right_of_imp (fun _ => rfl), and_iff_right rfl, ← hpalindrome]
    constructor
    · intro halike
      obtain ⟨items, hiteration, hpopping⟩ := halike
      rw [hiteration.unique (iteration_contents h)] at hpopping
      exact popping_eq h hpopping
    · intro hsame
      exact ⟨_, iteration_contents h, hsame ▸ popping_contents h⟩
  | false =>
    have hrefused : queueIteratorCreate false q = none := by simp [queueIteratorCreate]
    rw [EnumeratesAlike, hrefused]
    constructor
    · intro halike
      obtain ⟨items, hiteration, hpopping⟩ := halike
      have hnil : contents q = [] := by
        rw [hiteration.unique (.done rfl)] at hpopping
        exact List.map_eq_nil_iff.mp (popping_eq h hpopping).symm
      simp [hnil]
    · intro hboth
      have hnil := hboth.1.resolve_right Bool.false_ne_true
      refine ⟨[], .done rfl, ?_⟩
      simpa [hnil] using popping_contents h

theorem reverse_eq_self_of_nodup {l : List α} (hnodup : l.Nodup) :
    l.reverse = l ↔ l.length ≤ 1 := by
  constructor
  · intro hpalindrome
    cases l with
    | nil => exact Nat.zero_le 1
    | cons a rest =>
      rw [List.reverse_cons] at hpalindrome
      cases hrest : rest.reverse with
      | nil => simp [List.reverse_eq_nil_iff.mp hrest]
      | cons b front =>
        -- the head would be the last item too
        rw [hrest, List.cons_append, List.cons.injEq] at hpalindrome
        have hmem : b ∈ rest := List.mem_reverse.mp (hrest ▸ List.mem_cons_self)
        exact absurd (hpalindrome.1 ▸ hmem) (List.nodup_cons.mp hnodup).1
  · intro hlen
    match l, hlen with
    | [], _ => rfl
    | [a], _ => rfl

/-- In every state that pushes and pops lead to, a served iterator delivers the
held items newest first, so it agrees with popping just if they read the same
from both ends; for distinct items that means one item at most. -/
theorem iterator_pops_alike_iff {capacity : ℕ} (hpos : 1 ≤ capacity) (hlt : capacity < 2 ^ 32)
    {q₀ : Queue α} (hinit : queueInit true true capacity = some q₀)
    {ops : List (Bool × Fifo.Op α)} {responses : List (Fifo.Response α)}
    (hrun : Fifo.runAll queueOp q₀ ops = .ok (responses, q)) (granted : Bool) :
    (EnumeratesAlike granted q ↔
      (contents q = [] ∨ granted = true) ∧ (contents q).reverse = contents q) ∧
    ((contents q).Nodup → ((contents q).reverse = contents q ↔ queueSize q ≤ 1)) ∧
    Iteration (queueIteratorCreate true q) ((contents q).reverse.map some) ∧
    Popping q ((contents q).map some) := by
  have hvalid := (inRange_of_runAll hpos hlt hinit hrun).valid
  refine ⟨enumeratesAlike_iff hvalid granted, fun hnodup => ?_, iteration_contents hvalid,
    popping_contents hvalid⟩
  rw [reverse_eq_self_of_nodup hnodup, hvalid.length_contents, queueSize]

/-- Two cells, filled by two pushes. -/
def twoHeld : Queue ℕ := { items := [some 8, some 7], size := 2, capacity := 2 }

theorem iterator_pops_alike_iff_twoHeld :
    (EnumeratesAlike true twoHeld ↔
      (contents twoHeld = [] ∨ true = true) ∧ (contents twoHeld).reverse = contents twoHeld) ∧
    ((contents twoHeld).Nodup →
      ((contents twoHeld).reverse = contents twoHeld ↔ queueSize twoHeld ≤ 1)) ∧
    Iteration (queueIteratorCreate true twoHeld) ((contents twoHeld).reverse.map some) ∧
    Popping twoHeld ((contents twoHeld).map some) :=
  iterator_pops_alike_iff (by decide) (by decide)
    (show queueInit true true 2 = some ⟨[none, none], 0, 2⟩ from rfl)
    (show Fifo.runAll queueOp _ [(true, .push 7), (true, .push 8)] =
      .ok ([.pushed true, .pushed true], twoHeld) from rfl) true

/-- After a push of 7 and one of 8 the iterator delivers 8 first, popping 7. -/
theorem iterator_reverses :
    Fifo.runAll queueOp ⟨[none, none], 0, 2⟩ [(true, .push 7), (true, .push 8)] =
      .ok ([.pushed true, .pushed true], twoHeld) ∧
    Iteration (queueIteratorCreate true twoHeld) [some 8, some 7] ∧
    Popping twoHeld [some 7, some 8] ∧ ¬ EnumeratesAlike true twoHeld := by
  have hiteration : Iteration (queueIteratorCreate true twoHeld) [some 8, some 7] :=
    .next rfl rfl (.next rfl rfl (.done rfl))
  have hpopping : Popping twoHeld [some 7, some 8] :=
    .next rfl rfl (show queuePop true twoHeld = .ok (true, ⟨[some 8, none], 1, 2⟩) from rfl)
      (.next rfl rfl (show queuePop true _ = .ok (true, ⟨[none], 0, 1⟩) from rfl) (.done rfl))
  refine ⟨rfl, hiteration, hpopping, fun halike => ?_⟩
  obtain ⟨items, hiteration', hpopping'⟩ := halike
  rw [hiteration'.unique hiteration] at hpopping'
  have hvalid : twoHeld.Valid := ⟨by decide, by decide, rfl, ⟨[8, 7], rfl⟩⟩
  have hsame := (popping_eq hvalid hpopping).symm.trans (popping_eq hvalid hpopping').symm
  exact absurd hsame (by decide)

end AcaBSim.QueueIterators
