import AcaBSim.GeneratedClients
import AcaBSim.Scenarios

/-!
Nobody is stuck at the door. With gaps of at least one tick `clients_init`
leaves its loop with the client of every pass in its queue, the arrivals there
increase within the simulation time, and a run on that queue admits every client
at its own arrival.
-/
namespace AcaBSim.Admissions

open Machine ArrayQueue Clients Servers Systems Outcome Stations Networks ServerStations
  Simulation Scenarios ClientGenerator GeneratedClients

/-- A queue of clients with the ids 0, 1, 2, ... and increasing arrivals. -/
structure Sequenced (q : Queue ClientPtr) (heap : Heap) (finishTime : ℤ) : Prop where
  valid : q.Valid
  nodup : (contents q).Nodup
  ids : ∀ (m : ℕ) (p : ClientPtr), (contents q)[m]? = some p → (heap p).id = m
  increasing : (contents q).Pairwise fun p r =>
    (heap p).serviceStat.arrivalTime < (heap r).serviceStat.arrivalTime
  in_time : ∀ p ∈ contents q, 1 ≤ (heap p).serviceStat.arrivalTime ∧
    (heap p).serviceStat.arrivalTime < finishTime

/-- The clients of the first `b` passes, drawn from draw `k` on; the next arrival is
past the simulation time. -/
structure Drawn (env : Env) (params : Parameters) (k b : ℕ) (q : Queue ClientPtr)
    (memory heap : Heap) : Prop where
  begins : Begins env params k b
  ends : params.finishTime ≤ arrivalOf env params k b
  length : (contents q).length = b
  record : ∀ (m : ℕ) (p : ClientPtr), (contents q)[m]? = some p →
    heap p = recordOf env params k m (memory p)

/-- The client leaves the queue of the system over tick `t`. -/
def Leaves (S : Scenario) (p : ClientPtr) (t : ℕ) : Prop := S.AtDoor p t ∧ ¬ S.AtDoor p (t + 1)

/-- What the first `n` ticks do to the queue of the system. -/
structure AdmittedOnTime (S : Scenario) (n : ℕ) : Prop where
  admitted : ∀ p ∈ contents S.clients, ∃ i t, t < n ∧ S.arrival p = t ∧ S.AdmittedTo i p t
  leaves_iff : ∀ p ∈ contents S.clients, ∀ t, t < n → (Leaves S p t ↔ S.arrival p = t)
  one_a_tick : ∀ p ∈ contents S.clients, ∀ r ∈ contents S.clients, ∀ t, t < n →
    Leaves S p t → Leaves S r t → p = r
  in_order : ∀ p ∈ contents S.clients, ∀ r ∈ contents S.clients, ∀ t u, t < n → u < n →
    Leaves S p t → Leaves S r u → (S.world.heap p).id < (S.world.heap r).id → t < u
  door_empty : doorClients (S.systemAt n) = []

theorem Sequenced.congr {q : Queue ClientPtr} {heap heap' : Heap} {finishTime : ℤ}
    (h : Sequenced q heap finishTime) (hsame : ∀ p ∈ contents q, heap' p = heap p) :
    Sequenced q heap' finishTime where
  valid := h.valid
  nodup := h.nodup
  ids m p hp := by
    rw [hsame p (List.mem_of_getElem? hp)]
    exact h.ids m p hp
  increasing := h.increasing.imp_of_mem fun hp hr hlt => by
    rw [hsame _ hp, hsame _ hr]
    exact hlt
  in_time p hp := by
    rw [hsame p hp]
    exact h.in_time p hp

section Gaps

variable {env : Env} {params : Parameters} {k m : ℕ}

/-- Every gap that the loop draws is at least one tick, and `next` stays an `int`. -/
def GapsPositive (env : Env) (params : Parameters) (k : ℕ) : Prop :=
  ∀ m, Begins env params k m → 1 ≤ env.exponential (env.rand (passDraw env params k m)) ∧
    arrivalOf env params k m ≤ intMax

theorem GapsPositive.next_lt (h : GapsPositive env params k) (hm : Begins env params k m) :
    nextBefore env params k m < arrivalOf env params k m := by
  have hgap := (h m hm).1
  change nextBefore env params k m <
    nextBefore env params k m + env.exponential (env.rand (passDraw env params k m))
  omega

theorem GapsPositive.le_nextBefore (h : GapsPositive env params k) (hm : Begins env params k m) :
    (m : ℤ) ≤ nextBefore env params k m := by
  induction m with
  | zero => exact le_refl 0
  | succ m ih =>
    have hbefore := hm.mono (Nat.le_succ m)
    have hle := ih hbefore
    have hlt := h.next_lt hbefore
    change ((m + 1 : ℕ) : ℤ) ≤ arrivalOf env params k m
    omega

theorem GapsPositive.arrivalOf_lt (h : GapsPositive env params k) {i : ℕ} (hi : i < m)
    (hm : Begins env params k m) : arrivalOf env params k i < arrivalOf env params k m := by
  induction m, hi using Nat.le_induction with
  | base => exact h.next_lt hm
  | succ m _ ih => exact (ih (hm.mono (Nat.le_succ m))).trans (h.next_lt hm)

theorem GapsPositive.passable (h : GapsPositive env params k) (hgranted : env.AllocationsSucceed)
    (hfinish : params.finishTime ≤ intMax) (hm : Begins env params k m) :
    Passable env params k m := by
  have hle := h.le_nextBefore hm
  have hlt := h.next_lt hm
  have hmin : intMin ≤ 0 := by decide
  exact ⟨hgranted, ⟨by omega, (h m hm).2⟩, fun hcontinue => by omega⟩

end Gaps

variable {env : Env} {params : Parameters} {w₀ w : World} {b n : ℕ} {g : Generator}

/-- The queue that the loop has filled when all its requests are served. -/
theorem queue_of_generated (h : Generated env params w₀ n b g w)
    (hgranted : env.AllocationsSucceed) :
    ∃ q, g.clients = some q ∧ q.Valid ∧ (contents q).Nodup ∧ (contents q).length = b ∧
      ∀ (m : ℕ) (p : ClientPtr), (contents q)[m]? = some p →
        w.heap p = recordOf env params w₀.draws m (w₀.heap p) := by
  obtain ⟨q, hq⟩ := Option.isSome_iff_exists.mp (h.queue hgranted)
  obtain ⟨hvalid, ⟨l, hcontents, -, hall, hmade⟩, hordered, -⟩ := h.filled q hq
  have hpasses := hall hgranted
  refine ⟨q, hq, hvalid, hordered.imp Nat.ne_of_lt, ?_, ?_⟩
  · rw [hcontents, List.length_map, ← List.length_map (f := Prod.snd), hpasses,
      List.length_range]
  · intro m p hp
    rw [hcontents, List.getElem?_map] at hp
    obtain ⟨x, hx, rfl⟩ := Option.map_eq_some_iff.mp hp
    have hindex : (l.map Prod.snd)[m]? = some x.2 := by rw [List.getElem?_map, hx]; rfl
    rw [hpasses] at hindex
    obtain ⟨hlt, hm⟩ := List.getElem?_eq_some_iff.mp hindex
    rw [List.getElem_range] at hm
    rw [hm]
    exact hmade x (List.mem_of_getElem? hx)

/-- With positive gaps their arrivals increase within the simulation time. -/
theorem Drawn.sequenced {q : Queue ClientPtr} {memory heap : Heap} {k : ℕ}
    (h : Drawn env params k b q memory heap) (hvalid : q.Valid) (hnodup : (contents q).Nodup)
    (hgaps : GapsPositive env params k) : Sequenced q heap params.finishTime := by
  have harrival : ∀ (m : ℕ) (p : ClientPtr), (contents q)[m]? = some p →
      m < b ∧ (heap p).serviceStat.arrivalTime = arrivalOf env params k m := by
    intro m p hp
    rw [h.record m p hp]
    exact ⟨h.length ▸ (List.getElem?_eq_some_iff.mp hp).1, rfl⟩
  refine ⟨hvalid, hnodup, ?_, ?_, ?_⟩
  · intro m p hp
    rw [h.record m p hp]
    rfl
  · apply List.pairwise_iff_getElem.mpr
    intro i j hi hj hij
    obtain ⟨-, hi'⟩ := harrival i _ (List.getElem?_eq_getElem hi)
    obtain ⟨hlt, hj'⟩ := harrival j _ (List.getElem?_eq_getElem hj)
    rw [hi', hj']
    exact hgaps.arrivalOf_lt hij (h.begins.mono hlt.le)
  · intro p hp
    obtain ⟨m, hm⟩ := List.mem_iff_getElem?.mp hp
    obtain ⟨hlt, htime⟩ := harrival m p hm
    have hbegins := h.begins.mono hlt.le
    have hle := hgaps.le_nextBefore hbegins
    have hnext := hgaps.next_lt hbegins
    rw [htime]
    exact ⟨by omega, h.begins m hlt⟩

/-- A run on such a queue, for its whole time, admits everybody on time. -/
theorem admitted_on_time {S : Scenario} {finishTime : ℤ} (h : S.Ordinary finishTime.toNat)
    (hq : Sequenced S.clients S.world.heap finishTime) :
    AdmittedOnTime S finishTime.toNat := by
  have hs : S.Scheduled := ⟨hq.increasing, fun p hp => (hq.in_time p hp).1⟩
  have hend : ∀ p ∈ contents S.clients, S.arrival p < (finishTime.toNat : ℤ) := by
    intro p hp
    have hlt : S.arrival p < finishTime := (hq.in_time p hp).2
    omega
  have hleaves : ∀ p ∈ contents S.clients, ∀ t, t < finishTime.toNat →
      (Leaves S p t ↔ S.arrival p = t) := by
    intro p hp t ht
    rw [Leaves, (h.mono ht.le).atDoor_iff_arrival hs hp, (h.mono ht).atDoor_iff_arrival hs hp]
    push_cast
    omega
  have hahead : ∀ (i j : ℕ) (p r : ClientPtr), (contents S.clients)[i]? = some p →
      (contents S.clients)[j]? = some r → i < j → S.arrival p < S.arrival r := by
    intro i j p r hp hr hij
    obtain ⟨hi, rfl⟩ := List.getElem?_eq_some_iff.mp hp
    obtain ⟨hj, rfl⟩ := List.getElem?_eq_some_iff.mp hr
    exact List.pairwise_iff_getElem.mp hs.increasing i j hi hj hij
  refine ⟨?_, hleaves, ?_, ?_, ?_⟩
  · intro p hp
    obtain ⟨i, hheld⟩ := h.held_of_arrival hs hp (hend p hp)
    obtain ⟨t, ht, harrival, hadmitted⟩ := h.admitted_of_held hheld
    exact ⟨i, t, ht, harrival, hadmitted⟩
  · intro p hp r hr t ht hpt hrt
    have hpa := (hleaves p hp t ht).mp hpt
    have hra := (hleaves r hr t ht).mp hrt
    obtain ⟨i, hi⟩ := List.mem_iff_getElem?.mp hp
    obtain ⟨j, hj⟩ := List.mem_iff_getElem?.mp hr
    rcases lt_trichotomy i j with hlt | rfl | hlt
    · have hlt' := hahead i j p r hi hj hlt
      omega
    · exact Option.some.inj (hi.symm.trans hj)
    · have hlt' := hahead j i r p hj hi hlt
      omega
  · intro p hp r hr t u ht hu hpt hru hid
    have hpa := (hleaves p hp t ht).mp hpt
    have hra := (hleaves r hr u hu).mp hru
    obtain ⟨i, hi⟩ := List.mem_iff_getElem?.mp hp
    obtain ⟨j, hj⟩ := List.mem_iff_getElem?.mp hr
    rw [hq.ids i p hi, hq.ids j r hj] at hid
    have hlt := hahead i j p r hi hj (by omega)
    omega
  · apply List.eq_nil_iff_forall_not_mem.mpr
    intro p hp
    have hmem := h.mem_clients_of_atDoor hp
    have hle := (h.atDoor_iff_arrival hs hmem).mp hp
    have hlt := hend p hmem
    omega

/-- `clients_init` terminates with the clients of its passes in a queue that every run
of the same length admits on time. -/
theorem clients_admitted_on_time (env : Env) (params : Parameters) (w : World)
    (hfinish : params.finishTime ≤ intMax) (hgranted : env.AllocationsSucceed)
    (hgaps : GapsPositive env params w.draws) :
    ∃ passes g w' q b, clientsInit env params passes w = .ok (g, w') ∧ g.broke = true ∧
      g.clients = some q ∧ Drawn env params w.draws b q w.heap w'.heap ∧
      Sequenced q w'.heap params.finishTime ∧
      ∀ S : Scenario, S.clients = q → (∀ p ∈ contents q, S.world.heap p = w'.heap p) →
        S.Ordinary params.finishTime.toNat →
        S.loop params.finishTime.toNat = .ok (S.stateAt params.finishTime.toNat) ∧
          AdmittedOnTime S params.finishTime.toNat := by
  have hensures : Ensures (fun _ => False) (clientsInit env params (params.finishTime.toNat + 1)) w
      fun g w' => ∃ b, Generated env params w (params.finishTime.toNat + 1) b g w' :=
    clientsInit_generated fun m _ hm e hpass => hpass (hgaps.passable hgranted hfinish hm)
  obtain ⟨g, w', hrun, b, hgenerated⟩ := hensures.returns fun _ _ hfalse => hfalse
  have hbroke : g.broke = true := by
    -- each pass takes `next` one further, so the loop cannot make all of them
    by_contra hbroke
    obtain ⟨rfl, -⟩ := hgenerated.running (Bool.eq_false_iff.mpr hbroke)
    have hbegins := hgenerated.begins
    have hle := hgaps.le_nextBefore hbegins
    have hlt := hbegins params.finishTime.toNat (Nat.lt_succ_self _)
    change nextBefore env params w.draws (params.finishTime.toNat + 1) < params.finishTime at hlt
    omega
  obtain ⟨q, hq, hvalid, hnodup, hlength, hrecord⟩ := queue_of_generated hgenerated hgranted
  have hdrawn : Drawn env params w.draws b q w.heap w'.heap :=
    ⟨hgenerated.begins, hgenerated.stopped hbroke, hlength, hrecord⟩
  have hsequenced := hdrawn.sequenced hvalid hnodup hgaps
  refine ⟨params.finishTime.toNat + 1, g, w', q, b, hrun, hbroke, hq, hdrawn, hsequenced, ?_⟩
  intro S heq hheap hordinary
  obtain rfl := heq
  refine ⟨hordinary.follows.1, admitted_on_time hordinary ?_⟩
  exact hsequenced.congr hheap

/-- Every draw is the first value of `rand ()`, which makes every gap one tick. -/
def steady : Env where
  rand _ := ⟨0, Nat.succ_pos randMax⟩
  exponential _ := 1
  outcomes := .drawn
  granted _ := true

theorem nextBefore_steady (params : Parameters) (k m : ℕ) :
    nextBefore steady params k m = m := by
  induction m with
  | zero => rfl
  | succ m ih =>
    rw [nextBefore, ih]
    push_cast
    rfl

theorem clients_admitted_on_time_steady :
    ∃ passes g w' q,
      clientsInit steady ⟨1 / 2, 1 / 2, 100⟩ passes ⟨fun _ => newcomer 0 0 .type1, 0, 0⟩
        = .ok (g, w') ∧ g.broke = true ∧ g.clients = some q ∧ (contents q).length = 99 ∧
      Sequenced q w'.heap 100 ∧
      ∀ S : Scenario, S.clients = q → (∀ p ∈ contents q, S.world.heap p = w'.heap p) →
        S.Ordinary 100 → S.loop 100 = .ok (S.stateAt 100) ∧ AdmittedOnTime S 100 := by
  have harrival : ∀ m, arrivalOf steady ⟨1 / 2, 1 / 2, 100⟩ 0 m = (m + 1 : ℕ) := fun m =>
    nextBefore_steady ⟨1 / 2, 1 / 2, 100⟩ 0 (m + 1)
  obtain ⟨passes, g, w', q, b, hrun, hbroke, hq, hdrawn, hrest⟩ :=
    clients_admitted_on_time steady ⟨1 / 2, 1 / 2, 100⟩ ⟨fun _ => newcomer 0 0 .type1, 0, 0⟩
      (by decide) (fun _ => rfl) fun m hm => ⟨le_refl 1, by
        rw [harrival]
        cases m with
        | zero => decide
        | succ m =>
          have hbegun := hm m (Nat.lt_succ_self m)
          rw [harrival] at hbegun
          have hmax : (200 : ℤ) ≤ intMax := by decide
          push_cast at hbegun ⊢
          omega⟩
  refine ⟨passes, g, w', q, hrun, hbroke, hq, ?_, hrest⟩
  have hends := hdrawn.ends
  rw [harrival] at hends
  rw [hdrawn.length]
  cases b with
  | zero => exact absurd hends (by decide)
  | succ b =>
    have hbegun := hdrawn.begins b (Nat.lt_succ_self b)
    rw [harrival] at hbegun
    push_cast at hbegun hends
    omega

end AcaBSim.Admissions
