import AcaBSim.ExpressLines
import AcaBSim.FifoServers
import AcaBSim.RoboticServers
import AcaBSim.Drainage

/-!
What the priority of disabled clients at a robotic server is worth. Its disabled
clients are served first-in first-out among themselves, each as if the server had
no other clients or later by less than one regular service, however many
regular clients there are.
-/
namespace AcaBSim.DisabledClients

open Machine ArrayQueue Clients Servers Systems Outcome Stations Networks ServerStations
  Simulation Scenarios ClientFates

/-- The disabled clients routed to a robotic server, in the order in which it takes them. -/
def disabledClients (heap : Heap) (r : RoboticServer) : List ClientPtr :=
  (contents r.base.finishedClientsQueue ++ r.base.currentClient.toList).filter
    (fun p => (heap p).disabilityType ≠ .noDisability) ++ contents r.disableClientQueue

/-- `failures` gives the failed attempts of the clients of a robotic server, with
those that an unfinished client may still have after the run. -/
structure CountsFailures (heap : Heap) (r : RoboticServer) (failures : ClientPtr → ℤ) :
    Prop where
  finished : ∀ p ∈ contents r.base.finishedClientsQueue,
    failures p = (heap p).serviceStat.failureCount
  unfinished : ∀ p ∈ r.base.currentClient.toList ++ contents r.disableClientQueue,
    (heap p).serviceStat.failureCount ≤ failures p

theorem CountsFailures.count_le {heap : Heap} {r : RoboticServer} {failures : ClientPtr → ℤ}
    (h : CountsFailures heap r failures) {p : ClientPtr} (hp : p ∈ disabledClients heap r) :
    (heap p).serviceStat.failureCount ≤ failures p := by
  rcases List.mem_append.mp hp with hp | hp
  · rcases List.mem_append.mp (List.mem_filter.mp hp).1 with hdone | hcur
    · exact (h.finished p hdone).ge
    · exact h.unfinished p (List.mem_append_left _ hcur)
  · exact h.unfinished p (List.mem_append_right _ hp)

/-- What holds after `n` ticks of a client of server `i` that starts and finishes
at these times or later by less than `delay`, whether the ticks have come or not. -/
structure NearTimes (S : Scenario) (n i : ℕ) (p : ClientPtr) (start finish delay : ℤ) :
    Prop where
  starts : ∀ t, t < n → S.StartsAt i p t → start ≤ t ∧ t < start + delay
  finishes : ∀ t, t < n → S.FinishesAt i p t → finish ≤ t ∧ t < finish + delay
  started : start + delay ≤ n → ∃ t, t < n ∧ S.StartsAt i p t
  finished : finish + delay ≤ n → ∃ t, t < n ∧ S.FinishesAt i p t

/-- What holds after `n` ticks of the robotic server `r`, the `i`-th server, whose
`k`-th disabled client arrives at `a k`, takes `d k` ticks and is delayed by less
than `delay`. -/
structure Expedited (S : Scenario) (n i : ℕ) (r : RoboticServer) (a d : ℕ → ℤ) (delay : ℤ) :
    Prop where
  routed_iff : ∀ p, p ∈ disabledClients (S.heapAt n) r ↔
    (S.world.heap p).disabilityType ≠ .noDisability ∧ ∃ t, t < n ∧ S.AdmittedTo i p t
  admitted : ∀ k p, (disabledClients (S.heapAt n) r)[k]? = some p →
    ∃ t, t < n ∧ S.AdmittedTo i p t ∧ a k = t
  in_order : ∀ k, k + 1 < (disabledClients (S.heapAt n) r).length → a k < a (k + 1)
  clients : ∀ k p, (disabledClients (S.heapAt n) r)[k]? = some p →
    NearTimes S n i p (fifoStart a d k) (fifoFinish a d k) delay

variable {S : Scenario} {n i : ℕ} {r : RoboticServer} {st : Station ClientPtr} {p : ClientPtr}

section Records

variable (h : S.Ordinary n) (hst : (S.run n).stations[i]? = some st)

include h hst

/-- The run writes to the statistics of a client and to nothing else. -/
theorem heapAt_eq (hp : p ∈ st.jobs) :
    S.heapAt n p = { S.world.heap p with serviceStat := (S.heapAt n p).serviceStat } := by
  have hrec := h.refines.recorded st (List.mem_of_getElem? hst)
  simp only [Station.jobs, Station.started, List.mem_append, List.mem_map, Option.mem_toList] at hp
  rw [Scenario.heapAt]
  rcases hp with ((⟨c, hc, rfl⟩ | ⟨a, ha, rfl⟩) | hp) | hp
  · rw [hrec.finished c hc]
    rfl
  · rw [hrec.serving a ha]
    rfl
  · rw [hrec.waiting true p hp]
    rfl
  · rw [hrec.waiting false p hp]
    rfl

theorem disabilityType_eq (hp : p ∈ st.jobs) :
    (S.heapAt n p).disabilityType = (S.world.heap p).disabilityType := by
  rw [heapAt_eq h hst hp]

theorem serviceTime_eq {k : ServerType} (s : Server k) (hp : p ∈ st.jobs) :
    serviceTime s (S.heapAt n p) = serviceTime s (S.world.heap p) := by
  rw [heapAt_eq h hst hp]
  cases s <;> rfl

/-- The failures of the records, or more for the client in service, are those of
the station. -/
theorem stationCounts {k : ServerType} {s : Server k}
    (hrep : Represents Moderate S.world.heap s st) {failures : ClientPtr → ℤ}
    (hfinished : ∀ p ∈ finishedClients s, failures p = (S.heapAt n p).serviceStat.failureCount)
    (hcurrent : ∀ p ∈ s.base.currentClient,
      (S.heapAt n p).serviceStat.failureCount ≤ failures p) : st.CountsFailures failures := by
  obtain ⟨hdone, hserving, -⟩ := Drainage.failures_eq h (List.mem_of_getElem? hst)
  refine ⟨fun c hc => ?_, fun a ha => ?_⟩
  · rw [← hdone c hc]
    refine hfinished c.job ?_
    rw [finishedClients_eq hrep]
    exact List.mem_map_of_mem hc
  · rw [← hserving a ha]
    refine hcurrent a.job ?_
    rw [hrep.current, Option.mem_def.mp ha]
    rfl

end Records

theorem starts_of_service (h : S.Ordinary n) (hst : (S.run n).stations[i]? = some st) {x : ℤ}
    (hp : (p, x) ∈ st.services) : ∃ t, t < n ∧ S.StartsAt i p t := by
  obtain ⟨t, ht, -, hstarts⟩ := S.fresh.starts_of_mem_services hst hp
  exact ⟨t, ht, (h.mono ht).startsAt_iff.mpr hstarts⟩

section Times

variable (h : S.Ordinary n) (hst : (S.run n).stations[i]? = some st) {start spent delay : ℤ}

include h hst

theorem near_of_completed {c : Completed ClientPtr} (hc : c ∈ st.completed)
    (hle : start ≤ c.start) (hlt : c.start < start + delay) (hspan : c.finish = c.start + spent) :
    NearTimes S n i c.job start (start + spent) delay := by
  have hfate := fate_of_completed h hst hc
  refine ⟨fun t ht hstarts => ?_, fun t ht hends => ?_, fun _ => ?_, fun _ => ?_⟩
  · have heq : c.start = t := by simpa using (hfate.starts t ht).mp hstarts
    exact heq ▸ ⟨hle, hlt⟩
  · have heq : c.finish = t := by simpa using (hfate.finishes t ht).mp hends
    omega
  · exact starts_of_service h hst (List.mem_append_left _ (List.mem_map_of_mem hc))
  · obtain ⟨t, ht, -, hends⟩ := S.fresh.finishes_of_mem_completed hst hc
    exact ⟨t, ht, (h.mono ht).finishesAt_iff.mpr hends⟩

theorem near_of_current {b : Attempt ClientPtr} (hb : b ∈ st.current)
    (hle : start ≤ b.start) (hlt : b.start < start + delay) (hnow : n ≤ b.start + spent) :
    NearTimes S n i b.job start (start + spent) delay := by
  have hfate := fate_of_current h hst hb
  have hservice : (b.job, b.start) ∈ st.services :=
    List.mem_append_right _ (by simp [Option.mem_def.mp hb])
  refine ⟨fun t ht hstarts => ?_, fun t ht hends => ?_,
    fun _ => starts_of_service h hst hservice, fun _ => by omega⟩
  · have heq : b.start = t := by simpa using (hfate.starts t ht).mp hstarts
    exact heq ▸ ⟨hle, hlt⟩
  · simpa using (hfate.finishes t ht).mp hends

theorem near_of_waiting (hp : p ∈ st.express) (hlt : n < start + delay) (hspent : 0 ≤ spent) :
    NearTimes S n i p start (start + spent) delay := by
  have hline : p ∈ st.waiting true := hp
  have hfate := fate_of_waiting h hst hline
  refine ⟨fun t ht hstarts => ?_, fun t ht hends => ?_, fun _ => by omega, fun _ => by omega⟩
  · simpa using (hfate.starts t ht).mp hstarts
  · simpa using (hfate.finishes t ht).mp hends

end Times

theorem started_eq {B : ℚ → Prop} {h₀ : Heap} (hrep : Represents B h₀ (.robotic r) st) :
    contents r.base.finishedClientsQueue ++ r.base.currentClient.toList = st.started := by
  have hfinished : contents r.base.finishedClientsQueue = st.completed.map Completed.job :=
    hrep.finished.2
  have hcurrent : r.base.currentClient = st.current.map Attempt.job := hrep.current
  rw [hfinished, hcurrent, Option.toList_map]
  rfl

section Robotic

variable (h : S.Ordinary n) (hst : (S.run n).stations[i]? = some st)
  (hrep : Represents Moderate S.world.heap (.robotic r) st)

include h hst hrep

/-- The disabled clients of the server are the express jobs of its station. -/
theorem disabledClients_eq : disabledClients (S.heapAt n) r = st.classOrder true := by
  obtain ⟨hdisable, -⟩ := hrep.lines
  rw [disabledClients, started_eq hrep, hdisable.2, Station.classOrder, Station.waiting_true]
  congr 1
  refine List.filter_congr fun p hp => ?_
  have hjob : p ∈ st.jobs := List.mem_append_left _ (List.mem_append_left _ hp)
  rw [disabilityType_eq h hst hjob, RoboticServers.express_eq hrep]
  simp

theorem countsFailures {failures : ClientPtr → ℤ}
    (hfailures : CountsFailures (S.heapAt n) r failures) : st.CountsFailures failures :=
  stationCounts h hst hrep hfailures.finished fun p hp =>
    hfailures.unfinished p (List.mem_append_left _ (Option.mem_toList.mpr hp))

section Cases

variable {failures : ClientPtr → ℤ} (hfailures : CountsFailures (S.heapAt n) r failures)
  {longest : ℤ} (hpos : 0 < longest)
  (hlongest : ∀ p ∈ contents r.base.finishedClientsQueue ++ r.base.currentClient.toList,
    (S.heapAt n p).disabilityType = .noDisability →
    (failures p + 1) * serviceTime (.robotic r) (S.heapAt n p) ≤ longest)

include hfailures

theorem spent_nonneg : ∀ q ∈ st.classOrder true, 0 ≤ (failures q + 1) * st.profile.work q := by
  intro q hq
  have hmem := List.mem_of_getElem? hst
  have hjob := Station.mem_jobs_of_mem_classOrder hq
  have htime := Drainage.work_nonneg hmem (Drainage.mem_clients_of_mem_jobs hmem hjob)
  have hcount := FifoServers.failureCount_nonneg h hst hjob
  rw [← disabledClients_eq h hst hrep] at hq
  have hle := hfailures.count_le hq
  exact Int.mul_nonneg (by omega) htime

include hpos hlongest

/-- The `k`-th disabled client, in one of the three phases of its service. -/
theorem disabled_cases {k : ℕ} (hp : (st.classOrder true)[k]? = some p) :
    let a := Station.arrivalAt S.arrival (st.classOrder true)
    let d := Station.durationAt (fun q => serviceTime (.robotic r) (S.world.heap q)) failures
      (st.classOrder true)
    (∃ c ∈ st.completed, c.job = p ∧ fifoStart a d k ≤ c.start ∧
      c.start < fifoStart a d k + longest ∧ c.finish = c.start + d k) ∨
    (∃ b ∈ st.current, b.job = p ∧ fifoStart a d k ≤ b.start ∧
      b.start < fifoStart a d k + longest ∧ n ≤ b.start + d k) ∨
    (p ∈ st.express ∧ n < fifoStart a d k + longest ∧ 0 ≤ d k) := by
  have hwork : st.profile.work = fun q => serviceTime (.robotic r) (S.world.heap q) := by
    rw [hrep.profile]
    rfl
  have hnonneg := spent_nonneg h hst hrep hfailures
  have hregular : ∀ q ∈ st.started, st.profile.express q = false →
      (failures q + 1) * st.profile.work q ≤ longest := by
    intro q hq hclass
    have hjob : q ∈ st.jobs := List.mem_append_left _ (List.mem_append_left _ hq)
    rw [RoboticServers.express_eq hrep, ← disabilityType_eq h hst hjob] at hclass
    rw [hwork]
    dsimp only
    rw [← serviceTime_eq h hst (.robotic r) hjob]
    exact hlongest q (started_eq hrep ▸ hq) (by simpa using hclass)
  have hcases := Station.History.express_cases (h.historic st (List.mem_of_getElem? hst))
    (countsFailures h hst hrep hfailures) hregular hpos hnonneg hp
  have hduration := Station.durationAt_nonneg hnonneg k
  rw [hwork] at hcases hduration
  exact hcases.imp_right fun hrest => hrest.imp_right fun hwaiting =>
    ⟨hwaiting.1, hwaiting.2, hduration⟩

/-- The `k`-th disabled client is near the times of the recurrence. -/
theorem disabled_near {k : ℕ} (hp : (st.classOrder true)[k]? = some p) :
    let a := Station.arrivalAt S.arrival (st.classOrder true)
    let d := Station.durationAt (fun q => serviceTime (.robotic r) (S.world.heap q)) failures
      (st.classOrder true)
    NearTimes S n i p (fifoStart a d k) (fifoFinish a d k) longest := by
  intro a d
  rcases disabled_cases h hst hrep hfailures hpos hlongest hp with
    ⟨c, hc, rfl, hle, hlt, hspan⟩ | ⟨b, hb, rfl, hle, hlt, hnow⟩ | ⟨hline, hlt, hspent⟩
  · exact near_of_completed h hst hc hle hlt hspan
  · exact near_of_current h hst hb hle hlt hnow
  · exact near_of_waiting h hst hline hlt hspent

end Cases

end Robotic

/-- Every robotic server is that prompt with its disabled clients, after every
tick. The delay is the longest service it has begun for a regular client, failed
attempts included. -/
theorem disabled_clients_expedited (S : Scenario) (n : ℕ) (h : S.Ordinary n) (i : ℕ)
    (r : RoboticServer) (hr : S.serverAt n i = some ⟨_, .robotic r⟩) (failures : ClientPtr → ℤ)
    (hfailures : CountsFailures (S.heapAt n) r failures) (longest : ℤ) (hpos : 0 < longest)
    (hlongest : ∀ p ∈ contents r.base.finishedClientsQueue ++ r.base.currentClient.toList,
      (S.heapAt n p).disabilityType = .noDisability →
      (failures p + 1) * serviceTime (.robotic r) (S.heapAt n p) ≤ longest) :
    S.loop n = .ok (S.stateAt n) ∧
      Expedited S n i r (Station.arrivalAt S.arrival (disabledClients (S.heapAt n) r))
        (Station.durationAt (fun p => serviceTime (.robotic r) (S.heapAt n p)) failures
          (disabledClients (S.heapAt n) r)) longest := by
  refine ⟨h.follows.1, ?_⟩
  obtain ⟨st, hst, hrep⟩ := exists_station h.refines hr
  have hordered := (h.historic st (List.mem_of_getElem? hst)).ordered
  have hclients := disabledClients_eq h hst hrep
  have harrival : ∀ k p, (disabledClients (S.heapAt n) r)[k]? = some p →
      Station.arrivalAt S.arrival (disabledClients (S.heapAt n) r) k = S.arrival p := by
    intro k p hp
    simp only [Station.arrivalAt, hp, Option.elim]
  have hjobs : ∀ p ∈ disabledClients (S.heapAt n) r, p ∈ st.jobs := by
    intro p hp
    rw [hclients] at hp
    exact Station.mem_jobs_of_mem_classOrder hp
  refine { routed_iff := fun p => ?_, admitted := fun k p hp => ?_, in_order := fun k hk => ?_,
           clients := fun k p hp => ?_ }
  · rw [hclients, hordered.mem_classOrder_iff, FifoServers.routed_iff h hst,
      RoboticServers.express_eq hrep, decide_eq_true_iff, and_comm]
  · obtain ⟨t, ht, hadmitted⟩ :=
      (FifoServers.routed_iff h hst p).mp (hjobs p (List.mem_of_getElem? hp))
    exact ⟨t, ht, hadmitted, (harrival k p hp).trans (h.arrival_of_admitted ht hadmitted)⟩
  · have hsorted := hordered.sorted true
    rw [← hclients] at hsorted
    rw [harrival k _ (List.getElem?_eq_getElem (by omega)),
      harrival (k + 1) _ (List.getElem?_eq_getElem hk)]
    exact List.pairwise_iff_getElem.mp hsorted k (k + 1) (by omega) hk (by omega)
  · rw [Station.durationAt_congr fun q hq => serviceTime_eq h hst (.robotic r) (hjobs q hq),
      hclients]
    exact disabled_near h hst hrep hfailures hpos hlongest (hclients ▸ hp)

/-- One server of each kind and a client a tick, one of them disabled. -/
def oneByOne (queue : Queue ClientPtr) (hvalid : queue.Valid) (hnodup : (contents queue).Nodup)
    (disabled : ClientPtr) : Scenario :=
  { mixed with
    system := { mixed.system with systemClients := some queue }
    world := { mixed.world with
      heap := fun p => newcomer p (p + 1) (if p = disabled then .type2 else .noDisability) }
    clients := queue
    systemClients_eq := rfl
    clients_valid := hvalid
    clients_nodup := hnodup
    types_valid := fun p _ => newcomer_valid p (p + 1) (by split <;> decide) }

/-- The robotic server is busy with the third client when the disabled one arrives. -/
def crowded : Scenario :=
  oneByOne { items := [some 3, some 2, some 1, some 0], size := 4, capacity := 4 }
    (represents_of_items (l := [0, 1, 2, 3]) (u := []) rfl rfl rfl (by decide)).1 (by decide) 3

theorem crowded_ordinary : crowded.Ordinary 10 :=
  Scenario.ordinary_of_isOk mixed_ordinary.boost (by decide +kernel) (by decide +kernel)

theorem disabled_clients_expedited_crowded :
    ∃ r, crowded.serverAt 10 1 = some ⟨_, .robotic r⟩ ∧
      crowded.loop 10 = .ok (crowded.stateAt 10) ∧
      Expedited crowded 10 1 r
        (Station.arrivalAt crowded.arrival (disabledClients (crowded.heapAt 10) r))
        (Station.durationAt (fun p => serviceTime (.robotic r) (crowded.heapAt 10 p))
          (fun p => (crowded.heapAt 10 p).serviceStat.failureCount)
          (disabledClients (crowded.heapAt 10) r)) 2 := by
  have hserver : (crowded.serverAt 10 1).isSome = true := by decide +kernel
  obtain ⟨⟨k, s⟩, hs⟩ := Option.isSome_iff_exists.mp hserver
  have hkind : k = .robotic := (crowded_ordinary.kind_eq hs).trans (by decide +kernel)
  have hlong : ((crowded.serverAt 10 1).all fun s =>
      (finishedClients s.2 ++ s.2.base.currentClient.toList).all fun p =>
        decide ((crowded.heapAt 10 p).disabilityType = .noDisability →
          ((crowded.heapAt 10 p).serviceStat.failureCount + 1) *
            serviceTime s.2 (crowded.heapAt 10 p) ≤ 2)) = true := by decide +kernel
  rw [hs, Option.all_some, List.all_eq_true] at hlong
  cases s with
  | standard s => cases hkind
  | robotic r =>
    refine ⟨r, hs, disabled_clients_expedited crowded 10 crowded_ordinary 1 r hs _
      ⟨fun _ _ => rfl, fun _ _ => le_refl _⟩ 2 (by decide) fun p hp => ?_⟩
    exact of_decide_eq_true (hlong p hp)

/-- The disabled client arrives at 4, and waits for the regular one before it. -/
example : crowded.StartsAt 1 2 3 ∧ crowded.StartsAt 1 3 5 := by decide +kernel

end AcaBSim.DisabledClients
