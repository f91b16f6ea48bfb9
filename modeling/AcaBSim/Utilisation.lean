import AcaBSim.Backlogs
import AcaBSim.DisabledClients
import AcaBSim.ServerLedgers

/-!
When a server works depends on its clients and their arrivals only. Neither the
priority of disabled clients nor the order of service nor when attempts fail can
be seen in it: no server is idle with work left, and every busy tick does one
tick of work.
-/
namespace AcaBSim.Utilisation

open Machine ArrayQueue Clients Servers Systems Outcome Stations Networks ServerStations
  Simulation Scenarios

open DisabledClients (crowded crowded_ordinary)

variable {k : ServerType}

/-- The clients routed to a server, wherever it has them. -/
def clients (s : Server k) : List ClientPtr :=
  finishedClients s ++ s.base.currentClient.toList ++ waitingClients s

/-- `failures` gives the failed attempts of the clients of a server, with those
that an unfinished client may still have after the run. -/
structure CountsFailures (heap : Heap) (s : Server k) (failures : ClientPtr → ℤ) : Prop where
  finished : ∀ p ∈ finishedClients s, failures p = (heap p).serviceStat.failureCount
  unfinished : ∀ p ∈ s.base.currentClient.toList ++ waitingClients s,
    (heap p).serviceStat.failureCount ≤ failures p

/-- The time for all attempts at a client. -/
def attemptTime (heap : Heap) (s : Server k) (failures : ClientPtr → ℤ) (p : ClientPtr) : ℤ :=
  (failures p + 1) * serviceTime s (heap p)

/-- The work that comes to a server with the client that arrives at tick `t`. -/
def workAt (S : Scenario) (n : ℕ) (s : Server k) (failures : ClientPtr → ℤ) (t : ℕ) : ℤ :=
  (((clients s).filter fun p => S.arrival p = t).map (attemptTime (S.heapAt n) s failures)).sum

/-- What holds after `n` ticks of the `i`-th server `s`, to which `w t` ticks of
work come at tick `t`. -/
structure WorksOff (S : Scenario) (n i : ℕ) (s : Server k) (failures : ClientPtr → ℤ)
    (w : ℕ → ℤ) : Prop where
  admitted : ∀ p ∈ clients s, ∃ t, t < n ∧ S.AdmittedTo i p t ∧ S.arrival p = t
  serving : s.base.currentClient ≠ none ↔ 0 < backlog w n
  active : s.base.stat.activeTime = busyTicks w n
  idle : s.base.stat.idleTime = n - busyTicks w n
  left : ((clients s).map (attemptTime (S.heapAt n) s failures)).sum =
    s.base.stat.activeTime + backlog w n

variable {S : Scenario} {n i : ℕ} {s : Server k} {st : Station ClientPtr}

theorem clients_eq {B : ℚ → Prop} {h₀ : Heap} (hrep : Represents B h₀ s st) :
    clients s = st.jobs := by
  rw [clients, finishedClients_eq hrep, waitingClients_eq hrep, hrep.current, Option.toList_map,
    Station.jobs, Station.started, List.append_assoc, List.append_assoc, List.append_assoc]

section Server

variable (h : S.Ordinary n) (hst : (S.run n).stations[i]? = some st)
  (hrep : Represents Moderate S.world.heap s st)

include h hst hrep

theorem countsFailures {failures : ClientPtr → ℤ}
    (hfailures : CountsFailures (S.heapAt n) s failures) : st.CountsFailures failures :=
  DisabledClients.stationCounts h hst hrep hfailures.finished fun p hp =>
    hfailures.unfinished p (List.mem_append_left _ (Option.mem_toList.mpr hp))

theorem attemptTime_eq {failures : ClientPtr → ℤ} {p : ClientPtr} (hp : p ∈ st.jobs) :
    attemptTime (S.heapAt n) s failures p = (failures p + 1) * st.profile.work p := by
  rw [attemptTime, DisabledClients.serviceTime_eq h hst s hp, ← ServerLedgers.work_eq hrep]

theorem attemptTime_nonneg {failures : ClientPtr → ℤ}
    (hfailures : CountsFailures (S.heapAt n) s failures) {p : ClientPtr} (hp : p ∈ st.jobs) :
    0 ≤ (failures p + 1) * st.profile.work p := by
  have hmem := List.mem_of_getElem? hst
  have hcount := Drainage.failures_nonneg h hmem hp
  have hle : (S.heapAt n p).serviceStat.failureCount ≤ failures p := by
    rw [← clients_eq hrep, clients, List.append_assoc, List.mem_append] at hp
    rcases hp with hp | hp
    · exact (hfailures.finished p hp).ge
    · exact hfailures.unfinished p hp
  exact Int.mul_nonneg (by omega)
    (Drainage.work_nonneg hmem (Drainage.mem_clients_of_mem_jobs hmem hp))

theorem workAt_eq (failures : ClientPtr → ℤ) :
    workAt S n s failures = Station.workAt S.arrival failures st := by
  funext t
  rw [workAt, Station.workAt, clients_eq hrep]
  exact congrArg List.sum (List.map_congr_left fun p hp =>
    attemptTime_eq h hst hrep (List.mem_filter.mp hp).1)

end Server

/-- Every server, of either kind, works so after every tick. -/
theorem servers_work_off (S : Scenario) (n : ℕ) (h : S.Ordinary n) (i : ℕ) {k : ServerType}
    (s : Server k) (hs : S.serverAt n i = some ⟨k, s⟩) (failures : ClientPtr → ℤ)
    (hfailures : CountsFailures (S.heapAt n) s failures) :
    S.loop n = .ok (S.stateAt n) ∧ WorksOff S n i s failures (workAt S n s failures) := by
  refine ⟨h.follows.1, ?_⟩
  obtain ⟨st, hst, hrep⟩ : ∃ st, (S.run n).stations[i]? = some st ∧
      Represents Moderate S.world.heap s st := exists_station h.refines hs
  have hhist := h.historic st (List.mem_of_getElem? hst)
  have hcounts := countsFailures h hst hrep hfailures
  have hwork : ∀ p ∈ st.jobs, 0 ≤ (failures p + 1) * st.profile.work p := fun p hp =>
    attemptTime_nonneg h hst hrep hfailures hp
  obtain ⟨hleft, hbusy⟩ := hhist.backlog_eq hcounts hwork
  obtain ⟨-, hserving⟩ := Station.unfinished_cases hhist.ledger hhist.settled hcounts hwork
  have hactive := hrep.counted.active
  have hclock := hhist.ledger.clock
  rw [workAt_eq h hst hrep]
  refine { admitted := fun p hp => ?_, serving := ?_, active := hactive.trans hbusy, idle := ?_,
           left := ?_ }
  · rw [clients_eq hrep] at hp
    obtain ⟨t, ht, harrival, hadmitted⟩ := h.admitted_of_held ⟨st, hst, hp⟩
    exact ⟨t, ht, hadmitted, harrival⟩
  · change _ ↔ 0 < backlog (Station.workAt S.policy.arrival failures st) n
    rw [← hleft, ← hserving, hrep.current, Option.isSome_iff_ne_none, ne_eq, ne_eq,
      Option.map_eq_none_iff]
  · have hidle := hrep.counted.idle
    change _ = (n : ℤ) - busyTicks (Station.workAt S.policy.arrival failures st) n
    omega
  · have hload : ((clients s).map (attemptTime (S.heapAt n) s failures)).sum =
        st.workload failures := by
      rw [clients_eq hrep]
      exact congrArg List.sum (List.map_congr_left fun p hp => attemptTime_eq h hst hrep hp)
    change _ = _ + backlog (Station.workAt S.policy.arrival failures st) n
    rw [hload, hactive, ← hleft, Station.unfinished]
    ring

theorem servers_work_off_crowded :
    ∃ (k : ServerType) (s : Server k), crowded.serverAt 10 1 = some ⟨k, s⟩ ∧
      crowded.loop 10 = .ok (crowded.stateAt 10) ∧
      WorksOff crowded 10 1 s (fun p => (crowded.heapAt 10 p).serviceStat.failureCount)
        (workAt crowded 10 s fun p => (crowded.heapAt 10 p).serviceStat.failureCount) := by
  have hserver : (crowded.serverAt 10 1).isSome = true := by decide +kernel
  obtain ⟨⟨k, s⟩, hs⟩ := Option.isSome_iff_exists.mp hserver
  exact ⟨k, s, hs, servers_work_off _ 10 crowded_ordinary 1 s hs _
    ⟨fun _ _ => rfl, fun _ _ => le_refl _⟩⟩

end AcaBSim.Utilisation
