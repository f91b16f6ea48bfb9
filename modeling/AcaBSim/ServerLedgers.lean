import AcaBSim.Scenarios

/-!
The statistics of a server are an exact ledger of its run: every tick is active
or idle, every finished client is counted, and the active ticks are those that
the attempts on its clients took.
-/
namespace AcaBSim.ServerLedgers

open Machine ArrayQueue Clients Servers Systems Outcome Stations Networks ServerStations
  Simulation Scenarios

variable {k : ServerType}

/-- The counters of a server after `n` ticks, in terms of the records of the
clients it has finished and of the one it serves. -/
structure ServerLedger (n : ℕ) (heap : Heap) (s : Server k) : Prop where
  clock : s.base.stat.activeTime + s.base.stat.idleTime = n
  served : s.base.stat.clientServed = queueSize s.base.finishedClientsQueue
  failed : s.base.stat.failureCount =
    ((finishedClients s).map fun p => (heap p).serviceStat.failureCount).sum +
      s.base.currentClient.elim 0 fun p => (heap p).serviceStat.failureCount
  toServe : ∀ p, s.base.currentClient = some p →
    1 ≤ s.base.toServe ∧ s.base.toServe ≤ serviceTime s (heap p)
  active : s.base.stat.activeTime =
    ((finishedClients s).map fun p =>
      ((heap p).serviceStat.failureCount + 1) * serviceTime s (heap p)).sum +
      s.base.currentClient.elim 0 fun p =>
        (heap p).serviceStat.failureCount * serviceTime s (heap p) +
          (serviceTime s (heap p) - s.base.toServe)

theorem work_eq {B : ℚ → Prop} {h₀ : Heap} {s : Server k} {st : Station ClientPtr}
    (h : Represents B h₀ s st) (p : ClientPtr) : st.profile.work p = serviceTime s (h₀ p) := by
  rw [h.profile]
  rfl

/-- The ledger of a station, read from the memory that represents it. -/
theorem serverLedger_of_station {B : ℚ → Prop} {h₀ heap : Heap} {s : Server k}
    {st : Station ClientPtr} {n : ℕ} (h : Represents B h₀ s st) (hrec : Recorded h₀ heap st)
    (hledger : Station.Ledger n st) (hsettled : Station.Settled st) : ServerLedger n heap s := by
  have hdone : ∀ c ∈ st.completed, (heap c.job).serviceStat.failureCount = c.failures ∧
      serviceTime s (heap c.job) = st.profile.work c.job := by
    intro c hc
    rw [hrec.finished c hc, work_eq h]
    exact ⟨rfl, rfl⟩
  have hserving : ∀ a, st.current = some a →
      (heap a.job).serviceStat.failureCount = a.failures ∧
      serviceTime s (heap a.job) = st.profile.work a.job := by
    intro a ha
    rw [hrec.serving a ha, work_eq h]
    exact ⟨rfl, rfl⟩
  have hclient := h.current
  refine ⟨?_, ?_, ?_, ?_, ?_⟩
  · rw [h.counted.active, h.counted.idle, hledger.clock]
  · rw [h.counted.served, h.finished.size, List.length_map]
  · rw [h.counted.failed, hledger.failed_eq, finishedClients_eq h, List.map_map]
    congr 1
    · exact congrArg List.sum (List.map_congr_left fun c hc => (hdone c hc).1.symm)
    · cases hcur : st.current with
      | none => rw [hclient, hcur]; rfl
      | some a => rw [hclient, hcur]; exact (hserving a hcur).1.symm
  · intro p hp
    rw [hclient] at hp
    obtain ⟨a, ha, rfl⟩ := Option.map_eq_some_iff.mp hp
    rw [h.toServe a ha, (hserving a ha).2]
    exact ⟨hsettled.remaining_pos a ha, hsettled.remaining_le a ha⟩
  · rw [h.counted.active, hledger.busy_eq, finishedClients_eq h, List.map_map]
    congr 1
    · refine congrArg List.sum (List.map_congr_left fun c hc => ?_)
      obtain ⟨hfailures, hwork⟩ := hdone c hc
      simp only [Function.comp, hfailures, hwork]
    · cases hcur : st.current with
      | none => rw [hclient, hcur]; rfl
      | some a =>
        obtain ⟨hfailures, hwork⟩ := hserving a hcur
        rw [hclient, hcur]
        simp only [Option.map_some, Option.elim, hfailures, hwork, h.toServe a hcur]

/-- After every tick the statistics of every server are its exact ledger. -/
theorem server_statistics_exact (S : Scenario) (n : ℕ) (h : S.Ordinary n) :
    S.loop n = .ok (S.stateAt n) ∧
      ∀ s ∈ servers (S.systemAt n), ServerLedger n (S.heapAt n) s.2 := by
  refine ⟨h.follows.1, fun s hs => ?_⟩
  obtain ⟨i, hi⟩ := List.mem_iff_getElem?.mp hs
  obtain ⟨st, hst, hrep⟩ := exists_station h.refines hi
  have hmem := List.mem_of_getElem? hst
  have hhist := h.historic st hmem
  exact serverLedger_of_station hrep (h.refines.recorded st hmem) hhist.ledger hhist.settled

theorem server_statistics_exact_mixed :
    mixed.loop 10 = .ok (mixed.stateAt 10) ∧
      ∀ s ∈ servers (mixed.systemAt 10), ServerLedger 10 (mixed.heapAt 10) s.2 :=
  server_statistics_exact mixed 10 mixed_ordinary

end AcaBSim.ServerLedgers
