import AcaBSim.StationWaits
import AcaBSim.QueueLengths

/-!
The two ways in which the simulator measures waiting agree. The lengths of the
queues of a server, added up over the ticks, are the ticks that its clients
have waited: those it serves or has finished from their arrival to their start,
and those in its queues till now.
-/
namespace AcaBSim.WaitingTimes

open Machine ArrayQueue Clients Servers Systems Outcome Stations Networks ServerStations
  Simulation Scenarios Conservation QueueLengths

variable {k : ServerType} {S : Scenario} {n i : ℕ}

/-- The ticks that a client has waited when its service starts. -/
def waitToStart (S : Scenario) (n : ℕ) (p : ClientPtr) : ℤ :=
  (S.heapAt n p).serviceStat.startServiceTime - S.arrival p

theorem waitingSize_eq {B : ℚ → Prop} {h₀ : Heap} {s : Server k} {st : Station ClientPtr}
    (h : Represents B h₀ s st) : waitingSize s = st.lineLength := by
  cases s with
  | standard s =>
    obtain ⟨hex, hqueue⟩ := h.lines
    rw [waitingSize, Station.lineLength, hqueue.size, hex, List.length_nil, Nat.zero_add]
  | robotic s =>
    obtain ⟨hdisable, hnormal⟩ := h.lines
    rw [waitingSize, Station.lineLength, hdisable.size, hnormal.size, Nat.add_comm]

/-- The length after a tick is that of the lines of the station. -/
theorem lengthAt_station (h : S.Ordinary (n + 1)) {st : Station ClientPtr}
    (hst : (S.run (n + 1)).stations[i]? = some st) :
    lengthAt S.env S.system S.world i n = st.lineLength := by
  obtain ⟨s, hs, hrep⟩ := exists_server h.refines hst
  rw [lengthAt_eq h.follows.1 hs, waitingSize_eq hrep]

/-- The lengths up to now are the ticks waited at the station, by induction on the ticks. -/
theorem lengthSum_station (h : S.Ordinary n) {st : Station ClientPtr}
    (hst : (S.run n).stations[i]? = some st) :
    (lengthSum S.env S.system S.world i n : ℤ) = st.waited S.arrival n := by
  induction n generalizing st with
  | zero =>
    have hmem := List.mem_of_getElem? hst
    obtain ⟨profile, -, rfl⟩ := List.mem_map.mp hmem
    simp [lengthSum, Station.waited, Station.empty]
  | succ n ih =>
    obtain ⟨st₀, d, hst₀, hstep⟩ := Network.exists_before hst
    have hbefore := ih (h.mono (Nat.le_succ n)) hst₀
    have harrival : ∀ p ∈ (S.network.run S.policy n).incoming S.policy n i,
        S.arrival p = n := fun p hp =>
      (Network.arriving_eq_some.mp (Network.incoming_eq_some.mp hp).1).2
    rw [lengthSum_succ, lengthAt_station h hst, Nat.cast_add, hbefore]
    push_cast
    rw [Station.waited_succ, hstep, Station.waited_tick, Station.waited_receiveAll harrival]

/-- What a station says of the waiting times is in the records of its clients. -/
theorem waited_eq {s : AnyServer} {st : Station ClientPtr}
    (hrep : Represents Moderate S.world.heap s.2 st)
    (hrec : Recorded S.world.heap (S.heapAt n) st) :
    st.waited S.arrival n =
      ((finishedClients s.2 ++ s.2.base.currentClient.toList).map (waitToStart S n)).sum +
        ((waitingClients s.2).map fun p => n - S.arrival p).sum := by
  have hfinished : (st.completed.map fun c => c.start - S.arrival c.job) =
      (finishedClients s.2).map (waitToStart S n) := by
    rw [finishedClients_eq hrep, List.map_map]
    refine List.map_congr_left fun c hc => ?_
    simp only [Function.comp, waitToStart, hrec.finished c hc]
    rfl
  have hserved : st.current.elim 0 (fun a => a.start - S.arrival a.job) =
      (s.2.base.currentClient.toList.map (waitToStart S n)).sum := by
    rw [hrep.current]
    cases hcur : st.current with
    | none => rfl
    | some a =>
      simp only [Option.elim, Option.map_some, Option.toList_some, List.map_singleton,
        List.sum_singleton, waitToStart, hrec.serving a hcur]
      rfl
  rw [Station.waited, hfinished, hserved, waitingClients_eq hrep]
  simp only [List.map_append, List.sum_append]

/-- The queue lengths of a server, summed over all ticks, are the waiting times of its clients. -/
theorem queue_lengths_are_waits (S : Scenario) (n : ℕ) (h : S.Ordinary n) (i : ℕ) (s : AnyServer)
    (hs : S.serverAt n i = some s) :
    (lengthSum S.env S.system S.world i n : ℤ) =
      ((finishedClients s.2 ++ s.2.base.currentClient.toList).map (waitToStart S n)).sum +
        ((waitingClients s.2).map fun p => n - S.arrival p).sum := by
  obtain ⟨st, hst, hrep⟩ := exists_station h.refines hs
  rw [lengthSum_station h hst]
  exact waited_eq hrep (h.refines.recorded st (List.mem_of_getElem? hst))

/-- Eight ticks that the client being served has waited, and twelve of the one waiting. -/
theorem queue_lengths_are_waits_contended : ∃ s, contended.serverAt 16 1 = some s ∧
    s.2.base.currentClient = some 6 ∧ waitingClients s.2 = [3] ∧
    (lengthSum contended.env contended.system contended.world 1 16 : ℤ) =
      ((finishedClients s.2 ++ s.2.base.currentClient.toList).map
          (waitToStart contended 16)).sum +
        ((waitingClients s.2).map fun p => 16 - contended.arrival p).sum := by
  have hord : contended.Ordinary 16 := contended_ordinary.mono (by omega)
  have hserver : ((contended.serverAt 16 1).any fun s =>
      decide (s.2.base.currentClient = some 6 ∧ waitingClients s.2 = [3])) = true := by
    decide +kernel
  obtain ⟨s, hs, hclients⟩ := (Option.any_eq_true _ _).mp hserver
  obtain ⟨hcurrent, hwaiting⟩ := of_decide_eq_true hclients
  exact ⟨s, hs, hcurrent, hwaiting, queue_lengths_are_waits contended 16 hord 1 s hs⟩

end AcaBSim.WaitingTimes
