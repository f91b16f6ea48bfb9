import AcaBSim.ClientFates

/-!
A standard server is a first-in first-out server: its clients start in the
order of their admission, each at its admission or when the client before it
has finished, and are served for their table time once for every attempt.
-/
namespace AcaBSim.FifoServers

open Machine ArrayQueue Clients Servers Systems Outcome Stations Networks ServerStations
  Simulation Scenarios ClientFates

/-- The clients routed to a standard server, in the order in which it takes them. -/
def routed (s : StandardServer) : List ClientPtr :=
  contents s.base.finishedClientsQueue ++ s.base.currentClient.toList ++ contents s.clientQueue

/-- `failures` gives the failed attempts of every client, with those that an
unfinished client may still have after the run. -/
structure CountsFailures (heap : Heap) (s : StandardServer) (failures : ClientPtr → ℤ) :
    Prop where
  finished : ∀ p ∈ contents s.base.finishedClientsQueue,
    failures p = (heap p).serviceStat.failureCount
  unfinished : ∀ p ∈ routed s, (heap p).serviceStat.failureCount ≤ failures p

/-- What holds after `n` ticks of a client of server `i` that is to start at
`start` and to finish at `finish`, whether these ticks have come or not. -/
structure ClientTimes (S : Scenario) (n i : ℕ) (s : StandardServer) (p : ClientPtr)
    (start finish : ℤ) : Prop where
  starts : ∀ t, t < n → (S.StartsAt i p t ↔ start = t)
  finishes : ∀ t, t < n → (S.FinishesAt i p t ↔ finish = t)
  waiting : p ∈ contents s.clientQueue ↔ n ≤ start
  finished : p ∈ contents s.base.finishedClientsQueue ↔ finish < n
  start_time : start < n → (S.heapAt n p).serviceStat.startServiceTime = start
  finish_time : finish < n → (S.heapAt n p).serviceStat.finishTime = finish

/-- What holds after `n` ticks of the standard server `s`, the `i`-th server,
whose `k`-th client arrives at `a k` and takes `d k` ticks. -/
structure FifoServer (S : Scenario) (n i : ℕ) (s : StandardServer) (a d : ℕ → ℤ) : Prop where
  routed_iff : ∀ p, p ∈ routed s ↔ ∃ t, t < n ∧ S.AdmittedTo i p t
  admitted : ∀ k p, (routed s)[k]? = some p → ∃ t, t < n ∧ S.AdmittedTo i p t ∧ a k = t
  in_order : ∀ k, k + 1 < (routed s).length → a k < a (k + 1)
  clients : ∀ k p, (routed s)[k]? = some p →
    ClientTimes S n i s p (fifoStart a d k) (fifoFinish a d k)
  spent : ∀ p ∈ contents s.base.finishedClientsQueue,
    (S.heapAt n p).serviceStat.totalTime - (S.heapAt n p).serviceStat.waitTime =
      ((S.heapAt n p).serviceStat.failureCount + 1) * tableTime (S.heapAt n p)

variable {S : Scenario} {n i : ℕ} {s : StandardServer} {st : Station ClientPtr}

theorem routed_eq {B : ℚ → Prop} {h₀ : Heap} (h : Represents B h₀ (.standard s) st) :
    routed s = st.jobs := by
  obtain ⟨hex, hqueue⟩ := h.lines
  have hfinished : contents s.base.finishedClientsQueue = st.completed.map Completed.job :=
    h.finished.2
  have hcurrent : s.base.currentClient = st.current.map Attempt.job := h.current
  rw [routed, hfinished, hcurrent, hqueue.2, Station.jobs, hex, Station.started, Option.toList_map,
    List.append_nil]

/-- The clients routed to a server are those admitted to it, at their arrival. -/
theorem routed_iff (h : S.Ordinary n) (hst : (S.run n).stations[i]? = some st) (p : ClientPtr) :
    p ∈ st.jobs ↔ ∃ t, t < n ∧ S.AdmittedTo i p t := by
  constructor
  · intro hp
    obtain ⟨t, ht, -, hadmitted⟩ := h.admitted_of_held ⟨st, hst, hp⟩
    exact ⟨t, ht, hadmitted⟩
  · intro hadmission
    obtain ⟨t, ht, hadmitted⟩ := hadmission
    obtain ⟨st', hst', hp⟩ := h.held_of_admitted ht hadmitted
    obtain rfl := Option.some.inj (hst'.symm.trans hst)
    exact hp

/-- The table time of a client does not depend on its record. -/
theorem tableTime_eq (h : S.Ordinary n) (hst : (S.run n).stations[i]? = some st) {p : ClientPtr}
    (hp : p ∈ st.jobs) : tableTime (S.heapAt n p) = tableTime (S.world.heap p) := by
  have hrec := h.refines.recorded st (List.mem_of_getElem? hst)
  simp only [Station.jobs, Station.started, List.mem_append, List.mem_map, Option.mem_toList] at hp
  rw [Scenario.heapAt]
  rcases hp with ((⟨c, hc, rfl⟩ | ⟨a, ha, rfl⟩) | hp) | hp
  · rw [hrec.finished c hc]
    rfl
  · rw [hrec.serving a ha]
    rfl
  · rw [hrec.waiting true p hp]
    rfl
  · rw [hrec.waiting false p hp]
    rfl

theorem failureCount_nonneg (h : S.Ordinary n) (hst : (S.run n).stations[i]? = some st)
    {p : ClientPtr} (hp : p ∈ st.jobs) : 0 ≤ (S.heapAt n p).serviceStat.failureCount := by
  have hmem := List.mem_of_getElem? hst
  have hrec := h.refines.recorded st hmem
  have htimed := (h.historic st hmem).timed
  simp only [Station.jobs, Station.started, List.mem_append, List.mem_map, Option.mem_toList] at hp
  rw [Scenario.heapAt]
  rcases hp with ((⟨c, hc, rfl⟩ | ⟨a, ha, rfl⟩) | hp) | hp
  · rw [hrec.finished c hc]
    exact (htimed.completed_span c hc).1
  · rw [hrec.serving a ha]
    exact (htimed.current_span a ha).1
  · rw [hrec.waiting true p hp]
    exact le_refl 0
  · rw [hrec.waiting false p hp]
    exact le_refl 0

/-- The `k`-th client of the server, in one of the three phases of its service. -/
theorem client_cases (h : S.Ordinary n) (hst : (S.run n).stations[i]? = some st)
    (hrep : Represents Moderate S.world.heap (.standard s) st) {failures : ClientPtr → ℤ}
    (hfailures : CountsFailures (S.heapAt n) s failures) {k : ℕ} {p : ClientPtr}
    (hp : st.jobs[k]? = some p) :
    let a := Station.arrivalAt S.arrival st.jobs
    let d := Station.durationAt (fun q => tableTime (S.world.heap q)) failures st.jobs
    (∃ c ∈ st.completed, c.job = p ∧ c.start = fifoStart a d k ∧ c.finish = fifoFinish a d k) ∨
    (∃ b ∈ st.current, b.job = p ∧ b.start = fifoStart a d k ∧ n ≤ fifoFinish a d k) ∨
    (p ∈ st.regular ∧ n ≤ fifoStart a d k ∧ n ≤ fifoFinish a d k) := by
  have hmem := List.mem_of_getElem? hst
  have hrec := h.refines.recorded st hmem
  have hprofile : st.profile = profileOf S.world.heap (.standard s) := hrep.profile
  have hwork : st.profile.work = fun q => tableTime (S.world.heap q) := by rw [hprofile]; rfl
  have hfinished : contents s.base.finishedClientsQueue = st.completed.map Completed.job :=
    hrep.finished.2
  have hcompleted : ∀ c ∈ st.completed, failures c.job = c.failures := by
    intro c hc
    have hcount := hfailures.finished c.job (hfinished ▸ List.mem_map_of_mem hc)
    rw [Scenario.heapAt, hrec.finished c hc] at hcount
    exact hcount
  have hcurrent : ∀ b ∈ st.current, b.failures ≤ failures b.job := by
    intro b hb
    have hjob : b.job ∈ routed s := by
      rw [routed_eq hrep]
      exact Station.mem_jobs_of_current hb
    have hcount := hfailures.unfinished b.job hjob
    rw [Scenario.heapAt, hrec.serving b hb] at hcount
    exact hcount
  have hspent : ∀ q ∈ st.jobs, 0 ≤ (failures q + 1) * st.profile.work q := by
    intro q hq
    have hge : 4 ≤ tableTime (S.world.heap q) := tableTime_ge
      (S.types_valid q (Scenario.mem_clients_of_held ⟨st, hst, hq⟩))
    have hcount := hfailures.unfinished q (routed_eq hrep ▸ hq)
    have hnonneg := failureCount_nonneg h hst hq
    rw [hwork]
    exact Int.mul_nonneg (by omega) (by dsimp only; omega)
  have hcases := Station.History.fifo_cases (h.historic st hmem)
    (fun j => by rw [hprofile]; rfl) hcompleted hcurrent hspent hp
  rw [hwork] at hcases
  exact hcases

section Times

variable (h : S.Ordinary n) (hst : (S.run n).stations[i]? = some st)
  (hrep : Represents Moderate S.world.heap (.standard s) st)

include h hst hrep

theorem waiting_iff {p : ClientPtr} : p ∈ contents s.clientQueue ↔ S.WaitingAt i p n := by
  obtain ⟨hex, hqueue⟩ := hrep.lines
  rw [waitingAt_iff h hst, hex, List.nil_append, hqueue.2]

theorem finished_iff {p : ClientPtr} :
    p ∈ contents s.base.finishedClientsQueue ↔ S.FinishedAt i p n := by
  rw [finishedAt_iff h hst, ← hrep.finished.2]
  rfl

theorem times_of_completed {c : Completed ClientPtr} (hc : c ∈ st.completed) :
    ClientTimes S n i s c.job c.start c.finish := by
  have hfate := fate_of_completed h hst hc
  have hstart := hfate.started_before c.start rfl
  have hfinish := hfate.finished_before c.finish rfl
  refine ⟨fun t ht => by simpa using hfate.starts t ht,
    fun t ht => by simpa using hfate.finishes t ht,
    ?_, ?_, fun _ => by rw [hfate.record_eq]; rfl, fun _ => by rw [hfate.record_eq]; rfl⟩
  · rw [waiting_iff h hst hrep, hfate.waiting]
    exact iff_of_false (by simp) (by omega)
  · rw [finished_iff h hst hrep, hfate.finished]
    exact iff_of_true (by simp) hfinish

theorem times_of_current {a : Attempt ClientPtr} (ha : a ∈ st.current) {finish : ℤ}
    (hfinish : n ≤ finish) : ClientTimes S n i s a.job a.start finish := by
  have hfate := fate_of_current h hst ha
  have hstart := hfate.started_before a.start rfl
  refine ⟨fun t ht => by simpa using hfate.starts t ht, fun t ht => ?_, ?_, ?_,
    fun _ => by rw [hfate.record_eq]; rfl, fun hlt => by omega⟩
  · rw [hfate.finishes t ht]
    exact iff_of_false (by simp) (by omega)
  · rw [waiting_iff h hst hrep, hfate.waiting]
    exact iff_of_false (by simp) (by omega)
  · rw [finished_iff h hst hrep, hfate.finished]
    exact iff_of_false (by simp) (by omega)

theorem times_of_waiting {p : ClientPtr} (hp : p ∈ st.regular) {start finish : ℤ}
    (hstart : n ≤ start) (hfinish : n ≤ finish) : ClientTimes S n i s p start finish := by
  have hline : p ∈ st.waiting false := hp
  have hfate := fate_of_waiting h hst hline
  refine ⟨fun t ht => ?_, fun t ht => ?_, ?_, ?_, fun hlt => by omega, fun hlt => by omega⟩
  · rw [hfate.starts t ht]
    exact iff_of_false (by simp) (by omega)
  · rw [hfate.finishes t ht]
    exact iff_of_false (by simp) (by omega)
  · rw [waiting_iff h hst hrep, hfate.waiting]
    exact iff_of_true rfl hstart
  · rw [finished_iff h hst hrep, hfate.finished]
    exact iff_of_false (by simp) (by omega)

end Times

/-- Every standard server is such a first-in first-out server after every tick. -/
theorem standard_server_fifo (S : Scenario) (n : ℕ) (h : S.Ordinary n) (i : ℕ)
    (s : StandardServer) (hs : S.serverAt n i = some ⟨_, .standard s⟩) (failures : ClientPtr → ℤ)
    (hfailures : CountsFailures (S.heapAt n) s failures) :
    S.loop n = .ok (S.stateAt n) ∧
      FifoServer S n i s (Station.arrivalAt S.arrival (routed s))
        (Station.durationAt (fun p => tableTime (S.heapAt n p)) failures (routed s)) := by
  refine ⟨h.follows.1, ?_⟩
  obtain ⟨st, hst, hrep⟩ := exists_station h.refines hs
  have hmem := List.mem_of_getElem? hst
  have hhist := h.historic st hmem
  have hprofile : st.profile = profileOf S.world.heap (.standard s) := hrep.profile
  have hroute := routed_eq hrep
  rw [hroute, Station.durationAt_congr fun p hp => tableTime_eq h hst hp]
  have harrival : ∀ k p, st.jobs[k]? = some p →
      Station.arrivalAt S.arrival st.jobs k = S.arrival p := by
    intro k p hp
    simp only [Station.arrivalAt, hp, Option.elim]
  refine {
    routed_iff := fun p => by rw [hroute]; exact routed_iff h hst p
    admitted := ?_
    in_order := ?_
    clients := ?_
    spent := ?_
  }
  · intro k p hp
    rw [hroute] at hp
    obtain ⟨t, ht, hadmitted⟩ := (routed_iff h hst p).mp (List.mem_of_getElem? hp)
    exact ⟨t, ht, hadmitted, (harrival k p hp).trans (h.arrival_of_admitted ht hadmitted)⟩
  · intro k hk
    rw [hroute] at hk
    have hsorted := (hhist.jobs_in_order fun j => by rw [hprofile]; rfl).2
    rw [harrival k _ (List.getElem?_eq_getElem (by omega)),
      harrival (k + 1) _ (List.getElem?_eq_getElem hk)]
    exact List.pairwise_iff_getElem.mp hsorted k (k + 1) (by omega) hk (by omega)
  · intro k p hp
    rw [hroute] at hp
    rcases client_cases h hst hrep hfailures hp with
      ⟨c, hc, rfl, hstart, hfinish⟩ | ⟨b, hb, rfl, hstart, hfinish⟩ | ⟨hp, hstart, hfinish⟩
    · exact hstart ▸ hfinish ▸ times_of_completed h hst hrep hc
    · exact hstart ▸ times_of_current h hst hrep hb hfinish
    · exact times_of_waiting h hst hrep hp hstart hfinish
  · intro p hp
    rw [show contents s.base.finishedClientsQueue = st.completed.map Completed.job from
      hrep.finished.2] at hp
    obtain ⟨c, hc, rfl⟩ := List.mem_map.mp hp
    obtain ⟨-, -, hspan, -⟩ := hhist.timed.completed_span c hc
    rw [Scenario.heapAt, (h.refines.recorded st hmem).finished c hc]
    change c.finish - c.start = (c.failures + 1) * tableTime (S.world.heap c.job)
    rw [hspan, hprofile]
    change c.start + (c.failures + 1) * tableTime (S.world.heap c.job) - c.start = _
    ring

/-- Three clients at one server: one finished at its second attempt, one being served
and one waiting. -/
theorem standard_server_fifo_contended :
    ∃ s, contended.serverAt 10 0 = some ⟨_, .standard s⟩ ∧ routed s = [0, 1, 5] ∧
      contended.loop 10 = .ok (contended.stateAt 10) ∧
      FifoServer contended 10 0 s (Station.arrivalAt contended.arrival (routed s))
        (Station.durationAt (fun p => tableTime (contended.heapAt 10 p))
          (fun p => (contended.heapAt 10 p).serviceStat.failureCount) (routed s)) := by
  have hord : contended.Ordinary 10 := contended_ordinary.mono (by omega)
  have hthree : ((contended.serverAt 10 0).any fun s =>
      finishedClients s.2 ++ s.2.base.currentClient.toList ++ waitingClients s.2 == [0, 1, 5]) =
        true := by decide +kernel
  obtain ⟨⟨k, s⟩, hs, hclients⟩ := (Option.any_eq_true _ _).mp hthree
  have hkind : k = .standard := (hord.kind_eq hs).trans (by decide +kernel)
  cases s with
  | robotic r => cases hkind
  | standard s =>
    exact ⟨s, hs, beq_iff_eq.mp hclients, standard_server_fifo contended 10 hord 0 s hs _
      ⟨fun _ _ => rfl, fun _ _ => le_refl _⟩⟩

end AcaBSim.FifoServers
