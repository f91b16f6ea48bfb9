import AcaBSim.NetworkDrain
import AcaBSim.Conservation

/-!
A simulation that lasts long enough serves everybody. From the last arrival on
no tick is wasted while there is work, so the time needed is bounded by the
attempts at the clients, failed ones included, whatever the servers and routes.
-/
namespace AcaBSim.Drainage

open Machine ArrayQueue Clients Servers Systems Outcome Stations Networks ServerStations
  Simulation Scenarios Conservation

variable {S : Scenario} {n : ℕ}

/-- Nobody waits to enter, nobody waits at a server and nobody is served. -/
structure Drained (sys : System) : Prop where
  door : doorClients sys = []
  waiting : ∀ s ∈ servers sys, waitingClients s.2 = []
  current : ∀ s ∈ servers sys, s.2.base.currentClient = none

/-- The time for all attempts at a client, if one attempt takes `longest` at most. -/
def attemptTime (S : Scenario) (n : ℕ) (longest : ClientPtr → ℤ) (p : ClientPtr) : ℤ :=
  ((S.heapAt n p).serviceStat.failureCount + 1) * longest p

theorem drained_of_network {B : ℚ → Prop} {h₀ : Heap} {m : ℕ} {sys : System} {w : World}
    {N : Network ClientPtr} (h : Refines B h₀ m sys w N) (hdrained : Network.Drained N) :
    Drained sys := by
  have hstation : ∀ s ∈ servers sys, ∃ st ∈ N.stations, Represents B h₀ s.2 st := by
    intro s hs
    obtain ⟨i, hi⟩ := List.mem_iff_getElem?.mp hs
    obtain ⟨st, hst, hrep⟩ := exists_station h hi
    exact ⟨st, List.mem_of_getElem? hst, hrep⟩
  refine ⟨(doorClients_eq h).trans hdrained.door, fun s hs => ?_, fun s hs => ?_⟩
  · obtain ⟨st, hst, hrep⟩ := hstation s hs
    obtain ⟨hex, hreg⟩ := hdrained.lines st hst
    rw [waitingClients_eq hrep, hex, hreg, List.append_nil]
  · obtain ⟨st, hst, hrep⟩ := hstation s hs
    rw [hrep.current, hdrained.current st hst]
    rfl

/-- All clients are finished then, each at one server. -/
theorem finished_of_drained (h : S.Ordinary n) (hdrained : Drained (S.systemAt n)) :
    ((servers (S.systemAt n)).flatMap fun s => finishedClients s.2).Perm
      (contents S.clients) := by
  obtain ⟨gone, hgone⟩ := S.fresh.progress (P := S.policy) n
  have hplaces := (places_perm h.refines).trans hgone.places
  have hfinished : places (S.systemAt n) =
      (servers (S.systemAt n)).flatMap fun s => finishedClients s.2 := by
    rw [places, hdrained.door, List.nil_append]
    refine List.flatMap_congr fun s hs => ?_
    rw [hdrained.waiting s hs, hdrained.current s hs, Option.toList_none, List.nil_append,
      List.nil_append]
  rwa [hfinished] at hplaces

/-- The stations keep the profiles of the servers they stand for. -/
theorem exists_profile {st : Station ClientPtr} (hst : st ∈ (S.run n).stations) :
    ∃ s ∈ servers S.system, st.profile = profileOf S.world.heap s.2 := by
  have hmem : st.profile ∈ (S.run n).stations.map Station.profile := List.mem_map_of_mem hst
  rw [Scenario.run, Network.profiles_run, Scenario.network, Network.start, List.map_map] at hmem
  obtain ⟨profile, hprofile, heq⟩ := List.mem_map.mp hmem
  rw [← heq]
  rcases List.mem_append.mp hprofile with hmem | hmem
  · obtain ⟨s, hs, rfl⟩ := List.mem_map.mp hmem
    exact ⟨⟨_, s⟩, List.mem_append_left _ (List.mem_map_of_mem hs), rfl⟩
  · obtain ⟨s, hs, rfl⟩ := List.mem_map.mp hmem
    exact ⟨⟨_, s⟩, List.mem_append_right _ (List.mem_map_of_mem hs), rfl⟩

theorem work_nonneg {st : Station ClientPtr} (hst : st ∈ (S.run n).stations) {p : ClientPtr}
    (hp : p ∈ contents S.clients) : 0 ≤ st.profile.work p := by
  obtain ⟨s, hs, hprofile⟩ := exists_profile hst
  rw [hprofile]
  refine serviceTime_nonneg (S.types_valid p hp) fun b hb => ?_
  rcases List.mem_append.mp hs with hs | hs
  · obtain ⟨s', -, rfl⟩ := List.mem_map.mp hs
    cases s'
    cases hb
  · obtain ⟨s', hs', rfl⟩ := List.mem_map.mp hs
    exact (S.robotic_fresh s' hs').2 b hb

theorem mem_clients_of_mem_jobs {st : Station ClientPtr} (hst : st ∈ (S.run n).stations)
    {p : ClientPtr} (hp : p ∈ st.jobs) : p ∈ contents S.clients := by
  obtain ⟨i, hi⟩ := List.mem_iff_getElem?.mp hst
  exact Scenario.mem_clients_of_held ⟨st, hi, hp⟩

section Work

variable (h : S.Ordinary n)

include h

/-- The failures in the records are those of the stations. -/
theorem failures_eq {st : Station ClientPtr} (hst : st ∈ (S.run n).stations) :
    (∀ c ∈ st.completed, (S.heapAt n c.job).serviceStat.failureCount = c.failures) ∧
      (∀ a ∈ st.current, (S.heapAt n a.job).serviceStat.failureCount = a.failures) ∧
      ∀ line, ∀ p ∈ st.waiting line, (S.heapAt n p).serviceStat.failureCount = 0 := by
  have hrec := h.refines.recorded st hst
  refine ⟨fun c hc => ?_, fun a ha => ?_, fun line p hp => ?_⟩
  · rw [Scenario.heapAt, hrec.finished c hc]
    rfl
  · rw [Scenario.heapAt, hrec.serving a ha]
    rfl
  · rw [Scenario.heapAt, hrec.waiting line p hp]
    rfl

theorem failures_nonneg {st : Station ClientPtr} (hst : st ∈ (S.run n).stations) {p : ClientPtr}
    (hp : p ∈ st.jobs) : 0 ≤ (S.heapAt n p).serviceStat.failureCount := by
  obtain ⟨hcompleted, hcurrent, hwaiting⟩ := failures_eq h hst
  have htimed := (h.historic st hst).timed
  simp only [Station.jobs, Station.started, List.mem_append, List.mem_map, Option.mem_toList] at hp
  obtain ((⟨c, hc, rfl⟩ | ⟨a, ha, rfl⟩) | hp) | hp := hp
  · rw [hcompleted c hc]
    exact (htimed.completed_span c hc).1
  · rw [hcurrent a ha]
    exact (htimed.current_span a ha).1
  · exact (hwaiting true p hp).ge
  · exact (hwaiting false p hp).ge

/-- The busy ticks of a station are within the time for the attempts at its clients. -/
theorem busy_le_attempts {longest : ClientPtr → ℤ}
    (hlongest : ∀ p ∈ contents S.clients, ∀ s ∈ servers S.system,
      serviceTime s.2 (S.world.heap p) ≤ longest p)
    {st : Station ClientPtr} (hst : st ∈ (S.run n).stations) :
    st.busy + (if st.current.isSome then 1 else 0) ≤
      (st.jobs.map (attemptTime S n longest)).sum := by
  obtain ⟨hcompleted, hcurrent, hwaiting⟩ := failures_eq h hst
  have hhist := h.historic st hst
  obtain ⟨s, hs, hprofile⟩ := exists_profile hst
  refine (Station.busy_le_workload (fun p => (S.heapAt n p).serviceStat.failureCount)
    hhist.ledger hhist.settled hcompleted (fun a ha => (hcurrent a ha).ge)
    fun line p hp => ?_).trans
    (List.sum_le_sum fun p hp => ?_)
  · have hjob := Station.mem_jobs_of_mem_waiting hp
    rw [hwaiting line p hp, zero_add, one_mul]
    exact work_nonneg hst (mem_clients_of_mem_jobs hst hjob)
  · have hnonneg := failures_nonneg h hst hp
    refine mul_le_mul_of_nonneg_left ?_ (add_nonneg hnonneg zero_le_one)
    rw [hprofile]
    exact hlongest p (mem_clients_of_mem_jobs hst hp) s hs

end Work

/-- After the last arrival, and the time for all attempts at all clients, everybody is served. -/
theorem drains_in_time (S : Scenario) (n last : ℕ) (longest : ClientPtr → ℤ) (h : S.Ordinary n)
    (hs : S.Scheduled) (hticks : last < n) (hlast : ∀ p ∈ contents S.clients, S.arrival p ≤ last)
    (hlongest : ∀ p ∈ contents S.clients, ∀ s ∈ servers S.system,
      serviceTime s.2 (S.world.heap p) ≤ longest p)
    (htime : last + 1 + ((contents S.clients).map (attemptTime S n longest)).sum ≤ n) :
    Drained (S.systemAt n) ∧
      ((servers (S.systemAt n)).flatMap fun s => finishedClients s.2).Perm
        (contents S.clients) := by
  suffices hdrained : Network.Drained (S.run n) by
    have hsystem := drained_of_network h.refines hdrained
    exact ⟨hsystem, finished_of_drained h hsystem⟩
  by_contra hbusy
  have hdoor : (S.run (last + 1)).door = [] := by
    refine List.eq_nil_iff_forall_not_mem.mpr fun p hp => ?_
    have hord := h.mono hticks
    have hdoor : S.AtDoor p (last + 1) := hord.atDoor_iff.mpr hp
    have hclient := hord.mem_clients_of_atDoor hdoor
    have hlate := (hord.atDoor_iff_arrival hs hclient).mp hdoor
    have hle := hlast p hclient
    push_cast at hlate
    omega
  have hsettled : ∀ k ≤ n, ∀ st ∈ (S.run k).stations, st.Settled := fun k hk st hst =>
    ((h.mono hk).historic st hst).settled
  have hspent := Network.busy_until_drained hdoor (fun k _ hk => hsettled k hk) hticks hbusy
  have hstart : 0 ≤ (S.run (last + 1)).busySum := by
    refine List.sum_nonneg (List.forall_mem_map.mpr fun st hst => ?_)
    exact ((h.mono hticks).historic st hst).paced.counters_le.1
  have hempty := Network.door_nil_run hdoor hticks
  obtain ⟨st, hst, hcur⟩ := Network.exists_active hempty (hsettled n le_rfl) hbusy
  have hone := Network.one_le_active hst hcur
  have hplaces : ((S.run n).stations.flatMap Station.jobs).Perm (contents S.clients) := by
    obtain ⟨gone, hgone⟩ := S.fresh.progress (P := S.policy) n
    have hperm := hgone.places
    rwa [show (S.network.run S.policy n).door = [] from hempty, List.nil_append] at hperm
  have hbound : (S.run n).busySum + ((S.run n).stations.map fun st =>
      if st.current.isSome then (1 : ℤ) else 0).sum ≤
      ((contents S.clients).map (attemptTime S n longest)).sum := by
    rw [Network.busySum, ← List.sum_map_add, ← (hplaces.map _).sum_eq, List.map_flatMap,
      List.flatMap_def, List.sum_flatten, List.map_map]
    exact List.sum_le_sum fun st hst => busy_le_attempts h hlongest hst
  change (S.run (last + 1)).busySum + _ ≤ (S.run n).busySum at hspent
  change 1 ≤ ((S.run n).stations.map _).sum at hone
  push_cast at hspent
  omega

/-- Seven clients and eleven attempts, on servers with clients waiting. -/
theorem drains_in_time_contended :
    Drained (contended.systemAt 70) ∧
      ((servers (contended.systemAt 70)).flatMap fun s => finishedClients s.2).Perm
        (contents contended.clients) := by
  have hscheduled : contended.Scheduled := ⟨by decide +kernel, by decide +kernel⟩
  exact drains_in_time contended 70 7 (fun p => if p = 4 ∨ p = 6 then 10 else 4)
    contended_ordinary hscheduled (by decide) (by decide +kernel) (by decide +kernel)
    (by decide +kernel)

end AcaBSim.Drainage
