import AcaBSim.Scenarios

/-!
The wait and total times that a run records. `get_client` clears the record of
the client it admits, its arrival time included, so both times count from the
start of the simulation and not from the client's arrival.
-/
namespace AcaBSim.RecordedTimes

open Machine ArrayQueue Clients Servers Systems Outcome Stations Networks ServerStations
  Simulation Scenarios

/-- The recorded times are what passed since the arrival the clients came with. -/
structure TimesFromArrival (S : Scenario) (n : ℕ) : Prop where
  wait : ∀ i p t, t < n → S.StartsAt i p t →
    (S.heapAt n p).serviceStat.waitTime = t - S.arrival p
  total : ∀ i p t, t < n → S.FinishesAt i p t →
    (S.heapAt n p).serviceStat.totalTime = t - S.arrival p

variable {S : Scenario} {n i : ℕ} {p : ClientPtr} {x : ℤ} {st : Station ClientPtr}

/-- The wait time of a client that has started is the tick at which it did. -/
theorem waitTime_of_mem_services (h : S.Ordinary n) (hst : (S.run n).stations[i]? = some st)
    (hp : (p, x) ∈ st.services) : (S.heapAt n p).serviceStat.waitTime = x := by
  have hrec := h.refines.recorded st (List.mem_of_getElem? hst)
  rw [Scenario.heapAt]
  rcases List.mem_append.mp hp with hp | hp
  · obtain ⟨c, hc, heq⟩ := List.mem_map.mp hp
    cases heq
    rw [hrec.finished c hc]
    rfl
  · obtain ⟨a, ha, heq⟩ := List.mem_map.mp hp
    cases heq
    rw [hrec.serving a (Option.mem_toList.mp ha)]
    rfl

/-- A server that holds a client has started one. -/
theorem exists_service (h : S.Ordinary n) (hst : (S.run n).stations[i]? = some st)
    (hp : p ∈ st.jobs) : ∃ q x, (q, x) ∈ st.services := by
  have hsettled := (h.historic st (List.mem_of_getElem? hst)).settled
  cases hcur : st.current with
  | some a => exact ⟨a.job, a.start, by simp [Station.services, hcur]⟩
  | none =>
    obtain ⟨hex, hreg⟩ := hsettled.idle_empty hcur
    rw [Station.jobs, hex, hreg, List.append_nil, List.append_nil, Station.started_eq_services]
      at hp
    obtain ⟨⟨q, x⟩, hmem, -⟩ := List.mem_map.mp hp
    exact ⟨q, x, hmem⟩

/-- Nobody starts or finishes before the first arrival. -/
theorem timesFromArrival_of_late (h : S.Ordinary n)
    (hlate : ∀ p ∈ contents S.clients, (n : ℤ) ≤ S.arrival p) : TimesFromArrival S n := by
  have hnobody : ∀ (i : ℕ) (p : ClientPtr) (t : ℕ), t < n → ¬ S.HeldAt i p (t + 1) := by
    intro i p t ht hheld
    have hnext := h.mono ht
    have hmem := hnext.heldAt_iff.mp hheld
    obtain ⟨u, hu, harrival, -⟩ := hnext.admitted_of_held hmem
    have hle := hlate p (Scenario.mem_clients_of_held hmem)
    omega
  refine ⟨fun i p t ht hstart => ?_, fun i p t ht hend => ?_⟩
  · exact absurd (Or.inr (Or.inl hstart.2)) (hnobody i p t ht)
  · exact absurd (Or.inr (Or.inr hend.2)) (hnobody i p t ht)

/-- A run keeps its times from arrival just as long as nobody has arrived. -/
theorem times_from_arrival_iff (S : Scenario) (hs : S.Scheduled) (n : ℕ) (h : S.Ordinary n) :
    (∀ m, m ≤ n → S.loop m = .ok (S.stateAt m) ∧ TimesFromArrival S m) ↔
      ∀ p ∈ contents S.clients, (n : ℤ) ≤ S.arrival p := by
  constructor
  · intro htimes p hp
    by_contra hearly
    obtain ⟨i, st, hst, hjob⟩ := h.held_of_arrival hs hp (not_le.mp hearly)
    obtain ⟨q, x, hservice⟩ := exists_service h hst hjob
    obtain ⟨t, ht, rfl, hstart⟩ := S.fresh.starts_of_mem_services hst hservice
    have hwait := (htimes n (le_refl n)).2.wait i q t ht ((h.mono ht).startsAt_iff.mpr hstart)
    rw [waitTime_of_mem_services h hst hservice] at hwait
    have hq : q ∈ st.jobs := by
      rw [Station.jobs, Station.started_eq_services, List.append_assoc]
      exact List.mem_append_left _ (List.mem_map.mpr ⟨_, hservice, rfl⟩)
    have hpos := hs.positive q (Scenario.mem_clients_of_held ⟨st, hst, hq⟩)
    omega
  · intro hlate m hm
    refine ⟨(h.mono hm).follows.1, timesFromArrival_of_late (h.mono hm) fun p hp => ?_⟩
    have hle := hlate p hp
    omega

theorem mixed_scheduled : mixed.Scheduled := ⟨by decide +kernel, by decide +kernel⟩

/-- Two clients that arrive at ticks 1 and 3, in a run that ends at tick 1. -/
theorem times_from_arrival_iff_mixed :
    (∀ m, m ≤ 1 → mixed.loop m = .ok (mixed.stateAt m) ∧ TimesFromArrival mixed m) ↔
      ∀ p ∈ contents mixed.clients, ((1 : ℕ) : ℤ) ≤ mixed.arrival p :=
  times_from_arrival_iff mixed mixed_scheduled 1 (mixed_ordinary.mono (by decide))

/-- The first client starts at its arrival, tick 1, with a recorded wait of 1. -/
theorem waits_without_contention : mixed.Scheduled ∧ mixed.Ordinary 10 ∧
    mixed.arrival 0 = 1 ∧ mixed.StartsAt 0 0 1 ∧
    (mixed.heapAt 10 0).serviceStat.waitTime = 1 ∧ ¬ TimesFromArrival mixed 10 := by
  have hstart : mixed.StartsAt 0 0 1 := by decide +kernel
  have hwait : (mixed.heapAt 10 0).serviceStat.waitTime = 1 := by decide +kernel
  refine ⟨mixed_scheduled, mixed_ordinary, by decide +kernel, hstart, hwait, fun htimes => ?_⟩
  have hclaim := htimes.wait 0 0 1 (by decide) hstart
  rw [hwait, show mixed.arrival 0 = 1 by decide +kernel] at hclaim
  exact absurd hclaim (by decide)

end AcaBSim.RecordedTimes
