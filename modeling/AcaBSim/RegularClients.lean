import AcaBSim.RegularDelays
import AcaBSim.Utilisation

/-!
What the priority of disabled clients costs the others. A regular client starts
at the first tick at which it has waited for the work that its server had left
when it came and for the work of all disabled clients that have come since. At a
standard server, and where no disabled client comes, this is its wait.
-/
namespace AcaBSim.RegularClients

open Machine ArrayQueue Clients Servers Systems Outcome Stations Networks ServerStations
  Simulation Scenarios Utilisation

variable {k : ServerType}

/-- The work of the clients with priority that come to a server from tick `a` to tick `t`. -/
def overtakingWork (S : Scenario) (n : ℕ) (s : Server k) (failures : ClientPtr → ℤ)
    (a t : ℕ) : ℤ :=
  (((clients s).filter fun q => expressAt s (S.heapAt n q) &&
    decide (a ≤ S.arrival q) && decide (S.arrival q ≤ t)).map
      (attemptTime (S.heapAt n) s failures)).sum

/-- The delay by tick `t` of a client that arrives at tick `a`. -/
def delay (S : Scenario) (n : ℕ) (s : Server k) (failures : ClientPtr → ℤ) (a t : ℕ) : ℤ :=
  found (workAt S n s failures) a + overtakingWork S n s failures a t

variable {S : Scenario} {n i : ℕ} {s : Server k} {st : Station ClientPtr}

section Server

variable (h : S.Ordinary n) (hst : (S.run n).stations[i]? = some st)
  (hrep : Represents Moderate S.world.heap s st)

include h hst hrep

theorem expressAt_eq {p : ClientPtr} (hp : p ∈ st.jobs) :
    expressAt s (S.heapAt n p) = st.profile.express p := by
  rw [hrep.profile, DisabledClients.heapAt_eq h hst hp]
  cases s <;> rfl

theorem delay_eq (failures : ClientPtr → ℤ) (a t : ℕ) :
    delay S n s failures a t = found (Station.workAt S.arrival failures st) a +
      Station.workOf failures st (Station.overtakes S.arrival st.profile.express a t) := by
  have hkind : (clients s).filter (fun q => expressAt s (S.heapAt n q) &&
      decide (a ≤ S.arrival q) && decide (S.arrival q ≤ t)) =
        st.jobs.filter (Station.overtakes S.arrival st.profile.express a t) := by
    rw [clients_eq hrep]
    refine List.filter_congr fun q hq => ?_
    rw [expressAt_eq h hst hrep hq]
    rfl
  rw [delay, overtakingWork, hkind, workAt_eq h hst hrep]
  congr 2
  exact List.map_congr_left fun q hq => attemptTime_eq h hst hrep (List.mem_filter.mp hq).1

end Server

/-- A client without priority starts at the first tick that is its delay past its arrival. -/
theorem regular_client_starts_iff (S : Scenario) (n : ℕ) (h : S.Ordinary n) (i : ℕ)
    {k : ServerType} (s : Server k) (hs : S.serverAt n i = some ⟨k, s⟩)
    (failures : ClientPtr → ℤ) (hfailures : CountsFailures (S.heapAt n) s failures)
    (p : ClientPtr) (a : ℕ) (ha : a < n) (hadmitted : S.AdmittedTo i p a)
    (hregular : expressAt s (S.heapAt n p) = false) (t : ℕ) (ht : t < n) :
    S.loop n = .ok (S.stateAt n) ∧
      (S.StartsAt i p t ↔ a ≤ t ∧ (t : ℤ) = a + delay S n s failures a t ∧
        ∀ u : ℕ, a ≤ u → u < t → u < a + delay S n s failures a u) := by
  refine ⟨h.follows.1, ?_⟩
  obtain ⟨st, hst, hrep⟩ : ∃ st, (S.run n).stations[i]? = some st ∧
      Represents Moderate S.world.heap s st := exists_station h.refines hs
  have hmem := List.mem_of_getElem? hst
  have hhist := h.historic st hmem
  have hcounts := countsFailures h hst hrep hfailures
  have hwork : ∀ p ∈ st.jobs, 0 ≤ (failures p + 1) * st.profile.work p := fun p hp =>
    attemptTime_nonneg h hst hrep hfailures hp
  have hp : p ∈ st.jobs := by
    obtain ⟨st', hst', hp⟩ := h.held_of_admitted ha hadmitted
    obtain rfl := Option.some.inj (hst'.symm.trans hst)
    exact hp
  have harrival : S.policy.arrival p = a := h.arrival_of_admitted ha hadmitted
  have hclass : st.profile.express p = false := expressAt_eq h hst hrep hp ▸ hregular
  simp only [delay_eq h hst hrep, ← add_assoc]
  rw [(h.mono ht).startsAt_iff]
  rw [Station.jobs, List.mem_append, List.mem_append] at hp
  rcases hp with (hp | hp) | hp
  · rw [Station.started_eq_services] at hp
    obtain ⟨⟨q, x⟩, hservice, rfl⟩ := List.mem_map.mp hp
    obtain ⟨v, -, rfl, -⟩ := S.fresh.starts_of_mem_services hst hservice
    obtain ⟨hle, heq, hbefore⟩ := hhist.regular_starts hcounts hwork hservice hclass harrival
    rw [S.fresh.starts_iff hst hservice ht]
    constructor
    · intro hvt
      obtain rfl : v = t := by exact_mod_cast hvt
      exact ⟨hle, heq, hbefore⟩
    · rintro ⟨hat, hnow, hearlier⟩
      -- neither of the two ticks can come before the other
      rcases lt_trichotomy v t with hlt | hvt | hlt
      · have hless := hearlier v hle hlt
        exact absurd heq hless.ne
      · exact_mod_cast hvt
      · have hless := hbefore t hat hlt
        exact absurd hnow hless.ne
  · have hexpress := hhist.ordered.class_eq true p hp
    rw [hclass] at hexpress
    cases hexpress
  · have hline : p ∈ st.waiting false := hp
    refine iff_of_false (S.fresh.not_starts_of_waiting hst hline ht) ?_
    rintro ⟨hat, hnow, -⟩
    exact absurd hnow (hhist.regular_waits hcounts hwork hp harrival hat ht).ne

/-- The fourth client is overtaken by the fifth one, which is disabled. -/
def overtaken : Scenario :=
  DisabledClients.oneByOne
    { items := [some 4, some 3, some 2, some 1, some 0], size := 5, capacity := 5 }
    (represents_of_items (l := [0, 1, 2, 3, 4]) (u := []) rfl rfl rfl (by decide)).1 (by decide) 4

theorem overtaken_ordinary : overtaken.Ordinary 12 :=
  Scenario.ordinary_of_isOk mixed_ordinary.boost (by decide +kernel) (by decide +kernel)

theorem overtaken_admitted : overtaken.AdmittedTo 1 3 4 := by
  have hwaiting : ((overtaken.serverAt 5 1).any fun s => decide (3 ∈ waitingClients s.2)) = true :=
    by decide +kernel
  obtain ⟨s, hs, hp⟩ := (Option.any_eq_true _ _).mp hwaiting
  refine ⟨?_, ?_, Or.inl ⟨s, hs, of_decide_eq_true hp⟩⟩
  · change 3 ∈ doorClients (overtaken.systemAt 4)
    decide +kernel
  · change 3 ∉ doorClients (overtaken.systemAt 5)
    decide +kernel

theorem regular_client_starts_iff_overtaken :
    ∃ (k : ServerType) (s : Server k), overtaken.serverAt 12 1 = some ⟨k, s⟩ ∧
      let failures := fun p => (overtaken.heapAt 12 p).serviceStat.failureCount
      overtaken.loop 12 = .ok (overtaken.stateAt 12) ∧
        (overtaken.StartsAt 1 3 10 ↔ 4 ≤ 10 ∧
          ((10 : ℕ) : ℤ) = (4 : ℕ) + delay overtaken 12 s failures 4 10 ∧
          ∀ u : ℕ, 4 ≤ u → u < 10 → u < (4 : ℕ) + delay overtaken 12 s failures 4 u) := by
  have hserver : (overtaken.serverAt 12 1).isSome = true := by decide +kernel
  obtain ⟨⟨k, s⟩, hs⟩ := Option.isSome_iff_exists.mp hserver
  have hclass : ((overtaken.serverAt 12 1).all fun s =>
      expressAt s.2 (overtaken.heapAt 12 3) == false) = true := by decide +kernel
  rw [hs] at hclass
  exact ⟨k, s, hs, regular_client_starts_iff overtaken 12 overtaken_ordinary 1 s hs _
    ⟨fun _ _ => rfl, fun _ _ => le_refl _⟩ 3 4 (by decide) overtaken_admitted
    (beq_iff_eq.mp hclass) 10 (by decide)⟩

/-- It arrives at 4, finds one tick of work and is overtaken by five of them. -/
example : overtaken.StartsAt 1 4 5 ∧ overtaken.StartsAt 1 3 10 := by decide +kernel

end AcaBSim.RegularClients
