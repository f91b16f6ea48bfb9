import AcaBSim.Scenarios

/-!
A robotic server is a priority queue that never idles with work and never
interrupts a service: disabled clients go first, each class is served in the
order of admission, and a service lasts as long as its attempts.
-/
namespace AcaBSim.RoboticServers

open Machine ArrayQueue Clients Servers Systems Outcome Stations Networks ServerStations
  Simulation Scenarios

/-- What holds of the robotic server `r`, the `i`-th server after `n` ticks. -/
structure PriorityServer (S : Scenario) (n i : ℕ) (r : RoboticServer) : Prop where
  disabled_queue : ∀ p ∈ contents r.disableClientQueue,
    (S.heapAt n p).disabilityType ≠ .noDisability
  normal_queue : ∀ p ∈ contents r.normalClientQueue,
    (S.heapAt n p).disabilityType = .noDisability
  priority : ∀ p t, t < n → S.StartsAt i p t →
    (S.world.heap p).disabilityType = .noDisability →
    ∃ r', S.serverAt (t + 1) i = some ⟨_, .robotic r'⟩ ∧ contents r'.disableClientQueue = []
  order : ∀ p q a b t, b < n → t < n → S.AdmittedTo i p a → S.AdmittedTo i q b → a < b →
    ((S.world.heap p).disabilityType = .noDisability ↔
      (S.world.heap q).disabilityType = .noDisability) →
    S.StartsAt i q t → ∃ u, u < t ∧ S.StartsAt i p u
  conserving : r.base.currentClient = none →
    contents r.disableClientQueue = [] ∧ contents r.normalClientQueue = []
  uninterrupted : ∀ p t, t < n → S.ServedAt i p t →
    S.ServedAt i p (t + 1) ∨ S.FinishesAt i p t
  duration : ∀ p ∈ contents r.base.finishedClientsQueue,
    (S.heapAt n p).serviceStat.finishTime - (S.heapAt n p).serviceStat.startServiceTime =
      ((S.heapAt n p).serviceStat.failureCount + 1) *
        truncate (tableTime (S.heapAt n p) / r.boostRate) ∧
    ∃ u v : ℕ, (S.heapAt n p).serviceStat.startServiceTime = u ∧ S.StartsAt i p u ∧
      (S.heapAt n p).serviceStat.finishTime = v ∧ S.FinishesAt i p v

variable {S : Scenario} {n i : ℕ}

/-- The classes of a robotic server, as those of its station. -/
theorem express_eq {B : ℚ → Prop} {h₀ : Heap} {r : RoboticServer} {st : Station ClientPtr}
    (h : Represents B h₀ (.robotic r) st) (p : ClientPtr) :
    st.profile.express p = decide ((h₀ p).disabilityType ≠ .noDisability) := by
  rw [h.profile]
  rfl

/-- A server that is robotic once is robotic throughout. -/
theorem robotic_throughout {t : ℕ} (h : S.Ordinary n) (ht : t ≤ n) {r : RoboticServer}
    (hr : S.serverAt n i = some ⟨_, .robotic r⟩) {s : AnyServer} (hs : S.serverAt t i = some s) :
    ∃ r', s = ⟨_, .robotic r'⟩ := by
  have hkind := h.kind_eq hr
  rw [← (h.mono ht).kind_eq hs] at hkind
  obtain ⟨k, s⟩ := s
  cases s with
  | standard s => cases hkind
  | robotic r' => exact ⟨r', rfl⟩

/-- The two queues hold the clients of their classes. -/
theorem queues_segregated (h : S.Ordinary n) {r : RoboticServer}
    (hr : S.serverAt n i = some ⟨_, .robotic r⟩) :
    (∀ p ∈ contents r.disableClientQueue, (S.heapAt n p).disabilityType ≠ .noDisability) ∧
      ∀ p ∈ contents r.normalClientQueue, (S.heapAt n p).disabilityType = .noDisability := by
  obtain ⟨st, hst, hrep⟩ := exists_station h.refines hr
  have hmem := List.mem_of_getElem? hst
  have hclass := (h.historic st hmem).ordered.class_eq
  obtain ⟨hdisable, hnormal⟩ := hrep.lines
  have htype : ∀ line, ∀ p ∈ st.waiting line,
      decide ((S.heapAt n p).disabilityType ≠ .noDisability) = line := by
    intro line p hp
    have hline := hclass line p hp
    rw [express_eq hrep] at hline
    rw [Scenario.heapAt, (h.refines.recorded st hmem).waiting line p hp]
    exact hline
  constructor
  · intro p hp
    rw [hdisable.2] at hp
    exact of_decide_eq_true (htype true p hp)
  · intro p hp
    rw [hnormal.2] at hp
    simpa using htype false p hp

/-- A regular client starts only when no disabled client is waiting. -/
theorem disabled_first (h : S.Ordinary n) {r : RoboticServer}
    (hr : S.serverAt n i = some ⟨_, .robotic r⟩) {p : ClientPtr} {t : ℕ} (ht : t < n)
    (hstart : S.StartsAt i p t) (htype : (S.world.heap p).disabilityType = .noDisability) :
    ∃ r', S.serverAt (t + 1) i = some ⟨_, .robotic r'⟩ ∧
      contents r'.disableClientQueue = [] := by
  have hnext := h.mono ht
  obtain ⟨s, hs, -⟩ := hstart.2
  obtain ⟨r', rfl⟩ := robotic_throughout h ht hr hs
  obtain ⟨st, hst, hrep⟩ := exists_station hnext.refines hs
  refine ⟨r', hs, ?_⟩
  have hempty := S.fresh.express_empty_of_starts (h.mono ht.le).historic
    (hnext.startsAt_iff.mp hstart) hst (by rw [express_eq hrep]; simpa using htype)
  obtain ⟨hdisable, -⟩ := hrep.lines
  rw [hdisable.2, hempty]

/-- Within a class, clients start in the order in which they were admitted. -/
theorem class_in_order (h : S.Ordinary n) {r : RoboticServer}
    (hr : S.serverAt n i = some ⟨_, .robotic r⟩) {p q : ClientPtr} {a b t : ℕ} (hb : b < n)
    (ht : t < n)
    (hp : S.AdmittedTo i p a) (hq : S.AdmittedTo i q b) (hab : a < b)
    (hclass : (S.world.heap p).disabilityType = .noDisability ↔
      (S.world.heap q).disabilityType = .noDisability) (hstart : S.StartsAt i q t) :
    ∃ u, u < t ∧ S.StartsAt i p u := by
  have hnext := h.mono ht
  obtain ⟨s, hs, -⟩ := hstart.2
  obtain ⟨r', rfl⟩ := robotic_throughout h ht hr hs
  obtain ⟨st, hst, hrep⟩ := exists_station hnext.refines hs
  have hqs : q ∈ st.jobs := by
    obtain ⟨st', hst', hmem⟩ := hnext.heldAt_iff.mp (Or.inr (Or.inl hstart.2))
    obtain rfl := Option.some.inj (hst'.symm.trans hst)
    exact hmem
  have hpa := h.arrival_of_admitted (hab.trans hb) hp
  have hqb := h.arrival_of_admitted hb hq
  -- the arrival of `q`, and before it that of `p`, precede the start of `q`
  have hle : S.arrival q ≤ t := by
    have harrived := (hnext.historic st (List.mem_of_getElem? hst)).ordered.arrived q hqs
    push_cast at harrived
    exact harrived.trans (by omega)
  have hps : p ∈ st.jobs := by
    obtain ⟨st', hst', hmem⟩ := hnext.held_of_admitted (by omega) hp
    obtain rfl := Option.some.inj (hst'.symm.trans hst)
    exact hmem
  have hexpress : st.profile.express p = st.profile.express q := by
    rw [express_eq hrep, express_eq hrep]
    exact decide_eq_decide.mpr (not_congr hclass)
  have hlt : S.arrival p < S.arrival q := by omega
  obtain ⟨u, hu, hbecomes⟩ := S.fresh.starts_in_order hnext.historic
    (hnext.startsAt_iff.mp hstart) hst hps hexpress hlt
  exact ⟨u, hu, (h.mono (by omega)).startsAt_iff.mpr hbecomes⟩

/-- A service goes on until the client is finished. -/
theorem never_interrupted (h : S.Ordinary n) {p : ClientPtr} {t : ℕ} (ht : t < n)
    (hserved : S.ServedAt i p t) : S.ServedAt i p (t + 1) ∨ S.FinishesAt i p t := by
  have hnext := h.mono ht
  rw [hnext.servedAt_iff, hnext.finishesAt_iff]
  exact S.fresh.serving_next ((h.mono ht.le).servedAt_iff.mp hserved)

/-- A finished service took its service time once for every attempt. -/
theorem service_duration (h : S.Ordinary n) {r : RoboticServer}
    (hr : S.serverAt n i = some ⟨_, .robotic r⟩) {p : ClientPtr}
    (hp : p ∈ contents r.base.finishedClientsQueue) :
    (S.heapAt n p).serviceStat.finishTime - (S.heapAt n p).serviceStat.startServiceTime =
      ((S.heapAt n p).serviceStat.failureCount + 1) *
        truncate (tableTime (S.heapAt n p) / r.boostRate) ∧
    ∃ u v : ℕ, (S.heapAt n p).serviceStat.startServiceTime = u ∧ S.StartsAt i p u ∧
      (S.heapAt n p).serviceStat.finishTime = v ∧ S.FinishesAt i p v := by
  obtain ⟨st, hst, hrep⟩ := exists_station h.refines hr
  have hmem := List.mem_of_getElem? hst
  obtain ⟨c, hc, rfl⟩ : ∃ c ∈ st.completed, c.job = p := by
    have hfinished := finishedClients_eq hrep
    rw [finishedClients] at hfinished
    exact List.mem_map.mp (hfinished ▸ hp)
  have hrecord := (h.refines.recorded st hmem).finished c hc
  obtain ⟨-, -, hfinish, -⟩ := (h.historic st hmem).timed.completed_span c hc
  have hwork : st.profile.work c.job = truncate (tableTime (S.world.heap c.job) / r.boostRate) := by
    rw [hrep.profile]
    rfl
  rw [Scenario.heapAt, hrecord]
  refine ⟨?_, ?_⟩
  · change c.finish - c.start =
      (c.failures + 1) * truncate (tableTime (S.world.heap c.job) / r.boostRate)
    rw [hfinish, hwork]
    ring
  · have hservice : (c.job, c.start) ∈ st.services :=
      List.mem_append_left _ (List.mem_map.mpr ⟨c, hc, rfl⟩)
    obtain ⟨u, hu, hstart, hstarts⟩ := S.fresh.starts_of_mem_services hst hservice
    obtain ⟨v, hv, hend, hends⟩ := S.fresh.finishes_of_mem_completed hst hc
    exact ⟨u, v, hstart, (h.mono hu).startsAt_iff.mpr hstarts, hend,
      (h.mono hv).finishesAt_iff.mpr hends⟩

/-- Every robotic server is such a priority server after every tick. -/
theorem robotic_server_priority (S : Scenario) (n : ℕ) (h : S.Ordinary n) (i : ℕ)
    (r : RoboticServer) (hr : S.serverAt n i = some ⟨_, .robotic r⟩) :
    S.loop n = .ok (S.stateAt n) ∧ PriorityServer S n i r := by
  refine ⟨h.follows.1, ?_⟩
  refine {
    disabled_queue := (queues_segregated h hr).1
    normal_queue := (queues_segregated h hr).2
    priority := fun p t ht hstart htype => disabled_first h hr ht hstart htype
    order := fun p q a b t hb ht hp hq hab hclass hstart =>
      class_in_order h hr hb ht hp hq hab hclass hstart
    conserving := ?_
    uninterrupted := fun p t ht hserved => never_interrupted h ht hserved
    duration := fun p hp => service_duration h hr hp
  }
  intro hidle
  obtain ⟨st, hst, hrep⟩ := exists_station h.refines hr
  have hcur : st.current = none := by
    have hclient := hrep.current
    rw [show (Server.robotic r).base = r.base from rfl, hidle] at hclient
    exact Option.map_eq_none_iff.mp hclient.symm
  obtain ⟨hex, hreg⟩ := (h.historic st (List.mem_of_getElem? hst)).settled.idle_empty hcur
  obtain ⟨hdisable, hnormal⟩ := hrep.lines
  rw [hdisable.2, hnormal.2]
  exact ⟨hex, hreg⟩

/-- A disabled and a regular client wait while another disabled one is served. -/
theorem robotic_server_priority_contended :
    ∃ r, contended.serverAt 10 1 = some ⟨_, .robotic r⟩ ∧ r.base.currentClient = some 4 ∧
      contents r.disableClientQueue ++ contents r.normalClientQueue = [6, 3] ∧
      contended.loop 10 = .ok (contended.stateAt 10) ∧ PriorityServer contended 10 1 r := by
  have hord : contended.Ordinary 10 := contended_ordinary.mono (by omega)
  have hbusy : ((contended.serverAt 10 1).any fun s =>
      decide (s.2.base.currentClient = some 4 ∧ waitingClients s.2 = [6, 3])) = true := by
    decide +kernel
  obtain ⟨⟨k, s⟩, hs, hclients⟩ := (Option.any_eq_true _ _).mp hbusy
  have hkind : k = .robotic := (hord.kind_eq hs).trans (by decide +kernel)
  obtain ⟨hcurrent, hwaiting⟩ := of_decide_eq_true hclients
  cases s with
  | standard s => cases hkind
  | robotic r =>
    exact ⟨r, hs, hcurrent, hwaiting, robotic_server_priority contended 10 hord 1 r hs⟩

end AcaBSim.RoboticServers
