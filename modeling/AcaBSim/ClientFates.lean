import AcaBSim.Scenarios

/-!
What a server has done for one of its clients after `n` ticks: the ticks at
which it started and finished the client, the record it has left and the place
where the client is. The phase of the client at the station decides them all.
-/
namespace AcaBSim.ClientFates

open Machine ArrayQueue Clients Servers Systems Outcome Stations Networks ServerStations
  Simulation Scenarios

/-- The fate of client `p` at server `i`, whose times are absent until they come. -/
structure Fate (S : Scenario) (n i : ℕ) (p : ClientPtr) (start finish : Option ℤ)
    (record : Client) : Prop where
  starts : ∀ t : ℕ, t < n → (S.StartsAt i p t ↔ start = some (t : ℤ))
  finishes : ∀ t : ℕ, t < n → (S.FinishesAt i p t ↔ finish = some (t : ℤ))
  started_before : ∀ x ∈ start, x < n
  finished_before : ∀ x ∈ finish, x < n
  record_eq : S.heapAt n p = record
  waiting : S.WaitingAt i p n ↔ start = none
  served : S.ServedAt i p n ↔ start ≠ none ∧ finish = none
  finished : S.FinishedAt i p n ↔ finish ≠ none

variable {S : Scenario} {n i : ℕ} {p : ClientPtr} {st : Station ClientPtr}

section Places

variable (h : S.Ordinary n) (hst : (S.run n).stations[i]? = some st)

include h hst

theorem waitingAt_iff : S.WaitingAt i p n ↔ p ∈ st.express ++ st.regular := by
  obtain ⟨s, hs, hrep⟩ := exists_server h.refines hst
  rw [← waitingClients_eq hrep]
  constructor
  · intro hwaiting
    obtain ⟨r, hr, hp⟩ := hwaiting
    obtain rfl := Option.some.inj (hr.symm.trans hs)
    exact hp
  · exact fun hp => ⟨s, hs, hp⟩

theorem servedAt_iff : S.ServedAt i p n ↔ ∃ a ∈ st.current, a.job = p := by
  rw [h.servedAt_iff]
  constructor
  · intro hserved
    obtain ⟨st', a, hst', ha, hjob⟩ := hserved
    obtain rfl := Option.some.inj (hst'.symm.trans hst)
    exact ⟨a, ha, hjob⟩
  · intro hcurrent
    obtain ⟨a, ha, hjob⟩ := hcurrent
    exact ⟨st, a, hst, ha, hjob⟩

theorem finishedAt_iff : S.FinishedAt i p n ↔ p ∈ st.completed.map Completed.job := by
  rw [h.finishedAt_iff]
  constructor
  · intro hfinished
    obtain ⟨st', hst', hp⟩ := hfinished
    obtain rfl := Option.some.inj (hst'.symm.trans hst)
    exact hp
  · exact fun hp => ⟨st, hst, hp⟩

theorem fate_of_waiting {line : Bool} (hp : p ∈ st.waiting line) :
    Fate S n i p none none (waitingRecord (S.world.heap p)) := by
  have hnodup := S.fresh.nodup_jobs hst
  rw [Station.jobs, List.append_assoc, List.nodup_append] at hnodup
  have hmem : p ∈ st.express ++ st.regular := by
    cases line with
    | true => exact List.mem_append_left _ hp
    | false => exact List.mem_append_right _ hp
  have hstarted : p ∉ st.started := fun hstarted => hnodup.2.2 p hstarted p hmem rfl
  have hdone : p ∉ st.completed.map Completed.job :=
    fun hdone => hstarted (List.mem_append_left _ hdone)
  refine ⟨fun t ht => ?_, fun t ht => ?_, by simp, by simp, ?_, ?_, ?_, ?_⟩
  · rw [(h.mono ht).startsAt_iff]
    exact iff_of_false (S.fresh.not_starts_of_waiting hst hp ht) (by simp)
  · rw [(h.mono ht).finishesAt_iff]
    exact iff_of_false (Network.not_finishes_of_not_completed hst hdone ht) (by simp)
  · exact (h.refines.recorded st (List.mem_of_getElem? hst)).waiting line p hp
  · rw [waitingAt_iff h hst]
    exact iff_of_true hmem rfl
  · rw [servedAt_iff h hst]
    refine iff_of_false ?_ (by simp)
    intro hserving
    obtain ⟨a, ha, rfl⟩ := hserving
    exact hstarted (List.mem_append_right _ (by simp [Option.mem_def.mp ha]))
  · rw [finishedAt_iff h hst]
    exact iff_of_false hdone (by simp)

theorem fate_of_current {a : Attempt ClientPtr} (ha : a ∈ st.current) :
    Fate S n i a.job (some a.start) none
      (servingRecord (S.world.heap a.job) a.start a.failures) := by
  have hservice : (a.job, a.start) ∈ st.services :=
    List.mem_append_right _ (by simp [Option.mem_def.mp ha])
  obtain ⟨hwaiting, hdone⟩ := Station.current_separate ha (S.fresh.nodup_jobs hst)
  obtain ⟨u, hu, hstart, -⟩ := S.fresh.starts_of_mem_services hst hservice
  refine ⟨fun t ht => ?_, fun t ht => ?_, ?_, by simp, ?_, ?_, ?_, ?_⟩
  · rw [(h.mono ht).startsAt_iff, S.fresh.starts_iff hst hservice ht, Option.some_inj]
  · rw [(h.mono ht).finishesAt_iff]
    exact iff_of_false (Network.not_finishes_of_not_completed hst hdone ht) (by simp)
  · intro x hx
    obtain rfl := Option.mem_some_iff.mp hx
    omega
  · exact (h.refines.recorded st (List.mem_of_getElem? hst)).serving a ha
  · rw [waitingAt_iff h hst, List.mem_append]
    exact iff_of_false (fun hp => hp.elim (hwaiting true) (hwaiting false)) (by simp)
  · rw [servedAt_iff h hst]
    exact iff_of_true ⟨a, ha, rfl⟩ (by simp)
  · rw [finishedAt_iff h hst]
    exact iff_of_false hdone (by simp)

theorem fate_of_completed {c : Completed ClientPtr} (hc : c ∈ st.completed) :
    Fate S n i c.job (some c.start) (some c.finish)
      (finishedRecord (S.world.heap c.job) c.start c.failures c.finish) := by
  have hservice : (c.job, c.start) ∈ st.services :=
    List.mem_append_left _ (List.mem_map.mpr ⟨c, hc, rfl⟩)
  have hjob : c.job ∈ st.completed.map Completed.job := List.mem_map_of_mem hc
  have hnodup := S.fresh.nodup_jobs hst
  obtain ⟨u, hu, hstart, -⟩ := S.fresh.starts_of_mem_services hst hservice
  obtain ⟨v, hv, hfinish, -⟩ := S.fresh.finishes_of_mem_completed hst hc
  refine ⟨fun t ht => ?_, fun t ht => ?_, ?_, ?_, ?_, ?_, ?_, ?_⟩
  · rw [(h.mono ht).startsAt_iff, S.fresh.starts_iff hst hservice ht, Option.some_inj]
  · rw [(h.mono ht).finishesAt_iff, S.fresh.finishes_iff hst hc, Option.some_inj]
  · intro x hx
    obtain rfl := Option.mem_some_iff.mp hx
    omega
  · intro x hx
    obtain rfl := Option.mem_some_iff.mp hx
    omega
  · exact (h.refines.recorded st (List.mem_of_getElem? hst)).finished c hc
  · rw [waitingAt_iff h hst]
    rw [Station.jobs, List.append_assoc, List.nodup_append] at hnodup
    have hstarted : c.job ∈ st.started := List.mem_append_left _ hjob
    exact iff_of_false (fun hp => hnodup.2.2 _ hstarted _ hp rfl) (by simp)
  · rw [servedAt_iff h hst]
    refine iff_of_false ?_ (by simp)
    intro hserving
    obtain ⟨a, ha, heq⟩ := hserving
    exact (Station.current_separate ha hnodup).2 (heq ▸ hjob)
  · rw [finishedAt_iff h hst]
    exact iff_of_true hjob (by simp)

end Places

/-- Whatever happens to a client at a server leaves it with that server. -/
theorem held_of_starts (h : S.Ordinary n) {t : ℕ} (ht : t < n) (hstart : S.StartsAt i p t) :
    Network.Held S.policy S.network i p n :=
  ((h.mono ht).heldAt_iff.mp (Or.inr (Or.inl hstart.2))).mono ht

theorem held_of_finishes (h : S.Ordinary n) {t : ℕ} (ht : t < n) (hend : S.FinishesAt i p t) :
    Network.Held S.policy S.network i p n :=
  ((h.mono ht).heldAt_iff.mp (Or.inr (Or.inr hend.2))).mono ht

end AcaBSim.ClientFates
