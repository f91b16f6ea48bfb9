import AcaBSim.NetworkProgress
import Mathlib.Data.List.Nodup

/-!
When the jobs of a network are admitted, started and finished, read off its run:
an event happens over the tick at which its condition becomes true. The times
that the stations record are the times of these events.
-/
namespace AcaBSim.Networks.Network

open Stations

/-- A condition that does not hold before tick `t` and holds after it. -/
def Becomes (f : ℕ → Prop) (t : ℕ) : Prop := ¬ f t ∧ f (t + 1)

variable {J : Type}

section Phases

variable (P : Policy J) (N : Network J) (i : ℕ) (j : J) (t : ℕ)

def AtDoor : Prop := j ∈ (N.run P t).door

def Held : Prop := ∃ s, (N.run P t).stations[i]? = some s ∧ j ∈ s.jobs

def Serving : Prop :=
  ∃ s a, (N.run P t).stations[i]? = some s ∧ s.current = some a ∧ a.job = j

def Done : Prop :=
  ∃ s, (N.run P t).stations[i]? = some s ∧ j ∈ s.completed.map Completed.job

end Phases

variable {P : Policy J} {N : Network J} {i t n : ℕ} {j : J} {s s' : Station J}

theorem exists_next (hs : (N.run P n).stations[i]? = some s) :
    ∃ s', (N.run P (n + 1)).stations[i]? = some s' := by
  obtain ⟨k, hk⟩ := tick_getElem? (P := P) (t := n) hs
  exact ⟨_, hk⟩

/-- One tick of the `i`-th station, given its states before and after. -/
theorem next_station (hs : (N.run P n).stations[i]? = some s)
    (hs' : (N.run P (n + 1)).stations[i]? = some s') :
    ∃ k, s' = (s.receiveAll ((N.run P n).incoming P n i)).tick n
      (outcome P k (s.receiveAll ((N.run P n).incoming P n i)).countdown) := by
  obtain ⟨k, hk⟩ := tick_getElem? (P := P) (t := n) hs
  exact ⟨k, Option.some.inj (hs'.symm.trans hk)⟩

theorem exists_previous (hs' : (N.run P (n + 1)).stations[i]? = some s') :
    ∃ s, (N.run P n).stations[i]? = some s := by
  obtain ⟨s, -, hs, -⟩ := exists_before hs'
  exact ⟨s, hs⟩

theorem mem_jobs_next (hs : (N.run P n).stations[i]? = some s)
    (hs' : (N.run P (n + 1)).stations[i]? = some s') :
    j ∈ s'.jobs ↔ j ∈ s.jobs ∨ j ∈ (N.run P n).incoming P n i := by
  obtain ⟨k, rfl⟩ := next_station hs hs'
  rw [(Station.jobs_tick _ _ _).mem_iff]
  cases hinc : (N.run P n).incoming P n i with
  | none => simp [Station.receiveAll]
  | some l =>
    rw [show s.receiveAll (some l) = s.receive l from rfl, (Station.jobs_receive l s).mem_iff]
    simp [or_comm, eq_comm]

theorem completed_next (hs : (N.run P n).stations[i]? = some s)
    (hs' : (N.run P (n + 1)).stations[i]? = some s') :
    s'.completed = s.completed ∨ ∃ a, s.current = some a ∧
      s'.completed = s.completed ++ [⟨a.job, a.start, a.failures, n⟩] := by
  obtain ⟨k, rfl⟩ := next_station hs hs'
  simpa using Station.completed_tick n _ (s.receiveAll ((N.run P n).incoming P n i))

theorem services_next (hs : (N.run P n).stations[i]? = some s)
    (hs' : (N.run P (n + 1)).stations[i]? = some s') :
    s'.services = s.services ∨ ∃ line l, s'.services = s.services ++ [(l, (n : ℤ))] ∧
      s'.current.map Attempt.job = some l ∧
      l ∈ (s.receiveAll ((N.run P n).incoming P n i)).waiting line ∧
      (line = false → s'.express = []) := by
  obtain ⟨k, rfl⟩ := next_station hs hs'
  rcases Station.services_tick n (outcome P k
      (s.receiveAll ((N.run P n).incoming P n i)).countdown)
      (s.receiveAll ((N.run P n).incoming P n i)) with
      hsame | ⟨line, l, rest, hline, hnew, hcur, hex⟩
  · exact Or.inl (by rw [hsame, Station.services_receiveAll])
  · refine Or.inr ⟨line, l, ?_, by rw [hcur]; rfl, by simp [hline], hex⟩
    rw [hnew, Station.services_receiveAll]

/-- What a station once holds it holds ever after. -/
theorem Held.mono (h : Held P N i j t) (hle : t ≤ n) : Held P N i j n := by
  induction n, hle using Nat.le_induction with
  | base => exact h
  | succ n _ ih =>
    obtain ⟨s, hs, hj⟩ := ih
    obtain ⟨s', hs'⟩ := exists_next hs
    exact ⟨s', hs', (mem_jobs_next hs hs').mpr (Or.inl hj)⟩

theorem Done.mono (h : Done P N i j t) (hle : t ≤ n) : Done P N i j n := by
  induction n, hle using Nat.le_induction with
  | base => exact h
  | succ n _ ih =>
    obtain ⟨s, hs, hj⟩ := ih
    obtain ⟨s', hs'⟩ := exists_next hs
    refine ⟨s', hs', ?_⟩
    rcases completed_next hs hs' with hsame | ⟨a, -, hnew⟩
    · rwa [hsame]
    · rw [hnew, List.map_append]
      exact List.mem_append_left _ hj

theorem mem_services_mono {x : ℤ} (hs : (N.run P t).stations[i]? = some s)
    (hj : (j, x) ∈ s.services) (hle : t ≤ n) :
    ∃ s', (N.run P n).stations[i]? = some s' ∧ (j, x) ∈ s'.services := by
  induction n, hle using Nat.le_induction with
  | base => exact ⟨s, hs, hj⟩
  | succ n _ ih =>
    obtain ⟨r, hr, hmem⟩ := ih
    obtain ⟨r', hr'⟩ := exists_next hr
    refine ⟨r', hr', ?_⟩
    rcases services_next hr hr' with hsame | ⟨-, l, hnew, -⟩
    · rwa [hsame]
    · rw [hnew]
      exact List.mem_append_left _ hmem

/-- A network before its first tick, over a door without repetitions. -/
structure Fresh (N : Network J) : Prop where
  nonempty : N.stations ≠ []
  empty : ∀ s ∈ N.stations, s.jobs = []
  nodup : N.door.Nodup

theorem Fresh.progress (h : Fresh N) (n : ℕ) :
    ∃ gone, Progress P N.door n gone (N.run P n) := by
  refine progress_run h.nonempty ⟨rfl, ?_, by simp, List.Pairwise.nil, Nat.le_refl 0⟩ n
  rw [List.flatMap_eq_nil_iff.mpr h.empty]

theorem Fresh.nodup_jobs (h : Fresh N) (hs : (N.run P n).stations[i]? = some s) :
    s.jobs.Nodup := by
  obtain ⟨gone, hgone⟩ := h.progress (P := P) n
  exact hgone.nodup_jobs h.nodup (List.mem_of_getElem? hs)

theorem Fresh.services_zero (h : Fresh N) (hs : (N.run P 0).stations[i]? = some s) :
    s.services = [] := by
  have hempty := h.empty s (List.mem_of_getElem? hs)
  rw [Station.jobs, List.append_eq_nil_iff, List.append_eq_nil_iff] at hempty
  have hstarted := hempty.1.1
  rw [Station.started_eq_services, List.map_eq_nil_iff] at hstarted
  exact hstarted

/-- No two stations hold the same job. -/
theorem Fresh.held_unique (h : Fresh N) {r : ℕ} (hi : Held P N i j n) (hr : Held P N r j n) :
    i = r := by
  obtain ⟨gone, hgone⟩ := h.progress (P := P) n
  have hnodup := (List.nodup_append.mp (hgone.nodup_places h.nodup)).2.1
  have hpair := (List.nodup_flatMap.mp hnodup).2
  obtain ⟨s, hs, hj⟩ := hi
  obtain ⟨s', hs', hj'⟩ := hr
  obtain ⟨hlt, rfl⟩ := List.getElem?_eq_some_iff.mp hs
  obtain ⟨hlt', rfl⟩ := List.getElem?_eq_some_iff.mp hs'
  rcases lt_trichotomy i r with hir | hir | hir
  · exact absurd hj' (List.pairwise_iff_getElem.mp hpair i r hlt hlt' hir hj)
  · exact hir
  · exact absurd hj (List.pairwise_iff_getElem.mp hpair r i hlt' hlt hir hj')

/-- A job at the door is at no station. -/
theorem Fresh.not_held_of_atDoor (h : Fresh N) (hdoor : AtDoor P N j n) : ¬ Held P N i j n := by
  intro hheld
  obtain ⟨s, hs, hj⟩ := hheld
  obtain ⟨gone, hgone⟩ := h.progress (P := P) n
  refine (List.nodup_append.mp (hgone.nodup_places h.nodup)).2.2 j hdoor j ?_ rfl
  exact List.mem_flatMap.mpr ⟨s, List.mem_of_getElem? hs, hj⟩

/-- Every job a station holds came through the door at its arrival. -/
theorem Fresh.admitted_of_held (h : Fresh N) (hheld : Held P N i j n) :
    ∃ t, t < n ∧ P.arrival j = t ∧ Becomes (fun u => ¬ AtDoor P N j u) t ∧
      Becomes (Held P N i j) t := by
  induction n with
  | zero =>
    obtain ⟨s, hs, hj⟩ := hheld
    rw [h.empty s (List.mem_of_getElem? hs)] at hj
    simp at hj
  | succ n ih =>
    by_cases hbefore : Held P N i j n
    · obtain ⟨t, ht, hrest⟩ := ih hbefore
      exact ⟨t, by omega, hrest⟩
    · obtain ⟨s', hs', hj⟩ := hheld
      obtain ⟨s, hs⟩ := exists_previous hs'
      have hinc : j ∈ (N.run P n).incoming P n i := by
        rcases (mem_jobs_next hs hs').mp hj with hj | hj
        · exact absurd ⟨s, hs, hj⟩ hbefore
        · exact hj
      have harr := (incoming_eq_some.mp (Option.mem_def.mp hinc)).1
      obtain ⟨hhead, hnow⟩ := arriving_eq_some.mp harr
      refine ⟨n, by omega, hnow, ⟨?_, ?_⟩, hbefore, s', hs', hj⟩
      · exact not_not_intro (List.mem_of_mem_head? (Option.mem_def.mpr hhead))
      · -- the door has no repetitions, so the head does not return behind itself
        obtain ⟨gone, hgone⟩ := h.progress (P := P) (n + 1)
        have hnodup := hgone.nodup_places h.nodup
        have hmem : j ∈ (N.run P (n + 1)).stations.flatMap Station.jobs :=
          List.mem_flatMap.mpr ⟨s', List.mem_of_getElem? hs', hj⟩
        intro hdoor
        exact (List.nodup_append.mp hnodup).2.2 j hdoor j hmem rfl

/-- The recorded start of a service is the tick over which it starts. -/
theorem Fresh.starts_of_mem_services (h : Fresh N) {x : ℤ}
    (hs : (N.run P n).stations[i]? = some s) (hj : (j, x) ∈ s.services) :
    ∃ t : ℕ, t < n ∧ x = t ∧ Becomes (Serving P N i j) t := by
  induction n generalizing s with
  | zero => simp [h.services_zero hs] at hj
  | succ n ih =>
    obtain ⟨r, hr⟩ := exists_previous hs
    rcases services_next hr hs with hsame | ⟨-, l, hnew, hcur, -⟩
    · obtain ⟨t, ht, hrest⟩ := ih hr (hsame ▸ hj)
      exact ⟨t, by omega, hrest⟩
    · rw [hnew, List.mem_append, List.mem_singleton, Prod.mk.injEq] at hj
      rcases hj with hj | ⟨rfl, rfl⟩
      · obtain ⟨t, ht, hrest⟩ := ih hr hj
        exact ⟨t, by omega, hrest⟩
      · obtain ⟨a, ha, hjob⟩ := Option.map_eq_some_iff.mp hcur
        refine ⟨n, by omega, rfl, ?_, s, a, hs, ha, hjob⟩
        intro hearlier
        obtain ⟨r', b, hr', hb, hbjob⟩ := hearlier
        obtain rfl := Option.some.inj (hr'.symm.trans hr)
        have hnodup := h.nodup_jobs hs
        rw [Station.jobs, Station.started_eq_services, hnew, List.map_append,
          ← Station.started_eq_services, List.append_assoc, List.nodup_append] at hnodup
        have hstarted := (List.nodup_append.mp hnodup.1).2.2 j
          (by simp [Station.started, hb, hbjob]) j (by simp)
        exact hstarted rfl

/-- A job whose service starts over a tick is the one that its station takes then. -/
theorem Fresh.services_of_starts (h : Fresh N) (hstart : Becomes (Serving P N i j) t)
    (hs : (N.run P t).stations[i]? = some s) (hs' : (N.run P (t + 1)).stations[i]? = some s') :
    ∃ line, s'.services = s.services ++ [(j, (t : ℤ))] ∧
      j ∈ (s.receiveAll ((N.run P t).incoming P t i)).waiting line ∧
      (line = false → s'.express = []) := by
  obtain ⟨hbefore, r', a, hr', ha, hjob⟩ := hstart
  obtain rfl := Option.some.inj (hr'.symm.trans hs')
  rcases services_next hs hs' with hsame | ⟨line, l, hnew, hcur, hline, hex⟩
  · -- no service starts, so `j` has been completed and cannot be served as well
    have hmem : j ∈ s.started := by
      rw [Station.started_eq_services, ← hsame, ← Station.started_eq_services]
      simp [Station.started, ha, hjob]
    have hdone : j ∈ s.completed.map Completed.job := by
      rcases List.mem_append.mp hmem with hdone | hcur
      · exact hdone
      · obtain ⟨b, hb, hbjob⟩ := List.mem_map.mp hcur
        exact absurd ⟨s, b, hs, by simpa using hb, hbjob⟩ hbefore
    obtain ⟨q', hq', hdone'⟩ := Done.mono ⟨s, hs, hdone⟩ (Nat.le_succ t)
    obtain rfl := Option.some.inj (hq'.symm.trans hs')
    have hnodup := h.nodup_jobs hs'
    rw [Station.jobs, Station.started, List.append_assoc, List.nodup_append] at hnodup
    exact absurd rfl ((List.nodup_append.mp hnodup.1).2.2 j hdone' j (by simp [ha, hjob]))
  · obtain rfl : l = j := by
      rw [ha] at hcur
      exact (Option.some.inj hcur).symm.trans hjob
    exact ⟨line, hnew, hline, hex⟩

theorem Fresh.mem_services_of_starts (h : Fresh N) (hstart : Becomes (Serving P N i j) t)
    (hle : t + 1 ≤ n) :
    ∃ s, (N.run P n).stations[i]? = some s ∧ (j, (t : ℤ)) ∈ s.services := by
  obtain ⟨s', -, hs', -⟩ := hstart.2
  obtain ⟨s, hs⟩ := exists_previous hs'
  obtain ⟨-, hnew, -⟩ := h.services_of_starts hstart hs hs'
  exact mem_services_mono hs' (by simp [hnew]) hle

/-- The recorded finish of a service is the tick over which it finishes. -/
theorem Fresh.finishes_of_mem_completed (h : Fresh N) {c : Completed J}
    (hs : (N.run P n).stations[i]? = some s) (hc : c ∈ s.completed) :
    ∃ t : ℕ, t < n ∧ c.finish = t ∧ Becomes (Done P N i c.job) t := by
  induction n generalizing s with
  | zero =>
    have hempty := h.empty s (List.mem_of_getElem? hs)
    have hmem : c.job ∈ s.jobs := by
      simp only [Station.jobs, Station.started, List.mem_append, List.mem_map]
      exact Or.inl (Or.inl (Or.inl ⟨c, hc, rfl⟩))
    simp [hempty] at hmem
  | succ n ih =>
    obtain ⟨r, hr⟩ := exists_previous hs
    by_cases hbefore : c ∈ r.completed
    · obtain ⟨t, ht, hrest⟩ := ih hr hbefore
      exact ⟨t, by omega, hrest⟩
    · rcases completed_next hr hs with hsame | ⟨a, ha, hnew⟩
      · exact absurd (hsame ▸ hc) hbefore
      · obtain rfl : c = ⟨a.job, a.start, a.failures, n⟩ := by
          rw [hnew, List.mem_append, List.mem_singleton] at hc
          exact hc.resolve_left hbefore
        refine ⟨n, by omega, rfl, ?_, s, hs, List.mem_map_of_mem hc⟩
        intro hearlier
        obtain ⟨r', hr', hdone⟩ := hearlier
        obtain rfl := Option.some.inj (hr'.symm.trans hr)
        have hnodup := h.nodup_jobs hr
        rw [Station.jobs, Station.started, List.append_assoc, List.nodup_append] at hnodup
        exact (List.nodup_append.mp hnodup.1).2.2 _ hdone _ (by simp [ha]) rfl

theorem Fresh.nodup_started (h : Fresh N) (hs : (N.run P n).stations[i]? = some s) :
    s.started.Nodup := by
  have hnodup := h.nodup_jobs hs
  rw [Station.jobs, List.append_assoc] at hnodup
  exact (List.nodup_append.mp hnodup).1

/-- A job that a station has taken started over the recorded tick, and no other. -/
theorem Fresh.starts_iff (h : Fresh N) {x : ℤ} (hs : (N.run P n).stations[i]? = some s)
    (hj : (j, x) ∈ s.services) (ht : t < n) : Becomes (Serving P N i j) t ↔ x = t := by
  constructor
  · intro hstart
    obtain ⟨s', hs', hmem⟩ := h.mem_services_of_starts hstart ht
    obtain rfl := Option.some.inj (hs'.symm.trans hs)
    have hnodup := h.nodup_started hs
    rw [Station.started_eq_services] at hnodup
    exact congrArg Prod.snd (List.inj_on_of_nodup_map hnodup hj hmem rfl)
  · intro hx
    obtain ⟨u, -, hu, hstart⟩ := h.starts_of_mem_services hs hj
    obtain rfl : u = t := by omega
    exact hstart

theorem Fresh.not_starts_of_waiting (h : Fresh N) {line : Bool}
    (hs : (N.run P n).stations[i]? = some s) (hj : j ∈ s.waiting line) (ht : t < n) :
    ¬ Becomes (Serving P N i j) t := by
  intro hstart
  obtain ⟨s', hs', hmem⟩ := h.mem_services_of_starts hstart ht
  obtain rfl := Option.some.inj (hs'.symm.trans hs)
  have hstarted : j ∈ s'.started := by
    rw [Station.started_eq_services]
    exact List.mem_map.mpr ⟨_, hmem, rfl⟩
  have hnodup := h.nodup_jobs hs
  rw [Station.jobs, List.append_assoc, List.nodup_append] at hnodup
  refine hnodup.2.2 j hstarted j ?_ rfl
  cases line with
  | true => exact List.mem_append_left _ hj
  | false => exact List.mem_append_right _ hj

/-- A completed job finished over the recorded tick, and no other. -/
theorem Fresh.finishes_iff (h : Fresh N) {c : Completed J}
    (hs : (N.run P n).stations[i]? = some s) (hc : c ∈ s.completed) :
    Becomes (Done P N i c.job) t ↔ c.finish = t := by
  obtain ⟨u, -, hu, hbefore, hafter⟩ := h.finishes_of_mem_completed hs hc
  constructor
  · intro hbecomes
    obtain ⟨hbefore', hafter'⟩ := hbecomes
    rcases lt_trichotomy u t with hlt | rfl | hlt
    · exact absurd (hafter.mono hlt) hbefore'
    · exact hu
    · exact absurd (hafter'.mono hlt) hbefore
  · intro ht
    obtain rfl : u = t := by omega
    exact ⟨hbefore, hafter⟩

theorem not_finishes_of_not_completed (hs : (N.run P n).stations[i]? = some s)
    (hj : j ∉ s.completed.map Completed.job) (ht : t < n) : ¬ Becomes (Done P N i j) t := by
  intro hbecomes
  obtain ⟨-, hdone⟩ := hbecomes
  obtain ⟨s', hs', hmem⟩ := hdone.mono ht
  obtain rfl := Option.some.inj (hs'.symm.trans hs)
  exact hj hmem

/-- A regular job starts only when no express job is waiting. -/
theorem Fresh.express_empty_of_starts (h : Fresh N) (hist : Historic P t (N.run P t))
    (hstart : Becomes (Serving P N i j) t) (hs' : (N.run P (t + 1)).stations[i]? = some s')
    (hregular : s'.profile.express j = false) : s'.express = [] := by
  obtain ⟨s, hs⟩ := exists_previous hs'
  obtain ⟨line, -, hline, hex⟩ := h.services_of_starts hstart hs hs'
  obtain ⟨k, hnext⟩ := next_station hs hs'
  have hincoming : ∀ l ∈ (N.run P t).incoming P t i, P.arrival l = t := fun l hl =>
    (arriving_eq_some.mp (incoming_eq_some.mp (Option.mem_def.mp hl)).1).2
  have hordered := (hist s (List.mem_of_getElem? hs)).ordered.receiveAll (by omega) hincoming
  have hclass := hordered.class_eq line j hline
  rw [hnext, Station.profile_tick, hclass] at hregular
  exact hex hregular

/-- Within a class, jobs start in the order in which they arrived. -/
theorem Fresh.starts_in_order (h : Fresh N) (hist : Historic P (t + 1) (N.run P (t + 1)))
    {l : J} (hstart : Becomes (Serving P N i l) t)
    (hs' : (N.run P (t + 1)).stations[i]? = some s') (hj : j ∈ s'.jobs)
    (hclass : s'.profile.express j = s'.profile.express l) (hlt : P.arrival j < P.arrival l) :
    ∃ u, u < t ∧ Becomes (Serving P N i j) u := by
  obtain ⟨s, hs⟩ := exists_previous hs'
  obtain ⟨-, hnew, -⟩ := h.services_of_starts hstart hs hs'
  have hordered := (hist s' (List.mem_of_getElem? hs')).ordered
  have hstarted : s'.started = s.started ++ [l] := by
    rw [Station.started_eq_services, hnew, List.map_append, ← Station.started_eq_services]
    rfl
  have hwaiting : ∀ line, j ∉ s'.waiting line := by
    intro line hline
    have hjline := hordered.class_eq line j hline
    have hl : l ∈ s'.started.filter fun k => s'.profile.express k == line := by
      simp [hstarted, ← hclass, hjline]
    have hbefore := (List.pairwise_append.mp (hordered.sorted line)).2.2 l hl j hline
    omega
  have hmem : j ∈ s'.started := by
    simp only [Station.jobs, List.mem_append] at hj
    rcases hj with (hj | hj) | hj
    · exact hj
    · exact absurd hj (hwaiting true)
    · exact absurd hj (hwaiting false)
  have hne : j ≠ l := by
    intro heq
    obtain rfl := heq
    omega
  rw [hstarted, List.mem_append, List.mem_singleton] at hmem
  have hbefore := hmem.resolve_right hne
  rw [Station.started_eq_services] at hbefore
  obtain ⟨⟨j', x⟩, hpair, rfl⟩ := List.mem_map.mp hbefore
  obtain ⟨u, hu, -, hbecomes⟩ := h.starts_of_mem_services hs hpair
  exact ⟨u, hu, hbecomes⟩

/-- A job leaves the door at its arrival only. -/
theorem arrival_of_leaves (hbefore : AtDoor P N j t) (hafter : ¬ AtDoor P N j (t + 1)) :
    P.arrival j = t := by
  have hafter' : j ∉ ((N.run P t).receive P t).door := hafter
  cases harr : (N.run P t).arriving P t with
  | none =>
    rw [receive_of_none harr] at hafter'
    exact absurd hbefore hafter'
  | some l =>
    obtain ⟨hhead, hnow⟩ := arriving_eq_some.mp harr
    rw [receive_of_some harr] at hafter'
    have hdoor : j ∈ (N.run P t).door := hbefore
    cases hcons : (N.run P t).door with
    | nil => simp [hcons] at hdoor
    | cons i rest =>
      obtain rfl : i = l := by simpa [hcons] using hhead
      rw [hcons] at hdoor hafter'
      rcases List.mem_cons.mp hdoor with rfl | hrest
      · exact hnow
      · exact absurd hrest hafter'

/-- A service goes on over a tick, or is completed by it. -/
theorem Fresh.serving_next (h : Fresh N) (hserving : Serving P N i j t) :
    Serving P N i j (t + 1) ∨ Becomes (Done P N i j) t := by
  obtain ⟨s, a, hs, ha, rfl⟩ := hserving
  obtain ⟨s', hs'⟩ := exists_next hs
  obtain ⟨k, hnext⟩ := next_station hs hs'
  have hcur : (s.receiveAll ((N.run P t).incoming P t i)).current = some a := by simpa using ha
  rcases Station.current_tick hcur t (outcome P k
    (s.receiveAll ((N.run P t).incoming P t i)).countdown) with ⟨b, hb, hjob, -⟩ | hdone
  · exact Or.inl ⟨s', b, hs', by rw [hnext]; exact hb, hjob⟩
  · refine Or.inr ⟨?_, s', hs', by rw [hnext, hdone]; simp⟩
    intro hearlier
    obtain ⟨r, hr, hmem⟩ := hearlier
    obtain rfl := Option.some.inj (hr.symm.trans hs)
    exact (Station.current_separate ha (h.nodup_jobs hs)).2 hmem

end AcaBSim.Networks.Network
