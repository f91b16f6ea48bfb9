import AcaBSim.StationTiming

/-!
What one tick adds to the record of a station: at most one service starts and
at most one ends, and both carry the time of the tick. A service that has
started goes on until it is completed.
-/
namespace AcaBSim.Stations.Station

variable {J : Type}

/-- The jobs taken so far with their start times, in the order of their services. -/
def services (s : Station J) : List (J × ℤ) :=
  (s.completed.map fun c => (c.job, c.start)) ++ s.current.toList.map fun a => (a.job, a.start)

variable {t : ℤ} {success : Bool} {s : Station J}

theorem started_eq_services (s : Station J) : s.started = s.services.map Prod.fst := by
  simp [started, services, Function.comp_def]

@[simp] theorem services_receiveAll (incoming : Option J) (s : Station J) :
    (s.receiveAll incoming).services = s.services := by
  simp [services]

@[simp] theorem services_countdown (s : Station J) : s.countdown.services = s.services := by
  cases hcur : s.current with
  | none => simp [countdown_of_none hcur, services, hcur]
  | some a => simp [countdown_of_some hcur, services, hcur]

theorem services_complete {a b : Attempt J} (hcur : s.current = some b)
    (hjob : a.job = b.job) (hstart : a.start = b.start) :
    (complete t a s).services = s.services := by
  simp [services, complete, hcur, hjob, hstart]

theorem services_retry {a b : Attempt J} (hcur : s.current = some b)
    (hjob : a.job = b.job) (hstart : a.start = b.start) : (retry a s).services = s.services := by
  simp [services, retry, hcur, hjob, hstart]

/-- The service that `startNext` begins, if any. -/
theorem services_startNext (hidle : s.current = none) :
    (startNext t s).services = s.services ∨
    ∃ line j rest, s.waiting line = j :: rest ∧
      (startNext t s).services = s.services ++ [(j, t)] ∧
      (startNext t s).current = some ⟨j, t, 0, s.profile.work j⟩ ∧
      (line = false → (startNext t s).express = []) := by
  rcases startNext_cases t s with ⟨line, j, rest, hline, hreg, hnext⟩ | ⟨-, -, hnext⟩
  · refine Or.inr ⟨line, j, rest, hline, ?_, ?_, ?_⟩
    · rw [hnext]
      simp [services, begin, hidle]
    · rw [hnext]
      simp [begin]
    · intro hfalse
      subst hfalse
      rw [hnext]
      exact hreg rfl
  · exact Or.inl (by rw [hnext]; simp [services, hidle])

/-- A tick starts no service, or one, whose job it takes from a line. -/
theorem services_tick (t : ℤ) (success : Bool) (s : Station J) :
    (s.tick t success).services = s.services ∨
    ∃ line j rest, s.waiting line = j :: rest ∧
      (s.tick t success).services = s.services ++ [(j, t)] ∧
      (s.tick t success).current = some ⟨j, t, 0, s.profile.work j⟩ ∧
      (line = false → (s.tick t success).express = []) := by
  rcases tick_cases t success s with
    ⟨hcur, hstep⟩ | ⟨a, -, -, hstep⟩ | ⟨a, hcur, hrem, -, hstep⟩ | ⟨a, hcur, hrem, -, hstep⟩
  · have hidle : s.countdown.current = none := by simp [countdown_of_none hcur, hcur]
    rw [hstep]
    simpa using services_startNext (t := t) hidle
  · exact Or.inl (by rw [hstep, services_countdown])
  · have hlast := current_countdown_last hcur hrem
    have hsame := services_complete (t := t) hlast (a := { a with remaining := 0 }) rfl rfl
    rw [hstep]
    have hnext := services_startNext (t := t)
      (s := complete t { a with remaining := 0 } s.countdown) rfl
    rw [hsame, services_countdown] at hnext
    have hprofile : (complete t { a with remaining := 0 } s.countdown).profile = s.profile :=
      profile_countdown s
    have hwaiting : ∀ line, (complete t { a with remaining := 0 } s.countdown).waiting line =
        s.waiting line := fun line => waiting_countdown s line
    simpa [hprofile, hwaiting] using hnext
  · have hlast := current_countdown_last hcur hrem
    rw [hstep, services_retry hlast rfl rfl, services_countdown]
    exact Or.inl rfl

/-- A tick completes no service, or the one in progress. -/
theorem completed_tick (t : ℤ) (success : Bool) (s : Station J) :
    (s.tick t success).completed = s.completed ∨
    ∃ a, s.current = some a ∧
      (s.tick t success).completed = s.completed ++ [⟨a.job, a.start, a.failures, t⟩] := by
  rcases tick_cases t success s with
    ⟨-, hstep⟩ | ⟨a, -, -, hstep⟩ | ⟨a, hcur, -, -, hstep⟩ | ⟨a, -, -, -, hstep⟩
  · exact Or.inl (by simp [hstep])
  · exact Or.inl (by simp [hstep])
  · exact Or.inr ⟨a, hcur, by simp [hstep, complete]⟩
  · exact Or.inl (by simp [hstep, retry])

/-- A service in progress is still in progress after a tick, or completed by it. -/
theorem current_tick {a : Attempt J} (hcur : s.current = some a) (t : ℤ) (success : Bool) :
    (∃ b, (s.tick t success).current = some b ∧ b.job = a.job ∧ b.start = a.start) ∨
    (s.tick t success).completed = s.completed ++ [⟨a.job, a.start, a.failures, t⟩] := by
  rcases tick_cases t success s with
    ⟨hnone, -⟩ | ⟨b, hb, -, hstep⟩ | ⟨b, hb, -, -, hstep⟩ | ⟨b, hb, -, -, hstep⟩
  · simp [hnone] at hcur
  · obtain rfl := Option.some.inj (hb.symm.trans hcur)
    exact Or.inl ⟨{ b with remaining := b.remaining - 1 },
      by simp [hstep, countdown_of_some hb], rfl, rfl⟩
  · obtain rfl := Option.some.inj (hb.symm.trans hcur)
    exact Or.inr (by simp [hstep, complete])
  · obtain rfl := Option.some.inj (hb.symm.trans hcur)
    exact Or.inl ⟨{ b with failures := b.failures + 1, remaining := s.profile.work b.job },
      by simp [hstep, retry], rfl, rfl⟩

/-- Every job of a first-in first-out station is completed, in service or
waiting, at the times that the recurrence gives it. -/
theorem History.fifo_cases {arrival : J → ℤ} {profile : Profile J} {n : ℕ}
    (h : History arrival profile n s) (hline : ∀ j, profile.express j = false) {failures : J → ℤ}
    (hcompleted : ∀ c ∈ s.completed, failures c.job = c.failures)
    (hcurrent : ∀ a ∈ s.current, a.failures ≤ failures a.job)
    (hwork : ∀ j ∈ s.jobs, 0 ≤ (failures j + 1) * profile.work j) {k : ℕ} {j : J}
    (hj : s.jobs[k]? = some j) :
    let a := arrivalAt arrival s.jobs
    let d := durationAt profile.work failures s.jobs
    (∃ c ∈ s.completed, c.job = j ∧ c.start = fifoStart a d k ∧ c.finish = fifoFinish a d k) ∨
    (∃ b ∈ s.current, b.job = j ∧ b.start = fifoStart a d k ∧ n ≤ fifoFinish a d k) ∨
    (j ∈ s.regular ∧ n ≤ fifoStart a d k ∧ n ≤ fifoFinish a d k) := by
  intro a d
  obtain ⟨hjobs, -⟩ := h.jobs_in_order hline
  obtain ⟨hdone, hserving, hwaiting⟩ := h.fifo hline hcompleted hcurrent hwork
  have hlt : k < s.jobs.length := (List.getElem?_eq_some_iff.mp hj).1
  by_cases hk : k < s.started.length
  · rw [hjobs, List.getElem?_append_left hk, started] at hj
    rcases lt_or_ge k s.completed.length with hk' | hk'
    · have hc : s.completed[k]? = some s.completed[k] := List.getElem?_eq_getElem hk'
      rw [List.getElem?_append_left (by simpa using hk'), List.getElem?_map, hc] at hj
      obtain ⟨hstart, hfinish⟩ := hdone k _ hc
      exact Or.inl ⟨_, List.getElem_mem hk', Option.some.inj hj, hstart, hfinish⟩
    · cases hcur : s.current with
      | none => simp [started, hcur] at hk; omega
      | some b =>
        obtain rfl : k = s.completed.length := by simp [started, hcur] at hk; omega
        obtain ⟨hstart, hfinish⟩ := hserving b hcur
        refine Or.inr (Or.inl ⟨b, rfl, ?_, hstart, hfinish⟩)
        simpa [hcur] using hj
  · have hstart : (n : ℤ) ≤ fifoStart a d k := hwaiting k (not_lt.mp hk) hlt
    have hd : 0 ≤ d k := by
      simp only [d, durationAt, hj, Option.elim]
      exact hwork j (List.mem_of_getElem? hj)
    rw [hjobs, List.getElem?_append_right (not_lt.mp hk)] at hj
    refine Or.inr (Or.inr ⟨List.mem_of_getElem? hj, hstart, ?_⟩)
    rw [fifoFinish]
    omega

end AcaBSim.Stations.Station
