import AcaBSim.Stations

/-!
Each line of a station is first-in first-out in the order of arrival, counting
the jobs already started before those that wait.
-/
namespace AcaBSim.Stations.Station

variable {J : Type}

/-- The jobs of one class that the station has seen, in the order it takes them. -/
def classOrder (line : Bool) (s : Station J) : List J :=
  s.started.filter (fun j => s.profile.express j == line) ++ s.waiting line

structure Ordered (arrival : J → ℤ) (latest : ℤ) (s : Station J) : Prop where
  class_eq : ∀ line, ∀ j ∈ s.waiting line, s.profile.express j = line
  arrived : ∀ j ∈ s.jobs, arrival j ≤ latest
  sorted : ∀ line, (s.classOrder line).Pairwise fun i j => arrival i < arrival j

variable {arrival : J → ℤ} {latest t : ℤ} {s : Station J}

theorem mem_jobs_of_mem_classOrder {line : Bool} {j : J} (h : j ∈ s.classOrder line) :
    j ∈ s.jobs := by
  rcases List.mem_append.mp h with hstarted | hwaiting
  · simp [jobs, (List.mem_filter.mp hstarted).1]
  · exact mem_jobs_of_mem_waiting hwaiting

theorem Ordered.empty (profile : Profile J) : Ordered arrival latest (Station.empty profile) where
  class_eq line := by cases line <;> simp [Station.empty, waiting]
  arrived := by simp [Station.empty, jobs, started]
  sorted line := by cases line <;> simp [Station.empty, classOrder, started, waiting]

theorem Ordered.mono (h : Ordered arrival latest s) {later : ℤ} (hle : latest ≤ later) :
    Ordered arrival later s :=
  ⟨h.class_eq, fun j hj => (h.arrived j hj).trans hle, h.sorted⟩

theorem classOrder_receive_self (j : J) (s : Station J) :
    (s.receive j).classOrder (s.profile.express j) = s.classOrder (s.profile.express j) ++ [j] := by
  simp [classOrder, receive]

theorem classOrder_receive_of_ne {line : Bool} {j : J} (h : line ≠ s.profile.express j) :
    (s.receive j).classOrder line = s.classOrder line := by
  simp [classOrder, receive, waiting_setWaiting_of_ne _ _ h]

theorem Ordered.receive (h : Ordered arrival latest s) {j : J} (hj : latest < arrival j) :
    Ordered arrival (arrival j) (s.receive j) where
  class_eq line i hi := by
    rw [profile_receive]
    by_cases hline : line = s.profile.express j
    · subst hline
      rw [Station.receive, waiting_setWaiting, List.mem_append, List.mem_singleton] at hi
      rcases hi with hi | rfl
      · exact h.class_eq _ i hi
      · rfl
    · rw [Station.receive, waiting_setWaiting_of_ne _ _ hline] at hi
      exact h.class_eq line i hi
  arrived i hi := by
    rcases List.mem_cons.mp ((jobs_receive j s).mem_iff.mp hi) with rfl | hi
    · exact le_refl _
    · exact (h.arrived i hi).trans hj.le
  sorted line := by
    by_cases hline : line = s.profile.express j
    · subst hline
      rw [classOrder_receive_self, List.pairwise_append]
      refine ⟨h.sorted _, List.pairwise_singleton _ _, ?_⟩
      intro i hi k hk
      obtain rfl := List.mem_singleton.mp hk
      exact (h.arrived i (mem_jobs_of_mem_classOrder hi)).trans_lt hj
    · rw [classOrder_receive_of_ne hline]
      exact h.sorted line

/-- A change that keeps the jobs, their lines and the order of each class. -/
theorem Ordered.of_same {s' : Station J} (h : Ordered arrival latest s)
    (hprofile : s'.profile = s.profile) (hjobs : s'.jobs.Perm s.jobs)
    (hwaiting : ∀ line, s'.waiting line ⊆ s.waiting line)
    (horder : ∀ line, s'.classOrder line = s.classOrder line) :
    Ordered arrival latest s' where
  class_eq line j hj := by
    rw [hprofile]
    exact h.class_eq line j (hwaiting line hj)
  arrived j hj := h.arrived j (hjobs.mem_iff.mp hj)
  sorted line := by
    rw [horder]
    exact h.sorted line

/-- Starting a job moves it from the head of its line behind the started ones. -/
theorem classOrder_startNext (hclass : ∀ line, ∀ j ∈ s.waiting line, s.profile.express j = line)
    (hidle : s.current = none) (line : Bool) :
    (startNext t s).classOrder line = s.classOrder line := by
  rcases startNext_cases t s with ⟨taken, j, rest, htaken, -, hnext⟩ | ⟨-, -, hnext⟩
  · have hj : s.profile.express j = taken := hclass taken j (by simp [htaken])
    have hstarted : (begin t j (s.setWaiting taken rest)).started = s.started ++ [j] := by
      rw [started_begin (by simpa using hidle), started_setWaiting]
    have hkept : ∀ other, (begin t j (s.setWaiting taken rest)).waiting other =
        (s.setWaiting taken rest).waiting other := fun _ => rfl
    have hprofile : (begin t j (s.setWaiting taken rest)).profile = s.profile := by simp [begin]
    rw [hnext, classOrder, classOrder, hstarted, hkept, hprofile, List.filter_append]
    by_cases hline : line = taken
    · subst hline
      simp [hj, htaken]
    · have hne : (s.profile.express j == line) = false := by
        rw [hj]
        exact beq_eq_false_iff_ne.mpr (Ne.symm hline)
      simp [hne, waiting_setWaiting_of_ne _ _ hline]
  · rw [hnext]
    simp [classOrder, started, hidle, waiting]

theorem waiting_startNext_subset (line : Bool) :
    (startNext t s).waiting line ⊆ s.waiting line := by
  rcases startNext_cases t s with ⟨taken, j, rest, htaken, -, hnext⟩ | ⟨-, -, hnext⟩
  · rw [hnext]
    change (s.setWaiting taken rest).waiting line ⊆ s.waiting line
    by_cases hline : line = taken
    · subst hline
      rw [waiting_setWaiting, htaken]
      exact List.subset_cons_self j rest
    · rw [waiting_setWaiting_of_ne _ _ hline]
      exact List.Subset.refl _
  · rw [hnext]
    exact List.Subset.refl _

theorem Ordered.startNext (h : Ordered arrival latest s) (hidle : s.current = none) :
    Ordered arrival latest (startNext t s) :=
  h.of_same (profile_startNext t s) (jobs_startNext hidle t)
    (fun line => waiting_startNext_subset line) (classOrder_startNext h.class_eq hidle)

theorem Ordered.tick (h : Ordered arrival latest s) (success : Bool) :
    Ordered arrival latest (s.tick t success) := by
  have hsame : ∀ s' : Station J, s'.profile = s.profile → s'.started = s.started →
      (∀ line, s'.waiting line = s.waiting line) → Ordered arrival latest s' := by
    intro s' hprofile hstarted hwaiting
    have hex := hwaiting true
    have hreg := hwaiting false
    simp only [waiting_true, waiting_false] at hex hreg
    refine h.of_same hprofile (List.Perm.of_eq ?_) (fun line => ?_) (fun line => ?_)
    · simp [jobs, hstarted, hex, hreg]
    · rw [hwaiting]
      exact List.Subset.refl _
    · simp [classOrder, hstarted, hwaiting, hprofile]
  rcases tick_cases t success s with
    ⟨hcur, hstep⟩ | ⟨a, -, -, hstep⟩ | ⟨a, hcur, hrem, -, hstep⟩ | ⟨a, hcur, hrem, -, hstep⟩
  · rw [hstep]
    apply Ordered.startNext (hsame _ (by simp) (by simp) (by simp))
    simp [countdown_of_none hcur, hcur]
  · rw [hstep]
    exact hsame _ (by simp) (by simp) (by simp)
  · have hlast := current_countdown_last hcur hrem
    rw [hstep]
    refine Ordered.startNext (hsame _ (by simp [Station.complete]) ?_ ?_) rfl
    · rw [started_complete hlast rfl, started_countdown]
    · intro line
      exact waiting_countdown s line
  · have hlast := current_countdown_last hcur hrem
    rw [hstep]
    refine hsame _ (by simp [Station.retry]) ?_ ?_
    · rw [started_retry hlast rfl, started_countdown]
    · intro line
      exact waiting_countdown s line

theorem Ordered.receiveAll {now : ℤ} (h : Ordered arrival latest s) (hlatest : latest < now)
    {incoming : Option J} (hnow : ∀ j ∈ incoming, arrival j = now) :
    Ordered arrival now (s.receiveAll incoming) := by
  cases incoming with
  | none => exact h.mono hlatest.le
  | some j =>
    have hj : arrival j = now := hnow j rfl
    rw [← hj] at hlatest ⊢
    exact h.receive hlatest

theorem History.ordered {profile : Profile J} {n : ℕ} (h : History arrival profile n s) :
    Ordered arrival (n - 1) s := by
  induction h with
  | start => exact Ordered.empty profile
  | @tick n s incoming success _ harrival _ ih =>
    have hlatest : ((n + 1 : ℕ) : ℤ) - 1 = n := by omega
    rw [hlatest]
    exact (ih.receiveAll (by omega) harrival).tick success

end AcaBSim.Stations.Station
