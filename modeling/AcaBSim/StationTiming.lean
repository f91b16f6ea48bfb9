import AcaBSim.StationLedger
import AcaBSim.StationOrder

/-!
Start and finish times of the services of a station. In the order in which
they start, each service begins at the later of its job's arrival and the
previous finish, and lasts its job's work once for every attempt. For a station
without an express line this is the first-in first-out recurrence.
-/
namespace AcaBSim.Stations

variable {J : Type}

/-- When a server that is free from `free` on starts a job. -/
def serviceStart (arrival : J → ℤ) (free : Option ℤ) (j : J) : ℤ :=
  free.elim (arrival j) (max (arrival j))

/-- Completed services, each started as soon as its job and the server allow. -/
def Chained (arrival : J → ℤ) : Option ℤ → List (Completed J) → Prop
  | _, [] => True
  | free, c :: rest =>
    c.start = serviceStart arrival free c.job ∧ Chained arrival (some c.finish) rest

def lastFinish : Option ℤ → List (Completed J) → Option ℤ
  | free, [] => free
  | _, c :: rest => lastFinish (some c.finish) rest

/-- Start of the `k`-th service of a first-in first-out server whose `k`-th job
arrives at `a k` and takes `d k`. -/
def fifoStart (a d : ℕ → ℤ) : ℕ → ℤ
  | 0 => a 0
  | k + 1 => max (a (k + 1)) (fifoStart a d k + d k)

def fifoFinish (a d : ℕ → ℤ) (k : ℕ) : ℤ := fifoStart a d k + d k

variable {arrival : J → ℤ}

theorem chained_snoc (free : Option ℤ) (l : List (Completed J)) (c : Completed J) :
    Chained arrival free (l ++ [c]) ↔
      Chained arrival free l ∧ c.start = serviceStart arrival (lastFinish free l) c.job := by
  induction l generalizing free with
  | nil => simp [Chained, lastFinish]
  | cons b rest ih => simp only [List.cons_append, Chained, lastFinish, ih, and_assoc]

@[simp] theorem lastFinish_snoc (free : Option ℤ) (l : List (Completed J)) (c : Completed J) :
    lastFinish free (l ++ [c]) = some c.finish := by
  induction l generalizing free with
  | nil => rfl
  | cons b rest ih => exact ih _

theorem lastFinish_mem {l : List (Completed J)} {f : ℤ} (h : lastFinish none l = some f) :
    ∃ c ∈ l, c.finish = f := by
  rcases List.eq_nil_or_concat l with rfl | ⟨init, c, rfl⟩
  · simp [lastFinish] at h
  · rw [List.concat_eq_append, lastFinish_snoc] at h
    exact ⟨c, by simp, Option.some.inj h⟩

/-- The service before the `k`-th one decides when the `k`-th starts. -/
theorem chained_getElem {free : Option ℤ} {l : List (Completed J)}
    (h : Chained arrival free l) {k : ℕ} {c : Completed J} (hc : l[k]? = some c) :
    c.start = serviceStart arrival (lastFinish free (l.take k)) c.job := by
  induction l generalizing free k with
  | nil => simp at hc
  | cons b rest ih =>
    cases k with
    | zero =>
      obtain rfl : b = c := by simpa using hc
      exact h.1
    | succ k => exact ih h.2 (by simpa using hc)

namespace Station

structure Timed (arrival : J → ℤ) (now : ℤ) (s : Station J) : Prop where
  completed_span : ∀ c ∈ s.completed, 0 ≤ c.failures ∧ 1 ≤ s.profile.work c.job ∧
    c.finish = c.start + (c.failures + 1) * s.profile.work c.job ∧ c.finish ≤ now
  current_span : ∀ a ∈ s.current, 0 ≤ a.failures ∧ 1 ≤ s.profile.work a.job ∧
    a.start + a.failures * s.profile.work a.job + (s.profile.work a.job - a.remaining) = now
  chained : Chained arrival none s.completed
  current_start : ∀ a ∈ s.current,
    a.start = serviceStart arrival (lastFinish none s.completed) a.job

variable {now t : ℤ} {s : Station J}

theorem Timed.empty (profile : Profile J) : Timed arrival now (Station.empty profile) :=
  ⟨by simp [Station.empty], by simp [Station.empty], trivial, by simp [Station.empty]⟩

theorem Timed.receiveAll (h : Timed arrival now s) (incoming : Option J) :
    Timed arrival now (s.receiveAll incoming) :=
  ⟨by simpa using h.completed_span, by simpa using h.current_span, by simpa using h.chained,
    by simpa using h.current_start⟩

theorem Timed.countdown (h : Timed arrival now s) : Timed arrival (now + 1) s.countdown where
  completed_span c hc := by
    rw [completed_countdown] at hc
    obtain ⟨hfail, hwork, hfinish, hle⟩ := h.completed_span c hc
    rw [profile_countdown]
    exact ⟨hfail, hwork, hfinish, by omega⟩
  current_span a ha := by
    rw [profile_countdown]
    cases hcur : s.current with
    | none => simp [countdown_of_none hcur, hcur] at ha
    | some b =>
      obtain ⟨hfail, hwork, hspan⟩ := h.current_span b hcur
      obtain rfl : { b with remaining := b.remaining - 1 } = a := by
        simpa [countdown_of_some hcur] using ha
      exact ⟨hfail, hwork, by dsimp only; omega⟩
  chained := by
    rw [completed_countdown]
    exact h.chained
  current_start a ha := by
    rw [completed_countdown]
    cases hcur : s.current with
    | none => simp [countdown_of_none hcur, hcur] at ha
    | some b =>
      obtain rfl : { b with remaining := b.remaining - 1 } = a := by
        simpa [countdown_of_some hcur] using ha
      exact h.current_start b hcur

theorem Timed.complete (h : Timed arrival t s) {a : Attempt J} (hcur : s.current = some a)
    (hdone : a.remaining = 0) : Timed arrival t (complete t a s) := by
  obtain ⟨hfail, hwork, hspan⟩ := h.current_span a hcur
  refine ⟨?_, by simp [Station.complete], ?_, by simp [Station.complete]⟩
  · intro c hc
    rcases List.mem_append.mp hc with hc | hc
    · exact h.completed_span c hc
    · obtain rfl := List.mem_singleton.mp hc
      refine ⟨hfail, hwork, ?_, le_refl _⟩
      change t = a.start + (a.failures + 1) * s.profile.work a.job
      rw [add_mul, one_mul]
      omega
  · exact (chained_snoc none s.completed _).mpr ⟨h.chained, h.current_start a hcur⟩

theorem Timed.retry (h : Timed arrival t s) {a : Attempt J} (hcur : s.current = some a)
    (hdone : a.remaining = 0) : Timed arrival t (retry a s) := by
  obtain ⟨hfail, hwork, hspan⟩ := h.current_span a hcur
  refine ⟨h.completed_span, ?_, h.chained, ?_⟩
  · intro b hb
    obtain rfl := Option.mem_some_iff.mp hb
    refine ⟨by dsimp only; omega, hwork, ?_⟩
    change a.start + (a.failures + 1) * s.profile.work a.job +
      (s.profile.work a.job - s.profile.work a.job) = t
    rw [add_mul, one_mul]
    omega
  · intro b hb
    obtain rfl := Option.mem_some_iff.mp hb
    exact h.current_start a hcur

/-- Why the next service can start at `t`: the server was freed then, or the
job came then. -/
def FreeAt (arrival : J → ℤ) (t : ℤ) (s : Station J) : Prop :=
  (lastFinish none s.completed = some t ∧ ∀ line, ∀ j ∈ s.waiting line, arrival j ≤ t) ∨
  ∀ line, ∀ j ∈ s.waiting line, arrival j = t

theorem serviceStart_of_freeAt (h : Timed arrival t s) (hfree : FreeAt arrival t s)
    {line : Bool} {j : J} (hj : j ∈ s.waiting line) :
    serviceStart arrival (lastFinish none s.completed) j = t := by
  rcases hfree with ⟨hlast, hle⟩ | heq
  · rw [hlast]
    exact max_eq_right (hle line j hj)
  · cases hlast : lastFinish none s.completed with
    | none => exact heq line j hj
    | some f =>
      obtain ⟨c, hc, rfl⟩ := lastFinish_mem hlast
      obtain ⟨-, -, -, hle⟩ := h.completed_span c hc
      change max (arrival j) c.finish = t
      rw [heq line j hj]
      exact max_eq_left hle

theorem Timed.startNext (h : Timed arrival t s) (hfree : FreeAt arrival t s)
    (hwork : ∀ a ∈ (startNext t s).current, 1 ≤ s.profile.work a.job) :
    Timed arrival t (startNext t s) := by
  rcases startNext_cases t s with ⟨line, j, rest, hline, -, hnext⟩ | ⟨-, -, hnext⟩
  · rw [hnext] at hwork ⊢
    have hj : j ∈ s.waiting line := by simp [hline]
    have hstart := serviceStart_of_freeAt h hfree hj
    refine ⟨by simpa [begin] using h.completed_span, ?_, by simpa [begin] using h.chained, ?_⟩
    · intro a ha
      have hpos := hwork a ha
      obtain rfl := Option.mem_some_iff.mp ha
      simp only [begin, profile_setWaiting] at hpos ⊢
      exact ⟨le_refl _, hpos, by omega⟩
    · intro a ha
      obtain rfl := Option.mem_some_iff.mp ha
      simpa [begin] using hstart.symm
  · rw [hnext]
    exact ⟨h.completed_span, by simp, h.chained, by simp⟩

theorem Timed.tick (h : Timed arrival (t - 1) s) (success : Bool)
    (hle : ∀ line, ∀ j ∈ s.waiting line, arrival j ≤ t)
    (hidle : s.current = none → ∀ line, ∀ j ∈ s.waiting line, arrival j = t)
    (hwork : ∀ a ∈ (s.tick t success).current, 1 ≤ s.profile.work a.job) :
    Timed arrival t (s.tick t success) := by
  have hcount := h.countdown
  rw [sub_add_cancel] at hcount
  rcases tick_cases t success s with
    ⟨hcur, hstep⟩ | ⟨a, -, -, hstep⟩ | ⟨a, hcur, hrem, -, hstep⟩ | ⟨a, hcur, hrem, -, hstep⟩
  · rw [hstep] at hwork ⊢
    refine hcount.startNext (Or.inr ?_) (by simpa using hwork)
    intro line j hj
    exact hidle hcur line j (by simpa using hj)
  · rw [hstep]
    exact hcount
  · have hlast := current_countdown_last hcur hrem
    rw [hstep] at hwork ⊢
    refine (hcount.complete hlast rfl).startNext (Or.inl ⟨lastFinish_snoc _ _ _, ?_⟩)
      (by simpa [Station.complete] using hwork)
    intro line j hj
    exact hle line j ((waiting_countdown s line) ▸ hj)
  · have hlast := current_countdown_last hcur hrem
    rw [hstep]
    exact hcount.retry hlast rfl

variable {profile : Profile J} {n : ℕ}

theorem mem_waiting_receiveAll {incoming : Option J} {line : Bool} {j : J}
    (h : j ∈ (s.receiveAll incoming).waiting line) : j ∈ s.waiting line ∨ j ∈ incoming := by
  cases incoming with
  | none => exact Or.inl h
  | some i =>
    change j ∈ (s.receive i).waiting line at h
    by_cases hline : line = s.profile.express i
    · subst hline
      rw [receive, waiting_setWaiting, List.mem_append, List.mem_singleton] at h
      exact h.imp id fun hi => by simp [hi]
    · rw [receive, waiting_setWaiting_of_ne _ _ hline] at h
      exact Or.inl h

theorem History.timed (h : History arrival profile n s) : Timed arrival (n - 1) s := by
  induction h with
  | start => exact Timed.empty profile
  | @tick n s incoming success hs harrival hwork ih =>
    have hnow : ((n + 1 : ℕ) : ℤ) - 1 = n := by omega
    rw [hnow]
    refine (ih.receiveAll incoming).tick success ?_ ?_ (by simpa [hs.profile_eq] using hwork)
    · intro line j hj
      rcases mem_waiting_receiveAll hj with hj | hj
      · have hle := hs.ordered.arrived j (mem_jobs_of_mem_waiting hj)
        omega
      · exact (harrival j hj).le
    · intro hcur line j hj
      rw [current_receiveAll] at hcur
      obtain ⟨hex, hreg⟩ := hs.settled.idle_empty hcur
      rcases mem_waiting_receiveAll hj with hj | hj
      · cases line with
        | true => simp [hex] at hj
        | false => simp [hreg] at hj
      · exact harrival j hj

/-- The arrival of the `k`-th job of a list. -/
def arrivalAt (arrival : J → ℤ) (l : List J) (k : ℕ) : ℤ := l[k]?.elim 0 arrival

/-- The total work of the `k`-th job of a list, which fails `failures` times. -/
def durationAt (work failures : J → ℤ) (l : List J) (k : ℕ) : ℤ :=
  l[k]?.elim 0 fun j => (failures j + 1) * work j

/-- A list of jobs with a prefix of them completed follows the recurrence. -/
theorem Timed.completed_fifo (h : Timed arrival now s) {failures : J → ℤ}
    (hfailures : ∀ c ∈ s.completed, failures c.job = c.failures) {l : List J}
    (hl : s.completed.map Completed.job <+: l) {k : ℕ} {c : Completed J}
    (hc : s.completed[k]? = some c) :
    c.start = fifoStart (arrivalAt arrival l) (durationAt s.profile.work failures l) k ∧
      c.finish = fifoFinish (arrivalAt arrival l) (durationAt s.profile.work failures l) k := by
  have hindex : ∀ (i : ℕ) (b : Completed J), s.completed[i]? = some b →
      l[i]? = some b.job := by
    intro i b hb
    obtain ⟨rest, rfl⟩ := hl
    have hmap : (s.completed.map Completed.job)[i]? = some b.job := by simp [hb]
    rw [List.getElem?_append_left (List.getElem?_eq_some_iff.mp hmap).1, hmap]
  have hfinish : ∀ (i : ℕ) (b : Completed J), s.completed[i]? = some b →
      b.finish = b.start + durationAt s.profile.work failures l i := by
    intro i b hb
    have hmem := List.mem_of_getElem? hb
    obtain ⟨-, -, hspan, -⟩ := h.completed_span b hmem
    simp only [durationAt, hindex i b hb, Option.elim, hfailures b hmem]
    exact hspan
  suffices hstart : c.start = fifoStart (arrivalAt arrival l)
      (durationAt s.profile.work failures l) k from
    ⟨hstart, by rw [hfinish k c hc, hstart, fifoFinish]⟩
  induction k generalizing c with
  | zero =>
    have hfirst := chained_getElem h.chained hc
    simpa [arrivalAt, hindex 0 c hc, fifoStart, lastFinish, serviceStart] using hfirst
  | succ k ih =>
    have hlt : k < s.completed.length := by
      have hlen := (List.getElem?_eq_some_iff.mp hc).1
      omega
    have hb : s.completed[k]? = some s.completed[k] := List.getElem?_eq_getElem hlt
    have hprev := chained_getElem h.chained hc
    rw [List.take_add_one, hb, Option.toList_some, lastFinish_snoc] at hprev
    have harrival : arrivalAt arrival l (k + 1) = arrival c.job := by
      simp [arrivalAt, hindex (k + 1) c hc]
    rw [hprev, hfinish k _ hb, ih hb, fifoStart, harrival]
    rfl

theorem durationAt_congr {work work' failures : J → ℤ} {l : List J}
    (hwork : ∀ j ∈ l, work j = work' j) :
    durationAt work failures l = durationAt work' failures l := by
  funext k
  simp only [durationAt]
  cases hj : l[k]? with
  | none => rfl
  | some j => simp only [Option.elim, hwork j (List.mem_of_getElem? hj)]

/-- A station without an express line holds its jobs in the order of arrival. -/
theorem History.jobs_in_order (h : History arrival profile n s)
    (hline : ∀ j, profile.express j = false) :
    s.jobs = s.started ++ s.regular ∧ s.jobs.Pairwise fun i j => arrival i < arrival j := by
  have hprofile := h.profile_eq
  have hex : s.express = [] := by
    cases hs : s.express with
    | nil => rfl
    | cons j rest =>
      have hj := h.ordered.class_eq true j (by simp [hs])
      rw [hprofile, hline j] at hj
      cases hj
  have hjobs : s.jobs = s.started ++ s.regular := by simp [jobs, hex]
  refine ⟨hjobs, ?_⟩
  have hclass := h.ordered.sorted false
  have hall : s.started.filter (fun j => s.profile.express j == false) = s.started :=
    List.filter_eq_self.mpr fun j _ => by simp [hprofile, hline j]
  rw [classOrder, hall] at hclass
  rw [hjobs]
  exact hclass

section Recurrence

variable {failures : J → ℤ} (h : History arrival profile n s)
  (hline : ∀ j, profile.express j = false)
  (hcompleted : ∀ c ∈ s.completed, failures c.job = c.failures)

include h hline hcompleted

/-- Completed jobs have started and finished at the times of the recurrence. -/
theorem History.completed_times {k : ℕ} {c : Completed J} (hc : s.completed[k]? = some c) :
    c.start = fifoStart (arrivalAt arrival s.jobs) (durationAt profile.work failures s.jobs) k ∧
      c.finish =
        fifoFinish (arrivalAt arrival s.jobs) (durationAt profile.work failures s.jobs) k := by
  obtain ⟨hjobs, -⟩ := h.jobs_in_order hline
  have hprefix : s.completed.map Completed.job <+: s.jobs := by
    rw [hjobs, started, List.append_assoc]
    exact List.prefix_append _ _
  have htimes := h.timed.completed_fifo hcompleted hprefix hc
  rw [h.profile_eq] at htimes
  exact htimes

/-- The job in service has started at the time of the recurrence; it may still
fail, so the recurrence lets it finish no sooner than now. -/
theorem History.current_times {b : Attempt J} (hb : s.current = some b)
    (hcurrent : b.failures ≤ failures b.job) :
    b.start = fifoStart (arrivalAt arrival s.jobs) (durationAt profile.work failures s.jobs)
        s.completed.length ∧
      n ≤ fifoFinish (arrivalAt arrival s.jobs) (durationAt profile.work failures s.jobs)
        s.completed.length := by
  have hprofile := h.profile_eq
  obtain ⟨hjobs, -⟩ := h.jobs_in_order hline
  have hindex : s.jobs[s.completed.length]? = some b.job := by
    rw [hjobs, started, hb]
    simp
  have harrival : arrivalAt arrival s.jobs s.completed.length = arrival b.job := by
    simp [arrivalAt, hindex]
  have hstart : b.start = fifoStart (arrivalAt arrival s.jobs)
      (durationAt profile.work failures s.jobs) s.completed.length := by
    rw [h.timed.current_start b hb]
    rcases List.eq_nil_or_concat s.completed with hnil | ⟨init, c, hconcat⟩
    · rw [hnil] at harrival ⊢
      exact harrival.symm
    · rw [List.concat_eq_append] at hconcat
      have hc : s.completed[init.length]? = some c := by simp [hconcat]
      have hlen : s.completed.length = init.length + 1 := by simp [hconcat]
      have hlast : lastFinish none s.completed = some c.finish := by
        rw [hconcat, lastFinish_snoc]
      obtain ⟨-, hfinish⟩ := h.completed_times hline hcompleted hc
      rw [hlast, hlen, fifoStart, ← hlen, harrival, hfinish]
      rfl
  refine ⟨hstart, ?_⟩
  have hduration : (b.failures + 1) * profile.work b.job ≤
      durationAt profile.work failures s.jobs s.completed.length := by
    have hpos : 1 ≤ profile.work b.job := hprofile ▸ (h.timed.current_span b hb).2.1
    simp only [durationAt, hindex, Option.elim]
    apply Int.mul_le_mul_of_nonneg_right <;> omega
  obtain ⟨-, -, hspan⟩ := h.timed.current_span b hb
  have hpos := h.settled.remaining_pos b hb
  rw [hprofile] at hspan
  rw [add_mul, one_mul] at hduration
  rw [fifoFinish, ← hstart]
  omega

/-- No waiting job is due to start yet: the first one comes after the current
service, each later one after the one before. -/
theorem History.waiting_start (hcurrent : ∀ a ∈ s.current, a.failures ≤ failures a.job)
    (hwork : ∀ j ∈ s.jobs, 0 ≤ (failures j + 1) * profile.work j) {k : ℕ}
    (hk : s.started.length ≤ k) (hlt : k < s.jobs.length) :
    n ≤ fifoStart (arrivalAt arrival s.jobs) (durationAt profile.work failures s.jobs) k := by
  induction k, hk using Nat.le_induction with
  | base =>
    cases hcur : s.current with
    | none =>
      obtain ⟨hjobs, -⟩ := h.jobs_in_order hline
      obtain ⟨-, hreg⟩ := h.settled.idle_empty hcur
      simp [hjobs, hreg] at hlt
    | some b =>
      have hlen : s.started.length = s.completed.length + 1 := by simp [started, hcur]
      obtain ⟨-, hfinish⟩ := h.current_times hline hcompleted hcur (hcurrent b hcur)
      rw [hlen, fifoStart]
      exact hfinish.trans (le_max_right _ _)
  | succ k hk ih =>
    have hstart := ih (by omega)
    have hjob : s.jobs[k]? = some s.jobs[k] := List.getElem?_eq_getElem (by omega)
    have hnonneg : 0 ≤ durationAt profile.work failures s.jobs k := by
      simp only [durationAt, hjob, Option.elim]
      exact hwork _ (List.getElem_mem _)
    apply hstart.trans
    have hmax := le_max_right (arrivalAt arrival s.jobs (k + 1))
      (fifoStart (arrivalAt arrival s.jobs) (durationAt profile.work failures s.jobs) k +
        durationAt profile.work failures s.jobs k)
    rw [fifoStart]
    omega

end Recurrence

/-- Start and finish times of all jobs of a first-in first-out station, those
that are still to come included. The job in service may have failures to come. -/
theorem History.fifo (h : History arrival profile n s)
    (hline : ∀ j, profile.express j = false) {failures : J → ℤ}
    (hcompleted : ∀ c ∈ s.completed, failures c.job = c.failures)
    (hcurrent : ∀ a ∈ s.current, a.failures ≤ failures a.job)
    (hwork : ∀ j ∈ s.jobs, 0 ≤ (failures j + 1) * profile.work j) :
    let a := arrivalAt arrival s.jobs
    let d := durationAt profile.work failures s.jobs
    (∀ (k : ℕ) (c : Completed J), s.completed[k]? = some c →
        c.start = fifoStart a d k ∧ c.finish = fifoFinish a d k) ∧
      (∀ b ∈ s.current, b.start = fifoStart a d s.completed.length ∧
        n ≤ fifoFinish a d s.completed.length) ∧
      (∀ k, s.started.length ≤ k → k < s.jobs.length → n ≤ fifoStart a d k) := by
  intro a d
  exact ⟨fun _ _ hc => h.completed_times hline hcompleted hc,
    fun b hb => h.current_times hline hcompleted hb (hcurrent b hb),
    fun _ hk hlt => h.waiting_start hline hcompleted hcurrent hwork hk hlt⟩

end Station

end AcaBSim.Stations
