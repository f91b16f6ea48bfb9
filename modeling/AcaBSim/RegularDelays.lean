import AcaBSim.Backlogs

/-!
When a station starts its regular jobs. A regular job waits for the work that it
finds, and for the work of all express jobs that come while it waits: it starts
at the first tick at which that much time has passed.
-/
namespace AcaBSim.Stations

section Recurrence

variable {w : ℕ → ℤ} {a t n : ℕ}

theorem backlog_nonneg (hw : ∀ t, 0 ≤ w t) (n : ℕ) : 0 ≤ backlog w n := by
  cases n with
  | zero => exact le_refl 0
  | succ n => exact Int.add_nonneg (le_max_right _ _) (hw n)

/-- The work that has not been left has taken a busy tick each. -/
theorem busyTicks_add_backlog_succ (hw : ∀ t, 0 ≤ w t) (n : ℕ) :
    (busyTicks w (n + 1) : ℤ) + backlog w (n + 1) = busyTicks w n + backlog w n + w n := by
  have hnonneg := backlog_nonneg hw n
  rw [busyTicks_succ, backlog]
  split
  · rw [max_eq_left (by omega)]
    push_cast
    ring
  · rw [max_eq_right (by omega), show backlog w n = 0 by omega]
    push_cast
    ring

/-- The busy ticks up to the end of `t` if all ticks from `a` on are busy, the
first of them perhaps not. -/
theorem busyTicks_of_busy (hle : a ≤ t) (hbusy : ∀ u, a ≤ u → u < t → 0 < backlog w (u + 1)) :
    (busyTicks w (t + 1) : ℤ) = busyTicks w a + (if 0 < backlog w a then 1 else 0) + (t - a) := by
  induction t, hle using Nat.le_induction with
  | base =>
    rw [busyTicks_succ]
    push_cast
    ring
  | succ t hle ih =>
    rw [busyTicks_succ, if_pos (hbusy t hle (by omega))]
    push_cast
    rw [ih fun u hu hlt => hbusy u hu (by omega)]
    ring

/-- The work that a job finds which comes at tick `a`: the tick has done one of it. -/
def found (w : ℕ → ℤ) (a : ℕ) : ℤ := max (backlog w a - 1) 0

theorem found_eq (hw : ∀ t, 0 ≤ w t) (a : ℕ) :
    found w a = backlog w a - if 0 < backlog w a then 1 else 0 := by
  have hnonneg := backlog_nonneg hw a
  rw [found]
  split
  · exact max_eq_left (by omega)
  · rw [max_eq_right (by omega)]
    omega

end Recurrence

section Sums

variable {J : Type} {p q r : J → Bool} {f : J → ℤ} {l : List J}

/-- A sum over two kinds of elements, none of which is of both. -/
theorem sum_filter_add (hor : ∀ j ∈ l, r j = (p j || q j)) (hand : ∀ j ∈ l, (p j && q j) = false) :
    ((l.filter r).map f).sum = ((l.filter p).map f).sum + ((l.filter q).map f).sum := by
  induction l with
  | nil => rfl
  | cons j l ih =>
    rw [List.forall_mem_cons] at hor hand
    have hrest := ih hor.2 hand.2
    have hj := hor.1
    have hone := hand.1
    cases hp : p j <;> cases hq : q j <;> rw [hp, hq] at hj hone
    · simpa [hp, hq, hj] using hrest
    · simp only [List.filter_cons, hp, hq, hj, Bool.or_true, Bool.false_eq_true, if_true, if_false,
        List.map_cons, List.sum_cons, hrest]
      ring
    · simp only [List.filter_cons, hp, hq, hj, Bool.or_false, Bool.false_eq_true, if_true, if_false,
        List.map_cons, List.sum_cons, hrest]
      ring
    · cases hone

theorem sum_filter_le (himp : ∀ j ∈ l, p j = true → q j = true) (hf : ∀ j ∈ l, 0 ≤ f j) :
    ((l.filter p).map f).sum ≤ ((l.filter q).map f).sum := by
  have hsplit : ((l.filter q).map f).sum =
      ((l.filter p).map f).sum + ((l.filter fun j => q j && !p j).map f).sum := by
    refine sum_filter_add (fun j hj => ?_) fun j _ => by cases p j <;> cases q j <;> rfl
    have hpq := himp j hj
    cases hp : p j
    · simp
    · simp [hpq hp]
  have hrest : 0 ≤ ((l.filter fun j => q j && !p j).map f).sum :=
    List.sum_nonneg (List.forall_mem_map.mpr fun j hj => hf j (List.mem_filter.mp hj).1)
  omega

end Sums

namespace Station

variable {J : Type} {arrival failures : J → ℤ} {profile : Profile J} {n : ℕ} {s : Station J}

/-- The work of the jobs of a kind. -/
def workOf (failures : J → ℤ) (s : Station J) (p : J → Bool) : ℤ :=
  ((s.jobs.filter p).map fun j => (failures j + 1) * s.profile.work j).sum

/-- Whether a job is served before a regular one that came at `a` and has not
started before `t`. -/
def ahead (arrival : J → ℤ) (express : J → Bool) (a t : ℕ) (j : J) : Bool :=
  arrival j < a || express j && decide (arrival j ≤ t)

/-- Whether a job is express and has come from `a` to `t`. -/
def overtakes (arrival : J → ℤ) (express : J → Bool) (a t : ℕ) (j : J) : Bool :=
  express j && decide (a ≤ arrival j) && decide (arrival j ≤ t)

/-- Jobs that come with a tick are of no kind that looks at earlier arrivals only. -/
theorem workOf_tick {incoming : Option J} {p : J → Bool} (hp : ∀ j ∈ incoming, p j = false)
    (t : ℤ) (success : Bool) :
    workOf failures ((s.receiveAll incoming).tick t success) p = workOf failures s p := by
  have hjobs := jobs_next incoming s t success
  have hnone : incoming.toList.filter p = [] := by
    refine List.filter_eq_nil_iff.mpr fun j hj => ?_
    rw [Option.mem_toList] at hj
    simp [hp j hj]
  rw [workOf, ((hjobs.filter p).map _).sum_eq, List.filter_append, hnone, List.nil_append,
    profile_tick, profile_receiveAll]
  rfl

section Ledgers

variable {now : ℤ} {p : J → Bool} (hledger : Ledger now s) (hcounts : s.CountsFailures failures)

include hledger hcounts

theorem busy_lt_workOf (hsettled : Settled s)
    (hwork : ∀ j ∈ s.jobs, 0 ≤ (failures j + 1) * s.profile.work j)
    (hstarted : ∀ j ∈ s.started, p j = true) (hcur : s.current.isSome = true) :
    s.busy < workOf failures s p := by
  have hle := busy_le_started failures hledger hsettled hcounts.completed hcounts.current
  have hrest : 0 ≤ (((s.express ++ s.regular).filter p).map fun j =>
      (failures j + 1) * s.profile.work j).sum := by
    refine List.sum_nonneg (List.forall_mem_map.mpr fun j hj => hwork j ?_)
    rw [jobs, List.append_assoc]
    exact List.mem_append_right _ (List.mem_filter.mp hj).1
  rw [hcur, if_pos rfl] at hle
  rw [workOf, jobs, List.append_assoc, List.filter_append, List.filter_eq_self.mpr hstarted,
    List.map_append, List.sum_append]
  omega

/-- A service that has just begun has not used any of its time. -/
theorem busy_eq_workOf {j : J} {t : ℤ} (hcur : s.current = some ⟨j, t, 0, s.profile.work j⟩)
    (hdone : ∀ k ∈ s.completed.map Completed.job, p k = true) (hj : p j = false)
    (hwaiting : ∀ k ∈ s.express ++ s.regular, p k = false) : s.busy = workOf failures s p := by
  have hbusy := hledger.busy_eq
  have hnone : (s.express ++ s.regular).filter p = [] :=
    List.filter_eq_nil_iff.mpr fun k hk => by simp [hwaiting k hk]
  rw [completed_time hcounts.completed, hcur] at hbusy
  rw [hbusy, workOf, jobs, List.append_assoc, List.filter_append, hnone, List.append_nil, started,
    List.filter_append, List.filter_eq_self.mpr hdone, hcur]
  simp [hj]

end Ledgers

theorem Ordered.before_waiting {latest : ℤ} (h : Ordered arrival latest s) {j k : J}
    (hj : j ∈ s.regular) (hk : k ∈ s.started) (hregular : s.profile.express k = false) :
    arrival k < arrival j :=
  (List.pairwise_append.mp (h.sorted false)).2.2 k
    (List.mem_filter.mpr ⟨hk, by simp [hregular]⟩) j hj

theorem Ordered.before_current {latest : ℤ} (h : Ordered arrival latest s) {a : Attempt J} {k : J}
    (ha : s.current = some a) (hk : k ∈ s.completed.map Completed.job)
    (hclass : s.profile.express a.job = false) (hregular : s.profile.express k = false) :
    arrival k < arrival a.job := by
  have hsorted := (List.pairwise_append.mp (h.sorted false)).1
  rw [started, List.filter_append] at hsorted
  exact (List.pairwise_append.mp hsorted).2.2 k (List.mem_filter.mpr ⟨hk, by simp [hregular]⟩)
    a.job (List.mem_filter.mpr ⟨by simp [ha], by simp [hclass]⟩)

/-- A service of a regular job was there before the tick, or starts now and leaves
no express job waiting. -/
theorem mem_services_tick {t : ℤ} {success : Bool} {y : J × ℤ}
    (hclass : ∀ line, ∀ j ∈ s.waiting line, s.profile.express j = line)
    (hregular : s.profile.express y.1 = false) (hy : y ∈ (s.tick t success).services) :
    y ∈ s.services ∨ y.2 = t ∧ y.1 ∈ s.waiting false ∧
      (s.tick t success).current = some ⟨y.1, t, 0, s.profile.work y.1⟩ ∧
      (s.tick t success).express = [] := by
  rcases services_tick t success s with hsame | ⟨line, j, rest, hline, hnew, hcur, hexpress⟩
  · exact Or.inl (hsame ▸ hy)
  · rw [hnew, List.mem_append, List.mem_singleton] at hy
    rcases hy with hy | rfl
    · exact Or.inl hy
    · have hj : j ∈ s.waiting line := by simp [hline]
      obtain rfl : line = false := (hclass line j hj).symm.trans hregular
      exact Or.inr ⟨rfl, hj, hcur, hexpress rfl⟩

/-- A regular job that came at `a` waits as long as the work ahead of it is more
than the busy ticks, and starts as soon as they are equal. -/
structure InTurn (arrival failures : J → ℤ) (express : J → Bool) (n : ℕ) (s : Station J) :
    Prop where
  waiting : ∀ j ∈ s.regular, ∀ a t : ℕ, arrival j = a → a ≤ t → t < n →
    busyTicks (workAt arrival failures s) (t + 1) < workOf failures s (ahead arrival express a t)
  started : ∀ y ∈ s.services, express y.1 = false → ∀ a t : ℕ, arrival y.1 = a → a ≤ t → t < y.2 →
    busyTicks (workAt arrival failures s) (t + 1) < workOf failures s (ahead arrival express a t)
  starts : ∀ y ∈ s.services, express y.1 = false → ∀ a t : ℕ, arrival y.1 = a → y.2 = t →
    a ≤ t ∧
    busyTicks (workAt arrival failures s) (t + 1) = workOf failures s (ahead arrival express a t)

section Now

variable (h : History arrival profile (n + 1) s) (hcounts : s.CountsFailures failures)
  (hwork : ∀ j ∈ s.jobs, 0 ≤ (failures j + 1) * profile.work j)

include h hcounts hwork

/-- A regular job that waits after tick `n` has more ahead of it than has been done. -/
theorem History.waits_now {j : J} (hj : j ∈ s.regular) {a : ℕ} (ha : arrival j = a) :
    busyTicks (workAt arrival failures s) (n + 1) <
      workOf failures s (ahead arrival profile.express a n) := by
  have hprofile := h.profile_eq
  have hcur : s.current.isSome = true := by
    cases hcur : s.current with
    | none => simp [(h.settled.idle_empty hcur).2] at hj
    | some a => rfl
  rw [← (h.backlog_eq hcounts hwork).2]
  refine busy_lt_workOf h.ledger hcounts h.settled (hprofile ▸ hwork) (fun k hk => ?_) hcur
  have hjob : k ∈ s.jobs := List.mem_append_left _ (List.mem_append_left _ hk)
  have hle := h.ordered.arrived k hjob
  push_cast at hle
  cases hclass : profile.express k with
  | true => simp [ahead, hclass, show arrival k ≤ n by omega]
  | false =>
    have hlt := h.ordered.before_waiting hj hk (hprofile ▸ hclass)
    simp [ahead, ← ha, hlt]

/-- A regular job that starts over tick `n` has nothing ahead of it left. -/
theorem History.starts_now {j : J} (hcur : s.current = some ⟨j, n, 0, profile.work j⟩)
    (hexpress : s.express = []) (hclass : profile.express j = false) {a : ℕ}
    (ha : arrival j = a) :
    busyTicks (workAt arrival failures s) (n + 1) =
      workOf failures s (ahead arrival profile.express a n) := by
  have hprofile := h.profile_eq
  rw [← (h.backlog_eq hcounts hwork).2]
  rw [← hprofile] at hcur
  refine busy_eq_workOf h.ledger hcounts hcur (fun k hk => ?_) (by simp [ahead, hclass, ha])
    fun k hk => ?_
  · have hjob : k ∈ s.jobs :=
      List.mem_append_left _ (List.mem_append_left _ (List.mem_append_left _ hk))
    have hle := h.ordered.arrived k hjob
    push_cast at hle
    cases hkclass : profile.express k with
    | true => simp [ahead, hkclass, show arrival k ≤ n by omega]
    | false =>
      have hlt := h.ordered.before_current hcur hk (hprofile ▸ hclass) (hprofile ▸ hkclass)
      simp [ahead, ← ha, hlt]
  · rw [hexpress, List.nil_append] at hk
    have hkclass := h.ordered.class_eq false k hk
    have hlt := h.ordered.before_waiting hk (by simp [started, hcur]) (hprofile ▸ hclass)
    rw [hprofile] at hkclass
    simp [ahead, hkclass, ← ha, hlt.le]

end Now

section Earlier

variable {incoming : Option J} (hs : History arrival profile n s)
  (hnow : ∀ j ∈ incoming, arrival j = n) (success : Bool)

include hnow

/-- What is ahead at an earlier tick does not change with a job that comes now. -/
theorem workOf_ahead_tick {a t : ℕ} (hle : a ≤ t) (ht : t < n) (express : J → Bool) :
    workOf failures ((s.receiveAll incoming).tick n success) (ahead arrival express a t) =
      workOf failures s (ahead arrival express a t) := by
  refine workOf_tick (fun j hj => ?_) n success
  simp only [ahead, hnow j hj, Bool.or_eq_false_iff, Bool.and_eq_false_iff,
    decide_eq_false_iff_not]
  exact ⟨by omega, Or.inr (by omega)⟩

/-- A job that arrived earlier and is waiting waited before the tick. -/
theorem waiting_before_tick {j : J} {line : Bool}
    (hj : j ∈ (s.receiveAll incoming).waiting line) (hlt : arrival j < n) : j ∈ s.waiting line := by
  refine (mem_waiting_receiveAll hj).resolve_right fun hin => ?_
  have harrival := hnow j hin
  omega

include hs

theorem History.busyTicks_tick {t : ℕ} (ht : t < n) :
    busyTicks (workAt arrival failures ((s.receiveAll incoming).tick n success)) (t + 1) =
      busyTicks (workAt arrival failures s) (t + 1) := by
  refine busyTicks_congr fun u hu => ?_
  rw [workAt_tick arrival failures (fun j hj => hs.arrival_lt hj) hnow, if_neg (by omega)]

/-- A service of a regular job is an earlier one, or starts now. -/
theorem History.service_cases {y : J × ℤ}
    (hy : y ∈ ((s.receiveAll incoming).tick n success).services)
    (hregular : profile.express y.1 = false) :
    y ∈ s.services ∧ y.2 < n ∨
      y.2 = n ∧ y.1 ∈ (s.receiveAll incoming).waiting false ∧
      ((s.receiveAll incoming).tick n success).current = some ⟨y.1, n, 0, profile.work y.1⟩ ∧
      ((s.receiveAll incoming).tick n success).express = [] := by
  have hordered := hs.ordered.receiveAll (by omega) hnow
  have hprofile : (s.receiveAll incoming).profile = profile := by
    rw [profile_receiveAll, hs.profile_eq]
  rcases mem_services_tick hordered.class_eq (hprofile ▸ hregular) hy with hy | hy
  · rw [services_receiveAll] at hy
    exact Or.inl ⟨hy, hs.services_before hy⟩
  · exact Or.inr (hprofile ▸ hy)

end Earlier

theorem History.inTurn (h : History arrival profile n s) (hcounts : s.CountsFailures failures)
    (hwork : ∀ j ∈ s.jobs, 0 ≤ (failures j + 1) * profile.work j) :
    InTurn arrival failures profile.express n s := by
  induction h with
  | start =>
    exact ⟨by simp [Station.empty], by simp [Station.empty, services],
      by simp [Station.empty, services]⟩
  | @tick n s incoming success hs hnow hworked ih =>
    have hnext := History.tick incoming success hs hnow hworked
    obtain ⟨hwaiting, hstarted, hstarts⟩ := ih hcounts.before fun j hj =>
      hwork j ((jobs_next incoming s n success).mem_iff.mpr (List.mem_append_right _ hj))
    refine ⟨fun j hj a t ha hle ht => ?_, fun y hy hregular a t ha hle hlt => ?_,
      fun y hy hregular a t ha hyt => ?_⟩
    · rcases Nat.lt_succ_iff_lt_or_eq.mp ht with ht | rfl
      · have hreceived := waiting_tick_subset n success (s.receiveAll incoming) false hj
        rw [hs.busyTicks_tick hnow success ht, workOf_ahead_tick hnow success hle ht]
        exact hwaiting j (waiting_before_tick hnow hreceived (by omega)) a t ha hle ht
      · exact hnext.waits_now hcounts hwork hj ha
    · rcases hs.service_cases hnow success hy hregular with ⟨hy, hpast⟩ | ⟨hstart, hj, -, -⟩
      · rw [hs.busyTicks_tick hnow success (by omega),
          workOf_ahead_tick hnow success hle (by omega)]
        exact hstarted y hy hregular a t ha hle hlt
      · rw [hs.busyTicks_tick hnow success (by omega),
          workOf_ahead_tick hnow success hle (by omega)]
        exact hwaiting y.1 (waiting_before_tick hnow hj (by omega)) a t ha hle (by omega)
    · rcases hs.service_cases hnow success hy hregular with
        ⟨hy, hpast⟩ | ⟨hstart, hj, hcur, hexpress⟩
      · obtain ⟨hle, heq⟩ := hstarts y hy hregular a t ha hyt
        rw [hs.busyTicks_tick hnow success (by omega),
          workOf_ahead_tick hnow success hle (by omega)]
        exact ⟨hle, heq⟩
      · obtain rfl : t = n := by omega
        have hordered := hs.ordered.receiveAll (by omega) hnow
        have harrived := hordered.arrived y.1 (mem_jobs_of_mem_waiting hj)
        exact ⟨by omega, hnext.starts_now hcounts hwork hcur hexpress hregular ha⟩

theorem History.arrival_nonneg (h : History arrival profile n s) {j : J} (hj : j ∈ s.jobs) :
    0 ≤ arrival j := by
  induction h with
  | start => simp [Station.empty, jobs, started] at hj
  | @tick n s incoming success _ harrival _ ih =>
    rcases List.mem_append.mp ((jobs_next incoming s n success).mem_iff.mp hj) with hin | hold
    · rw [harrival j (Option.mem_toList.mp hin)]
      omega
    · exact ih hold

section Law

variable (h : History arrival profile n s) (hcounts : s.CountsFailures failures)
  (hwork : ∀ j ∈ s.jobs, 0 ≤ (failures j + 1) * profile.work j)

include h hwork

theorem History.workAt_nonneg (t : ℕ) : 0 ≤ workAt arrival failures s t := by
  rw [workAt, h.profile_eq]
  exact List.sum_nonneg (List.forall_mem_map.mpr fun j hj => hwork j (List.mem_filter.mp hj).1)

/-- The work that has come before `a` is done or left. -/
theorem History.work_before (a : ℕ) :
    workOf failures s (fun j => arrival j < a) =
      busyTicks (workAt arrival failures s) a + backlog (workAt arrival failures s) a := by
  induction a with
  | zero =>
    have hnone : s.jobs.filter (fun j => arrival j < (0 : ℕ)) = [] :=
      List.filter_eq_nil_iff.mpr fun j hj => by simpa using h.arrival_nonneg hj
    rw [workOf, hnone]
    rfl
  | succ a ih =>
    have hsplit : workOf failures s (fun j => arrival j < (a + 1 : ℕ)) =
        workOf failures s (fun j => arrival j < a) + workAt arrival failures s a := by
      refine sum_filter_add (fun j _ => ?_) fun j _ => ?_
      · rw [← Bool.decide_or, decide_eq_decide]
        push_cast
        omega
      · simp only [Bool.and_eq_false_iff, decide_eq_false_iff_not]
        omega
    rw [hsplit, ih, busyTicks_add_backlog_succ (h.workAt_nonneg hwork)]

theorem History.work_ahead (a t : ℕ) :
    workOf failures s (ahead arrival profile.express a t) =
      busyTicks (workAt arrival failures s) a + backlog (workAt arrival failures s) a +
        workOf failures s (overtakes arrival profile.express a t) := by
  rw [← h.work_before hwork a]
  refine sum_filter_add (fun j _ => ?_) fun j _ => ?_
  · rw [Bool.eq_iff_iff]
    simp only [ahead, overtakes, Bool.or_eq_true, Bool.and_eq_true, decide_eq_true_eq]
    cases profile.express j with
    | false => simp
    | true =>
      simp only [true_and]
      omega
  · simp only [overtakes, Bool.and_eq_false_iff, decide_eq_false_iff_not]
    omega

/-- With work ahead at every tick since `a`, what is ahead is the delay that is left. -/
theorem History.delay_left {a t : ℕ} (hle : a ≤ t)
    (hahead : ∀ u : ℕ, a ≤ u → u < t → busyTicks (workAt arrival failures s) (u + 1) <
      workOf failures s (ahead arrival profile.express a u)) :
    workOf failures s (ahead arrival profile.express a t) -
        busyTicks (workAt arrival failures s) (t + 1) =
      a + found (workAt arrival failures s) a +
        workOf failures s (overtakes arrival profile.express a t) - t := by
  have hbusy : ∀ u, a ≤ u → u < t → 0 < backlog (workAt arrival failures s) (u + 1) := by
    intro u hu hlt
    have hmore := hahead u hu hlt
    have hbefore := h.work_before hwork (u + 1)
    have hle : workOf failures s (ahead arrival profile.express a u) ≤
        workOf failures s (fun j => arrival j < (u + 1 : ℕ)) := by
      refine sum_filter_le (fun j _ hj => ?_) (h.profile_eq ▸ hwork)
      simp only [ahead, Bool.or_eq_true, Bool.and_eq_true, decide_eq_true_eq] at hj ⊢
      push_cast
      omega
    omega
  rw [h.work_ahead hwork, busyTicks_of_busy hle hbusy, found_eq (h.workAt_nonneg hwork)]
  ring

include hcounts

/-- A regular job that waits has not had its delay yet. -/
theorem History.regular_waits {j : J} (hj : j ∈ s.regular) {a t : ℕ} (ha : arrival j = a)
    (hle : a ≤ t) (ht : t < n) :
    t < a + found (workAt arrival failures s) a +
      workOf failures s (overtakes arrival profile.express a t) := by
  have hturn := (h.inTurn hcounts hwork).waiting j hj a
  have hleft := h.delay_left hwork hle fun u hu hlt => hturn u ha hu (by omega)
  have hnow := hturn t ha hle ht
  omega

/-- A regular job starts at the first tick that is its delay past its arrival. -/
theorem History.regular_starts {j : J} {x a : ℕ} (hj : (j, (x : ℤ)) ∈ s.services)
    (hregular : profile.express j = false) (ha : arrival j = a) :
    a ≤ x ∧ x = a + found (workAt arrival failures s) a +
      workOf failures s (overtakes arrival profile.express a x) ∧
    ∀ t : ℕ, a ≤ t → t < x → t < a + found (workAt arrival failures s) a +
      workOf failures s (overtakes arrival profile.express a t) := by
  have hturn := h.inTurn hcounts hwork
  obtain ⟨hle, heq⟩ := hturn.starts _ hj hregular a x ha rfl
  have hbefore : ∀ u : ℕ, a ≤ u → u < x → busyTicks (workAt arrival failures s) (u + 1) <
      workOf failures s (ahead arrival profile.express a u) := fun u hu hlt =>
    hturn.started _ hj hregular a u ha hu (show (u : ℤ) < x by omega)
  refine ⟨hle, ?_, fun t ht hlt => ?_⟩
  · have hleft := h.delay_left hwork hle hbefore
    omega
  · have hleft := h.delay_left hwork ht fun u hu hut => hbefore u hu (by omega)
    have hnow := hbefore t ht hlt
    omega

end Law

end Station

end AcaBSim.Stations
