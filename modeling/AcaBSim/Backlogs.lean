import AcaBSim.ExpressLines
import AcaBSim.NetworkDrain

/-!
The work left at a station does not depend on the order of its services. A tick
takes one of it as long as there is some, whichever job is served, so the jobs
and their arrivals alone decide when the station is busy.
-/
namespace AcaBSim.Stations

/-- The work left after so many ticks, if `w t` comes at tick `t` and a tick does
one of what it finds. -/
def backlog (w : ℕ → ℤ) : ℕ → ℤ
  | 0 => 0
  | t + 1 => max (backlog w t - 1) 0 + w t

/-- The ticks, of the first `n`, that find work. -/
def busyTicks (w : ℕ → ℤ) (n : ℕ) : ℕ := (List.range n).countP fun t => 0 < backlog w t

theorem backlog_congr {w w' : ℕ → ℤ} {n : ℕ} (h : ∀ t < n, w t = w' t) :
    backlog w n = backlog w' n := by
  induction n with
  | zero => rfl
  | succ n ih => rw [backlog, backlog, ih fun t ht => h t (by omega), h n (by omega)]

theorem busyTicks_congr {w w' : ℕ → ℤ} {n : ℕ} (h : ∀ t < n, w t = w' t) :
    busyTicks w n = busyTicks w' n := by
  refine List.countP_congr fun t ht => ?_
  rw [List.mem_range] at ht
  rw [backlog_congr fun u hu => h u (by omega)]

theorem busyTicks_succ (w : ℕ → ℤ) (n : ℕ) :
    busyTicks w (n + 1) = busyTicks w n + if 0 < backlog w n then 1 else 0 := by
  simp [busyTicks, List.range_succ, List.countP_append, List.countP_cons]

namespace Station

variable {J : Type} {arrival : J → ℤ} {failures : J → ℤ} {profile : Profile J} {n : ℕ}
  {s : Station J}

/-- The work that comes to a station at tick `t`. -/
def workAt (arrival failures : J → ℤ) (s : Station J) (t : ℕ) : ℤ :=
  ((s.jobs.filter fun j => arrival j = t).map fun j => (failures j + 1) * s.profile.work j).sum

def unfinished (failures : J → ℤ) (s : Station J) : ℤ := s.workload failures - s.busy

/-- A station is busy just if it has work left. -/
theorem unfinished_cases {now : ℤ} (hledger : Ledger now s) (hsettled : Settled s)
    (hcounts : s.CountsFailures failures)
    (hwork : ∀ j ∈ s.jobs, 0 ≤ (failures j + 1) * s.profile.work j) :
    0 ≤ s.unfinished failures ∧ (s.current.isSome ↔ 0 < s.unfinished failures) := by
  have hle := busy_le_workload failures hledger hsettled hcounts.completed hcounts.current
    fun line j hj => hwork j (mem_jobs_of_mem_waiting hj)
  cases hcur : s.current with
  | some a =>
    rw [hcur, Option.isSome_some, if_pos rfl] at hle
    rw [unfinished]
    exact ⟨by omega, iff_of_true rfl (by omega)⟩
  | none =>
    obtain ⟨hexpress, hregular⟩ := hsettled.idle_empty hcur
    have hbusy := hledger.busy_eq
    rw [hcur, completed_time hcounts.completed] at hbusy
    have hzero : s.unfinished failures = 0 := by
      rw [unfinished, hbusy, workload, jobs, started, hcur, hexpress, hregular]
      simp
    rw [hzero]
    exact ⟨le_refl 0, iff_of_false (by simp) (lt_irrefl 0)⟩

/-- Failures that are counted after a tick are counted before it. -/
theorem CountsFailures.before_tick {t : ℤ} {success : Bool}
    (h : (s.tick t success).CountsFailures failures) : s.CountsFailures failures := by
  refine ⟨fun c hc => h.completed c (mem_completed_tick hc t success), fun a ha => ?_⟩
  have hcompleted := h.completed
  have hcurrent := h.current
  rw [Option.mem_def] at ha
  rcases tick_cases t success s with
    ⟨hcur, -⟩ | ⟨b, hb, -, hstep⟩ | ⟨b, hb, -, -, hstep⟩ | ⟨b, hb, -, -, hstep⟩
  · rw [hcur] at ha
    cases ha
  · obtain rfl := Option.some.inj (hb.symm.trans ha)
    rw [hstep, countdown_of_some hb] at hcurrent
    exact hcurrent { b with remaining := b.remaining - 1 } rfl
  · obtain rfl := Option.some.inj (hb.symm.trans ha)
    rw [hstep] at hcompleted
    exact (hcompleted ⟨b.job, b.start, b.failures, t⟩ (by simp [complete])).ge
  · obtain rfl := Option.some.inj (hb.symm.trans ha)
    rw [hstep] at hcurrent
    have hmore := hcurrent _ rfl
    dsimp only at hmore
    omega

theorem jobs_receiveAll (incoming : Option J) (s : Station J) :
    (s.receiveAll incoming).jobs.Perm (incoming.toList ++ s.jobs) := by
  cases incoming with
  | none => exact List.Perm.refl _
  | some j => exact jobs_receive j s

/-- The jobs after a tick: those before it and the one that came with it. -/
theorem jobs_next (incoming : Option J) (s : Station J) (t : ℤ) (success : Bool) :
    ((s.receiveAll incoming).tick t success).jobs.Perm (incoming.toList ++ s.jobs) :=
  (jobs_tick t success (s.receiveAll incoming)).trans (jobs_receiveAll incoming s)

theorem CountsFailures.before {incoming : Option J} {t : ℤ} {success : Bool}
    (h : ((s.receiveAll incoming).tick t success).CountsFailures failures) :
    s.CountsFailures failures := by
  obtain ⟨hcompleted, hcurrent⟩ := h.before_tick
  exact ⟨by simpa using hcompleted, by simpa using hcurrent⟩

theorem History.arrival_lt (h : History arrival profile n s) {j : J} (hj : j ∈ s.jobs) :
    arrival j < n := by
  have hle := h.ordered.arrived j hj
  omega

@[simp] theorem busy_receiveAll (incoming : Option J) (s : Station J) :
    (s.receiveAll incoming).busy = s.busy := by
  cases incoming <;> simp [receiveAll]

section Tick

variable (arrival failures) {t : ℤ} {success : Bool} {incoming : Option J}

/-- The work that comes with the tick itself. -/
def incomingWork (incoming : Option J) (s : Station J) : ℤ :=
  incoming.elim 0 fun j => (failures j + 1) * s.profile.work j

theorem unfinished_tick (incoming : Option J) (s : Station J) (t : ℤ) (success : Bool) :
    ((s.receiveAll incoming).tick t success).unfinished failures =
      s.unfinished failures + incomingWork failures incoming s -
        if s.current.isSome then 1 else 0 := by
  have hjobs := jobs_next incoming s t success
  have hload : ((s.receiveAll incoming).tick t success).workload failures =
      incomingWork failures incoming s + s.workload failures := by
    rw [workload, (hjobs.map _).sum_eq, List.map_append, List.sum_append, profile_tick,
      profile_receiveAll]
    cases incoming <;> simp [incomingWork, workload]
  rw [unfinished, unfinished, hload, busy_tick, busy_receiveAll, current_receiveAll]
  ring

/-- The jobs of a station came before this tick, those of the tick come now. -/
theorem workAt_tick {m : ℕ} (hbefore : ∀ j ∈ s.jobs, arrival j < n)
    (hnow : ∀ j ∈ incoming, arrival j = n) (success : Bool) :
    workAt arrival failures ((s.receiveAll incoming).tick n success) m =
      if m = n then incomingWork failures incoming s else workAt arrival failures s m := by
  have hjobs := jobs_next incoming s n success
  have hsum : workAt arrival failures ((s.receiveAll incoming).tick n success) m =
      ((incoming.toList.filter fun j => arrival j = m).map fun j =>
        (failures j + 1) * s.profile.work j).sum + workAt arrival failures s m := by
    rw [workAt, ((hjobs.filter _).map _).sum_eq, List.filter_append, List.map_append,
      List.sum_append, profile_tick, profile_receiveAll]
    rfl
  rw [hsum]
  split
  · rename_i hm
    subst hm
    have hold : workAt arrival failures s m = 0 := by
      rw [workAt, List.filter_eq_nil_iff.mpr fun j hj => by simpa using (hbefore j hj).ne]
      rfl
    rw [hold, add_zero]
    cases incoming with
    | none => rfl
    | some j => simp [incomingWork, hnow j rfl]
  · rename_i hm
    have hnew : incoming.toList.filter (fun j => arrival j = m) = [] := by
      refine List.filter_eq_nil_iff.mpr fun j hj => ?_
      rw [Option.mem_toList] at hj
      rw [hnow j hj]
      simpa using Ne.symm hm
    rw [hnew]
    simp

end Tick

/-- The work left and the busy ticks follow the recurrence of the work that comes. -/
theorem History.backlog_eq (h : History arrival profile n s) (hcounts : s.CountsFailures failures)
    (hwork : ∀ j ∈ s.jobs, 0 ≤ (failures j + 1) * profile.work j) :
    s.unfinished failures = backlog (workAt arrival failures s) n ∧
      s.busy = busyTicks (workAt arrival failures s) n := by
  induction h with
  | start => exact ⟨rfl, rfl⟩
  | @tick n s incoming success hs harrival _ ih =>
    have hprofile := hs.profile_eq
    have hcounted := hcounts.before
    have hold : ∀ j ∈ s.jobs, 0 ≤ (failures j + 1) * profile.work j := by
      intro j hj
      exact hwork j ((jobs_next incoming s n success).mem_iff.mpr (List.mem_append_right _ hj))
    have hbefore : ∀ j ∈ s.jobs, arrival j < n := fun j hj => hs.arrival_lt hj
    obtain ⟨hleft, hbusy⟩ := ih hcounted hold
    obtain ⟨hnonneg, hserving⟩ := unfinished_cases hs.ledger hs.settled hcounted (hprofile ▸ hold)
    have hsame : ∀ m < n, workAt arrival failures ((s.receiveAll incoming).tick n success) m =
        workAt arrival failures s m := by
      intro m hm
      rw [workAt_tick arrival failures hbefore harrival, if_neg (by omega)]
    have hnow : backlog (workAt arrival failures ((s.receiveAll incoming).tick n success)) n =
        s.unfinished failures := (backlog_congr hsame).trans hleft.symm
    constructor
    · rw [backlog, hnow, unfinished_tick, workAt_tick arrival failures hbefore harrival,
        if_pos rfl]
      cases hcur : s.current.isSome with
      | true =>
        have hpos := hserving.mp hcur
        rw [if_pos rfl, max_eq_left (by omega)]
        ring
      | false =>
        have hzero : s.unfinished failures = 0 := by
          have hnot : ¬ 0 < s.unfinished failures := by
            rw [← hserving, hcur]
            simp
          omega
        rw [hzero]
        simp
    · rw [busy_tick, busy_receiveAll, current_receiveAll, hbusy, busyTicks_succ, hnow,
        busyTicks_congr hsame, if_congr hserving rfl rfl]
      push_cast
      rfl

end Station

end AcaBSim.Stations
