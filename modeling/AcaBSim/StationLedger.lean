import AcaBSim.Stations
import Mathlib.Tactic.Ring
import Mathlib.Algebra.BigOperators.Group.List.Basic

/-!
The counters of a station are an exact ledger of its history: busy and idle
ticks add up to the clock, and the busy ticks are those the attempts took.
-/
namespace AcaBSim.Stations.Station

variable {J : Type}

structure Ledger (now : ℤ) (s : Station J) : Prop where
  clock : s.busy + s.idle = now
  failed_eq : s.failed =
    (s.completed.map Completed.failures).sum + s.current.elim 0 Attempt.failures
  busy_eq : s.busy =
    (s.completed.map fun c => (c.failures + 1) * s.profile.work c.job).sum +
      s.current.elim 0 fun a => a.failures * s.profile.work a.job +
        (s.profile.work a.job - a.remaining)

/-- Between two ticks a service has work left, and nobody waits at an idle server. -/
structure Settled (s : Station J) : Prop where
  remaining_pos : ∀ a ∈ s.current, 1 ≤ a.remaining
  remaining_le : ∀ a ∈ s.current, a.remaining ≤ s.profile.work a.job
  idle_empty : s.current = none → s.express = [] ∧ s.regular = []

/-- Every attempt takes a tick at least, so no counter is ahead of the clock. -/
structure Paced (now : ℤ) (s : Station J) : Prop where
  clock : s.busy + s.idle = now
  idle_nonneg : 0 ≤ s.idle
  failed_nonneg : 0 ≤ s.failed
  attempts_le : s.completed.length + s.failed +
    s.current.elim 0 (fun a => s.profile.work a.job - a.remaining) ≤ s.busy
  remaining_le : ∀ a ∈ s.current, a.remaining ≤ s.profile.work a.job
  failures : ∀ a ∈ s.current, 0 ≤ a.failures ∧ a.failures ≤ s.failed

variable {now t : ℤ} {s : Station J}

theorem Ledger.empty (profile : Profile J) : Ledger 0 (Station.empty profile) :=
  ⟨rfl, rfl, rfl⟩

theorem Ledger.receive (h : Ledger now s) (j : J) : Ledger now (s.receive j) where
  clock := by simpa using h.clock
  failed_eq := by simpa using h.failed_eq
  busy_eq := by simpa using h.busy_eq

theorem Ledger.receiveAll (h : Ledger now s) (incoming : Option J) :
    Ledger now (s.receiveAll incoming) := by
  cases incoming with
  | none => exact h
  | some j => exact h.receive j

theorem Ledger.countdown (h : Ledger now s) : Ledger (now + 1) s.countdown := by
  have hclock := h.clock
  have hfailed := h.failed_eq
  have hbusy := h.busy_eq
  cases hcur : s.current with
  | none =>
    rw [countdown_of_none hcur]
    rw [hcur] at hfailed hbusy
    exact ⟨by dsimp only; omega, by simpa [hcur] using hfailed, by simpa [hcur] using hbusy⟩
  | some a =>
    rw [countdown_of_some hcur]
    rw [hcur] at hfailed hbusy
    refine ⟨by dsimp only; omega, by simpa using hfailed, ?_⟩
    simp only [Option.elim] at hbusy ⊢
    omega

theorem Ledger.startNext (h : Ledger now s) (hidle : s.current = none) :
    Ledger now (startNext t s) := by
  have hclock := h.clock
  have hfailed := h.failed_eq
  have hbusy := h.busy_eq
  rw [hidle] at hfailed hbusy
  rcases startNext_cases t s with ⟨line, j, rest, -, -, hnext⟩ | ⟨-, -, hnext⟩ <;>
    rw [hnext] <;>
    exact ⟨by simpa [begin] using hclock, by simpa [begin] using hfailed,
      by simpa [begin] using hbusy⟩

theorem Ledger.complete (h : Ledger now s) {a : Attempt J} (hcur : s.current = some a)
    (hdone : a.remaining = 0) : Ledger now (complete t a s) := by
  have hfailed := h.failed_eq
  have hbusy := h.busy_eq
  rw [hcur] at hfailed hbusy
  refine ⟨h.clock, ?_, ?_⟩
  · simpa [Station.complete] using hfailed
  · simp only [Option.elim, hdone] at hbusy
    simp only [Station.complete, List.map_append, List.map_cons, List.map_nil, List.sum_append,
      List.sum_cons, List.sum_nil, Option.elim, hbusy]
    ring

theorem Ledger.retry (h : Ledger now s) {a : Attempt J} (hcur : s.current = some a)
    (hdone : a.remaining = 0) : Ledger now (retry a s) := by
  have hfailed := h.failed_eq
  have hbusy := h.busy_eq
  rw [hcur] at hfailed hbusy
  refine ⟨h.clock, ?_, ?_⟩
  · simp only [Option.elim] at hfailed
    simp only [Station.retry, Option.elim, hfailed]
    ring
  · simp only [Option.elim, hdone] at hbusy
    simp only [Station.retry, Option.elim, hbusy]
    ring

theorem Ledger.tick (h : Ledger now s) (success : Bool) : Ledger (now + 1) (s.tick t success) := by
  have hcount := h.countdown
  rcases tick_cases t success s with
    ⟨hcur, hstep⟩ | ⟨a, -, -, hstep⟩ | ⟨a, hcur, hrem, -, hstep⟩ | ⟨a, hcur, hrem, -, hstep⟩
  · rw [hstep]
    exact hcount.startNext (by rw [countdown_of_none hcur]; exact hcur)
  · rw [hstep]
    exact hcount
  · have hlast := current_countdown_last hcur hrem
    rw [hstep]
    exact (hcount.complete hlast rfl).startNext rfl
  · have hlast := current_countdown_last hcur hrem
    rw [hstep]
    exact hcount.retry hlast rfl

theorem settled_startNext (hwork : ∀ a ∈ (startNext t s).current, 1 ≤ s.profile.work a.job) :
    Settled (startNext t s) := by
  rcases startNext_cases t s with ⟨line, j, rest, -, -, hnext⟩ | ⟨hex, hreg, hnext⟩
  · rw [hnext] at hwork ⊢
    have hj : 1 ≤ s.profile.work j := by simpa [begin] using hwork
    exact ⟨by simpa [begin] using hj, by simp [begin], by simp [begin]⟩
  · rw [hnext]
    exact ⟨by simp, by simp, fun _ => ⟨hex, hreg⟩⟩

/-- A tick settles the station again, whatever was admitted before it. -/
theorem settled_tick (success : Bool) (hpos : ∀ a ∈ s.current, 1 ≤ a.remaining)
    (hle : ∀ a ∈ s.current, a.remaining ≤ s.profile.work a.job)
    (hwork : ∀ a ∈ (s.tick t success).current, 1 ≤ s.profile.work a.job) :
    Settled (s.tick t success) := by
  rcases tick_cases t success s with
    ⟨hcur, hstep⟩ | ⟨a, hcur, hrem, hstep⟩ | ⟨a, hcur, hrem, -, hstep⟩ | ⟨a, hcur, hrem, -, hstep⟩
  · rw [hstep] at hwork ⊢
    exact settled_startNext (by simpa using hwork)
  · rw [hstep, countdown_of_some hcur]
    have hpos' := hpos a hcur
    have hle' := hle a hcur
    refine ⟨?_, ?_, by simp⟩
    · intro b hb
      obtain rfl := Option.mem_some_iff.mp hb
      dsimp only
      omega
    · intro b hb
      obtain rfl := Option.mem_some_iff.mp hb
      dsimp only
      omega
  · rw [hstep] at hwork ⊢
    exact settled_startNext (by simpa [Station.complete] using hwork)
  · rw [hstep] at hwork ⊢
    simp only [Station.retry, profile_countdown] at hwork ⊢
    have ha : 1 ≤ s.profile.work a.job := by simpa using hwork
    refine ⟨?_, ?_, by simp⟩
    · intro b hb
      obtain rfl := Option.mem_some_iff.mp hb
      exact ha
    · intro b hb
      obtain rfl := Option.mem_some_iff.mp hb
      exact le_refl _

variable {arrival : J → ℤ} {profile : Profile J} {n : ℕ}

theorem History.ledger (h : History arrival profile n s) : Ledger n s := by
  induction h with
  | start => exact Ledger.empty profile
  | tick incoming success _ _ _ ih =>
    push_cast
    exact (ih.receiveAll incoming).tick success

theorem History.settled (h : History arrival profile n s) : Settled s := by
  induction h with
  | start => exact ⟨by simp [empty], by simp [empty], fun _ => ⟨rfl, rfl⟩⟩
  | @tick n s incoming success hs _ hwork ih =>
    refine settled_tick success ?_ ?_ ?_
    · simpa using ih.remaining_pos
    · simpa using ih.remaining_le
    · simpa [hs.profile_eq] using hwork

section Pace

theorem Paced.empty (profile : Profile J) : Paced 0 (Station.empty profile) :=
  ⟨rfl, le_refl 0, le_refl 0, le_refl 0, by simp [Station.empty], by simp [Station.empty]⟩

theorem Paced.receiveAll (h : Paced now s) (incoming : Option J) :
    Paced now (s.receiveAll incoming) := by
  cases incoming with
  | none => exact h
  | some j =>
    exact ⟨by simpa [Station.receiveAll] using h.clock,
      by simpa [Station.receiveAll] using h.idle_nonneg,
      by simpa [Station.receiveAll] using h.failed_nonneg,
      by simpa [Station.receiveAll] using h.attempts_le,
      by simpa [Station.receiveAll] using h.remaining_le,
      by simpa [Station.receiveAll] using h.failures⟩

theorem Paced.elapsed_nonneg (h : Paced now s) :
    0 ≤ s.current.elim 0 fun a => s.profile.work a.job - a.remaining := by
  cases hcur : s.current with
  | none => exact le_refl 0
  | some a =>
    have hle := h.remaining_le a hcur
    simp only [Option.elim]
    omega

/-- The counters of the station are at most the clock. -/
theorem Paced.counters_le (h : Paced now s) :
    0 ≤ s.busy ∧ s.busy ≤ now ∧ s.idle ≤ now ∧ s.completed.length + s.failed ≤ now := by
  have hclock := h.clock
  have hidle := h.idle_nonneg
  have hfailed := h.failed_nonneg
  have hattempts := h.attempts_le
  have helapsed := h.elapsed_nonneg
  omega

/-- The attempt that ends now has taken a tick, so the others are fewer than the ticks. -/
theorem Paced.failed_lt (h : Paced now s) {a : Attempt J} (hcur : s.current = some a)
    (hdone : a.remaining = 0) (hwork : 1 ≤ s.profile.work a.job) :
    s.completed.length + s.failed < now := by
  have hclock := h.clock
  have hidle := h.idle_nonneg
  have hattempts := h.attempts_le
  rw [hcur] at hattempts
  simp only [Option.elim] at hattempts
  omega

theorem Paced.countdown (h : Paced now s) : Paced (now + 1) s.countdown := by
  have hclock := h.clock
  have hidle := h.idle_nonneg
  have hattempts := h.attempts_le
  cases hcur : s.current with
  | none =>
    rw [countdown_of_none hcur]
    rw [hcur] at hattempts
    refine ⟨by dsimp only; omega, by dsimp only; omega, h.failed_nonneg, ?_, ?_, ?_⟩
    · simpa [hcur] using hattempts
    · simp [hcur]
    · simp [hcur]
  | some a =>
    rw [countdown_of_some hcur]
    have hremaining := h.remaining_le a hcur
    rw [hcur] at hattempts
    simp only [Option.elim] at hattempts
    refine ⟨by dsimp only; omega, hidle, h.failed_nonneg, ?_, ?_, ?_⟩
    · simp only [Option.elim]
      omega
    · intro b hb
      obtain rfl := Option.mem_some_iff.mp hb
      dsimp only
      omega
    · intro b hb
      obtain rfl := Option.mem_some_iff.mp hb
      exact h.failures a hcur

theorem Paced.startNext (h : Paced now s) : Paced now (startNext t s) := by
  have hattempts := h.attempts_le
  have helapsed := h.elapsed_nonneg
  rcases startNext_cases t s with ⟨line, j, rest, -, -, hnext⟩ | ⟨-, -, hnext⟩
  · rw [hnext]
    refine ⟨by simpa [begin] using h.clock, by simpa [begin] using h.idle_nonneg,
      by simpa [begin] using h.failed_nonneg, ?_, by simp [begin],
      by simpa [begin] using h.failed_nonneg⟩
    simp only [begin, completed_setWaiting, failed_setWaiting, busy_setWaiting, Option.elim,
      profile_setWaiting]
    omega
  · rw [hnext]
    refine ⟨h.clock, h.idle_nonneg, h.failed_nonneg, ?_, by simp, by simp⟩
    simp only [Option.elim]
    omega

/-- A finished attempt has taken the work of its job, which is a tick at least. -/
theorem Paced.complete (h : Paced now s) {a : Attempt J} (hcur : s.current = some a)
    (hdone : a.remaining = 0) (hwork : 1 ≤ s.profile.work a.job) :
    Paced now (complete t a s) := by
  have hattempts := h.attempts_le
  rw [hcur] at hattempts
  simp only [Option.elim] at hattempts
  refine ⟨h.clock, h.idle_nonneg, h.failed_nonneg, ?_, by simp [Station.complete],
    by simp [Station.complete]⟩
  simp only [Station.complete, List.length_append, List.length_singleton, Option.elim]
  push_cast
  omega

theorem Paced.retry (h : Paced now s) {a : Attempt J} (hcur : s.current = some a)
    (hdone : a.remaining = 0) (hwork : 1 ≤ s.profile.work a.job) : Paced now (retry a s) := by
  have hattempts := h.attempts_le
  have hfailed := h.failed_nonneg
  obtain ⟨hnonneg, hle⟩ := h.failures a hcur
  rw [hcur] at hattempts
  simp only [Option.elim] at hattempts
  refine ⟨h.clock, h.idle_nonneg, ?_, ?_, by simp [Station.retry], ?_⟩
  · simp only [Station.retry]
    omega
  · simp only [Station.retry, Option.elim]
    omega
  · intro b hb
    obtain rfl := Option.mem_some_iff.mp hb
    simp only [Station.retry]
    omega

theorem Paced.tick (h : Paced now s) (hwork : ∀ a ∈ s.current, 1 ≤ s.profile.work a.job)
    (success : Bool) : Paced (now + 1) (s.tick t success) := by
  have hcount := h.countdown
  rcases tick_cases t success s with
    ⟨-, hstep⟩ | ⟨a, -, -, hstep⟩ | ⟨a, hcur, hrem, -, hstep⟩ | ⟨a, hcur, hrem, -, hstep⟩
  · rw [hstep]
    exact hcount.startNext
  · rw [hstep]
    exact hcount
  · rw [hstep]
    exact (hcount.complete (current_countdown_last hcur hrem) rfl
      (by simpa using hwork a hcur)).startNext
  · rw [hstep]
    exact hcount.retry (current_countdown_last hcur hrem) rfl (by simpa using hwork a hcur)

theorem History.worked (h : History arrival profile n s) :
    ∀ a ∈ s.current, 1 ≤ s.profile.work a.job := by
  cases h with
  | start => simp [Station.empty]
  | tick incoming success hs _ hwork => simpa [hs.profile_eq] using hwork

theorem History.paced (h : History arrival profile n s) : Paced n s := by
  induction h with
  | start => exact Paced.empty profile
  | tick incoming success hs _ _ ih =>
    push_cast
    exact (ih.receiveAll incoming).tick (by simpa using hs.worked) success

end Pace

end AcaBSim.Stations.Station
