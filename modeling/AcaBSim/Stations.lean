import Mathlib.Data.List.Basic
import Mathlib.Tactic.Common
import Mathlib.Data.Rat.Defs
import Mathlib.Algebra.Order.Group.Int

/-!
A service station in discrete time: two waiting lines, one server that takes
the express line first and never interrupts a service, and attempts that may
fail and are then repeated at once. Jobs are of an arbitrary type; a station
knows the work of a job and whether it belongs to the express line. With no
express jobs this is a first-in first-out server.
-/
namespace AcaBSim.Stations

structure Profile (J : Type) where
  work : J → ℤ
  express : J → Bool
  errorProb : ℚ

/-- A service in progress: `remaining` ticks of the present attempt are left. -/
structure Attempt (J : Type) where
  job : J
  start : ℤ
  failures : ℤ
  remaining : ℤ

structure Completed (J : Type) where
  job : J
  start : ℤ
  failures : ℤ
  finish : ℤ

structure Station (J : Type) where
  profile : Profile J
  express : List J
  regular : List J
  current : Option (Attempt J)
  completed : List (Completed J)
  busy : ℤ
  idle : ℤ
  failed : ℤ

variable {J : Type}

namespace Station

def empty (profile : Profile J) : Station J := ⟨profile, [], [], none, [], 0, 0, 0⟩

/-- The express line or the regular one. -/
def waiting (line : Bool) (s : Station J) : List J :=
  if line then s.express else s.regular

def setWaiting (line : Bool) (l : List J) (s : Station J) : Station J :=
  if line then { s with express := l } else { s with regular := l }

def receive (j : J) (s : Station J) : Station J :=
  s.setWaiting (s.profile.express j) (s.waiting (s.profile.express j) ++ [j])

def receiveAll (incoming : Option J) (s : Station J) : Station J :=
  incoming.elim s fun j => s.receive j

/-- One tick of work or of idleness. -/
def countdown (s : Station J) : Station J :=
  match s.current with
  | some a => { s with current := some { a with remaining := a.remaining - 1 }, busy := s.busy + 1 }
  | none => { s with idle := s.idle + 1 }

def begin (t : ℤ) (j : J) (s : Station J) : Station J :=
  { s with current := some ⟨j, t, 0, s.profile.work j⟩ }

def startNext (t : ℤ) (s : Station J) : Station J :=
  match s.express, s.regular with
  | j :: rest, _ => begin t j (s.setWaiting true rest)
  | [], j :: rest => begin t j (s.setWaiting false rest)
  | [], [] => { s with current := none }

def complete (t : ℤ) (a : Attempt J) (s : Station J) : Station J :=
  { s with current := none, completed := s.completed ++ [⟨a.job, a.start, a.failures, t⟩] }

def retry (a : Attempt J) (s : Station J) : Station J :=
  { s with
    current := some { a with failures := a.failures + 1, remaining := s.profile.work a.job }
    failed := s.failed + 1 }

/-- What happens at time `t` once the tick is counted; `success` is the outcome
of an attempt that ends now. -/
def serve (t : ℤ) (success : Bool) (s : Station J) : Station J :=
  match s.current with
  | none => startNext t s
  | some a =>
    if a.remaining = 0 then
      if success then startNext t (complete t a s) else retry a s
    else s

def tick (t : ℤ) (success : Bool) (s : Station J) : Station J := serve t success s.countdown

/-- An outcome is needed: the attempt in progress has no work left. -/
def asks (s : Station J) : Bool := s.current.any fun a => a.remaining == 0

def started (s : Station J) : List J :=
  s.completed.map Completed.job ++ s.current.toList.map Attempt.job

def jobs (s : Station J) : List J := s.started ++ s.express ++ s.regular

section Frame

variable (t : ℤ) (s : Station J) (line : Bool) (l : List J) (j : J)

@[simp] theorem waiting_true : s.waiting true = s.express := rfl

@[simp] theorem waiting_false : s.waiting false = s.regular := rfl

theorem mem_jobs_of_mem_waiting {s : Station J} {line : Bool} {j : J} (h : j ∈ s.waiting line) :
    j ∈ s.jobs := by
  cases line with
  | true => simp [jobs, show j ∈ s.express from h]
  | false => simp [jobs, show j ∈ s.regular from h]

theorem mem_jobs_of_current {s : Station J} {a : Attempt J} (h : s.current = some a) :
    a.job ∈ s.jobs := by
  simp [jobs, started, h]

@[simp] theorem waiting_setWaiting : (s.setWaiting line l).waiting line = l := by
  cases line <;> rfl

theorem waiting_setWaiting_of_ne {line other : Bool} (h : other ≠ line) :
    (s.setWaiting line l).waiting other = s.waiting other := by
  cases line <;> cases other <;> first | rfl | exact absurd rfl h

@[simp] theorem profile_setWaiting : (s.setWaiting line l).profile = s.profile := by
  cases line <;> rfl

@[simp] theorem current_setWaiting : (s.setWaiting line l).current = s.current := by
  cases line <;> rfl

@[simp] theorem completed_setWaiting : (s.setWaiting line l).completed = s.completed := by
  cases line <;> rfl

@[simp] theorem busy_setWaiting : (s.setWaiting line l).busy = s.busy := by
  cases line <;> rfl

@[simp] theorem idle_setWaiting : (s.setWaiting line l).idle = s.idle := by
  cases line <;> rfl

@[simp] theorem failed_setWaiting : (s.setWaiting line l).failed = s.failed := by
  cases line <;> rfl

@[simp] theorem profile_receive : (s.receive j).profile = s.profile := by simp [receive]

@[simp] theorem current_receive : (s.receive j).current = s.current := by simp [receive]

@[simp] theorem completed_receive : (s.receive j).completed = s.completed := by simp [receive]

@[simp] theorem busy_receive : (s.receive j).busy = s.busy := by simp [receive]

@[simp] theorem idle_receive : (s.receive j).idle = s.idle := by simp [receive]

@[simp] theorem failed_receive : (s.receive j).failed = s.failed := by simp [receive]

@[simp] theorem profile_receiveAll (incoming : Option J) :
    (s.receiveAll incoming).profile = s.profile := by
  cases incoming <;> simp [receiveAll]

@[simp] theorem current_receiveAll (incoming : Option J) :
    (s.receiveAll incoming).current = s.current := by
  cases incoming <;> simp [receiveAll]

@[simp] theorem completed_receiveAll (incoming : Option J) :
    (s.receiveAll incoming).completed = s.completed := by
  cases incoming <;> simp [receiveAll]

@[simp] theorem profile_countdown : s.countdown.profile = s.profile := by
  unfold countdown
  split <;> rfl

@[simp] theorem waiting_countdown : s.countdown.waiting line = s.waiting line := by
  unfold countdown
  split <;> rfl

@[simp] theorem completed_countdown : s.countdown.completed = s.completed := by
  unfold countdown
  split <;> rfl

@[simp] theorem started_setWaiting : (s.setWaiting line l).started = s.started := by
  simp [started]

@[simp] theorem started_receive : (s.receive j).started = s.started := by simp [receive]

end Frame

theorem countdown_of_none {s : Station J} (h : s.current = none) :
    s.countdown = { s with idle := s.idle + 1 } := by
  simp only [countdown, h]

theorem countdown_of_some {s : Station J} {a : Attempt J} (h : s.current = some a) :
    s.countdown =
      { s with current := some { a with remaining := a.remaining - 1 }, busy := s.busy + 1 } := by
  simp only [countdown, h]

@[simp] theorem started_countdown (s : Station J) : s.countdown.started = s.started := by
  cases hcur : s.current with
  | none => simp [countdown_of_none hcur, started, hcur]
  | some a => simp [countdown_of_some hcur, started, hcur]

/-- After its last countdown, the attempt in progress has nothing left. -/
theorem current_countdown_last {s : Station J} {a : Attempt J} (hcur : s.current = some a)
    (hrem : a.remaining = 1) : s.countdown.current = some { a with remaining := 0 } := by
  simp [countdown_of_some hcur, hrem]

section Tick

variable (t : ℤ) {s : Station J} {a : Attempt J}

theorem tick_of_idle (hcur : s.current = none) (success : Bool) :
    s.tick t success = startNext t s.countdown := by
  simp [tick, serve, countdown_of_none hcur, hcur]

theorem tick_of_running (hcur : s.current = some a) (hrem : a.remaining ≠ 1) (success : Bool) :
    s.tick t success = s.countdown := by
  have hne : a.remaining - 1 ≠ 0 := by omega
  simp [tick, serve, countdown_of_some hcur, hne]

theorem tick_of_success (hcur : s.current = some a) (hrem : a.remaining = 1) :
    s.tick t true = startNext t (complete t { a with remaining := 0 } s.countdown) := by
  simp [tick, serve, current_countdown_last hcur hrem]

theorem tick_of_failure (hcur : s.current = some a) (hrem : a.remaining = 1) :
    s.tick t false = retry { a with remaining := 0 } s.countdown := by
  simp [tick, serve, current_countdown_last hcur hrem]

end Tick

/-- Every way a tick can go, from the current attempt and its outcome. -/
theorem tick_cases (t : ℤ) (success : Bool) (s : Station J) :
    (s.current = none ∧ s.tick t success = startNext t s.countdown) ∨
    (∃ a, s.current = some a ∧ a.remaining ≠ 1 ∧ s.tick t success = s.countdown) ∨
    (∃ a, s.current = some a ∧ a.remaining = 1 ∧ success = true ∧
      s.tick t success = startNext t (complete t { a with remaining := 0 } s.countdown)) ∨
    (∃ a, s.current = some a ∧ a.remaining = 1 ∧ success = false ∧
      s.tick t success = retry { a with remaining := 0 } s.countdown) := by
  cases hcur : s.current with
  | none => exact Or.inl ⟨rfl, tick_of_idle t hcur success⟩
  | some a =>
    apply Or.inr
    by_cases hrem : a.remaining = 1
    · cases success with
      | true => exact Or.inr (Or.inl ⟨a, rfl, hrem, rfl, tick_of_success t hcur hrem⟩)
      | false => exact Or.inr (Or.inr ⟨a, rfl, hrem, rfl, tick_of_failure t hcur hrem⟩)
    · exact Or.inl ⟨a, rfl, hrem, tick_of_running t hcur hrem success⟩

/-- Every way the next service can start. -/
theorem startNext_cases (t : ℤ) (s : Station J) :
    (∃ line j rest, s.waiting line = j :: rest ∧ (line = false → s.express = []) ∧
      startNext t s = begin t j (s.setWaiting line rest)) ∨
    (s.express = [] ∧ s.regular = [] ∧ startNext t s = { s with current := none }) := by
  cases hex : s.express with
  | cons j rest =>
    exact Or.inl ⟨true, j, rest, hex, by simp, by simp only [startNext, hex]⟩
  | nil =>
    cases hreg : s.regular with
    | cons j rest =>
      exact Or.inl ⟨false, j, rest, hreg, fun _ => rfl, by simp only [startNext, hex, hreg]⟩
    | nil => exact Or.inr ⟨rfl, rfl, by simp only [startNext, hex, hreg]⟩

@[simp] theorem profile_startNext (t : ℤ) (s : Station J) :
    (startNext t s).profile = s.profile := by
  rcases startNext_cases t s with ⟨line, j, rest, -, -, hnext⟩ | ⟨-, -, hnext⟩ <;>
    simp [hnext, begin]

@[simp] theorem completed_startNext (t : ℤ) (s : Station J) :
    (startNext t s).completed = s.completed := by
  rcases startNext_cases t s with ⟨line, j, rest, -, -, hnext⟩ | ⟨-, -, hnext⟩ <;>
    simp [hnext, begin]

@[simp] theorem profile_tick (t : ℤ) (success : Bool) (s : Station J) :
    (s.tick t success).profile = s.profile := by
  rcases tick_cases t success s with
    ⟨-, hstep⟩ | ⟨a, -, -, hstep⟩ | ⟨a, -, -, -, hstep⟩ | ⟨a, -, -, -, hstep⟩ <;>
    simp [hstep, complete, retry]

theorem started_begin {s : Station J} (hidle : s.current = none) (t : ℤ) (j : J) :
    (begin t j s).started = s.started ++ [j] := by
  simp [started, begin, hidle]

theorem started_complete {s : Station J} {a b : Attempt J} (hcur : s.current = some b)
    (hjob : a.job = b.job) (t : ℤ) : (complete t a s).started = s.started := by
  simp [started, complete, hcur, hjob]

theorem started_retry {s : Station J} {a b : Attempt J} (hcur : s.current = some b)
    (hjob : a.job = b.job) : (retry a s).started = s.started := by
  simp [started, retry, hcur, hjob]

theorem jobs_receive (j : J) (s : Station J) : (s.receive j).jobs.Perm (j :: s.jobs) := by
  cases hline : s.profile.express j with
  | true =>
    have hmove : (s.started ++ s.express ++ j :: s.regular).Perm (j :: s.jobs) := List.perm_middle
    simp only [receive, hline, setWaiting, jobs, started, waiting_true, if_true] at hmove ⊢
    simpa [List.append_assoc] using hmove
  | false =>
    have hmove : (s.jobs ++ [j]).Perm (j :: (s.jobs ++ [])) := List.perm_middle
    simp only [receive, hline, setWaiting, jobs, started, waiting_false] at hmove ⊢
    simpa [List.append_assoc] using hmove

/-- With no repetitions, the job in service is in no line and not completed. -/
theorem current_separate {s : Station J} {a : Attempt J} (hcur : s.current = some a)
    (hnodup : s.jobs.Nodup) :
    (∀ line, a.job ∉ s.waiting line) ∧ a.job ∉ s.completed.map Completed.job := by
  simp only [jobs, started, hcur, Option.toList_some, List.map_cons, List.map_nil,
    List.append_assoc, List.singleton_append] at hnodup
  obtain ⟨-, hrest, hseparate⟩ := List.nodup_append.mp hnodup
  rw [List.cons_append, List.nodup_cons, List.mem_append, not_or] at hrest
  obtain ⟨hhead, -⟩ := hrest
  refine ⟨fun line => ?_, fun hmem => hseparate _ hmem _ (by simp) rfl⟩
  cases line with
  | true => exact hhead.1
  | false => exact hhead.2

theorem jobs_startNext {s : Station J} (hidle : s.current = none) (t : ℤ) :
    (startNext t s).jobs.Perm s.jobs := by
  rcases startNext_cases t s with ⟨line, j, rest, hline, -, hnext⟩ | ⟨-, -, hnext⟩
  · have hstarted : (begin t j (s.setWaiting line rest)).started = s.started ++ [j] := by
      rw [started_begin (by simpa using hidle), started_setWaiting]
    rw [hnext, jobs, hstarted]
    cases line with
    | true =>
      have hex : s.express = j :: rest := hline
      simp [jobs, begin, setWaiting, hex]
    | false =>
      have hreg : s.regular = j :: rest := hline
      have hmove : (s.express ++ j :: rest).Perm (j :: (s.express ++ rest)) := List.perm_middle
      simpa [jobs, begin, setWaiting, hreg] using hmove.symm.append_left s.started
  · rw [hnext]
    simp [jobs, started, hidle]

@[simp] theorem jobs_countdown (s : Station J) : s.countdown.jobs = s.jobs := by
  have hex := waiting_countdown s true
  have hreg := waiting_countdown s false
  simp only [waiting_true, waiting_false] at hex hreg
  simp [jobs, hex, hreg]

theorem jobs_serve (t : ℤ) (success : Bool) (s : Station J) :
    (s.serve t success).jobs.Perm s.jobs := by
  cases hcur : s.current with
  | none =>
    simp only [serve, hcur]
    exact jobs_startNext hcur t
  | some a =>
    simp only [serve, hcur]
    split
    · split
      · refine (jobs_startNext rfl t).trans (List.Perm.of_eq ?_)
        rw [jobs, started_complete hcur rfl]
        rfl
      · rw [jobs, started_retry hcur rfl]
        rfl
    · exact List.Perm.refl _

theorem jobs_tick (t : ℤ) (success : Bool) (s : Station J) :
    (s.tick t success).jobs.Perm s.jobs := by
  have hserve := jobs_serve t success s.countdown
  rwa [jobs_countdown] at hserve

theorem mem_completed_tick {s : Station J} {c : Completed J} (h : c ∈ s.completed)
    (t : ℤ) (success : Bool) : c ∈ (s.tick t success).completed := by
  rcases tick_cases t success s with
    ⟨-, hstep⟩ | ⟨a, -, -, hstep⟩ | ⟨a, -, -, -, hstep⟩ | ⟨a, -, -, -, hstep⟩ <;>
    simp [hstep, complete, retry, h]

/-- The states a station can be in at time `n`, one tick after another, where
`arrival` gives the tick at which each job is admitted. A service is started
only on a job with work. -/
inductive History (arrival : J → ℤ) (profile : Profile J) : ℕ → Station J → Prop
  | start : History arrival profile 0 (empty profile)
  | tick {n : ℕ} {s : Station J} (incoming : Option J) (success : Bool) :
      History arrival profile n s → (∀ j ∈ incoming, arrival j = n) →
      (∀ a ∈ ((s.receiveAll incoming).tick n success).current, 1 ≤ profile.work a.job) →
      History arrival profile (n + 1) ((s.receiveAll incoming).tick n success)

theorem History.profile_eq {arrival : J → ℤ} {profile : Profile J} {n : ℕ} {s : Station J}
    (h : History arrival profile n s) : s.profile = profile := by
  induction h with
  | start => rfl
  | tick incoming success _ _ _ ih => simpa using ih

end Station

end AcaBSim.Stations
