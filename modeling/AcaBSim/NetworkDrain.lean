import AcaBSim.NetworkProgress
import Mathlib.Algebra.Order.BigOperators.Group.List

/-!
How long a network needs for its jobs. Once the door is empty, some station is
busy at every tick until all jobs are completed, and the busy ticks are no more
than the attempts at the jobs take; so the network is drained in time.
-/
namespace AcaBSim.Stations.Station

variable {J : Type} {s : Station J}

@[simp] theorem busy_startNext (t : ℤ) (s : Station J) : (startNext t s).busy = s.busy := by
  rcases startNext_cases t s with ⟨line, j, rest, -, -, hnext⟩ | ⟨-, -, hnext⟩ <;>
    simp [hnext, begin]

/-- A tick is busy if a service is in progress. -/
theorem busy_tick (t : ℤ) (success : Bool) (s : Station J) :
    (s.tick t success).busy = s.busy + if s.current.isSome then 1 else 0 := by
  rcases tick_cases t success s with
    ⟨hcur, hstep⟩ | ⟨a, hcur, -, hstep⟩ | ⟨a, hcur, -, -, hstep⟩ | ⟨a, hcur, -, -, hstep⟩
  · simp [hstep, countdown_of_none hcur, hcur]
  · simp [hstep, countdown_of_some hcur, hcur]
  · simp [hstep, countdown_of_some hcur, hcur, complete]
  · simp [hstep, countdown_of_some hcur, hcur, retry]

/-- The work that a station has been given, all attempts included. -/
def workload (failures : J → ℤ) (s : Station J) : ℤ :=
  (s.jobs.map fun j => (failures j + 1) * s.profile.work j).sum

theorem completed_time {failures : J → ℤ}
    (hcompleted : ∀ c ∈ s.completed, failures c.job = c.failures) :
    (s.completed.map fun c => (c.failures + 1) * s.profile.work c.job) =
      (s.completed.map Completed.job).map fun j => (failures j + 1) * s.profile.work j := by
  rw [List.map_map]
  exact List.map_congr_left fun c hc => by simp only [Function.comp, hcompleted c hc]

/-- Busy ticks are spent on started jobs, and a service in progress leaves some of its work. -/
theorem busy_le_started {now : ℤ} (failures : J → ℤ) (hledger : Ledger now s)
    (hsettled : Settled s) (hcompleted : ∀ c ∈ s.completed, failures c.job = c.failures)
    (hcurrent : ∀ a ∈ s.current, a.failures ≤ failures a.job) :
    s.busy + (if s.current.isSome then 1 else 0) ≤
      (s.started.map fun j => (failures j + 1) * s.profile.work j).sum := by
  have hbusy := hledger.busy_eq
  rw [completed_time hcompleted] at hbusy
  rw [started, List.map_append, List.sum_append]
  cases hcur : s.current with
  | none =>
    rw [hcur] at hbusy
    simp only [Option.elim] at hbusy
    simp only [Option.isSome_none, Bool.false_eq_true, if_false, Option.toList_none, List.map_nil,
      List.sum_nil]
    omega
  | some a =>
    have hpos := hsettled.remaining_pos a hcur
    have hwork := hsettled.remaining_le a hcur
    rw [hcur] at hbusy
    simp only [Option.elim] at hbusy
    have hattempts : (a.failures + 1) * s.profile.work a.job ≤
        (failures a.job + 1) * s.profile.work a.job :=
      Int.mul_le_mul_of_nonneg_right (Int.add_le_add_right (hcurrent a hcur) 1) (by omega)
    rw [add_mul, one_mul] at hattempts
    simp only [Option.isSome_some, if_true, Option.toList_some, List.map_singleton,
      List.sum_singleton]
    omega

theorem busy_le_workload {now : ℤ} (failures : J → ℤ) (hledger : Ledger now s)
    (hsettled : Settled s) (hcompleted : ∀ c ∈ s.completed, failures c.job = c.failures)
    (hcurrent : ∀ a ∈ s.current, a.failures ≤ failures a.job)
    (hwaiting : ∀ line, ∀ j ∈ s.waiting line, 0 ≤ (failures j + 1) * s.profile.work j) :
    s.busy + (if s.current.isSome then 1 else 0) ≤ s.workload failures := by
  have hlines : 0 ≤ ((s.express ++ s.regular).map fun j =>
      (failures j + 1) * s.profile.work j).sum := by
    refine List.sum_nonneg (List.forall_mem_map.mpr fun j hj => ?_)
    rcases List.mem_append.mp hj with hj | hj
    · exact hwaiting true j hj
    · exact hwaiting false j hj
  have hstarted := busy_le_started failures hledger hsettled hcompleted hcurrent
  rw [workload, jobs, List.append_assoc, List.map_append, List.sum_append]
  omega

end AcaBSim.Stations.Station

namespace AcaBSim.Networks.Network

open Stations

variable {J : Type} {P : Policy J} {t : ℤ} {N : Network J} {m n : ℕ}

/-- Nobody waits and nobody is served. -/
structure Drained (N : Network J) : Prop where
  door : N.door = []
  current : ∀ s ∈ N.stations, s.current = none
  lines : ∀ s ∈ N.stations, s.express = [] ∧ s.regular = []

def busySum (N : Network J) : ℤ := (N.stations.map Station.busy).sum

theorem receive_door_nil (h : N.door = []) : N.receive P t = N := by
  apply receive_of_none
  simp [arriving, h]

theorem incoming_door_nil (h : N.door = []) (i : ℕ) : N.incoming P t i = none := by
  simp [incoming, arriving, h]

theorem Drained.tick (h : Drained N) : Drained (N.tick P t) := by
  have hstation : ∀ s' ∈ (N.tick P t).stations,
      s'.current = none ∧ s'.express = [] ∧ s'.regular = [] := by
    intro s' hs'
    obtain ⟨i, hi⟩ := List.mem_iff_getElem?.mp hs'
    obtain ⟨s, k, hs, rfl⟩ := exists_before hi
    have hmem := List.mem_of_getElem? hs
    obtain ⟨hex, hreg⟩ := h.lines s hmem
    have hcur := h.current s hmem
    have hstep : ∀ success, s.tick t success = { s with idle := s.idle + 1 } := by
      intro success
      rw [Station.tick_of_idle t hcur, Station.countdown_of_none hcur]
      simp only [Station.startNext, hex, hreg, hcur]
    rw [incoming_door_nil h.door, Station.receiveAll, Option.elim, hstep]
    exact ⟨hcur, hex, hreg⟩
  refine ⟨?_, fun s hs => (hstation s hs).1, fun s hs => (hstation s hs).2⟩
  rw [door_tick, receive_door_nil h.door]
  exact h.door

theorem busy_tick_eq : (N.tick P t).stations.map Station.busy =
    N.stations.map fun s => s.busy + if s.current.isSome then 1 else 0 := by
  apply List.ext_getElem?
  intro i
  cases hs : N.stations[i]? with
  | none =>
    have hlen : (N.tick P t).stations[i]? = none := by
      rw [List.getElem?_eq_none_iff] at hs ⊢
      simpa using hs
    simp [hs, hlen]
  | some s =>
    obtain ⟨k, hk⟩ := tick_getElem? (P := P) (t := t) hs
    rw [List.getElem?_map, List.getElem?_map, hk, hs, Option.map_some, Option.map_some,
      Station.busy_tick, Station.current_receiveAll]
    cases N.incoming P t i <;> simp [Station.receiveAll]

theorem active_nonneg (l : List (Station J)) :
    0 ≤ (l.map fun s => if s.current.isSome then (1 : ℤ) else 0).sum := by
  refine List.sum_nonneg (List.forall_mem_map.mpr fun s _ => ?_)
  split <;> decide

theorem one_le_active {l : List (Station J)} {s : Station J} (hs : s ∈ l)
    (hcur : s.current.isSome) :
    1 ≤ (l.map fun s => if s.current.isSome then (1 : ℤ) else 0).sum := by
  obtain ⟨l₁, l₂, rfl⟩ := List.append_of_mem hs
  have h₁ := active_nonneg l₁
  have h₂ := active_nonneg l₂
  rw [List.map_append, List.sum_append, List.map_cons, List.sum_cons, if_pos hcur]
  omega

theorem busySum_tick : (N.tick P t).busySum =
    N.busySum + (N.stations.map fun s => if s.current.isSome then (1 : ℤ) else 0).sum := by
  rw [busySum, busy_tick_eq, busySum, List.sum_map_add]

/-- With an empty door, a station is busy unless all jobs are completed. -/
theorem exists_active (hdoor : N.door = []) (hsettled : ∀ s ∈ N.stations, s.Settled)
    (h : ¬ Drained N) : ∃ s ∈ N.stations, s.current.isSome := by
  by_contra hidle
  push Not at hidle
  have hcur : ∀ s ∈ N.stations, s.current = none := fun s hs => by simpa using hidle s hs
  exact h ⟨hdoor, hcur, fun s hs => (hsettled s hs).idle_empty (hcur s hs)⟩

theorem door_nil_run (hdoor : (N.run P m).door = []) (hmn : m ≤ n) : (N.run P n).door = [] := by
  induction n, hmn using Nat.le_induction with
  | base => exact hdoor
  | succ n _ ih =>
    rw [run, door_tick, receive_door_nil ih]
    exact ih

/-- No tick is wasted between the time when the door is empty and the end of all work. -/
theorem busy_until_drained (hdoor : (N.run P m).door = [])
    (hsettled : ∀ k, m ≤ k → k ≤ n → ∀ s ∈ (N.run P k).stations, s.Settled) (hmn : m ≤ n)
    (h : ¬ Drained (N.run P n)) :
    (N.run P m).busySum + (n - m : ℤ) ≤ (N.run P n).busySum := by
  induction n, hmn using Nat.le_induction with
  | base => simp
  | succ n hmn ih =>
    have hbefore : ¬ Drained (N.run P n) := fun hdrained => h hdrained.tick
    have hrest := ih (fun k hmk hkn => hsettled k hmk (hkn.trans (Nat.le_succ n))) hbefore
    obtain ⟨s, hs, hcur⟩ := exists_active (door_nil_run hdoor hmn)
      (hsettled n hmn (Nat.le_succ n)) hbefore
    have hone := one_le_active hs hcur
    rw [run, busySum_tick]
    push_cast
    omega

end AcaBSim.Networks.Network
