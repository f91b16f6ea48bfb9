import AcaBSim.StationLedger

/-!
The ticks that the jobs of a station have waited. A job joins its line with no
ticks and leaves it with those it has waited, so a tick that passes adds the
lengths of the lines.
-/
namespace AcaBSim.Stations

variable {J : Type}

namespace Station

def lineLength (s : Station J) : ℕ := s.express.length + s.regular.length

/-- The ticks that jobs have waited by `now`: to the start of their service, or till now. -/
def waited (arrival : J → ℤ) (now : ℤ) (s : Station J) : ℤ :=
  (s.completed.map fun c => c.start - arrival c.job).sum +
    s.current.elim 0 (fun a => a.start - arrival a.job) +
    ((s.express ++ s.regular).map fun j => now - arrival j).sum

variable {arrival : J → ℤ} {now t : ℤ} {s : Station J}

theorem sum_receive (f : J → ℤ) (s : Station J) (j : J) :
    (((s.receive j).express ++ (s.receive j).regular).map f).sum =
      ((s.express ++ s.regular).map f).sum + f j := by
  cases hline : s.profile.express j with
  | true =>
    simp only [receive, setWaiting, hline, if_true, waiting_true, List.map_append, List.sum_append,
      List.map_singleton, List.sum_singleton]
    ring
  | false =>
    simp only [receive, setWaiting, hline, Bool.false_eq_true, if_false, waiting_false,
      List.map_append, List.sum_append, List.map_singleton, List.sum_singleton]
    ring

/-- A job that arrives now has not waited yet. -/
theorem waited_receiveAll {incoming : Option J} (h : ∀ j ∈ incoming, arrival j = now) :
    waited arrival now (s.receiveAll incoming) = waited arrival now s := by
  cases incoming with
  | none => rfl
  | some j =>
    have hj : arrival j = now := h j rfl
    simp only [receiveAll, Option.elim, waited, completed_receive, current_receive]
    rw [sum_receive, hj, sub_self, add_zero]

theorem waited_countdown : waited arrival now s.countdown = waited arrival now s := by
  have hex : s.countdown.express = s.express := waiting_countdown s true
  have hreg : s.countdown.regular = s.regular := waiting_countdown s false
  rw [waited, waited, hex, hreg, completed_countdown]
  cases hcur : s.current with
  | none => rw [countdown_of_none hcur, hcur]
  | some a =>
    rw [countdown_of_some hcur]
    rfl

/-- The job that starts now leaves its line with the ticks that it has waited. -/
theorem waited_startNext (hidle : s.current = none) :
    waited arrival t (startNext t s) = waited arrival t s := by
  obtain ⟨line, j, rest, hline, -, hnext⟩ | ⟨-, -, hnext⟩ := startNext_cases t s
  · rw [hnext]
    simp only [waited, begin, completed_setWaiting, hidle, Option.elim, add_zero]
    cases line with
    | true =>
      have hex : s.express = j :: rest := hline
      rw [hex]
      simp only [setWaiting, if_true, List.cons_append, List.map_cons, List.sum_cons]
      ring
    | false =>
      have hreg : s.regular = j :: rest := hline
      rw [hreg]
      simp only [setWaiting, Bool.false_eq_true, if_false, List.map_append, List.sum_append,
        List.map_cons, List.sum_cons]
      ring
  · rw [hnext, waited, waited, hidle]

theorem waited_complete {a b : Attempt J} (hcur : s.current = some b) (hjob : a.job = b.job)
    (hstart : a.start = b.start) :
    waited arrival now (complete t a s) = waited arrival now s := by
  simp only [waited, complete, hcur, List.map_append, List.map_singleton, List.sum_append,
    List.sum_singleton, Option.elim, hjob, hstart, add_zero]

theorem waited_retry {a b : Attempt J} (hcur : s.current = some b) (hjob : a.job = b.job)
    (hstart : a.start = b.start) : waited arrival now (retry a s) = waited arrival now s := by
  simp only [waited, retry, hcur, Option.elim, hjob, hstart]

theorem waited_tick (success : Bool) :
    waited arrival t (s.tick t success) = waited arrival t s := by
  obtain ⟨hcur, hstep⟩ | ⟨a, -, -, hstep⟩ | ⟨a, hcur, hrem, -, hstep⟩ | ⟨a, hcur, hrem, -, hstep⟩ :=
    tick_cases t success s
  · rw [hstep, waited_startNext (by rw [countdown_of_none hcur]; exact hcur), waited_countdown]
  · rw [hstep, waited_countdown]
  · rw [hstep, waited_startNext rfl,
      waited_complete (current_countdown_last hcur hrem) rfl rfl, waited_countdown]
  · rw [hstep, waited_retry (current_countdown_last hcur hrem) rfl rfl, waited_countdown]

/-- A tick that passes is one more for every job in a line. -/
theorem waited_succ (s : Station J) :
    waited arrival (now + 1) s = waited arrival now s + s.lineLength := by
  have hline : ∀ l : List J, (l.map fun j => now + 1 - arrival j).sum =
      (l.map fun j => now - arrival j).sum + l.length := by
    intro l
    induction l with
    | nil => rfl
    | cons j l ih =>
      rw [List.map_cons, List.sum_cons, ih, List.map_cons, List.sum_cons, List.length_cons]
      push_cast
      ring
  rw [waited, waited, hline, lineLength, List.length_append, ← add_assoc]

end Station

end AcaBSim.Stations
