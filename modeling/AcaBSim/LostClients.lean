import AcaBSim.ServiceAssertions
import AcaBSim.VisitEffects
import AcaBSim.QueueGrowth

/-!
What becomes of a client when `queue_push` is refused the memory for it. The
value of the push is ignored on the path of a client, both by the assignment,
which reports success all the same, and by the finaliser, which counts a served
client that no queue holds.
-/
namespace AcaBSim.LostClients

open Machine ArrayQueue Clients Servers Systems Outcome Scenarios ServiceAssertions QueueGrowth
  Visits VisitEffects

variable {k : ServerType}

/-- The queue that `server_assign_client` pushes a client of the type to. -/
def targetQueue : Server k → DisabilityType → Queue ClientPtr
  | .standard s, _ => s.clientQueue
  | .robotic s, d => if d = .noDisability then s.normalClientQueue else s.disableClientQueue

/-- The server after its target queue has become `q`. -/
def withTarget (q : Queue ClientPtr) : Server k → DisabilityType → Server k
  | .standard s, _ => .standard { s with clientQueue := q }
  | .robotic s, d =>
    if d = .noDisability then .robotic { s with normalClientQueue := q }
    else .robotic { s with disableClientQueue := q }

/-- The client has joined the back of one waiting queue; the others are as they were. -/
def Appended (p : ClientPtr) (s s' : Server k) : Prop :=
  ∃ i < (waitingQueues s).length,
    (waitingQueues s').map contents = ((waitingQueues s).map contents).modify i (· ++ [p])

/-- `server_assign_client` returns 0 just if it has appended the client, and
another value only if it has changed no queue. -/
def AssignReports (env : Env) (s : Server k) (p : ClientPtr) (w : World) : Prop :=
  Returns (serverAssignClient env s p) w fun r _ =>
    (r.1 = 0 ↔ Appended p s r.2) ∧
    (r.1 ≠ 0 → waitingQueues r.2 = waitingQueues s ∧
      r.2.base.finishedClientsQueue = s.base.finishedClientsQueue)

/-- `server_finalize_current_client` counts and clears a client only if it has
appended the client, so the count stays that of the queue. -/
def FinalizeKeeps (env : Env) (s : Server k) (p : ClientPtr) (w : World) : Prop :=
  Returns (serverFinalizeCurrentClient env s) w fun r _ =>
    (r.2.base.stat.clientServed ≠ s.base.stat.clientServed ∨
      r.2.base.currentClient ≠ s.base.currentClient →
        finishedClients r.2 = finishedClients s ++ [p]) ∧
    (s.base.stat.clientServed = (finishedClients s).length →
      r.2.base.stat.clientServed = (finishedClients r.2).length)

/-- The count of served clients can go up by one within `int`. -/
def CountFits (s : Server k) : Prop :=
  intMin ≤ s.base.stat.clientServed + 1 ∧ s.base.stat.clientServed + 1 ≤ intMax

/-- All queues of the server are in the states that pushes and pops produce. -/
structure QueuesInRange (s : Server k) : Prop where
  waiting : ∀ q ∈ waitingQueues s, InRange q
  finished : InRange s.base.finishedClientsQueue

/-- The finished queue can take the client, if the visit finalizes one. -/
def FinalizesWithRoom (env : Env) (s : AnyServer) (w : World) : Prop :=
  serverIsServiceFinished s.2 = true →
    Ensures (fun _ => True) (serverIsServiceSuccessful env s.2) w fun successful w' =>
      successful = true → HasRoom (env.granted w'.requests) s.2.base.finishedClientsQueue

/-- The books count the clients of the finished queue. -/
def Counts (b : BaseServer) : Prop :=
  InRange b.finishedClientsQueue ∧
    b.stat.clientServed = (contents b.finishedClientsQueue).length

variable {env : Env} {w : World} {s : Server k} {p : ClientPtr}

theorem targetQueue_mem (s : Server k) (d : DisabilityType) :
    targetQueue s d ∈ waitingQueues s := by
  cases s with
  | standard s => simp [targetQueue, waitingQueues]
  | robotic s =>
    simp only [targetQueue, waitingQueues]
    split <;> simp

theorem not_appended {s' : Server k}
    (hsame : (waitingQueues s').map contents = (waitingQueues s).map contents) :
    ¬ Appended p s s' := by
  intro happended
  obtain ⟨i, hi, hmodify⟩ := happended
  rw [hsame] at hmodify
  have hcell := congrArg (·[i]?) hmodify
  simp [hi] at hcell

theorem withTarget_self (s : Server k) (d : DisabilityType) :
    withTarget (targetQueue s d) s d = s := by
  cases s with
  | standard s => rfl
  | robotic s =>
    simp only [withTarget, targetQueue]
    split <;> rfl

theorem appended_withTarget {d : DisabilityType} {q : Queue ClientPtr}
    (hq : contents q = contents (targetQueue s d) ++ [p]) : Appended p s (withTarget q s d) := by
  cases s with
  | standard s =>
    exact ⟨0, by simp [waitingQueues], by simp_all [waitingQueues, withTarget, targetQueue]⟩
  | robotic s =>
    by_cases hd : d = .noDisability
    · simp only [targetQueue, if_pos hd] at hq
      exact ⟨1, by simp [waitingQueues], by simp [waitingQueues, withTarget, hd, hq]⟩
    · simp only [targetQueue, if_neg hd] at hq
      exact ⟨0, by simp [waitingQueues], by simp [waitingQueues, withTarget, hd, hq]⟩

/-- The call is one push to the target queue, whose value is dropped. -/
theorem ensures_serverAssignClient {tol : Fault → Prop} {Q : ℤ × Server k → World → Prop} :
    Ensures tol (serverAssignClient env s p) w Q ↔
      Ensures tol (liftM (queuePush (env.granted w.requests)
        (targetQueue s (w.heap p).disabilityType) (some p)) : Prog (Bool × Queue ClientPtr))
        { w with requests := w.requests + 1 } fun r w' =>
          Q (0, withTarget r.2 s (w.heap p).disabilityType) w' := by
  cases s with
  | standard s =>
    simp only [serverAssignClient, assignClientToStandardServer, ensures_bind,
      ensures_nextGranted, ensures_pure, targetQueue, withTarget]
  | robotic s =>
    simp only [serverAssignClient, assignClientToRoboticServer, ensures_bind, ensures_readClient,
      targetQueue, withTarget]
    split <;> simp only [ensures_bind, ensures_nextGranted, ensures_pure]

/-- The report of the assignment is true just if its queue has room. -/
theorem assignReports_iff (h : InRange (targetQueue s (w.heap p).disabilityType)) :
    AssignReports env s p w ↔
      HasRoom (env.granted w.requests) (targetQueue s (w.heap p).disabilityType) := by
  rw [AssignReports, returns_iff, ensures_serverAssignClient]
  rcases h.push_cases (env.granted w.requests) p with
    ⟨hroom, q, hpush, -, hcontents⟩ | ⟨hfull, hpush | hpush⟩
  · rw [hpush, ensures_lift_ok]
    refine iff_of_true ⟨iff_of_true rfl (appended_withTarget hcontents), ?_⟩ hroom
    intro hne
    exact absurd rfl hne
  · rw [hpush, ensures_lift_ok, withTarget_self]
    exact iff_of_false (fun hreports => not_appended rfl (hreports.1.mp rfl)) hfull
  · rw [hpush, ensures_lift_error]
    exact iff_of_false not_false hfull

/-- The finaliser keeps count just if the finished queue has room. -/
theorem finalizeKeeps_iff (h : InRange s.base.finishedClientsQueue)
    (hcur : s.base.currentClient = some p) :
    FinalizeKeeps env s p w ↔
      CountFits s ∧ HasRoom (env.granted w.requests) s.base.finishedClientsQueue := by
  rw [FinalizeKeeps, returns_iff]
  simp only [serverFinalizeCurrentClient, ensures_bind, hcur]
  by_cases hfits : CountFits s
  · rw [checkInt_ok hfits, ensures_lift_ok, ensures_nextGranted]
    rcases h.push_cases (env.granted w.requests) p with
      ⟨hroom, q, hpush, -, hcontents⟩ | ⟨hfull, hpush | hpush⟩
    · rw [hpush, ensures_lift_ok, ensures_pure]
      refine iff_of_true ⟨fun _ => ?_, fun hcount => ?_⟩ ⟨hfits, hroom⟩
      · rw [finishedClients, base_withBase]
        exact hcontents
      · simp only [finishedClients, base_withBase, hcontents, List.length_append,
          List.length_singleton] at hcount ⊢
        push_cast
        rw [hcount]
    · rw [hpush, ensures_lift_ok, ensures_pure]
      refine iff_of_false (fun hkeeps => ?_) fun hboth => hfull hboth.2
      have hsame := hkeeps.1 (Or.inr (by simp))
      simp [finishedClients] at hsame
    · rw [hpush, ensures_lift_error]
      exact iff_of_false not_false fun hboth => hfull hboth.2
  · have hover : checkInt (s.base.stat.clientServed + 1) = .error .intOverflow := if_neg hfits
    rw [hover, ensures_lift_error]
    exact iff_of_false not_false fun hboth => hfits hboth.1

/-- A visit that finalizes with room keeps the count of the books. -/
theorem visit_counts {t : ℤ} (hroom : FinalizesWithRoom env ⟨k, s⟩ w) :
    Ensures (fun _ => True) (visit env t s) w fun s' _ => Counts (book s) → Counts (book s') := by
  apply visit_effects.mono
  intro s' w' hpost hcounts
  obtain ⟨s₁, hserves, hbook⟩ := hpost
  have hsame : Counts (book s₁) → Counts (book s') := by
    rw [hbook]
    exact id
  apply hsame
  cases hserves with
  | nothing hbook₁ => rwa [hbook₁]
  | failure p hdone hattempt hbook₁ =>
    rw [hbook₁]
    exact hcounts
  | success p pushed q hdone hpush hattempt hbook₁ =>
    have hroom₁ := (ensures_of_ok hattempt).mp (hroom hdone) rfl
    obtain ⟨hrange, hcount⟩ := hcounts
    rcases hrange.push_cases (env.granted w.requests) p with
      ⟨-, q', hpush', hrange', hcontents⟩ | ⟨hfull, -⟩
    · have hq : q' = q := by
        have heq := hpush'.symm.trans hpush
        cases heq
        rfl
      subst hq
      rw [hbook₁]
      refine ⟨hrange', ?_⟩
      rw [hcontents, List.length_append, List.length_singleton, hcount]
      rfl
    · exact absurd hroom₁ hfull

/-- A run that finalizes with room keeps the counts of all books. -/
theorem simulateLoop_counts {sys : System} {n : ℕ} (hstart : ∀ b ∈ books sys, Counts b)
    (hmeets : LoopMeets (fun _ => FinalizesWithRoom env) env sys w n) :
    Ensures (fun _ => True) (simulateLoop env sys n) w fun sys' _ =>
      ∀ b ∈ books sys', Counts b :=
  simulateLoop_keeps_books (P := fun _ => Counts) hstart
    (fun _ _ _ _ _ hroom => visit_counts hroom) hmeets

/-- The report of an assignment and the count of a finalised client are true
just if the queue pushed to has room; in a run that finalizes with room every
server has as many finished clients as it has counted. -/
theorem allocation_failures (env : Env) :
    (∀ (k : ServerType) (s : Server k) (p : ClientPtr) (w : World), QueuesInRange s →
      (AssignReports env s p w ↔
        HasRoom (env.granted w.requests) (targetQueue s (w.heap p).disabilityType)) ∧
      (s.base.currentClient = some p → (FinalizeKeeps env s p w ↔
        CountFits s ∧ HasRoom (env.granted w.requests) s.base.finishedClientsQueue))) ∧
    ∀ (sys : System) (w : World) (n : ℕ), (∀ s ∈ servers sys, Counts s.2.base) →
      LoopMeets (fun _ => FinalizesWithRoom env) env sys w n →
      ∀ m ≤ n, ∀ sys' w', simulateLoop env sys m w = .ok (sys', w') →
        ∀ s ∈ servers sys', s.2.base.stat.clientServed = (finishedClients s.2).length := by
  refine ⟨fun k s p w h => ⟨?_, finalizeKeeps_iff h.finished⟩, ?_⟩
  · exact assignReports_iff (h.waiting _ (targetQueue_mem s _))
  · intro sys w n hstart hmeets m hm sys' w' hrun s hs
    have hbooks : ∀ b ∈ books sys, Counts b := by
      rw [books, List.forall_mem_map]
      exact hstart
    have hcounts := (ensures_of_ok hrun).mp (simulateLoop_counts hbooks (hmeets.mono hm))
    exact (hcounts _ (List.mem_map_of_mem hs)).2

/-- One cell, filled by client 0. -/
def fullCell : Queue ClientPtr := { items := [some 0], size := 1, capacity := 1 }

theorem fullCell_inRange : InRange fullCell :=
  ⟨⟨by decide, by decide, rfl, ⟨[0], rfl⟩⟩, by decide⟩

/-- A server with client 1 in service and full queues. -/
def crowded : Server .standard := .standard
  { base := { freshBase 0 with
      currentClient := some 1
      stat := { ServerStat.zero with clientServed := 1 }
      finishedClientsQueue := fullCell }
    clientQueue := fullCell }

theorem crowded_inRange : QueuesInRange crowded := by
  refine ⟨fun q hq => ?_, fullCell_inRange⟩
  obtain rfl := List.mem_singleton.mp hq
  exact fullCell_inRange

/-- Every request for memory is refused. -/
def refusing : Env where
  rand _ := ⟨0, Nat.succ_pos randMax⟩
  exponential _ := 0
  outcomes := .drawn
  granted _ := false

def idleWorld : World := ⟨fun _ => newcomer 0 0 .noDisability, 0, 0⟩

theorem allocation_failures_crowded :
    (AssignReports refusing crowded 2 idleWorld ↔ HasRoom false fullCell) ∧
    (FinalizeKeeps refusing crowded 1 idleWorld ↔
      CountFits crowded ∧ HasRoom false fullCell) :=
  ⟨((allocation_failures refusing).1 _ crowded 2 idleWorld crowded_inRange).1,
    ((allocation_failures refusing).1 _ crowded 1 idleWorld crowded_inRange).2 rfl⟩

/-- Client 2 is assigned with status 0 but joins no queue, and client 1 is
counted as the second client served but joins no queue either. -/
theorem clients_lost :
    (∃ w', serverAssignClient refusing crowded 2 idleWorld = .ok ((0, crowded), w')) ∧
    ¬ AssignReports refusing crowded 2 idleWorld ∧
    (∃ s' w', serverFinalizeCurrentClient refusing crowded idleWorld = .ok ((1, s'), w') ∧
      s'.base.currentClient = none ∧ s'.base.stat.clientServed = 2 ∧
      finishedClients s' = finishedClients crowded) ∧
    ¬ FinalizeKeeps refusing crowded 1 idleWorld := by
  have hfull : ¬ HasRoom false fullCell := by simp [HasRoom, fullCell]
  refine ⟨⟨_, rfl⟩, ?_, ⟨_, _, rfl, rfl, rfl, rfl⟩, ?_⟩
  · intro hreports
    exact hfull ((assignReports_iff (s := crowded) fullCell_inRange).mp hreports)
  · intro hkeeps
    exact hfull ((finalizeKeeps_iff (s := crowded) fullCell_inRange rfl).mp hkeeps).2

end AcaBSim.LostClients
