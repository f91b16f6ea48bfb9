import AcaBSim.Scenarios

/-!
The assertions on service times. A service lasts the table time over the boost
rate, cut to an `int`, and a rate above the table time leaves nothing of it. Any
request for memory may be refused here and a client be lost, so the invariant is
one of the servers themselves and not of the stations they represent.
-/
namespace AcaBSim.ServiceAssertions

open Machine ArrayQueue Clients Servers Systems Outcome ServerStations ServerSteps Scenarios

variable {k : ServerType}

/-- The client that `set_next_client` takes from the queues of the server. -/
def nextClient (s : Server k) : Option ClientPtr := (waitingClients s).head?

/-- The next client is due at a robotic server whose boost rate exceeds the
client's table time. -/
def OverBoosted (s : Server k) (w : World) : Prop :=
  ∃ b ∈ boostRate s, ∃ p ∈ nextClient s, (tableTime (w.heap p) : ℚ) < b

/-- The loop body of `update_clients` comes to an over-boosted start: the server
is free, or its service is finished, was a success and is taken down. -/
def StartsOverBoosted (env : Env) (t : ℤ) (s : Server k) (w : World) : Prop :=
  if serverIsActive s then
    serverIsServiceFinished s = true ∧
      Returns (serverIsServiceSuccessful env s) w fun successful w₁ => successful = true ∧
        Returns (serverFinalizeCurrentClient env s) w₁ fun r w₂ =>
          Returns (clientFinalize r.1 t) w₂ fun _ w₃ => OverBoosted r.2 w₃
  else OverBoosted s w

/-- The loop of `update_clients` comes to an over-boosted start. -/
def UpdateOverBoosted (env : Env) (t : ℤ) : List (Server k) → World → Prop
  | [], _ => False
  | s :: rest, w =>
    StartsOverBoosted env t s w ∨ Returns (serveServer env s t) w fun s w =>
      Returns (liftM (serverUpdateStat s t) : Prog (Server k)) w fun _ w =>
        UpdateOverBoosted env t rest w

/-- The tick at time `t` comes to an over-boosted start. -/
def TickOverBoosted (env : Env) (t : ℤ) (sys : System) (w : World) : Prop :=
  Returns (admitClient env sys t) w fun sys w =>
    Returns (serversUpdateServeTime sys) w fun sys w =>
      UpdateOverBoosted env t sys.standardServers w ∨
        Returns (updateClients env t sys.standardServers) w fun _ w =>
          UpdateOverBoosted env t sys.roboticServers w

/-- One of the first `n` ticks of the loop comes to an over-boosted start. -/
def LoopOverBoosted (env : Env) (sys : System) (w : World) (n : ℕ) : Prop :=
  ∃ u < n, Returns (simulateLoop env sys u) w fun sys w => TickOverBoosted env u sys w

/-- A run fails the assertion on a starting service just if `cause` holds, and
never the one on a running service. -/
def FailsJustIf (cause : Prop) (e : Fault) : Prop :=
  (e = .assertionFailed .startToServe ↔ cause) ∧ e ≠ .assertionFailed .tickToServe

theorem failsJustIf_of_not {cause : Prop} {e : Fault} (hcause : ¬ cause)
    (he : FailsJustIf False e) : FailsJustIf cause e := by
  rwa [eq_false hcause]

/-- The clients of the heap `h` are of the types they have in `h₀`. -/
def SameTypes (h₀ h : Heap) : Prop := ∀ p, (h p).disabilityType = (h₀ p).disabilityType ∧
  (h p).destination = (h₀ p).destination

def waitingQueues : Server k → List (Queue ClientPtr)
  | .standard s => [s.clientQueue]
  | .robotic s => [s.disableClientQueue, s.normalClientQueue]

/-- A queue of at most `n` clients of valid types. -/
structure Bounded (h₀ : Heap) (n : ℕ) (q : Queue ClientPtr) : Prop where
  valid : q.Valid
  size_le : q.size ≤ n
  types_valid : ∀ p ∈ contents q, (h₀ p).Valid

/-- A server with a service of at least one tick, of which at least `low` are
left, at most `a` clients in a waiting queue and `b` in the finished queue. -/
structure Sound (h₀ : Heap) (low : ℤ) (a b : ℕ) (s : Server k) : Prop where
  waiting : ∀ q ∈ waitingQueues s, Bounded h₀ a q
  finished : Bounded h₀ b s.base.finishedClientsQueue
  table : s.base.serviceTimeTable = initTable
  boost : ∀ r ∈ boostRate s, 0 < r
  lasting : ∀ p ∈ s.base.currentClient, (h₀ p).Valid ∧ 1 ≤ serviceTime s (h₀ p)
  toServe : s.base.currentClient ≠ none → low ≤ s.base.toServe

section Types

variable {h₀ h : Heap}

theorem SameTypes.tableTime_eq (htypes : SameTypes h₀ h) (p : ClientPtr) :
    tableTime (h p) = tableTime (h₀ p) := by
  simp only [tableTime, (htypes p).1, (htypes p).2]

theorem SameTypes.serviceTime_eq (htypes : SameTypes h₀ h) (s : Server k) (p : ClientPtr) :
    serviceTime s (h p) = serviceTime s (h₀ p) := by
  cases s <;> simp only [serviceTime, htypes.tableTime_eq p]

theorem SameTypes.valid (htypes : SameTypes h₀ h) {p : ClientPtr} (hp : (h₀ p).Valid) :
    (h p).Valid := by
  rwa [Client.Valid, (htypes p).1, (htypes p).2]

/-- The simulation writes statistics into a record, never types. -/
theorem SameTypes.write (htypes : SameTypes h₀ h) (p : ClientPtr) (stat : ClientServiceStat) :
    SameTypes h₀ (Function.update h p { h p with serviceStat := stat }) := by
  intro q
  by_cases hq : q = p
  · subst hq
    rw [Function.update_self]
    exact htypes q
  · rw [Function.update_of_ne hq]
    exact htypes q

end Types

variable {h₀ : Heap} {low : ℤ} {a b : ℕ} {s : Server k} {env : Env} {w : World} {t : ℤ}

section Queues

variable {q : Queue ClientPtr} {n : ℕ}

theorem Bounded.mono {m : ℕ} (h : Bounded h₀ n q) (hle : n ≤ m) : Bounded h₀ m q :=
  ⟨h.valid, h.size_le.trans hle, h.types_valid⟩

/-- A push leaves a bounded queue, whether its request for memory is served or not. -/
theorem Bounded.push (h : Bounded h₀ n q) (hn : n < 2 ^ 31) (granted : Bool) {p : ClientPtr}
    (hp : (h₀ p).Valid) :
    ∃ pushed q', queuePush granted q (some p) = .ok (pushed, q') ∧ Bounded h₀ (n + 1) q' := by
  rcases queuePush_cases h.valid (h.size_le.trans_lt hn) granted p with
    ⟨q', hpush, hvalid, hcontents⟩ | ⟨hpush, -, -⟩
  · refine ⟨true, q', hpush, hvalid, ?_, ?_⟩
    · rw [← hvalid.length_contents, hcontents, List.length_append, h.valid.length_contents]
      exact Nat.succ_le_succ h.size_le
    · intro r hr
      rw [hcontents] at hr
      rcases List.mem_append.mp hr with hr | hr
      · exact h.types_valid r hr
      · obtain rfl := List.mem_singleton.mp hr
        exact hp
  · exact ⟨false, q, hpush, h.mono (Nat.le_succ n)⟩

/-- A queue that is not empty has a next client, and stays bounded without it. -/
theorem Bounded.exists_next (h : Bounded h₀ n q) (hsize : queueSize q ≠ 0) :
    ∃ p rest, Holds q (p :: rest) ∧ (h₀ p).Valid ∧ ∀ q', Holds q' rest → Bounded h₀ n q' := by
  cases hcontents : contents q with
  | nil =>
    have hlen := h.valid.length_contents
    rw [hcontents, List.length_nil] at hlen
    exact absurd hlen.symm hsize
  | cons p rest =>
    have hlen := h.valid.length_contents
    rw [hcontents, List.length_cons] at hlen
    refine ⟨p, rest, ⟨h.valid, hcontents⟩, h.types_valid p (by simp [hcontents]), ?_⟩
    intro q' hq'
    obtain ⟨hvalid, hrest⟩ := hq'
    refine ⟨hvalid, ?_, fun r hr => ?_⟩
    · rw [← hvalid.length_contents, hrest]
      exact (Nat.le_succ _).trans (hlen.le.trans h.size_le)
    · apply h.types_valid
      rw [hcontents, ← hrest]
      exact List.mem_cons_of_mem _ hr

theorem contents_eq_nil (h : Bounded h₀ n q) (hsize : ¬ queueSize q ≠ 0) : contents q = [] := by
  rw [← List.length_eq_zero_iff, h.valid.length_contents]
  exact not_not.mp hsize

end Queues

@[simp] theorem waitingQueues_withBase (c : BaseServer) (s : Server k) :
    waitingQueues (s.withBase c) = waitingQueues s := by
  cases s <;> rfl

/-- Replacing the base of a server keeps it sound if the service it is in lasts. -/
theorem Sound.withBase {low' : ℤ} {b' : ℕ} (h : Sound h₀ low a b s) {c : BaseServer}
    (hfinished : Bounded h₀ b' c.finishedClientsQueue)
    (htable : c.serviceTimeTable = s.base.serviceTimeTable)
    (hlasting : ∀ p ∈ c.currentClient, (h₀ p).Valid ∧ 1 ≤ serviceTime s (h₀ p))
    (htoServe : c.currentClient ≠ none → low' ≤ c.toServe) :
    Sound h₀ low' a b' (s.withBase c) where
  waiting := by simpa using h.waiting
  finished := by simpa using hfinished
  table := by rw [base_withBase, htable, h.table]
  boost := by simpa using h.boost
  lasting := by simpa using hlasting
  toServe := by simpa using htoServe

/-- `server_tick` takes a tick off a service that has one left. -/
theorem serverTick_sound (h : Sound h₀ 1 a b s) :
    Ensures (FailsJustIf False) (liftM (serverTick s.base) : Prog BaseServer) w fun c w' =>
      w' = w ∧ Sound h₀ 0 a b (s.withBase c) := by
  have hoverflow : FailsJustIf False .intOverflow := by simp [FailsJustIf]
  cases hcur : s.base.currentClient with
  | none =>
    simp only [serverTick, hcur, ensures_lift_bind]
    refine ensures_checkInt hoverflow fun _ => ⟨rfl, ?_⟩
    exact h.withBase h.finished rfl (by simp) (by simp)
  | some p =>
    have hleft := h.toServe (by simp [hcur])
    simp only [serverTick, hcur, if_pos (show s.base.toServe > 0 by omega), ensures_lift_bind]
    refine ensures_checkInt hoverflow fun _ => ⟨rfl, ?_⟩
    refine h.withBase h.finished rfl (by simpa [hcur] using h.lasting) fun _ => ?_
    dsimp only
    omega

/-- The start of a service fails its assertion just if nothing is left of the service. -/
theorem startService_sound (h : Sound h₀ low a b s) (htypes : SameTypes h₀ w.heap)
    {asserted : Bool} {p : ClientPtr} (hp : (h₀ p).Valid) {cause : Prop}
    (hcause : cause ↔ ¬ 1 ≤ serviceTime s (h₀ p)) (hasserted : cause → asserted = true) :
    Ensures (FailsJustIf cause) (startService asserted s (some p) t) w fun s' w' =>
      ¬ cause ∧ Sound h₀ 1 a b s' ∧ SameTypes h₀ w'.heap := by
  have htime := getServiceTime_valid (htypes.valid hp) h.table fun r hr => (h.boost r hr).ne'
  rw [htypes.serviceTime_eq] at htime
  simp only [startService, ensures_bind, ensures_readClient]
  rcases htime with hok | ⟨herror, hrange⟩
  · rw [hok, ensures_lift_ok]
    by_cases hstart : cause
    · have hle : serviceTime s (h₀ p) ≤ 0 := by
        have hnot := hcause.mp hstart
        omega
      rw [if_pos (by simpa [hasserted hstart] using hle), ensures_throw]
      exact ⟨iff_of_true rfl hstart, by simp⟩
    · have hlast : 1 ≤ serviceTime s (h₀ p) := by_contra fun hnot => hstart (hcause.mpr hnot)
      rw [if_neg (by simp; omega), ensures_bind]
      apply ensures_checkInt (failsJustIf_of_not hstart (by simp [FailsJustIf]))
      intro _
      simp only [ensures_bind, ensures_writeClient, ensures_pure]
      refine ⟨hstart, h.withBase h.finished rfl ?_ fun _ => hlast, htypes.write p _⟩
      intro q hq
      obtain rfl := Option.some.inj hq
      exact ⟨hp, hlast⟩
  · rw [herror, ensures_lift_error]
    refine failsJustIf_of_not (fun hstart => hrange ?_) (by simp [FailsJustIf])
    have hnot := hcause.mp hstart
    have hnonneg := serviceTime_nonneg hp h.boost
    unfold intMin intMax
    omega

theorem overBoosted_iff (h : Sound h₀ low a b s) (htypes : SameTypes h₀ w.heap) {p : ClientPtr}
    (hnext : nextClient s = some p) (hp : (h₀ p).Valid) :
    OverBoosted s w ↔ ¬ 1 ≤ serviceTime s (h₀ p) := by
  rw [one_le_serviceTime_iff hp h.boost, OverBoosted, hnext]
  simp only [Option.mem_def, Option.some.injEq, exists_eq_left', htypes.tableTime_eq, not_forall,
    not_le, exists_prop]

/-- A server whose waiting queues are other sound queues. -/
theorem Sound.setWaiting {a' : ℕ} (h : Sound h₀ low a b s) {s' : Server k}
    (hwaiting : ∀ q ∈ waitingQueues s', Bounded h₀ a' q) (hbase : s'.base = s.base)
    (hboost : boostRate s' = boostRate s)
    (htime : ∀ c, serviceTime s' c = serviceTime s c) : Sound h₀ low a' b s' where
  waiting := hwaiting
  finished := by rw [hbase]; exact h.finished
  table := by rw [hbase]; exact h.table
  boost := by rw [hboost]; exact h.boost
  lasting := by simpa only [hbase, htime] using h.lasting
  toServe := by rw [hbase]; exact h.toServe

theorem serveNobody_sound (h : Sound h₀ low a b s) : Sound h₀ 1 a b (serveNobody s) :=
  h.withBase h.finished rfl (by simp) (by simp)

/-- Taking the first client of a waiting queue fails the assertion just if the
start of that service is over-boosted. -/
theorem takeNext_sound (h : Sound h₀ low a b s) (htypes : SameTypes h₀ w.heap)
    {q : Queue ClientPtr} (hqueue : Bounded h₀ a q) (hsize : queueSize q ≠ 0)
    (hnext : ∀ p rest, contents q = p :: rest → nextClient s = some p)
    (put : Queue ClientPtr → Server k) (hput : ∀ q', Bounded h₀ a q' → Sound h₀ low a b (put q'))
    (htime : ∀ q' c, serviceTime (put q') c = serviceTime s c) {asserted : Bool}
    (hasserted : OverBoosted s w → asserted = true) :
    Ensures (FailsJustIf (OverBoosted s w)) (do
      let next ← queueTop q
      let (popped, q') ← queuePop (← nextGranted env) q
      if !popped then throw .exitFailure
      else startService asserted (put q') next t) w fun s' w' =>
      ¬ OverBoosted s w ∧ Sound h₀ 1 a b s' ∧ SameTypes h₀ w'.heap := by
  obtain ⟨p, rest, hholds, hp, hrest⟩ := hqueue.exists_next hsize
  refine ensures_takeNext hholds put fun q' hq' => ?_
  refine startService_sound (w := { w with requests := w.requests + 1 })
    (hput q' (hrest q' hq')) htypes hp ?_ hasserted
  rw [htime]
  exact overBoosted_iff h htypes (hnext p rest hholds.2) hp

/-- With nobody waiting there is no start to fail. -/
theorem serveNobody_starts (h : Sound h₀ low a b s) (htypes : SameTypes h₀ w.heap)
    (hnone : nextClient s = none) :
    ¬ OverBoosted s w ∧ Sound h₀ 1 a b (serveNobody s) ∧ SameTypes h₀ w.heap := by
  refine ⟨?_, serveNobody_sound h, htypes⟩
  rintro ⟨r, -, p, hp, -⟩
  rw [hnone] at hp
  cases hp

theorem standardServerSetNextClient_sound {s : StandardServer}
    (h : Sound h₀ low a b (.standard s)) (htypes : SameTypes h₀ w.heap) :
    Ensures (FailsJustIf (OverBoosted (.standard s) w)) (standardServerSetNextClient env s t) w
      fun s' w' => ¬ OverBoosted (.standard s) w ∧ Sound h₀ 1 a b s' ∧ SameTypes h₀ w'.heap := by
  have hqueue : Bounded h₀ a s.clientQueue := h.waiting _ (by simp [waitingQueues])
  unfold standardServerSetNextClient
  split
  · rename_i hsize
    apply takeNext_sound h htypes hqueue hsize ?_ (fun q => .standard { s with clientQueue := q })
    · intro q hq
      exact h.setWaiting (by simpa [waitingQueues] using hq) rfl rfl fun _ => rfl
    · exact fun _ _ => rfl
    · rintro ⟨r, hr, -⟩
      cases hr
    · intro p rest hcontents
      rw [nextClient, waitingClients, hcontents, List.head?_cons]
  · rename_i hsize
    apply serveNobody_starts h htypes
    rw [nextClient, waitingClients, contents_eq_nil hqueue hsize, List.head?_nil]

theorem roboticServerSetNextClient_sound {s : RoboticServer}
    (h : Sound h₀ low a b (.robotic s)) (htypes : SameTypes h₀ w.heap) :
    Ensures (FailsJustIf (OverBoosted (.robotic s) w)) (roboticServerSetNextClient env s t) w
      fun s' w' => ¬ OverBoosted (.robotic s) w ∧ Sound h₀ 1 a b s' ∧ SameTypes h₀ w'.heap := by
  have hdisable : Bounded h₀ a s.disableClientQueue := h.waiting _ (by simp [waitingQueues])
  have hnormal : Bounded h₀ a s.normalClientQueue := h.waiting _ (by simp [waitingQueues])
  unfold roboticServerSetNextClient
  split
  · rename_i hsize
    apply takeNext_sound h htypes hdisable hsize ?_
      (fun q => .robotic { s with disableClientQueue := q })
    · intro q hq
      exact h.setWaiting (by simpa [waitingQueues] using ⟨hq, hnormal⟩) rfl rfl fun _ => rfl
    · exact fun _ _ => rfl
    · exact fun _ => rfl
    · intro p rest hcontents
      rw [nextClient, waitingClients, hcontents, List.cons_append, List.head?_cons]
  · rename_i hsize
    have hnil := contents_eq_nil hdisable hsize
    split
    · rename_i hsize'
      apply takeNext_sound h htypes hnormal hsize' ?_
        (fun q => .robotic { s with normalClientQueue := q })
      · intro q hq
        exact h.setWaiting (by simpa [waitingQueues] using ⟨hdisable, hq⟩) rfl rfl fun _ => rfl
      · exact fun _ _ => rfl
      · exact fun _ => rfl
      · intro p rest hcontents
        rw [nextClient, waitingClients, hnil, List.nil_append, hcontents, List.head?_cons]
    · rename_i hsize'
      apply serveNobody_starts h htypes
      rw [nextClient, waitingClients, hnil, contents_eq_nil hnormal hsize', List.nil_append,
        List.head?_nil]

/-- `server_set_next_client` fails its assertion just if the start is over-boosted. -/
theorem serverSetNextClient_sound (h : Sound h₀ low a b s) (htypes : SameTypes h₀ w.heap) :
    Ensures (FailsJustIf (OverBoosted s w)) (serverSetNextClient env s t) w fun s' w' =>
      ¬ OverBoosted s w ∧ Sound h₀ 1 a b s' ∧ SameTypes h₀ w'.heap := by
  cases s with
  | standard s => exact standardServerSetNextClient_sound h htypes
  | robotic s => exact roboticServerSetNextClient_sound h htypes

/-- A retried service lasts as long as the service it repeats. -/
theorem serverRetry_sound (h : Sound h₀ low a b s) (htypes : SameTypes h₀ w.heap) :
    Ensures (FailsJustIf False) (serverRetry s) w fun s' w' =>
      Sound h₀ 1 a b s' ∧ SameTypes h₀ w'.heap := by
  have hoverflow : FailsJustIf False .intOverflow := by simp [FailsJustIf]
  simp only [serverRetry, ensures_bind]
  apply ensures_checkInt hoverflow
  intro _
  cases hcur : s.base.currentClient with
  | none => simp [FailsJustIf]
  | some p =>
    obtain ⟨hp, hlast⟩ := h.lasting p hcur
    simp only [ensures_bind, ensures_readClient]
    apply ensures_checkInt hoverflow
    intro _
    simp only [ensures_writeClient]
    have htime := getServiceTime_valid (s := s) (c := { w.heap p with serviceStat :=
        { (w.heap p).serviceStat with failureCount := (w.heap p).serviceStat.failureCount + 1 } })
      (htypes.valid hp) h.table fun r hr => (h.boost r hr).ne'
    rw [serviceTime_record, htypes.serviceTime_eq] at htime
    rcases htime with hok | ⟨herror, -⟩
    · rw [hok, ensures_lift_ok]
      refine ⟨h.withBase h.finished rfl ?_ fun _ => hlast, htypes.write p _⟩
      intro q hq
      obtain rfl := Option.some.inj hq
      exact ⟨hp, hlast⟩
    · rw [herror, ensures_lift_error]
      exact hoverflow

/-- `server_finalize_current_client` and `client_finalize` leave a sound server. -/
theorem serverFinalizeCurrentClient_sound (h : Sound h₀ low a b s) (hb : b < 2 ^ 31) :
    Ensures (FailsJustIf False) (serverFinalizeCurrentClient env s) w fun r w' =>
      Sound h₀ 1 a (b + 1) r.2 ∧ w'.heap = w.heap := by
  simp only [serverFinalizeCurrentClient, ensures_bind]
  apply ensures_checkInt (by simp [FailsJustIf])
  intro _
  cases hcur : s.base.currentClient with
  | none => simp [queuePush, FailsJustIf]
  | some p =>
    obtain ⟨pushed, q, hpush, hq⟩ :=
      h.finished.push hb (env.granted w.requests) (h.lasting p hcur).1
    simp only [ensures_nextGranted, hpush, ensures_lift_ok, ensures_pure, and_true]
    exact h.withBase hq rfl (by simp) (by simp)

theorem clientFinalize_sameTypes (htypes : SameTypes h₀ w.heap) (p : ClientPtr) :
    Ensures (FailsJustIf False) (clientFinalize p t) w fun _ w' => SameTypes h₀ w'.heap := by
  simp only [clientFinalize, ensures_bind, ensures_readClient]
  exact ensures_checkInt (by simp [FailsJustIf]) fun _ => htypes.write p _

theorem serverIsServiceSuccessful_heap (s : Server k) (w : World) :
    Ensures (FailsJustIf False) (serverIsServiceSuccessful env s) w fun _ w' =>
      w'.heap = w.heap := by
  simp only [serverIsServiceSuccessful, ensures_bind, ensures_nextRand]
  cases env.outcomes with
  | drawn => simp
  | perAttempt succeeds =>
    cases s.base.currentClient with
    | none => simp [FailsJustIf]
    | some p => simp only [ensures_bind, ensures_readClient, ensures_pure]

theorem Sound.mono {a' b' : ℕ} (h : Sound h₀ low a b s) (ha : a ≤ a') (hb : b ≤ b') :
    Sound h₀ low a' b' s :=
  ⟨fun q hq => (h.waiting q hq).mono ha, h.finished.mono hb, h.table, h.boost, h.lasting,
    h.toServe⟩

/-- A service that is not finished has a tick left. -/
theorem Sound.busy_of_not_finished (h : Sound h₀ 0 a b s)
    (hnot : ¬ serverIsServiceFinished s = true) : Sound h₀ 1 a b s := by
  refine ⟨h.waiting, h.finished, h.table, h.boost, h.lasting, fun hcur => ?_⟩
  have hleft := h.toServe hcur
  simp only [serverIsServiceFinished, Bool.and_eq_true, Option.isSome_iff_ne_none, beq_iff_eq,
    not_and] at hnot
  have hne := hnot hcur
  omega

/-- The loop body of `update_clients` fails an assertion just if the start it
comes to is over-boosted. -/
theorem serveServer_sound (h : Sound h₀ 0 a b s) (hb : b < 2 ^ 31)
    (htypes : SameTypes h₀ w.heap) :
    Ensures (FailsJustIf (StartsOverBoosted env t s w)) (serveServer env s t) w fun s' w' =>
      ¬ StartsOverBoosted env t s w ∧ Sound h₀ 1 a (b + 1) s' ∧ SameTypes h₀ w'.heap := by
  unfold serveServer StartsOverBoosted
  by_cases hactive : serverIsActive s = true
  · rw [if_pos hactive, if_pos hactive]
    by_cases hfinished : serverIsServiceFinished s = true
    · rw [if_pos hfinished]
      simp only [hfinished, true_and]
      apply ensures_bind_returns (serverIsServiceSuccessful_heap s w)
      intro success w₁ hheap₁
      have htypes₁ : SameTypes h₀ w₁.heap := by rwa [hheap₁]
      cases success with
      | false =>
        rw [if_neg Bool.false_ne_true]
        simp only [Bool.false_eq_true, false_and, not_false_eq_true, true_and]
        exact (serverRetry_sound h htypes₁).mono fun s' w' hs' =>
          ⟨hs'.1.mono (le_refl a) (Nat.le_succ b), hs'.2⟩
      | true =>
        simp only [if_true, true_and]
        apply ensures_bind_returns (serverFinalizeCurrentClient_sound h hb)
        intro r w₂ hpost
        obtain ⟨p, s₁⟩ := r
        obtain ⟨hs₁, hheap₂⟩ := hpost
        apply ensures_bind_returns (clientFinalize_sameTypes (by rwa [hheap₂]) p)
        intro _ w₃ htypes₃
        exact serverSetNextClient_sound hs₁ htypes₃
    · have hbusy := h.busy_of_not_finished hfinished
      rw [if_neg hfinished]
      simp only [hfinished, Bool.false_eq_true, false_and, not_false_eq_true, true_and,
        ensures_pure]
      exact ⟨hbusy.mono (le_refl a) (Nat.le_succ b), htypes⟩
  · rw [if_neg hactive, if_neg hactive]
    exact (serverSetNextClient_sound h htypes).mono fun s' w' hs' =>
      ⟨hs'.1, hs'.2.1.mono (le_refl a) (Nat.le_succ b), hs'.2.2⟩

theorem serverUpdateStat_sound (h : Sound h₀ low a b s) :
    Ensures (FailsJustIf False) (liftM (serverUpdateStat s t) : Prog (Server k)) w fun s' w' =>
      Sound h₀ low a b s' ∧ w' = w := by
  have hkept : ∀ stat, Sound h₀ low a b (s.withBase { s.base with stat := stat }) := fun stat =>
    h.withBase h.finished rfl h.lasting h.toServe
  cases s with
  | standard s =>
    simp only [serverUpdateStat, standardServerUpdateStat, ServerStat.addQueueLen,
      ensures_lift_bind]
    apply ensures_checkInt (by simp [FailsJustIf])
    intro _
    rw [ensures_lift_ok]
    split
    · exact ⟨hkept _, rfl⟩
    · simp [FailsJustIf]
  | robotic s =>
    simp only [serverUpdateStat, roboticServerUpdateStat, ServerStat.addQueueLen,
      ensures_lift_bind]
    exact ensures_checkInt (by simp [FailsJustIf]) fun _ => ⟨hkept _, rfl⟩

/-- The loop of `update_clients` fails an assertion just if a start it comes to
is over-boosted. -/
theorem updateClients_sound (hb : b < 2 ^ 31) {l : List (Server k)}
    (h : ∀ s ∈ l, Sound h₀ 0 a b s) (htypes : SameTypes h₀ w.heap) :
    Ensures (FailsJustIf (UpdateOverBoosted env t l w)) (updateClients env t l) w fun l' w' =>
      ¬ UpdateOverBoosted env t l w ∧ (∀ s ∈ l', Sound h₀ 1 a (b + 1) s) ∧
        SameTypes h₀ w'.heap := by
  induction l generalizing w with
  | nil => exact ⟨not_false, by simp, htypes⟩
  | cons s rest ih =>
    have hrest : ∀ s' ∈ rest, Sound h₀ 0 a b s' := fun s' hs' => h s' (List.mem_cons_of_mem _ hs')
    apply ensures_bind_or_returns (serveServer_sound (h s (by simp)) hb htypes)
    intro s₁ w₁ hpost
    obtain ⟨hs₁, htypes₁⟩ := hpost
    apply ensures_bind_returns (serverUpdateStat_sound hs₁)
    intro s₂ w₂ hpost
    obtain ⟨hs₂, rfl⟩ := hpost
    rw [ensures_bind]
    apply (ih hrest htypes₁).mono
    intro l' w' hpost
    obtain ⟨hnot, hl', htypes'⟩ := hpost
    refine ⟨hnot, fun s' hs' => ?_, htypes'⟩
    rcases List.mem_cons.mp hs' with rfl | hs'
    · exact hs₂
    · exact hl' s' hs'

/-- Either loop of `servers_update_serve_time` takes a tick off the services. -/
theorem tickServers_sound {l : List (Server k)} (h : ∀ s ∈ l, Sound h₀ 1 a b s) :
    Ensures (FailsJustIf False) (tickServers l) w fun l' w' =>
      (∀ s ∈ l', Sound h₀ 0 a b s) ∧ w' = w := by
  induction l with
  | nil => exact ⟨by simp, rfl⟩
  | cons s rest ih =>
    simp only [tickServers, ensures_bind]
    apply (serverTick_sound (h s (by simp))).mono
    intro c w₁ hpost
    obtain ⟨rfl, hc⟩ := hpost
    apply (ih fun s' hs' => h s' (List.mem_cons_of_mem _ hs')).mono
    intro l' w₂ hpost
    obtain ⟨hl', rfl⟩ := hpost
    refine ⟨fun s' hs' => ?_, rfl⟩
    rcases List.mem_cons.mp hs' with rfl | hs'
    · exact hc
    · exact hl' s' hs'

/-- `get_client` yields a client of valid types, if any. -/
theorem getClient_sound {q : Queue ClientPtr} {n : ℕ} (h : Bounded h₀ n q)
    (htypes : SameTypes h₀ w.heap) :
    Ensures (FailsJustIf False) (getClient env q t) w fun r w' =>
      (∀ p ∈ r.1, (h₀ p).Valid) ∧ Bounded h₀ n r.2 ∧ SameTypes h₀ w'.heap := by
  simp only [getClient, ensures_bind]
  by_cases hsize : queueSize q ≠ 0
  · obtain ⟨p, rest, hholds, hp, hrest⟩ := h.exists_next hsize
    obtain ⟨q', hpop, hq'⟩ := hholds.pop (env.granted w.requests)
    simp only [hholds.top, List.head?_cons, ensures_lift_ok, ensures_bind, ensures_readClient]
    split
    · simp only [ensures_bind, ensures_nextGranted, hpop, ensures_lift_ok, if_true,
        ensures_writeClient, ensures_pure]
      refine ⟨fun r hr => ?_, hrest q' hq', htypes.write p _⟩
      obtain rfl := Option.some.inj hr
      exact hp
    · exact ⟨by simp, h, htypes⟩
  · simp only [queueTop_valid h.valid, contents_eq_nil h hsize, ensures_lift_ok]
    exact ⟨by simp, h, htypes⟩

/-- `server_assign_client` leaves a sound server, even if the client is lost. -/
theorem serverAssignClient_sound (h : Sound h₀ low a b s) (ha : a < 2 ^ 31) {p : ClientPtr}
    (hp : (h₀ p).Valid) :
    Ensures (FailsJustIf False) (serverAssignClient env s p) w fun r w' =>
      Sound h₀ low (a + 1) b r.2 ∧ w'.heap = w.heap := by
  have hgrown : ∀ q ∈ waitingQueues s, Bounded h₀ (a + 1) q := fun q hq =>
    (h.waiting q hq).mono (Nat.le_succ a)
  cases s with
  | standard s =>
    obtain ⟨pushed, q, hpush, hq⟩ := (h.waiting s.clientQueue (by simp [waitingQueues])).push ha
      (env.granted w.requests) hp
    simp only [serverAssignClient, assignClientToStandardServer, ensures_bind,
      ensures_nextGranted, hpush, ensures_lift_ok, ensures_pure, and_true]
    exact h.setWaiting (by simpa [waitingQueues] using hq) rfl rfl fun _ => rfl
  | robotic s =>
    simp only [waitingQueues, List.mem_cons, List.not_mem_nil, or_false, forall_eq_or_imp,
      forall_eq] at hgrown
    simp only [serverAssignClient, assignClientToRoboticServer, ensures_bind, ensures_readClient]
    split
    · obtain ⟨pushed, q, hpush, hq⟩ := (h.waiting s.normalClientQueue
        (by simp [waitingQueues])).push ha (env.granted w.requests) hp
      simp only [ensures_bind, ensures_nextGranted, hpush, ensures_lift_ok, ensures_pure, and_true]
      exact h.setWaiting (by simpa [waitingQueues] using ⟨hgrown.1, hq⟩) rfl rfl fun _ => rfl
    · obtain ⟨pushed, q, hpush, hq⟩ := (h.waiting s.disableClientQueue
        (by simp [waitingQueues])).push ha (env.granted w.requests) hp
      simp only [ensures_bind, ensures_nextGranted, hpush, ensures_lift_ok, ensures_pure, and_true]
      exact h.setWaiting (by simpa [waitingQueues] using ⟨hq, hgrown.2⟩) rfl rfl fun _ => rfl

theorem assignTo_sound {l : List (Server k)} (h : ∀ s ∈ l, Sound h₀ low a b s)
    (ha : a < 2 ^ 31) (selected : Option ℕ) {p : ClientPtr} (hp : (h₀ p).Valid) :
    Ensures (FailsJustIf False) (assignTo env l selected p) w fun l' w' =>
      (∀ s ∈ l', Sound h₀ low (a + 1) b s) ∧ w'.heap = w.heap := by
  cases selected with
  | none => simp [assignTo, FailsJustIf]
  | some i =>
    cases hs : l[i]? with
    | none => simp [assignTo, hs, FailsJustIf]
    | some s =>
      simp only [assignTo, hs, ensures_bind]
      apply (serverAssignClient_sound (h s (List.mem_of_getElem? hs)) ha hp).mono
      intro r w' hpost
      obtain ⟨status, s₁⟩ := r
      obtain ⟨hs₁, hheap⟩ := hpost
      refine ⟨fun s' hs' => ?_, hheap⟩
      rcases List.mem_or_eq_of_mem_set hs' with hs' | rfl
      · exact (h s' hs').mono (Nat.le_succ a) (le_refl b)
      · exact hs₁

/-- A system of sound servers whose own queue holds clients of valid types. -/
structure SoundSystem (h₀ : Heap) (low : ℤ) (a b : ℕ) (sys : System) : Prop where
  door : ∃ q n, sys.systemClients = some q ∧ Bounded h₀ n q
  standard : ∀ s ∈ sys.standardServers, Sound h₀ low a b s
  robotic : ∀ s ∈ sys.roboticServers, Sound h₀ low a b s

theorem assignClient_sound {sys : System} (h : SoundSystem h₀ low a b sys) (ha : a < 2 ^ 31)
    {p : ClientPtr} (hp : (h₀ p).Valid) :
    Ensures (FailsJustIf False) (assignClient env sys p) w fun sys' w' =>
      SoundSystem h₀ low (a + 1) b sys' ∧ w'.heap = w.heap := by
  have hstandard : ∀ selected, Ensures (FailsJustIf False) (assignStandard env sys selected p) w
      fun sys' w' => SoundSystem h₀ low (a + 1) b sys' ∧ w'.heap = w.heap := by
    intro selected
    rw [assignStandard, ensures_bind]
    apply (assignTo_sound h.standard ha selected hp).mono
    intro l w' hpost
    obtain ⟨hl, hheap⟩ := hpost
    exact ⟨⟨h.door, hl, fun s hs => (h.robotic s hs).mono (Nat.le_succ a) (le_refl b)⟩, hheap⟩
  have hrobotic : ∀ selected, Ensures (FailsJustIf False) (assignRobotic env sys selected p) w
      fun sys' w' => SoundSystem h₀ low (a + 1) b sys' ∧ w'.heap = w.heap := by
    intro selected
    rw [assignRobotic, ensures_bind]
    apply (assignTo_sound h.robotic ha selected hp).mono
    intro l w' hpost
    obtain ⟨hl, hheap⟩ := hpost
    exact ⟨⟨h.door, fun s hs => (h.standard s hs).mono (Nat.le_succ a) (le_refl b), hl⟩, hheap⟩
  simp only [assignClient, ensures_bind, ensures_readClient]
  split
  · simp [FailsJustIf]
  · split
    · exact hrobotic _
    · split
      · exact hrobotic _
      · split
        · exact hstandard _
        · split
          · exact hrobotic _
          · exact hstandard _

/-- The first half of `system_tick` fails neither assertion. -/
theorem admitClient_sound {sys : System} (h : SoundSystem h₀ low a b sys) (ha : a < 2 ^ 31)
    (htypes : SameTypes h₀ w.heap) :
    Ensures (FailsJustIf False) (admitClient env sys t) w fun sys' w' =>
      SoundSystem h₀ low (a + 1) b sys' ∧ SameTypes h₀ w'.heap := by
  obtain ⟨q, n, hdoor, hq⟩ := h.door
  simp only [admitClient, hdoor, ensures_bind]
  apply (getClient_sound hq htypes).mono
  intro r w₁ hpost
  obtain ⟨newClient, q'⟩ := r
  obtain ⟨hnew, hq', htypes₁⟩ := hpost
  have hsys : SoundSystem h₀ low a b { sys with systemClients := some q' } :=
    ⟨⟨q', n, rfl, hq'⟩, h.standard, h.robotic⟩
  cases newClient with
  | none =>
    refine ⟨⟨hsys.door, fun s hs => ?_, fun s hs => ?_⟩, htypes₁⟩
    · exact (h.standard s hs).mono (Nat.le_succ a) (le_refl b)
    · exact (h.robotic s hs).mono (Nat.le_succ a) (le_refl b)
  | some p =>
    apply (assignClient_sound hsys ha (hnew p rfl)).mono
    intro sys' w' hpost
    obtain ⟨hsys', hheap⟩ := hpost
    exact ⟨hsys', by rwa [hheap]⟩

theorem serversUpdateServeTime_sound {sys : System} (h : SoundSystem h₀ 1 a b sys) :
    Ensures (FailsJustIf False) (serversUpdateServeTime sys) w fun sys' w' =>
      SoundSystem h₀ 0 a b sys' ∧ w' = w := by
  simp only [serversUpdateServeTime, ensures_bind]
  apply (tickServers_sound h.standard).mono
  intro standard w₁ hpost
  obtain ⟨hstandard, rfl⟩ := hpost
  apply (tickServers_sound h.robotic).mono
  intro robotic w₂ hpost
  obtain ⟨hrobotic, rfl⟩ := hpost
  exact ⟨⟨h.door, hstandard, hrobotic⟩, rfl⟩

/-- A tick fails an assertion just if a start it comes to is over-boosted. -/
theorem systemTick_sound {sys : System} (h : SoundSystem h₀ 1 a a sys) (ha : a < 2 ^ 31)
    (htypes : SameTypes h₀ w.heap) :
    Ensures (FailsJustIf (TickOverBoosted env t sys w)) (systemTick env sys t) w fun sys' w' =>
      ¬ TickOverBoosted env t sys w ∧ SoundSystem h₀ 1 (a + 1) (a + 1) sys' ∧
        SameTypes h₀ w'.heap := by
  apply ensures_bind_returns (admitClient_sound h ha htypes)
  intro sys₁ w₁ hpost
  obtain ⟨hsys₁, htypes₁⟩ := hpost
  apply ensures_bind_returns (serversUpdateServeTime_sound hsys₁)
  intro sys₂ w₂ hpost
  obtain ⟨hsys₂, rfl⟩ := hpost
  apply ensures_bind_or_returns (updateClients_sound ha hsys₂.standard htypes₁)
  intro standard w₃ hpost
  obtain ⟨hstandard, htypes₃⟩ := hpost
  rw [ensures_bind]
  apply (updateClients_sound ha hsys₂.robotic htypes₃).mono
  intro robotic w₄ hpost
  obtain ⟨hnot, hrobotic, htypes₄⟩ := hpost
  exact ⟨hnot, ⟨hsys₂.door, hstandard, hrobotic⟩, htypes₄⟩

theorem loopOverBoosted_succ {sys : System} {n : ℕ} :
    LoopOverBoosted env sys w (n + 1) ↔ LoopOverBoosted env sys w n ∨
      Returns (simulateLoop env sys n) w fun sys w => TickOverBoosted env n sys w := by
  constructor
  · intro hloop
    obtain ⟨u, hu, hover⟩ := hloop
    rcases Nat.lt_succ_iff_lt_or_eq.mp hu with hu | rfl
    · exact Or.inl ⟨u, hu, hover⟩
    · exact Or.inr hover
  · intro hover
    rcases hover with ⟨u, hu, hover⟩ | hover
    · exact ⟨u, hu.trans (Nat.lt_succ_self n), hover⟩
    · exact ⟨n, Nat.lt_succ_self n, hover⟩

/-- The loop of `simulate` fails an assertion just if a start it comes to is
over-boosted: one tick adds at most one client to any queue. -/
theorem simulateLoop_sound {sys : System} (h : SoundSystem w.heap 1 0 0 sys) {n : ℕ}
    (hn : (n : ℤ) ≤ intMax) :
    Ensures (FailsJustIf (LoopOverBoosted env sys w n)) (simulateLoop env sys n) w fun sys' w' =>
      ¬ LoopOverBoosted env sys w n ∧ SoundSystem w.heap 1 n n sys' ∧
        SameTypes w.heap w'.heap := by
  induction n with
  | zero => exact ⟨fun ⟨_, hu, _⟩ => absurd hu (Nat.not_lt_zero _), h, fun _ => ⟨rfl, rfl⟩⟩
  | succ n ih =>
    rw [loopOverBoosted_succ]
    push_cast at hn
    apply ensures_bind_or_returns (ih (by omega))
    intro sys₁ w₁ hpost
    obtain ⟨hsys₁, htypes₁⟩ := hpost
    exact systemTick_sound hsys₁ (by unfold intMax at hn; omega) htypes₁

/-- Neither assertion on service times fails in the first `n` ticks of the loop,
and after each of them every service has a tick left. -/
structure ServicesLast (env : Env) (sys : System) (w : World) (n : ℕ) : Prop where
  start : simulateLoop env sys n w ≠ .error (.assertionFailed .startToServe)
  tick : simulateLoop env sys n w ≠ .error (.assertionFailed .tickToServe)
  lasting : ∀ m sys' w', m ≤ n → simulateLoop env sys m w = .ok (sys', w') →
    ∀ s ∈ servers sys', s.2.base.currentClient ≠ none → 1 ≤ s.2.base.toServe

theorem bounded_empty {q : Queue ClientPtr} (hq : Holds q []) : Bounded h₀ 0 q := by
  obtain ⟨hvalid, hcontents⟩ := hq
  refine ⟨hvalid, ?_, by simp [hcontents]⟩
  rw [← hvalid.length_contents, hcontents, List.length_nil]

theorem freshServer_sound (hs : FreshServer s) (hboost : ∀ r ∈ boostRate s, 0 < r) :
    Sound h₀ 1 0 0 s := by
  have hbase := hs.base
  refine ⟨fun q hq => ?_, bounded_empty hbase.finished, hbase.table, hboost,
    by simp [hbase.current], by simp [hbase.current]⟩
  cases s with
  | standard s =>
    obtain rfl := List.mem_singleton.mp hq
    exact bounded_empty hs.2
  | robotic s =>
    rcases List.mem_pair.mp hq with rfl | rfl
    · exact bounded_empty hs.2.1
    · exact bounded_empty hs.2.2

theorem scenario_sound (S : Scenario) : SoundSystem S.world.heap 1 0 0 S.system where
  door := ⟨S.clients, S.clients.size, S.systemClients_eq, S.clients_valid, le_refl _,
    S.types_valid⟩
  standard s hs := freshServer_sound (S.standard_fresh s hs) (by cases s; simp [boostRate])
  robotic s hs := freshServer_sound (S.robotic_fresh s hs).1 (S.robotic_fresh s hs).2

/-- A server of each kind, the robotic one with a boost rate of 9, and first a
client of type 1, whose table time is 8. -/
def hasty : Scenario :=
  small 9 (newcomer 0 1 .type1) (newcomer 1 3 .noDisability) .drawn Nat.ofNat_pos
    (newcomer_valid 0 1 (by decide)) (newcomer_valid 1 3 (by decide))

end AcaBSim.ServiceAssertions
