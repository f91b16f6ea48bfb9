import AcaBSim.Visits

/-!
Where the assertion on the mean queue length can fail: in `server_update_stat`
alone. The other parts of a tick may stop for many reasons, but not for this one.
-/
namespace AcaBSim.MeanAssertion

open Machine ArrayQueue Clients Servers Systems Outcome Scenarios Sweeps Visits

/-- The error is not that of the assertion. -/
def Unrelated (e : Fault) : Prop := e ≠ .assertionFailed .meanServerQueueLen

/-- The program never fails the assertion. -/
def Spares {α : Type} (x : Prog α) : Prop := ∀ w, Ensures Unrelated x w fun _ _ => True

section Rules

variable {α β : Type}

theorem spares_pure (a : α) : Spares (pure a) := fun _ => trivial

theorem spares_throw {e : Fault} (he : Unrelated e) : Spares (throw e : Prog α) := fun _ => he

theorem spares_bind {x : Prog α} {f : α → Prog β} (hx : Spares x) (hf : ∀ a, Spares (f a)) :
    Spares (x >>= f) := by
  intro w
  rw [ensures_bind]
  exact (hx w).mono fun a t _ => hf a t

theorem spares_lift {v : Except Fault α} (h : ∀ e, v = .error e → Unrelated e) :
    Spares (liftM v : Prog α) := by
  intro w
  cases hv : v with
  | ok a => exact trivial
  | error e => exact h e hv

theorem spares_lift_ok (a : α) : Spares (liftM (.ok a : Except Fault α) : Prog α) :=
  fun _ => trivial

theorem spares_lift_error {e : Fault} (he : Unrelated e) :
    Spares (liftM (.error e : Except Fault α) : Prog α) := fun _ => he

theorem spares_checkInt (x : ℤ) : Spares (liftM (checkInt x) : Prog ℤ) := by
  refine spares_lift fun e he => ?_
  unfold checkInt at he
  split at he
  · cases he
  · cases he
    exact nofun

theorem spares_nextGranted (env : Env) : Spares (nextGranted env) := fun _ => trivial

theorem spares_nextRand (env : Env) : Spares (nextRand env) := fun _ => trivial

theorem spares_readClient (p : ClientPtr) : Spares (readClient p) := fun _ => trivial

theorem spares_writeClient (p : ClientPtr) (c : Client) : Spares (writeClient p c) :=
  fun _ => trivial

end Rules

section Queues

variable {α : Type} {e : Fault}

theorem readItem_error {items : List (Option α)} {i : ℕ} (h : readItem items i = .error e) :
    e = .outOfBounds := by
  unfold readItem at h
  split at h
  · cases h
  · cases h
    rfl

theorem writeItem_error {items : List (Option α)} {i : ℕ} {cell : Option α}
    (h : writeItem items i cell = .error e) : e = .outOfBounds := by
  unfold writeItem at h
  split at h
  · cases h
  · cases h
    rfl

theorem shiftItems_error {n i : ℕ} {last : Option α} {items : List (Option α)}
    (h : shiftItems n i last items = .error e) : e = .outOfBounds := by
  induction n generalizing i last items with
  | zero => cases h
  | succ n ih =>
    simp only [shiftItems, Bind.bind, Except.bind] at h
    split at h
    · rename_i hread
      cases h
      exact readItem_error hread
    · split at h
      · rename_i hwrite
        cases h
        exact writeItem_error hwrite
      · exact ih h

theorem pushBack_error {q : Queue α} {item : Option α} (h : pushBack q item = .error e) :
    e = .outOfBounds := by
  simp only [pushBack, Bind.bind, Except.bind] at h
  split at h
  · rename_i hread
    cases h
    exact readItem_error hread
  · split at h
    · rename_i hshift
      cases h
      exact shiftItems_error hshift
    · split at h
      · rename_i hwrite
        cases h
        exact writeItem_error hwrite
      · cases h

/-- A push can only stop at a cell that does not exist. -/
theorem queuePush_error {granted : Bool} {q : Queue α} {item : Option α}
    (h : queuePush granted q item = .error e) : e = .outOfBounds := by
  unfold queuePush at h
  split at h
  · cases h
  · split at h
    · split at h
      · cases h
      · exact pushBack_error h
    · split at h
      · simp only [Bind.bind, Except.bind] at h
        split at h
        · rename_i hwrite
          cases h
          exact writeItem_error hwrite
        · cases h
      · exact pushBack_error h

theorem queueTop_error {q : Queue α} (h : queueTop q = .error e) : e = .outOfBounds := by
  unfold queueTop at h
  split at h
  · exact readItem_error h
  · cases h

theorem queuePop_error {granted : Bool} {q : Queue α} (h : queuePop granted q = .error e) :
    e = .outOfBounds := by
  unfold queuePop at h
  split at h
  · cases h
  · simp only [Bind.bind, Except.bind] at h
    split at h
    · rename_i hwrite
      cases h
      exact writeItem_error hwrite
    · split at h
      · cases h
      · cases h

theorem unrelated_outOfBounds (he : e = .outOfBounds) : Unrelated e := he ▸ nofun

theorem spares_queuePush (granted : Bool) (q : Queue α) (item : Option α) :
    Spares (liftM (queuePush granted q item)) :=
  spares_lift fun _ h => unrelated_outOfBounds (queuePush_error h)

theorem spares_queueTop (q : Queue α) : Spares (liftM (queueTop q)) :=
  spares_lift fun _ h => unrelated_outOfBounds (queueTop_error h)

theorem spares_queuePop (granted : Bool) (q : Queue α) : Spares (liftM (queuePop granted q)) :=
  spares_lift fun _ h => unrelated_outOfBounds (queuePop_error h)

end Queues

section Servers

variable {k : ServerType} {env : Env} {t : ℤ}

theorem spares_getServiceTime (s : Server k) (c : Client) :
    Spares (liftM (getServiceTime s c)) := by
  unfold getServiceTime
  split
  · exact spares_lift_error nofun
  · split
    · exact spares_lift_ok _
    · split
      · exact spares_lift_error nofun
      · exact spares_checkInt _

theorem spares_startService (asserted : Bool) (s : Server k) (next : Option ClientPtr) :
    Spares (startService asserted s next t) := by
  unfold startService
  split
  · exact spares_throw nofun
  · refine spares_bind (spares_readClient _) fun c => ?_
    refine spares_bind (spares_getServiceTime s c) fun toServe => ?_
    split
    · exact spares_throw nofun
    · exact spares_bind (spares_checkInt _) fun _ => spares_bind (spares_writeClient _ _) fun _ =>
        spares_pure _

theorem spares_takeNext (q : Queue ClientPtr) (rebuild : Queue ClientPtr → Server k)
    (asserted : Bool) :
    Spares (do
      let next ← queueTop q
      let (popped, q) ← queuePop (← nextGranted env) q
      if !popped then throw .exitFailure
      else startService asserted (rebuild q) next t) := by
  refine spares_bind (spares_queueTop q) fun next => spares_bind (spares_nextGranted env) fun _ =>
    spares_bind (spares_queuePop _ q) fun r => ?_
  dsimp only
  split
  · exact spares_throw nofun
  · exact spares_startService _ _ _

theorem spares_serverSetNextClient (s : Server k) : Spares (serverSetNextClient env s t) := by
  cases s with
  | standard s =>
    simp only [serverSetNextClient, standardServerSetNextClient]
    split
    · exact spares_takeNext _ (fun q => .standard { s with clientQueue := q }) _
    · exact spares_pure _
  | robotic s =>
    simp only [serverSetNextClient, roboticServerSetNextClient]
    split
    · exact spares_takeNext _ (fun q => .robotic { s with disableClientQueue := q }) _
    · split
      · exact spares_takeNext _ (fun q => .robotic { s with normalClientQueue := q }) _
      · exact spares_pure _

theorem spares_serverIsServiceSuccessful (s : Server k) :
    Spares (serverIsServiceSuccessful env s) := by
  refine spares_bind (spares_nextRand env) fun r => ?_
  split
  · exact spares_pure _
  · split
    · exact spares_throw nofun
    · exact spares_bind (spares_readClient _) fun _ => spares_pure _

theorem spares_serverFinalizeCurrentClient (s : Server k) :
    Spares (serverFinalizeCurrentClient env s) := by
  refine spares_bind (spares_checkInt _) fun _ => spares_bind (spares_nextGranted env) fun _ =>
    spares_bind (spares_queuePush _ _ _) fun r => ?_
  dsimp only
  split
  · exact spares_throw nofun
  · exact spares_pure _

theorem spares_clientFinalize (p : ClientPtr) : Spares (clientFinalize p t) :=
  spares_bind (spares_readClient p) fun _ => spares_bind (spares_checkInt _) fun _ =>
    spares_writeClient _ _

theorem spares_serverRetry (s : Server k) : Spares (serverRetry s) := by
  refine spares_bind (spares_checkInt _) fun _ => ?_
  split
  · exact spares_throw nofun
  · exact spares_bind (spares_readClient _) fun _ => spares_bind (spares_checkInt _) fun _ =>
      spares_bind (spares_writeClient _ _) fun _ => spares_bind (spares_getServiceTime _ _) fun _ =>
        spares_pure _

theorem spares_serveServer (s : Server k) : Spares (serveServer env s t) := by
  unfold serveServer
  split
  · split
    · refine spares_bind (spares_serverIsServiceSuccessful s) fun successful => ?_
      split
      · exact spares_bind (spares_serverFinalizeCurrentClient s) fun r =>
          spares_bind (spares_clientFinalize _) fun _ => spares_serverSetNextClient _
      · exact spares_serverRetry s
    · exact spares_pure s
  · exact spares_serverSetNextClient s

end Servers

end AcaBSim.MeanAssertion
