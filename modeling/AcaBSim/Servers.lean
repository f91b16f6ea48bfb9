import AcaBSim.Clients

/-!
The service table and the two kinds of server of server.c. A `server_t *` is a
`Server k` whose index is the type tag, so the `INVALID` tag and a cast to the
wrong kind do not exist here. A function that changes a server returns it.
-/
namespace AcaBSim.Servers

open Machine ArrayQueue Clients Outcome

structure Service where
  disabilityType : DisabilityType
  dest : Destination
  serviceTime : ℤ
deriving DecidableEq, Repr

/-- The hash map of hashmap.c, as the finite map it implements: at most one
entry for each key. -/
abbrev ServiceTable := List Service

/-- `service_compare`: nonzero when the keys differ. -/
def serviceCompare (a b : Service) : Bool :=
  a.disabilityType != b.disabilityType || a.dest != b.dest

def hashmapGet (table : ServiceTable) (key : Service) : Option Service :=
  table.find? fun item => !serviceCompare item key

def hashmapSet (table : ServiceTable) (item : Service) : ServiceTable :=
  if (hashmapGet table item).isSome then
    table.map fun old => if !serviceCompare old item then item else old
  else table ++ [item]

def initTable : ServiceTable :=
  [(⟨.noDisability, .dest1, 4⟩ : Service), ⟨.noDisability, .dest2, 6⟩,
    ⟨.type1, .dest1, 8⟩, ⟨.type1, .dest2, 10⟩,
    ⟨.type2, .dest1, 10⟩, ⟨.type2, .dest2, 14⟩,
    ⟨.type3, .dest1, 18⟩, ⟨.type3, .dest2, 16⟩].foldl hashmapSet []

structure ServerStat where
  activeTime : ℤ
  idleTime : ℤ
  clientServed : ℤ
  failureCount : ℤ
  sumQueueLens : ℤ
  meanServerQueueLen : ℤ
deriving DecidableEq, Repr

/-- `(server_stat_t){ 0 }`. -/
def ServerStat.zero : ServerStat := ⟨0, 0, 0, 0, 0, 0⟩

structure BaseServer where
  id : ℤ
  serviceTimeTable : ServiceTable
  currentClient : Option ClientPtr
  toServe : ℤ
  errorProb : ℚ
  stat : ServerStat
  finishedClientsQueue : Queue ClientPtr
deriving DecidableEq, Repr

structure StandardServer where
  base : BaseServer
  clientQueue : Queue ClientPtr
deriving DecidableEq, Repr

structure RoboticServer where
  base : BaseServer
  boostRate : ℚ
  disableClientQueue : Queue ClientPtr
  normalClientQueue : Queue ClientPtr
deriving DecidableEq, Repr

inductive ServerType
  | standard
  | robotic
deriving DecidableEq, Repr

inductive Server : ServerType → Type
  | standard (server : StandardServer) : Server .standard
  | robotic (server : RoboticServer) : Server .robotic

variable {k : ServerType}

def Server.base : Server k → BaseServer
  | .standard s => s.base
  | .robotic s => s.base

def Server.withBase (base : BaseServer) : Server k → Server k
  | .standard s => .standard { s with base := base }
  | .robotic s => .robotic { s with base := base }

/-- `malloc` leaves `to_serve` as it finds it. -/
def standardServerNew (env : Env) (serverId : ℤ) (table : ServiceTable) (errorProb : ℚ)
    (toServe : ℤ) : Prog (Option StandardServer) := do
  let granted ← nextGranted env
  if !granted then pure none
  else do
    let finished := queueInit (← nextGranted env) (← nextGranted env) queueBaseSize
    let waiting := queueInit (← nextGranted env) (← nextGranted env) queueBaseSize
    match waiting, finished with
    | some clientQueue, some finishedClientsQueue =>
      pure (some {
        base := {
          id := serverId
          serviceTimeTable := table
          currentClient := none
          toServe := toServe
          errorProb := errorProb
          stat := .zero
          finishedClientsQueue := finishedClientsQueue }
        clientQueue := clientQueue })
    | _, _ => pure none

def roboticServerNew (env : Env) (serverId : ℤ) (table : ServiceTable) (boostRate : ℚ)
    (errorProb : ℚ) (toServe : ℤ) : Prog (Option RoboticServer) := do
  let granted ← nextGranted env
  if !granted then pure none
  else do
    let finished := queueInit (← nextGranted env) (← nextGranted env) queueBaseSize
    let disable := queueInit (← nextGranted env) (← nextGranted env) queueBaseSize
    let normal := queueInit (← nextGranted env) (← nextGranted env) queueBaseSize
    match disable, normal, finished with
    | some disableClientQueue, some normalClientQueue, some finishedClientsQueue =>
      pure (some {
        base := {
          id := serverId
          serviceTimeTable := table
          currentClient := none
          toServe := toServe
          errorProb := errorProb
          stat := .zero
          finishedClientsQueue := finishedClientsQueue }
        boostRate := boostRate
        disableClientQueue := disableClientQueue
        normalClientQueue := normalClientQueue })
    | _, _, _ => pure none

/-- The value of `queue_push` is ignored. -/
def assignClientToStandardServer (env : Env) (s : StandardServer) (p : ClientPtr) :
    Prog StandardServer := do
  let (_, q) ← queuePush (← nextGranted env) s.clientQueue (some p)
  pure { s with clientQueue := q }

def assignClientToRoboticServer (env : Env) (s : RoboticServer) (p : ClientPtr) :
    Prog RoboticServer := do
  let c ← readClient p
  if c.disabilityType = .noDisability then do
    let (_, q) ← queuePush (← nextGranted env) s.normalClientQueue (some p)
    pure { s with normalClientQueue := q }
  else do
    let (_, q) ← queuePush (← nextGranted env) s.disableClientQueue (some p)
    pure { s with disableClientQueue := q }

/-- The code returns 0 for both kinds of server, whatever the push did. -/
def serverAssignClient (env : Env) (s : Server k) (p : ClientPtr) : Prog (ℤ × Server k) :=
  match s with
  | .standard s => do
    let s ← assignClientToStandardServer env s p
    pure (0, .standard s)
  | .robotic s => do
    let s ← assignClientToRoboticServer env s p
    pure (0, .robotic s)

/-- A robotic time is `value->service_time / boost_rate`, converted to `int`.
A zero rate gives an infinite quotient, whose conversion is undefined. -/
def getServiceTime (s : Server k) (c : Client) : Except Fault ℤ :=
  match hashmapGet s.base.serviceTimeTable ⟨c.disabilityType, c.destination, 0⟩ with
  | none => .error .nullDereference
  | some value =>
    match s with
    | .standard _ => .ok value.serviceTime
    | .robotic r =>
      if r.boostRate = 0 then .error .intOverflow
      else checkInt (truncate (value.serviceTime / r.boostRate))

def serverTick (b : BaseServer) : Except Fault BaseServer :=
  match b.currentClient with
  | some _ =>
    if b.toServe > 0 then do
      let active ← checkInt (b.stat.activeTime + 1)
      .ok { b with stat := { b.stat with activeTime := active }, toServe := b.toServe - 1 }
    else .error (.assertionFailed .tickToServe)
  | none => do
    let idle ← checkInt (b.stat.idleTime + 1)
    .ok { b with stat := { b.stat with idleTime := idle } }

def getStandardServerLoad (s : StandardServer) : ℤ := wrapInt (queueSize s.clientQueue)

def getRoboticServerLoad (s : RoboticServer) (d : DisabilityType) : ℤ :=
  if d = .noDisability then
    wrapInt (queueSize s.normalClientQueue + queueSize s.disableClientQueue)
  else wrapInt (queueSize s.disableClientQueue)

def serverGetLoad (s : Server k) (d : DisabilityType) : ℤ :=
  match s with
  | .standard s => getStandardServerLoad s
  | .robotic s => getRoboticServerLoad s d

/-- What follows a successful pop in both `set_next_client` functions; only the
robotic one asserts that the service time is positive. -/
def startService (asserted : Bool) (s : Server k) (next : Option ClientPtr) (t : ℤ) :
    Prog (Server k) :=
  match next with
  | none => throw (.assertionFailed .nextClient)
  | some p => do
    let c ← readClient p
    let toServe ← getServiceTime s c
    if asserted && toServe ≤ 0 then throw (.assertionFailed .startToServe)
    else do
      let c := clientSetStartServiceTime c t
      let wait ← checkInt (t - c.serviceStat.arrivalTime)
      writeClient p (clientSetWaitTime c wait)
      pure (s.withBase { s.base with toServe := toServe, currentClient := some p })

/-- The branch of both `set_next_client` functions with nobody waiting. -/
def serveNobody (s : Server k) : Server k :=
  s.withBase { s.base with currentClient := none, toServe := 0 }

def standardServerSetNextClient (env : Env) (s : StandardServer) (t : ℤ) :
    Prog (Server .standard) :=
  if queueSize s.clientQueue ≠ 0 then do
    let next ← queueTop s.clientQueue
    let (popped, q) ← queuePop (← nextGranted env) s.clientQueue
    if !popped then throw .exitFailure
    else startService false (.standard { s with clientQueue := q }) next t
  else pure (serveNobody (.standard s))

def roboticServerSetNextClient (env : Env) (s : RoboticServer) (t : ℤ) :
    Prog (Server .robotic) :=
  if queueSize s.disableClientQueue ≠ 0 then do
    let next ← queueTop s.disableClientQueue
    let (popped, q) ← queuePop (← nextGranted env) s.disableClientQueue
    if !popped then throw .exitFailure
    else startService true (.robotic { s with disableClientQueue := q }) next t
  else if queueSize s.normalClientQueue ≠ 0 then do
    let next ← queueTop s.normalClientQueue
    let (popped, q) ← queuePop (← nextGranted env) s.normalClientQueue
    if !popped then throw .exitFailure
    else startService true (.robotic { s with normalClientQueue := q }) next t
  else pure (serveNobody (.robotic s))

def serverSetNextClient (env : Env) (s : Server k) (t : ℤ) : Prog (Server k) :=
  match s with
  | .standard s => standardServerSetNextClient env s t
  | .robotic s => roboticServerSetNextClient env s t

/-- `sum_queue_lens += total_queues_size` and the mean over `current_time + 1`. -/
def ServerStat.addQueueLen (stat : ServerStat) (total : ℕ) (t : ℤ) :
    Except Fault ServerStat := do
  let sum := wrapInt (stat.sumQueueLens + total)
  let ticks ← checkInt (t + 1)
  .ok { stat with sumQueueLens := sum, meanServerQueueLen := sum.tdiv ticks }

def standardServerUpdateStat (s : StandardServer) (t : ℤ) : Except Fault StandardServer := do
  let stat ← s.base.stat.addQueueLen (queueSize s.clientQueue) t
  if stat.meanServerQueueLen ≥ 0 then .ok { s with base := { s.base with stat := stat } }
  else .error (.assertionFailed .meanServerQueueLen)

/-- The assertion on the mean holds as long as the sum does not overflow. -/
theorem standardServerUpdateStat_fits {s : StandardServer} {t : ℤ} (ht : 0 ≤ t)
    (hsum : 0 ≤ s.base.stat.sumQueueLens)
    (hfits : s.base.stat.sumQueueLens + queueSize s.clientQueue ≤ intMax) :
    standardServerUpdateStat s t ≠ .error (.assertionFailed .meanServerQueueLen) := by
  have hlow : intMin ≤ s.base.stat.sumQueueLens + queueSize s.clientQueue := by
    unfold intMin
    omega
  have hmean : 0 ≤ (s.base.stat.sumQueueLens + queueSize s.clientQueue).tdiv (t + 1) :=
    Int.tdiv_nonneg (by omega) (by omega)
  simp only [standardServerUpdateStat, ServerStat.addQueueLen, wrapInt_of_range hlow hfits,
    checkInt]
  split
  · simp [Bind.bind, Except.bind, hmean]
  · simp [Bind.bind, Except.bind]

def roboticServerUpdateStat (s : RoboticServer) (t : ℤ) : Except Fault RoboticServer := do
  let stat ← s.base.stat.addQueueLen
    (queueSize s.normalClientQueue + queueSize s.disableClientQueue) t
  .ok { s with base := { s.base with stat := stat } }

def serverUpdateStat (s : Server k) (t : ℤ) : Except Fault (Server k) :=
  match s with
  | .standard s => do
    let s ← standardServerUpdateStat s t
    .ok (.standard s)
  | .robotic s => do
    let s ← roboticServerUpdateStat s t
    .ok (.robotic s)

def serverIsActive (s : Server k) : Bool := s.base.currentClient.isSome

def serverIsServiceFinished (s : Server k) : Bool :=
  s.base.currentClient.isSome && s.base.toServe == 0

/-- `error_prob < (double) rand () / RAND_MAX`, unless the environment fixes
the outcome of each attempt. -/
def serverIsServiceSuccessful (env : Env) (s : Server k) : Prog Bool := do
  let r ← nextRand env
  match env.outcomes with
  | .drawn => pure (decide (s.base.errorProb < unitDraw r))
  | .perAttempt succeeds =>
    match s.base.currentClient with
    | none => throw .nullDereference
    | some p => do
      let c ← readClient p
      pure (succeeds p c.serviceStat.failureCount)

/-- The value of `queue_push` is ignored; the log line reads the client's id. -/
def serverFinalizeCurrentClient (env : Env) (s : Server k) : Prog (ClientPtr × Server k) := do
  let served ← checkInt (s.base.stat.clientServed + 1)
  let (_, q) ← queuePush (← nextGranted env) s.base.finishedClientsQueue s.base.currentClient
  match s.base.currentClient with
  | none => throw .nullDereference
  | some finished =>
    pure (finished, s.withBase { s.base with
      stat := { s.base.stat with clientServed := served }
      finishedClientsQueue := q
      currentClient := none })

def serverRetry (s : Server k) : Prog (Server k) := do
  let failures ← checkInt (s.base.stat.failureCount + 1)
  match s.base.currentClient with
  | none => throw .nullDereference
  | some p => do
    let c ← readClient p
    let failed ← checkInt (c.serviceStat.failureCount + 1)
    let c := { c with serviceStat := { c.serviceStat with failureCount := failed } }
    writeClient p c
    let toServe ← getServiceTime s c
    pure (s.withBase { s.base with
      stat := { s.base.stat with failureCount := failures }
      toServe := toServe })

end AcaBSim.Servers
