import AcaBSim.Servers

/-!
The system of system.c: admission of clients, routing to the least loaded
server, the tick of all servers and the simulation loop, with the statistics
that `compute_stats` draws up when the loop ends.
-/
namespace AcaBSim.Systems

open Machine ArrayQueue Clients Servers Outcome

/-- The sizes of the two server arrays are the lengths of the lists. -/
structure System where
  systemClients : Option (Queue ClientPtr)
  standardServers : List (Server .standard)
  roboticServers : List (Server .robotic)

variable {k : ServerType}

/-- The admitted client, if the head of the queue arrives now, and the queue. -/
def getClient (env : Env) (clients : Queue ClientPtr) (t : ℤ) :
    Prog (Option ClientPtr × Queue ClientPtr) := do
  let top ← queueTop clients
  match top with
  | none => pure (none, clients)
  | some p => do
    let c ← readClient p
    if c.serviceStat.arrivalTime = t then do
      let (popped, clients) ← queuePop (← nextGranted env) clients
      if popped then do
        writeClient p { c with serviceStat := .zero }
        pure (some p, clients)
      else throw .exitFailure
    else pure (none, clients)

/-- Either selection loop of `assign_client`, from index `i` on: the index and
the load of the selected server. -/
def lowLoad : ℕ → Option ℕ × ℤ → List ℤ → Option ℕ × ℤ
  | _, selected, [] => selected
  | i, (low, minLoad), load :: rest =>
    if minLoad > load then lowLoad (i + 1) (some i, load) rest
    else lowLoad (i + 1) (low, minLoad) rest

/-- `server_assign_client` on the server at a selected index. -/
def assignTo (env : Env) (servers : List (Server k)) (low : Option ℕ) (p : ClientPtr) :
    Prog (List (Server k)) :=
  match low with
  | none => throw .nullDereference
  | some i =>
    match servers[i]? with
    | none => throw .outOfBounds
    | some s => do
      let (_, s) ← serverAssignClient env s p
      pure (servers.set i s)

def assignStandard (env : Env) (sys : System) (low : Option ℕ) (p : ClientPtr) :
    Prog System := do
  let servers ← assignTo env sys.standardServers low p
  pure { sys with standardServers := servers }

def assignRobotic (env : Env) (sys : System) (low : Option ℕ) (p : ClientPtr) :
    Prog System := do
  let servers ← assignTo env sys.roboticServers low p
  pure { sys with roboticServers := servers }

def assignClient (env : Env) (sys : System) (p : ClientPtr) : Prog System := do
  let c ← readClient p
  let (lowStandard, minStandard) := lowLoad 0 (none, intMax)
    (sys.standardServers.map fun s => serverGetLoad s c.disabilityType)
  let (lowRobotic, minRobotic) := lowLoad 0 (none, intMax)
    (sys.roboticServers.map fun s => serverGetLoad s c.disabilityType)
  if lowRobotic.isNone && lowStandard.isNone then throw (.assertionFailed .lowLoadServer)
  else if c.disabilityType ≠ .noDisability ∧ lowRobotic.isSome then
    assignRobotic env sys lowRobotic p
  else if lowStandard.isNone then assignRobotic env sys lowRobotic p
  else if lowRobotic.isNone then assignStandard env sys lowStandard p
  else if minRobotic < minStandard then assignRobotic env sys lowRobotic p
  else assignStandard env sys lowStandard p

/-- Either loop of `servers_update_serve_time`. -/
def tickServers : List (Server k) → Prog (List (Server k))
  | [] => pure []
  | s :: rest => do
    let base ← serverTick s.base
    let rest ← tickServers rest
    pure (s.withBase base :: rest)

def serversUpdateServeTime (sys : System) : Prog System := do
  let standard ← tickServers sys.standardServers
  let robotic ← tickServers sys.roboticServers
  pure { sys with standardServers := standard, roboticServers := robotic }

/-- The service part of the loop body of `update_clients`. -/
def serveServer (env : Env) (s : Server k) (t : ℤ) : Prog (Server k) := do
  if serverIsActive s then
    if serverIsServiceFinished s then do
      let successful ← serverIsServiceSuccessful env s
      if successful then do
        let (finished, s) ← serverFinalizeCurrentClient env s
        clientFinalize finished t
        serverSetNextClient env s t
      else serverRetry s
    else pure s
  else serverSetNextClient env s t

def updateClients (env : Env) (t : ℤ) : List (Server k) → Prog (List (Server k))
  | [] => pure []
  | s :: rest => do
    let s ← serveServer env s t
    let s ← serverUpdateStat s t
    let rest ← updateClients env t rest
    pure (s :: rest)

def serversRun (env : Env) (sys : System) (t : ℤ) : Prog System := do
  let sys ← serversUpdateServeTime sys
  let standard ← updateClients env t sys.standardServers
  let robotic ← updateClients env t sys.roboticServers
  pure { sys with standardServers := standard, roboticServers := robotic }

/-- The first half of `system_tick`: a new client enters and is assigned. -/
def admitClient (env : Env) (sys : System) (t : ℤ) : Prog System :=
  match sys.systemClients with
  | none => throw .nullDereference
  | some clients => do
    let (newClient, clients) ← getClient env clients t
    let sys := { sys with systemClients := some clients }
    match newClient with
    | none => pure sys
    | some p => assignClient env sys p

def systemTick (env : Env) (sys : System) (t : ℤ) : Prog System := do
  let sys ← admitClient env sys t
  serversRun env sys t

/-- The loop of `simulate` after `n` ticks, at times `0` to `n - 1`. -/
def simulateLoop (env : Env) (sys : System) : ℕ → Prog System
  | 0 => pure sys
  | n + 1 => do
    let sys ← simulateLoop env sys n
    systemTick env sys n

structure SimStat where
  totalClients : ℤ
  meanQueueSize : ℤ
  meanWaitTime : ℤ
  meanServeTime : ℤ
  ndMeanWaitTime : ℤ
  ndMeanServeTime : ℤ
  t1MeanWaitTime : ℤ
  t1MeanServeTime : ℤ
  t2MeanWaitTime : ℤ
  t2MeanServeTime : ℤ
  t3MeanWaitTime : ℤ
  t3MeanServeTime : ℤ
deriving DecidableEq, Repr

/-- One triple of counters of `compute_stats`. -/
structure Totals where
  total : ℤ
  waitTime : ℤ
  serviceTime : ℤ
deriving DecidableEq, Repr

def computeClientStats (c : Client) (totals : Totals) : Except Fault Totals := do
  let total ← checkInt (totals.total + 1)
  let waitTime ← checkInt (totals.waitTime + c.serviceStat.waitTime)
  let serviceTime ← checkInt (totals.serviceTime + c.serviceStat.totalTime)
  .ok { total := total, waitTime := waitTime, serviceTime := serviceTime }

/-- The local variables of `compute_stats`. -/
structure Counters where
  totalQueueLen : ℤ
  nd : Totals
  t1 : Totals
  t2 : Totals
  t3 : Totals
  all : Totals
deriving DecidableEq, Repr

def Totals.zero : Totals := ⟨0, 0, 0⟩

def Counters.zero : Counters := ⟨0, .zero, .zero, .zero, .zero, .zero⟩

/-- The loop body of `compute_stats` for one finished client. -/
def Counters.addClient (counters : Counters) (c : Client) : Except Fault Counters := do
  let counters ←
    match c.disabilityType with
    | .noDisability => do
      let nd ← computeClientStats c counters.nd
      .ok { counters with nd := nd }
    | .type1 => do
      let t1 ← computeClientStats c counters.t1
      .ok { counters with t1 := t1 }
    | .type2 => do
      let t2 ← computeClientStats c counters.t2
      .ok { counters with t2 := t2 }
    | .type3 => do
      let t3 ← computeClientStats c counters.t3
      .ok { counters with t3 := t3 }
    | .other _ => .ok counters
  let all ← computeClientStats c counters.all
  .ok { counters with all := all }

/-- `total > 0 ? sum / total : 0`. -/
def meanOrZero (sum total : ℤ) : ℤ := if total > 0 then sum.tdiv total else 0

/-- The iterator loop over a finished queue; the fuel is the number of steps
left, which the queue's size bounds. -/
def countFinished (heap : Heap) : ℕ → Option (QueueIterator ClientPtr) → Counters →
    Except Fault Counters
  | 0, _, counters => .ok counters
  | fuel + 1, iterator, counters =>
    if queueIteratorHasNext iterator then do
      let (item, iterator) ← queueIteratorNext iterator
      match item with
      | none => .error .nullDereference
      | some p => do
        let counters ← counters.addClient (heap p)
        countFinished heap fuel iterator counters
    else .ok counters

/-- The outer loop of `compute_stats` over both server arrays in turn. -/
def countServers (env : Env) : List BaseServer → Counters → Prog Counters
  | [], counters => pure counters
  | b :: rest, counters => do
    let total ← checkInt (counters.totalQueueLen + b.stat.meanServerQueueLen)
    let granted ← nextGranted env
    let iterator := queueIteratorCreate granted b.finishedClientsQueue
    let w ← get
    let counters ← countFinished w.heap (queueSize b.finishedClientsQueue) iterator
      { counters with totalQueueLen := total }
    countServers env rest counters

/-- The mean queue size is divided as a `size_t` and converted back. -/
def computeStats (env : Env) (sys : System) (stat : SimStat) : Prog SimStat := do
  let bases := sys.standardServers.map Server.base ++ sys.roboticServers.map Server.base
  let counters ← countServers env bases .zero
  pure { stat with
    ndMeanWaitTime := meanOrZero counters.nd.waitTime counters.nd.total
    ndMeanServeTime := meanOrZero counters.nd.serviceTime counters.nd.total
    t1MeanWaitTime := meanOrZero counters.t1.waitTime counters.t1.total
    t1MeanServeTime := meanOrZero counters.t1.serviceTime counters.t1.total
    t2MeanWaitTime := meanOrZero counters.t2.waitTime counters.t2.total
    t2MeanServeTime := meanOrZero counters.t2.serviceTime counters.t2.total
    t3MeanWaitTime := meanOrZero counters.t3.waitTime counters.t3.total
    t3MeanServeTime := meanOrZero counters.t3.serviceTime counters.t3.total
    meanQueueSize :=
      if bases.length > 0 then
        wrapInt ((counters.totalQueueLen % 2 ^ 64) / bases.length)
      else 0
    meanServeTime := meanOrZero counters.all.serviceTime counters.all.total
    meanWaitTime := meanOrZero counters.all.waitTime counters.all.total }

/-- The statistics `simulate` starts its loop with. -/
def SimStat.withTotalClients (stat : SimStat) (clients : Queue ClientPtr) : SimStat :=
  { stat with totalClients := wrapInt (queueSize clients) }

/-- The lookup of `standard_servers[0]` precedes every check; its result is
not used. -/
def simulate (env : Env) (system : Option System) (simulationTime : ℤ)
    (stat : Option SimStat) : Prog (System × SimStat) :=
  match system with
  | none => throw .nullDereference
  | some sys =>
    match sys.standardServers with
    | [] => throw .outOfBounds
    | _ :: _ =>
      match sys.systemClients with
      | none => throw .exitFailure
      | some clients =>
        if sys.roboticServers.length + sys.standardServers.length = 0 then
          throw .exitFailure
        else
          match stat with
          | none => throw .exitFailure
          | some stat => do
            let final ← simulateLoop env sys simulationTime.toNat
            let stat ← computeStats env final (stat.withTotalClients clients)
            pure (final, stat)

end AcaBSim.Systems
