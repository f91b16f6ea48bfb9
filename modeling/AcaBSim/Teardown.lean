import AcaBSim.ClientGenerator
import AcaBSim.Systems

/-!
One test of main.c, from `clients_init` to the last `free`. A routine that frees
returns the client pointers that it hands to `free`, in order; the memory of
the queues and the servers themselves is not followed.
-/
namespace AcaBSim.Teardown

open Machine ArrayQueue Clients Servers Systems Outcome ClientGenerator

variable {k : ServerType} {α : Type}

/-- The loop of `queue_free` over `n` cells from index `i` on; a NULL is not freed. -/
def freeItems (items : List (Option α)) (i : ℕ) : ℕ → Except Fault (List α)
  | 0 => .ok []
  | n + 1 => do
    let item ← readItem items i
    let rest ← freeItems items (i + 1) n
    .ok (item.toList ++ rest)

/-- `queue_free (queue, free)`. -/
def queueFree (queue : Option (Queue α)) : Except Fault (List α) :=
  match queue with
  | none => .ok []
  | some q => freeItems q.items 0 q.size

def serverBaseFree (b : BaseServer) : Except Fault (List ClientPtr) := do
  let finished ← queueFree (some b.finishedClientsQueue)
  .ok (finished ++ b.currentClient.toList)

def serverFree (s : Server k) : Except Fault (List ClientPtr) :=
  match s with
  | .standard s => do
    let base ← serverBaseFree s.base
    let waiting ← queueFree (some s.clientQueue)
    .ok (base ++ waiting)
  | .robotic s => do
    let base ← serverBaseFree s.base
    let normal ← queueFree (some s.normalClientQueue)
    let disable ← queueFree (some s.disableClientQueue)
    .ok (base ++ normal ++ disable)

/-- `server_free` on one server after the other. -/
def serversFree : List (Server k) → Except Fault (List ClientPtr)
  | [] => .ok []
  | s :: rest => do
    let freed ← serverFree s
    let others ← serversFree rest
    .ok (freed ++ others)

/-- `sim_param_t`. -/
structure SimParam where
  simulationTime : ℤ
  disabilityProb : ℚ
  robotBoostCoff : ℚ
  errorPerActProb : ℚ
  p1DestProb : ℚ

/-- What lies in the fields that are used before anything is assigned to them:
`to_serve` of both servers, and the statistics of the setup. -/
structure Unset where
  toServe₁ : ℤ
  toServe₂ : ℤ
  stats : SimStat

/-- The end of either setup: the simulation, and `server_free` on both servers.
The queue of the clients is that of the caller, as the simulation has left it. -/
def runSetup (env : Env) (system : System) (params : SimParam) (unset : Unset) :
    Prog (SimStat × Option (Queue ClientPtr) × List ClientPtr) := do
  let (final, stats) ← simulate env (some system) params.simulationTime (some unset.stats)
  let standard ← serversFree final.standardServers
  let robotic ← serversFree final.roboticServers
  pure (stats, final.systemClients, standard ++ robotic)

def setup0 (env : Env) (table : ServiceTable) (clients : Queue ClientPtr) (params : SimParam)
    (unset : Unset) : Prog (SimStat × Option (Queue ClientPtr) × List ClientPtr) := do
  let server₁ ← standardServerNew env 1 table params.errorPerActProb unset.toServe₁
  let server₂ ← standardServerNew env 2 table params.errorPerActProb unset.toServe₂
  match server₁, server₂ with
  | some s₁, some s₂ =>
    runSetup env
      { systemClients := some clients
        standardServers := [.standard s₁, .standard s₂]
        roboticServers := [] } params unset
  | _, _ => throw .exitFailure

def setup1 (env : Env) (table : ServiceTable) (clients : Queue ClientPtr) (params : SimParam)
    (unset : Unset) : Prog (SimStat × Option (Queue ClientPtr) × List ClientPtr) := do
  let server₁ ← standardServerNew env 0 table params.errorPerActProb unset.toServe₁
  let server₂ ← roboticServerNew env 1 table params.robotBoostCoff params.errorPerActProb
    unset.toServe₂
  match server₁, server₂ with
  | some s₁, some s₂ =>
    runSetup env
      { systemClients := some clients
        standardServers := [.standard s₁]
        roboticServers := [.robotic s₂] } params unset
  | _, _ => throw .exitFailure

/-- What the function pointer `setup` can be. -/
inductive Setup
  | setup0
  | setup1
deriving DecidableEq, Repr

def Setup.run (setup : Setup) (env : Env) (table : ServiceTable) (clients : Queue ClientPtr)
    (params : SimParam) (unset : Unset) :
    Prog (SimStat × Option (Queue ClientPtr) × List ClientPtr) :=
  match setup with
  | .setup0 => Teardown.setup0 env table clients params unset
  | .setup1 => Teardown.setup1 env table clients params unset

/-- The arguments of `clients_init` in `run_test`. -/
def SimParam.generator (params : SimParam) : Parameters where
  disabilityProb := params.disabilityProb
  destinationProb := params.p1DestProb
  finishTime := params.simulationTime

/-- `run_test`, if `clients_init` leaves its loop within `n` passes: the
statistics, and all client pointers handed to `free`. -/
def runTest (env : Env) (setup : Setup) (params : SimParam) (table : Option ServiceTable)
    (unset : Unset) (n : ℕ) : Prog (SimStat × List ClientPtr) := do
  let g ← clientsInit env params.generator n
  match table, g.clients with
  | some table, some clients => do
    let (stats, clients, freed) ← setup.run env table clients params unset
    let rest ← queueFree clients
    pure (stats, freed ++ rest)
  | _, _ => throw .exitFailure

end AcaBSim.Teardown
