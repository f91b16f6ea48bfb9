import AcaBSim.Clients

/-!
The generator of clients: the two samples of utils.c, and `client_new` and
`clients_init` of client.c. The client that a served request of `client_new`
returns is numbered by that request, and keeps in the fields nobody assigns
whatever lay there.
-/
namespace AcaBSim.ClientGenerator

open Machine ArrayQueue Clients Outcome

/-- The parameters of `clients_init`. -/
structure Parameters where
  disabilityProb : ℚ
  destinationProb : ℚ
  finishTime : ℤ

/-- The state of the loop; `broke` says that it has been left by its `break`. -/
structure Generator where
  clients : Option (Queue ClientPtr)
  id : ℤ
  next : ℤ
  broke : Bool

/-- `sizeof (DISABILITY_TYPE)`: gcc gives the enumeration the size of `int`. -/
def disabilityTypeSize : ℕ := 4

def exponentialSample (env : Env) : Prog ℤ := do
  let r ← nextRand env
  pure (env.exponential r)

def unifromSample (env : Env) (a b : ℤ) : Prog ℤ := do
  let r ← nextRand env
  let difference ← checkInt (b - a)
  let width ← checkInt (difference + 1)
  let scaled ← checkInt (truncate (unitDraw r * width))
  checkInt (a + scaled)

/-- The result of `malloc` is used unchecked; `total_time` is not set. -/
def clientNew (env : Env) : Prog ClientPtr := do
  let w ← get
  let granted ← nextGranted env
  if granted then do
    let c ← readClient w.requests
    writeClient w.requests
      { c with serviceStat := { ClientServiceStat.zero with totalTime := c.serviceStat.totalTime } }
    pure w.requests
  else throw .nullDereference

/-- The `switch` of `clients_init`, whose default branch assigns nothing. -/
def disabilityTypeOf (sample : ℤ) : Option DisabilityType :=
  if sample = 0 then some .type1
  else if sample = 1 then some .type2
  else if sample = 2 then some .type3
  else none

/-- What `clients_init` assigns to the disability type, if anything. -/
def chooseDisability (env : Env) (disabilityProb : ℚ) : Prog (Option DisabilityType) := do
  let r ← nextRand env
  if unitDraw r < disabilityProb then do
    let sample ← unifromSample env 0 (disabilityTypeSize - 2)
    pure (disabilityTypeOf sample)
  else pure (some .noDisability)

def chooseDestination (env : Env) (destinationProb : ℚ) : Prog Destination := do
  let r ← nextRand env
  if unitDraw r < destinationProb then pure .dest2 else pure .dest1

/-- `queue_push` on a queue that may be NULL; its value is ignored. -/
def pushClient (env : Env) (clients : Option (Queue ClientPtr)) (p : ClientPtr) :
    Prog (Option (Queue ClientPtr)) :=
  match clients with
  | none => pure none
  | some q => do
    let (_, q) ← queuePush (← nextGranted env) q (some p)
    pure (some q)

/-- One pass of the loop of `clients_init`. -/
def generateClient (env : Env) (params : Parameters) (g : Generator) : Prog Generator := do
  let gap ← exponentialSample env
  let next ← checkInt (g.next + gap)
  if next ≥ params.finishTime then pure { g with next := next, broke := true }
  else do
    let p ← clientNew env
    let id ← checkInt (g.id + 1)
    let disabilityType ← chooseDisability env params.disabilityProb
    let destination ← chooseDestination env params.destinationProb
    let c ← readClient p
    writeClient p
      { id := g.id
        serviceStat := { c.serviceStat with arrivalTime := next }
        disabilityType := disabilityType.getD c.disabilityType
        destination := destination }
    let clients ← pushClient env g.clients p
    pure { clients := clients, id := id, next := next, broke := false }

/-- The loop of `clients_init` after at most `n` passes. -/
def generatorLoop (env : Env) (params : Parameters) (g : Generator) : ℕ → Prog Generator
  | 0 => pure g
  | n + 1 => do
    let g ← generatorLoop env params g n
    if g.broke then pure g else generateClient env params g

/-- `clients_init` with at most `n` passes of its loop. -/
def clientsInit (env : Env) (params : Parameters) (n : ℕ) : Prog Generator := do
  let clients := queueInit (← nextGranted env) (← nextGranted env) queueBaseSize
  generatorLoop env params { clients := clients, id := 0, next := 0, broke := false } n

end AcaBSim.ClientGenerator
