import AcaBSim.ArrayQueue

/-!
Clients of client.h and client.c, and the memory they live in. Queues hold
pointers; the records are reached through the heap, so a client keeps one
record wherever its pointer travels.
-/
namespace AcaBSim.Clients

open Machine ArrayQueue Outcome

/-- `other raw` is a value that is none of the enumerators, such as what
`malloc` left in a field that was never assigned. -/
inductive DisabilityType
  | noDisability
  | type1
  | type2
  | type3
  | other (raw : ℕ)
deriving DecidableEq, Repr

inductive Destination
  | dest1
  | dest2
  | other (raw : ℕ)
deriving DecidableEq, Repr

def DisabilityType.Valid (d : DisabilityType) : Prop :=
  d = .noDisability ∨ d = .type1 ∨ d = .type2 ∨ d = .type3

def Destination.Valid (d : Destination) : Prop := d = .dest1 ∨ d = .dest2

instance : DecidablePred DisabilityType.Valid :=
  fun d => inferInstanceAs (Decidable (d = _ ∨ d = _ ∨ d = _ ∨ d = _))

instance : DecidablePred Destination.Valid :=
  fun d => inferInstanceAs (Decidable (d = _ ∨ d = _))

structure ClientServiceStat where
  arrivalTime : ℤ
  waitTime : ℤ
  startServiceTime : ℤ
  finishTime : ℤ
  failureCount : ℤ
  totalTime : ℤ
deriving DecidableEq, Repr

/-- `(client_service_stat_t){ 0 }`. -/
def ClientServiceStat.zero : ClientServiceStat := ⟨0, 0, 0, 0, 0, 0⟩

structure Client where
  id : ℤ
  serviceStat : ClientServiceStat
  disabilityType : DisabilityType
  destination : Destination
deriving DecidableEq, Repr

def Client.Valid (c : Client) : Prop := c.disabilityType.Valid ∧ c.destination.Valid

instance : DecidablePred Client.Valid :=
  fun c => inferInstanceAs (Decidable (c.disabilityType.Valid ∧ c.destination.Valid))

/-- What lies at each client pointer, allocated or not. -/
abbrev Heap := ClientPtr → Client

/-- Memory, the number of `rand ()` calls made and of memory requests made. -/
structure World where
  heap : Heap
  draws : ℕ
  requests : ℕ

/-- A piece of the program: it acts on the world and may stop the run. -/
abbrev Prog := StateT World (Except Fault)

def readClient (p : ClientPtr) : Prog Client := do
  let w ← get
  pure (w.heap p)

def writeClient (p : ClientPtr) (c : Client) : Prog Unit :=
  modify fun w => { w with heap := Function.update w.heap p c }

/-- `rand ()`. -/
def nextRand (env : Env) : Prog Rand := do
  let w ← get
  set { w with draws := w.draws + 1 }
  pure (env.rand w.draws)

/-- Whether the next request for memory is served. -/
def nextGranted (env : Env) : Prog Bool := do
  let w ← get
  set { w with requests := w.requests + 1 }
  pure (env.granted w.requests)

def clientSetWaitTime (c : Client) (time : ℤ) : Client :=
  { c with serviceStat := { c.serviceStat with waitTime := time } }

def clientSetStartServiceTime (c : Client) (time : ℤ) : Client :=
  { c with serviceStat := { c.serviceStat with startServiceTime := time } }

def clientSetFinishTime (c : Client) (time : ℤ) : Client :=
  { c with serviceStat := { c.serviceStat with finishTime := time } }

def clientSetTotalServiceTime (c : Client) (time : ℤ) : Client :=
  { c with serviceStat := { c.serviceStat with totalTime := time } }

def clientFinalize (p : ClientPtr) (time : ℤ) : Prog Unit := do
  let c ← readClient p
  let c := clientSetFinishTime c time
  let total ← checkInt (time - c.serviceStat.arrivalTime)
  writeClient p (clientSetTotalServiceTime c total)

variable {tol : Fault → Prop} {w : World}

@[simp] theorem ensures_readClient (p : ClientPtr) (Q : Client → World → Prop) :
    Ensures tol (readClient p) w Q ↔ Q (w.heap p) w := Iff.rfl

@[simp] theorem ensures_writeClient (p : ClientPtr) (c : Client) (Q : Unit → World → Prop) :
    Ensures tol (writeClient p c) w Q ↔
      Q () { w with heap := Function.update w.heap p c } := Iff.rfl

@[simp] theorem ensures_nextRand (env : Env) (Q : Rand → World → Prop) :
    Ensures tol (nextRand env) w Q ↔
      Q (env.rand w.draws) { w with draws := w.draws + 1 } := Iff.rfl

@[simp] theorem ensures_nextGranted (env : Env) (Q : Bool → World → Prop) :
    Ensures tol (nextGranted env) w Q ↔
      Q (env.granted w.requests) { w with requests := w.requests + 1 } := Iff.rfl

theorem ensures_checkInt_of_range {x : ℤ} {Q : ℤ → World → Prop}
    (htol : ¬ (intMin ≤ x ∧ x ≤ intMax) → tol .intOverflow)
    (h : intMin ≤ x ∧ x ≤ intMax → Q x w) :
    Ensures tol (liftM (checkInt x) : Prog ℤ) w Q := by
  unfold checkInt
  split
  · rename_i hrange
    exact h hrange
  · rename_i hrange
    exact htol hrange

/-- An operation whose exact value is in range yields it. -/
theorem ensures_checkInt_exact {x : ℤ} {Q : ℤ → World → Prop} (hrange : intMin ≤ x ∧ x ≤ intMax)
    (h : Q x w) : Ensures tol (liftM (checkInt x) : Prog ℤ) w Q :=
  ensures_checkInt_of_range (fun hnot => absurd hrange hnot) fun _ => h

/-- A checked operation stops for an excused reason or yields the exact value. -/
theorem ensures_checkInt {x : ℤ} {Q : ℤ → World → Prop} (htol : tol .intOverflow)
    (h : intMin ≤ x ∧ x ≤ intMax → Q x w) :
    Ensures tol (liftM (checkInt x) : Prog ℤ) w Q :=
  ensures_checkInt_of_range (fun _ => htol) h

end AcaBSim.Clients
