import AcaBSim.Simulation
import AcaBSim.Sweeps

/-!
Scenarios: a system as it is set up for a run, and what can be seen of it after
every tick of the loop of `simulate`. The clients are found in the queue of the
system, in the waiting queues of a server, with a server or among the clients a
server has finished; the loop follows the run of the scenario's network.
-/
namespace AcaBSim.Scenarios

open Machine ArrayQueue Clients Servers Systems Outcome Stations Networks ServerStations
  ServerSteps Routing Simulation Sweeps

variable {k : ServerType}

structure FreshBase (b : BaseServer) : Prop where
  table : b.serviceTimeTable = initTable
  current : b.currentClient = none
  stat : b.stat = .zero
  finished : Holds b.finishedClientsQueue []

/-- A server as its constructor returns it. -/
def FreshServer : Server k → Prop
  | .standard s => FreshBase s.base ∧ Holds s.clientQueue []
  | .robotic s => FreshBase s.base ∧ Holds s.disableClientQueue [] ∧ Holds s.normalClientQueue []

/-- A system ready for a run: some server, all servers fresh and with positive
boost rates, distinct clients of valid types, and memory for every request. -/
structure Scenario where
  env : Env
  system : System
  world : World
  clients : Queue ClientPtr
  systemClients_eq : system.systemClients = some clients
  allocations : env.AllocationsSucceed
  clients_valid : clients.Valid
  clients_nodup : (contents clients).Nodup
  types_valid : ∀ p ∈ contents clients, (world.heap p).Valid
  nonempty : system.standardServers ≠ [] ∨ system.roboticServers ≠ []
  standard_fresh : ∀ s ∈ system.standardServers, FreshServer s
  robotic_fresh : ∀ s ∈ system.roboticServers, FreshServer s ∧ ∀ b ∈ boostRate s, 0 < b

/-- A server of either kind. -/
abbrev AnyServer := (k : ServerType) × Server k

/-- All servers, the standard ones first. -/
def servers (sys : System) : List AnyServer :=
  sys.standardServers.map (Sigma.mk _) ++ sys.roboticServers.map (Sigma.mk _)

def doorClients (sys : System) : List ClientPtr := sys.systemClients.elim [] contents

def waitingClients : Server k → List ClientPtr
  | .standard s => contents s.clientQueue
  | .robotic s => contents s.disableClientQueue ++ contents s.normalClientQueue

def finishedClients (s : Server k) : List ClientPtr := contents s.base.finishedClientsQueue

/-- Everywhere a client can be, once for each place it is in. -/
def places (sys : System) : List ClientPtr :=
  doorClients sys ++ (servers sys).flatMap fun s =>
    waitingClients s.2 ++ s.2.base.currentClient.toList ++ finishedClients s.2

/-- The boost rates the simulator is meant for. -/
def Moderate (b : ℚ) : Prop := 0 < b ∧ b ≤ 4

/-- The last tick of a loop that returns. -/
theorem simulateLoop_succ {env : Env} {sys sys' : System} {w w' : World} {n : ℕ}
    (h : simulateLoop env sys (n + 1) w = .ok (sys', w')) :
    ∃ sys₁ w₁, simulateLoop env sys n w = .ok (sys₁, w₁) ∧
      systemTick env sys₁ n w₁ = .ok (sys', w') := by
  have hsplit : Ensures (fun _ => True) (simulateLoop env sys (n + 1)) w fun sys' w' =>
      ∃ sys₁ w₁, simulateLoop env sys n w = .ok (sys₁, w₁) ∧
        systemTick env sys₁ n w₁ = .ok (sys', w') := by
    rw [simulateLoop, ensures_bind]
    exact ensures_any fun sys₁ w₁ hrun => ensures_any fun _ _ htick => ⟨sys₁, w₁, hrun, htick⟩
  exact (ensures_of_ok h).mp hsplit

namespace Scenario

/-- The loop of `simulate` after `n` ticks. -/
def loop (S : Scenario) (n : ℕ) : Except Fault (System × World) :=
  simulateLoop S.env S.system n S.world

/-- The state after `n` ticks of a run that gets that far. -/
def stateAt (S : Scenario) (n : ℕ) : System × World :=
  match S.loop n with
  | .ok state => state
  | .error _ => (S.system, S.world)

/-- No `int` counter leaves its range in the first `n` ticks. -/
def Fits (S : Scenario) (n : ℕ) : Prop := ∀ e, S.loop n = .error e → ¬ e.CounterOverflow

def BoostModerate (S : Scenario) : Prop :=
  ∀ s ∈ S.system.roboticServers, ∀ b ∈ boostRate s, Moderate b

/-- A run of `n` ticks as the simulator is meant for: boost rates in `(0, 4]`,
a number of ticks that is an `int`, and counters that stay within `int`. -/
structure Ordinary (S : Scenario) (n : ℕ) : Prop where
  boost : S.BoostModerate
  ticks : (n : ℤ) ≤ intMax
  fits : S.Fits n

def systemAt (S : Scenario) (n : ℕ) : System := (S.stateAt n).1

def heapAt (S : Scenario) (n : ℕ) : Heap := (S.stateAt n).2.heap

def serverAt (S : Scenario) (n i : ℕ) : Option AnyServer := (servers (S.systemAt n))[i]?

/-- The arrival time a client has before the run. -/
def arrival (S : Scenario) (p : ClientPtr) : ℤ := (S.world.heap p).serviceStat.arrivalTime

section Observations

variable (S : Scenario) (i : ℕ) (p : ClientPtr) (t : ℕ)

def AtDoor : Prop := p ∈ doorClients (S.systemAt t)

def WaitingAt : Prop := ∃ s, S.serverAt t i = some s ∧ p ∈ waitingClients s.2

def ServedAt : Prop := ∃ s, S.serverAt t i = some s ∧ s.2.base.currentClient = some p

def FinishedAt : Prop := ∃ s, S.serverAt t i = some s ∧ p ∈ finishedClients s.2

def HeldAt : Prop := S.WaitingAt i p t ∨ S.ServedAt i p t ∨ S.FinishedAt i p t

/-- The client leaves the queue of the system over tick `t`, for server `i`. -/
def AdmittedTo : Prop := S.AtDoor p t ∧ ¬ S.AtDoor p (t + 1) ∧ S.HeldAt i p (t + 1)

/-- The service of the client at server `i` starts over tick `t`. -/
def StartsAt : Prop := ¬ S.ServedAt i p t ∧ S.ServedAt i p (t + 1)

def FinishesAt : Prop := ¬ S.FinishedAt i p t ∧ S.FinishedAt i p (t + 1)

instance : Decidable (S.ServedAt i p t) :=
  decidable_of_iff (((S.serverAt t i).any fun s => s.2.base.currentClient == some p) = true)
    (by simp [ServedAt, Option.any_eq_true])

instance : Decidable (S.StartsAt i p t) :=
  inferInstanceAs (Decidable (¬ S.ServedAt i p t ∧ S.ServedAt i p (t + 1)))

end Observations

/-- The queue is as `clients_init` fills it: arrivals increase from 1 on. -/
structure Scheduled (S : Scenario) : Prop where
  increasing : (contents S.clients).Pairwise fun p q => S.arrival p < S.arrival q
  positive : ∀ p ∈ contents S.clients, 1 ≤ S.arrival p

/-- The network of the scenario. -/
def network (S : Scenario) : Network ClientPtr :=
  Network.start (contents S.clients)
    (S.system.standardServers.map (profileOf S.world.heap) ++
      S.system.roboticServers.map (profileOf S.world.heap)) S.world.draws

def policy (S : Scenario) : Policy ClientPtr :=
  Routing.policy S.env S.world.heap S.system.standardServers.length

/-- The network after `n` ticks. -/
def run (S : Scenario) (n : ℕ) : Network ClientPtr := S.network.run S.policy n

end Scenario

theorem FreshServer.base {s : Server k} (h : FreshServer s) : FreshBase s.base := by
  cases s with
  | standard s => exact h.1
  | robotic s => exact h.1

theorem Scenario.freshServer (S : Scenario) {s : AnyServer} (hs : s ∈ servers S.system) :
    FreshServer s.2 := by
  rcases List.mem_append.mp hs with hs | hs
  · obtain ⟨s', hs', rfl⟩ := List.mem_map.mp hs
    exact S.standard_fresh s' hs'
  · obtain ⟨s', hs', rfl⟩ := List.mem_map.mp hs
    exact (S.robotic_fresh s' hs').1

theorem freshServer_represents {B : ℚ → Prop} (h₀ : Heap) {s : Server k} (h : FreshServer s)
    (hboost : ∀ b ∈ boostRate s, B b) :
    Represents B h₀ s (Station.empty (profileOf h₀ s)) := by
  cases s with
  | standard s =>
    obtain ⟨hbase, hqueue⟩ := h
    refine ⟨⟨rfl, hqueue⟩, hbase.finished, hbase.current, by simp [Station.empty], ?_,
      hbase.table, hboost, rfl, by simp [Station.empty]⟩
    have hstat : (Server.standard s).base.stat = .zero := hbase.stat
    rw [hstat]
    exact ⟨rfl, rfl, rfl, rfl⟩
  | robotic s =>
    obtain ⟨hbase, hdisable, hnormal⟩ := h
    refine ⟨⟨hdisable, hnormal⟩, hbase.finished, hbase.current, by simp [Station.empty], ?_,
      hbase.table, hboost, rfl, by simp [Station.empty]⟩
    have hstat : (Server.robotic s).base.stat = .zero := hbase.stat
    rw [hstat]
    exact ⟨rfl, rfl, rfl, rfl⟩

theorem recorded_empty (h₀ h : Heap) (profile : Profile ClientPtr) :
    Recorded h₀ h (Station.empty profile) :=
  ⟨fun line => by cases line <;> simp [Station.empty, Station.waiting], by simp [Station.empty],
    by simp [Station.empty]⟩

section Constructors

variable {env : Env} {w : World} {id : ℤ} {errorProb : ℚ} {toServe : ℤ}

/-- A new queue of the base size holds nothing. -/
theorem holds_of_queueInit {a b : Bool} {q : Queue ClientPtr}
    (h : queueInit a b queueBaseSize = some q) : Holds q [] :=
  valid_of_queueInit (by decide) h

theorem standardServerNew_fresh :
    Ensures (fun _ => False) (standardServerNew env id initTable errorProb toServe) w
      fun s _ => ∀ s' ∈ s, FreshServer (.standard s') := by
  simp only [standardServerNew, ensures_bind, ensures_nextGranted]
  split
  · simp
  · simp only [ensures_bind, ensures_nextGranted]
    split
    · rename_i hclients hfinished
      intro s' heq
      cases heq
      exact ⟨⟨rfl, rfl, rfl, holds_of_queueInit hfinished⟩, holds_of_queueInit hclients⟩
    · simp

theorem roboticServerNew_fresh {boost : ℚ} :
    Ensures (fun _ => False) (roboticServerNew env id initTable boost errorProb toServe) w
      fun s _ => ∀ s' ∈ s, FreshServer (.robotic s') ∧ s'.boostRate = boost := by
  simp only [roboticServerNew, ensures_bind, ensures_nextGranted]
  split
  · simp
  · simp only [ensures_bind, ensures_nextGranted]
    split
    · rename_i hdisable hnormal hfinished
      intro s' heq
      cases heq
      exact ⟨⟨⟨rfl, rfl, rfl, holds_of_queueInit hfinished⟩, holds_of_queueInit hdisable,
        holds_of_queueInit hnormal⟩, rfl⟩
    · simp

end Constructors

namespace Scenario

variable {S : Scenario} {B : ℚ → Prop} {n u : ℕ}

/-- Before its first tick the system represents its network. -/
theorem refines_start (hboost : ∀ s ∈ S.system.roboticServers, ∀ b ∈ boostRate s, B b) :
    Refines B S.world.heap S.system.standardServers.length S.system S.world S.network where
  door := ⟨S.clients, S.systemClients_eq, S.clients_valid, rfl⟩
  stations := by
    refine ⟨_, _, List.map_append, by simp, ?_, ?_⟩
    · rw [List.map_map, List.forall₂_map_right_iff, List.forall₂_same]
      intro s hs
      apply freshServer_represents _ (S.standard_fresh s hs)
      cases s
      simp [boostRate]
    · rw [List.map_map, List.forall₂_map_right_iff, List.forall₂_same]
      intro s hs
      exact freshServer_represents _ (S.robotic_fresh s hs).1 (hboost s hs)
  atDoor _ _ := rfl
  recorded st hst := by
    obtain ⟨profile, -, rfl⟩ := List.mem_map.mp hst
    exact recorded_empty _ _ profile
  draws := rfl

theorem fresh (S : Scenario) : Network.Fresh S.network where
  nonempty := by
    have hne := S.nonempty
    simp only [network, Network.start, ne_eq, List.map_eq_nil_iff, List.append_eq_nil_iff]
    tauto
  empty st hst := by
    obtain ⟨profile, -, rfl⟩ := List.mem_map.mp hst
    simp [Station.empty, Station.jobs, Station.started]
  nodup := S.clients_nodup

theorem loop_succ {sys : System} {w : World} (h : S.loop n = .ok (sys, w)) :
    S.loop (n + 1) = systemTick S.env sys n w := by
  change (S.loop n >>= fun x => systemTick S.env x.1 n x.2) = _
  rw [h]
  rfl

theorem loop_error {e : Fault} (hu : u ≤ n) (h : S.loop u = .error e) : S.loop n = .error e := by
  induction n, hu using Nat.le_induction with
  | base => exact h
  | succ n _ ih =>
    change (S.loop n >>= fun x => systemTick S.env x.1 n x.2) = _
    rw [ih]
    rfl

theorem Fits.mono (h : S.Fits n) (hu : u ≤ n) : S.Fits u := fun e he => h e (loop_error hu he)

theorem Ordinary.mono (h : S.Ordinary n) (hu : u ≤ n) : S.Ordinary u :=
  ⟨h.boost, by have hn := h.ticks; omega, h.fits.mono hu⟩

theorem ordinary_of_isOk (hboost : S.BoostModerate) (hn : (n : ℤ) ≤ intMax)
    (hok : (S.loop n).isOk = true) : S.Ordinary n :=
  ⟨hboost, hn, fun e he => by rw [he] at hok; cases hok⟩

theorem stateAt_of_loop {state : System × World} (h : S.loop n = .ok state) :
    S.stateAt n = state := by
  simp only [stateAt, h]

/-- With a standard server, which `simulate` looks up before its loop, it runs
the loop and then draws up the statistics. -/
theorem simulate_eq (hs : S.system.standardServers ≠ []) (time : ℤ) (stat : SimStat) :
    simulate S.env (some S.system) time (some stat) = (do
      let final ← simulateLoop S.env S.system time.toNat
      let stat ← computeStats S.env final (stat.withTotalClients S.clients)
      pure (final, stat)) := by
  have hclients := S.systemClients_eq
  cases hservers : S.system.standardServers with
  | nil => exact absurd hservers hs
  | cons s rest =>
    simp only [simulate, hservers, hclients]
    rw [if_neg (by simp)]

/-- A run with any positive boost rates stops early for two reasons only. -/
theorem loop_error_cases (S : Scenario) (hn : (n : ℤ) ≤ intMax) {e : Fault}
    (h : S.loop n = .error e) : e.CounterOverflow ∨ e = .assertionFailed .startToServe := by
  have htol : Excuses fun e => e.CounterOverflow ∨ e = .assertionFailed .startToServe :=
    ⟨Or.inl (Or.inr rfl), Or.inl (Or.inl rfl)⟩
  have hensures := simulateLoop_refines (B := fun b => 0 < b) htol (fun b hb => hb) S.allocations
    (refines_start fun s hs => (S.robotic_fresh s hs).2) S.fresh
    (Network.historic_start _ _ _) S.types_valid hn (Or.inr (Or.inr rfl))
  unfold Ensures at hensures
  have hrun : simulateLoop S.env S.system n S.world = .error e := h
  simpa only [hrun] using hensures

/-- With moderate boost rates the loop follows the run of the network. -/
theorem loop_follows {tol : Fault → Prop} (S : Scenario) (hboost : S.BoostModerate)
    (hn : (n : ℤ) ≤ intMax) (htol : Excuses tol) :
    Ensures tol (simulateLoop S.env S.system n) S.world fun sys w =>
      Refines Moderate S.world.heap S.system.standardServers.length sys w (S.run n) ∧
        Network.Historic S.policy n (S.run n) :=
  simulateLoop_refines htol (fun _ hb => hb.1) S.allocations (refines_start hboost) S.fresh
    (Network.historic_start _ _ _) S.types_valid hn (Or.inl fun _ hb => hb.2)

theorem loop_error_counter (S : Scenario) (hboost : S.BoostModerate) (hn : (n : ℤ) ≤ intMax)
    {e : Fault} (h : S.loop n = .error e) : e.CounterOverflow := by
  have htol : Excuses Fault.CounterOverflow := ⟨Or.inr rfl, Or.inl rfl⟩
  have hensures := loop_follows S hboost hn htol
  unfold Ensures at hensures
  have hrun : simulateLoop S.env S.system n S.world = .error e := h
  simpa only [hrun] using hensures

/-- An ordinary run completes all its ticks and follows the run of the network. -/
theorem Ordinary.follows (h : S.Ordinary n) :
    S.loop n = .ok (S.stateAt n) ∧
      Refines Moderate S.world.heap S.system.standardServers.length (S.systemAt n)
        (S.stateAt n).2 (S.run n) ∧
      Network.Historic S.policy n (S.run n) := by
  obtain ⟨sys, w, hrun, hrefines, hhist⟩ :=
    (loop_follows S h.boost h.ticks ⟨Or.inr rfl, Or.inl rfl⟩).returns h.fits
  have hstate := stateAt_of_loop hrun
  rw [systemAt, hstate]
  exact ⟨hrun, hrefines, hhist⟩

theorem Ordinary.refines (h : S.Ordinary n) :
    Refines Moderate S.world.heap S.system.standardServers.length (S.systemAt n)
      (S.stateAt n).2 (S.run n) := h.follows.2.1

theorem Ordinary.historic (h : S.Ordinary n) : Network.Historic S.policy n (S.run n) :=
  h.follows.2.2

end Scenario

section Views

variable {B : ℚ → Prop} {h₀ : Heap} {m : ℕ} {sys : System} {w : World} {N : Network ClientPtr}
  {s : Server k} {st : Station ClientPtr}

theorem waitingClients_eq (h : Represents B h₀ s st) :
    waitingClients s = st.express ++ st.regular := by
  cases s with
  | standard s =>
    obtain ⟨hex, hqueue⟩ := h.lines
    rw [waitingClients, hqueue.2, hex, List.nil_append]
  | robotic s =>
    obtain ⟨hdisable, hnormal⟩ := h.lines
    rw [waitingClients, hdisable.2, hnormal.2]

theorem finishedClients_eq (h : Represents B h₀ s st) :
    finishedClients s = st.completed.map Completed.job := h.finished.2

theorem doorClients_eq (h : Refines B h₀ m sys w N) : doorClients sys = N.door := by
  obtain ⟨q, hq, hdoor⟩ := h.door
  rw [doorClients, hq]
  exact hdoor.2

/-- The servers represent the stations one by one. -/
theorem servers_represent (h : Refines B h₀ m sys w N) :
    List.Forall₂ (fun (s : AnyServer) st => Represents B h₀ s.2 st) (servers sys) N.stations := by
  obtain ⟨sts₁, sts₂, hstations, -, hservers⟩ := h.stations
  rw [hstations]
  exact List.rel_append
    (List.forall₂_map_left_iff (f := Sigma.mk ServerType.standard).mpr hservers.standard)
    (List.forall₂_map_left_iff (f := Sigma.mk ServerType.robotic).mpr hservers.robotic)

theorem exists_station (h : Refines B h₀ m sys w N) {i : ℕ} {r : AnyServer}
    (hr : (servers sys)[i]? = some r) :
    ∃ st, N.stations[i]? = some st ∧ Represents B h₀ r.2 st :=
  exists_partner (servers_represent h).flip hr

theorem exists_server (h : Refines B h₀ m sys w N) {i : ℕ} (hst : N.stations[i]? = some st) :
    ∃ r, (servers sys)[i]? = some r ∧ Represents B h₀ r.2 st :=
  exists_partner (servers_represent h) hst

end Views

namespace Scenario

variable {S : Scenario} {n i t : ℕ} {p : ClientPtr}

theorem Ordinary.atDoor_iff (h : S.Ordinary t) :
    S.AtDoor p t ↔ Network.AtDoor S.policy S.network p t := by
  rw [AtDoor, doorClients_eq h.refines]
  rfl

theorem Ordinary.servedAt_iff (h : S.Ordinary t) :
    S.ServedAt i p t ↔ Network.Serving S.policy S.network i p t := by
  constructor
  · intro hserved
    obtain ⟨r, hr, hp⟩ := hserved
    obtain ⟨st, hst, hrep⟩ := exists_station h.refines hr
    rw [hrep.current] at hp
    obtain ⟨a, ha, hjob⟩ := Option.map_eq_some_iff.mp hp
    exact ⟨st, a, hst, ha, hjob⟩
  · intro hserving
    obtain ⟨st, a, hst, ha, rfl⟩ := hserving
    obtain ⟨r, hr, hrep⟩ := exists_server h.refines hst
    exact ⟨r, hr, by rw [hrep.current, ha]; rfl⟩

theorem Ordinary.finishedAt_iff (h : S.Ordinary t) :
    S.FinishedAt i p t ↔ Network.Done S.policy S.network i p t := by
  constructor
  · intro hfinished
    obtain ⟨r, hr, hp⟩ := hfinished
    obtain ⟨st, hst, hrep⟩ := exists_station h.refines hr
    exact ⟨st, hst, finishedClients_eq hrep ▸ hp⟩
  · intro hdone
    obtain ⟨st, hst, hp⟩ := hdone
    obtain ⟨r, hr, hrep⟩ := exists_server h.refines hst
    exact ⟨r, hr, (finishedClients_eq hrep).symm ▸ hp⟩

theorem Ordinary.heldAt_iff (h : S.Ordinary t) :
    S.HeldAt i p t ↔ Network.Held S.policy S.network i p t := by
  have hplace : ∀ {r : AnyServer} {st}, Represents Moderate S.world.heap r.2 st →
      (p ∈ waitingClients r.2 ∨ r.2.base.currentClient = some p ∨ p ∈ finishedClients r.2 ↔
        p ∈ st.jobs) := by
    intro r st hrep
    rw [waitingClients_eq hrep, finishedClients_eq hrep, hrep.current]
    simp only [Station.jobs, Station.started, List.mem_append, List.mem_map, Option.mem_toList,
      Option.map_eq_some_iff]
    constructor
    · intro hheld
      rcases hheld with (hp | hp) | hp | hp
      · exact Or.inl (Or.inr hp)
      · exact Or.inr hp
      · exact Or.inl (Or.inl (Or.inr hp))
      · exact Or.inl (Or.inl (Or.inl hp))
    · intro hjob
      rcases hjob with ((hp | hp) | hp) | hp
      · exact Or.inr (Or.inr hp)
      · exact Or.inr (Or.inl hp)
      · exact Or.inl (Or.inl hp)
      · exact Or.inl (Or.inr hp)
  constructor
  · intro hheld
    rcases hheld with ⟨r, hr, hp⟩ | ⟨r, hr, hp⟩ | ⟨r, hr, hp⟩ <;>
      obtain ⟨st, hst, hrep⟩ := exists_station h.refines hr <;>
      exact ⟨st, hst, (hplace hrep).mp (by simp [hp])⟩
  · intro hheld
    obtain ⟨st, hst, hp⟩ := hheld
    obtain ⟨r, hr, hrep⟩ := exists_server h.refines hst
    rcases (hplace hrep).mpr hp with hp | hp | hp
    · exact Or.inl ⟨r, hr, hp⟩
    · exact Or.inr (Or.inl ⟨r, hr, hp⟩)
    · exact Or.inr (Or.inr ⟨r, hr, hp⟩)

/-- The kind of a server is that of its index, in every state. -/
theorem Ordinary.kind_eq (h : S.Ordinary n) {s : AnyServer} (hs : S.serverAt n i = some s) :
    s.1 = if i < S.system.standardServers.length then .standard else .robotic := by
  obtain ⟨sts₁, sts₂, -, hlen, hservers⟩ := h.refines.stations
  have hm : (S.systemAt n).standardServers.length = S.system.standardServers.length :=
    hservers.standard.length_eq.trans hlen
  rw [serverAt, servers, List.getElem?_append, List.length_map, hm] at hs
  split at hs
  · rename_i hi
    obtain ⟨s', -, rfl⟩ := List.mem_map.mp (List.mem_of_getElem? hs)
    rw [if_pos hi]
  · rename_i hi
    obtain ⟨s', -, rfl⟩ := List.mem_map.mp (List.mem_of_getElem? hs)
    rw [if_neg hi]

/-- Events of an ordinary run are the events of the network's run. -/
theorem Ordinary.startsAt_iff (h : S.Ordinary (t + 1)) :
    S.StartsAt i p t ↔ Network.Becomes (Network.Serving S.policy S.network i p) t := by
  rw [StartsAt, (h.mono (Nat.le_succ t)).servedAt_iff, h.servedAt_iff]
  rfl

theorem Ordinary.finishesAt_iff (h : S.Ordinary (t + 1)) :
    S.FinishesAt i p t ↔ Network.Becomes (Network.Done S.policy S.network i p) t := by
  rw [FinishesAt, (h.mono (Nat.le_succ t)).finishedAt_iff, h.finishedAt_iff]
  rfl

theorem Ordinary.admittedTo_iff (h : S.Ordinary (t + 1)) :
    S.AdmittedTo i p t ↔ Network.AtDoor S.policy S.network p t ∧
      ¬ Network.AtDoor S.policy S.network p (t + 1) ∧
      Network.Held S.policy S.network i p (t + 1) := by
  rw [AdmittedTo, (h.mono (Nat.le_succ t)).atDoor_iff, h.atDoor_iff, h.heldAt_iff]

/-- What a server holds came from the initial queue. -/
theorem mem_clients_of_held (hheld : Network.Held S.policy S.network i p n) :
    p ∈ contents S.clients := by
  obtain ⟨gone, hgone⟩ := S.fresh.progress (P := S.policy) n
  obtain ⟨st, hst, hp⟩ := hheld
  refine hgone.places.mem_iff.mp (List.mem_append_right _ ?_)
  exact List.mem_flatMap.mpr ⟨st, List.mem_of_getElem? hst, hp⟩

/-- A client that a server holds was admitted to it, at its arrival time. -/
theorem Ordinary.admitted_of_held (h : S.Ordinary n)
    (hheld : Network.Held S.policy S.network i p n) :
    ∃ t, t < n ∧ S.arrival p = t ∧ S.AdmittedTo i p t := by
  obtain ⟨t, ht, harrival, ⟨hdoor, hgone⟩, -, hnow⟩ := S.fresh.admitted_of_held hheld
  exact ⟨t, ht, harrival, (h.mono ht).admittedTo_iff.mpr ⟨not_not.mp hdoor, hgone, hnow⟩⟩

theorem Ordinary.arrival_of_admitted (h : S.Ordinary n) (ht : t < n) (hp : S.AdmittedTo i p t) :
    S.arrival p = t := by
  obtain ⟨hdoor, hgone, -⟩ := (h.mono ht).admittedTo_iff.mp hp
  exact Network.arrival_of_leaves hdoor hgone

theorem Ordinary.mem_clients_of_atDoor (h : S.Ordinary n) (hp : S.AtDoor p n) :
    p ∈ contents S.clients := by
  obtain ⟨gone, hgone⟩ := S.fresh.progress (P := S.policy) n
  exact hgone.places.mem_iff.mp (List.mem_append_left _ (h.atDoor_iff.mp hp))

/-- On schedule, a client is in the queue of the system until its arrival. -/
theorem Ordinary.atDoor_iff_arrival (h : S.Ordinary n) (hs : S.Scheduled)
    (hp : p ∈ contents S.clients) : S.AtDoor p n ↔ (n : ℤ) ≤ S.arrival p := by
  obtain ⟨gone, hgone⟩ := S.fresh.progress (P := S.policy) n
  rw [h.atDoor_iff]
  refine Network.mem_door_iff hgone S.clients_nodup rfl hs.increasing (fun q hq => ?_) hp
  have hpos : 1 ≤ S.policy.arrival q := hs.positive q hq
  omega

/-- On schedule, every client whose arrival is past has been admitted. -/
theorem Ordinary.held_of_arrival (h : S.Ordinary n) (hs : S.Scheduled)
    (hp : p ∈ contents S.clients) (harrival : S.arrival p < n) :
    ∃ i, Network.Held S.policy S.network i p n := by
  obtain ⟨gone, hgone⟩ := S.fresh.progress (P := S.policy) n
  have hplace := hgone.places.mem_iff.mpr hp
  have hdoor : p ∉ (S.run n).door := by
    have hiff := h.atDoor_iff_arrival hs hp
    rw [h.atDoor_iff] at hiff
    exact fun hmem => absurd (hiff.mp hmem) (by omega)
  rcases List.mem_append.mp hplace with hmem | hmem
  · exact absurd hmem hdoor
  · obtain ⟨st, hst, hjob⟩ := List.mem_flatMap.mp hmem
    obtain ⟨i, hi⟩ := List.mem_iff_getElem?.mp hst
    exact ⟨i, st, hi, hjob⟩

theorem Ordinary.held_of_admitted (h : S.Ordinary n) (ht : t < n) (hp : S.AdmittedTo i p t) :
    Network.Held S.policy S.network i p n :=
  ((h.mono ht).admittedTo_iff.mp hp).2.2.mono ht

end Scenario

section Small

/-- An empty queue of one cell. -/
def emptyQueue : Queue ClientPtr := { items := [none], size := 0, capacity := 1 }

theorem holds_emptyQueue : Holds emptyQueue [] :=
  represents_of_items (u := [none]) rfl rfl rfl (by decide)

def freshBase (id : ℤ) : BaseServer where
  id := id
  serviceTimeTable := initTable
  currentClient := none
  toServe := 0
  errorProb := 0
  stat := .zero
  finishedClientsQueue := emptyQueue

theorem freshBase_fresh (id : ℤ) : FreshBase (freshBase id) :=
  ⟨rfl, rfl, rfl, holds_emptyQueue⟩

/-- A client of `clients_init` bound for the first destination. -/
def newcomer (id arrival : ℤ) (d : DisabilityType) : Client where
  id := id
  serviceStat := { ClientServiceStat.zero with arrivalTime := arrival }
  disabilityType := d
  destination := .dest1

theorem newcomer_valid (id arrival : ℤ) {d : DisabilityType} (hd : d.Valid) :
    (newcomer id arrival d).Valid := ⟨hd, Or.inl rfl⟩

/-- A queue of two clients and one server of each kind, the robotic one with the
given boost rate; every draw of `rand ()` is 5. -/
def small (boost : ℚ) (first second : Client) (outcomes : Outcomes) (hboost : 0 < boost)
    (hfirst : first.Valid) (hsecond : second.Valid) : Scenario where
  env := { rand := fun _ => 5, exponential := fun _ => 1, outcomes := outcomes,
           granted := fun _ => true }
  system :=
    { systemClients := some { items := [some 1, some 0], size := 2, capacity := 2 }
      standardServers := [.standard { base := freshBase 0, clientQueue := emptyQueue }]
      roboticServers := [.robotic
        { base := freshBase 1, boostRate := boost, disableClientQueue := emptyQueue,
          normalClientQueue := emptyQueue }] }
  world := { heap := fun p => if p = 0 then first else second, draws := 0, requests := 0 }
  clients := { items := [some 1, some 0], size := 2, capacity := 2 }
  systemClients_eq := rfl
  allocations _ := rfl
  clients_valid := (represents_of_items (l := [0, 1]) (u := []) rfl rfl rfl (by decide)).1
  clients_nodup := by decide
  types_valid p _ := by
    dsimp only
    split <;> assumption
  nonempty := Or.inl (by simp)
  standard_fresh s hs := by
    obtain rfl := List.mem_singleton.mp hs
    exact ⟨freshBase_fresh 0, holds_emptyQueue⟩
  robotic_fresh s hs := by
    obtain rfl := List.mem_singleton.mp hs
    refine ⟨⟨freshBase_fresh 1, holds_emptyQueue, holds_emptyQueue⟩, fun b hb => ?_⟩
    obtain rfl : boost = b := Option.some.inj hb
    exact hboost

/-- One server of each kind, a regular client and then a disabled one. -/
def mixed : Scenario :=
  small 2 (newcomer 0 1 .noDisability) (newcomer 1 3 .type2) .drawn two_pos
    (newcomer_valid 0 1 (by decide)) (newcomer_valid 1 3 (by decide))

theorem mixed_ordinary : mixed.Ordinary 10 := by
  refine Scenario.ordinary_of_isOk ?_ (by decide +kernel) (by decide +kernel)
  intro s hs b hb
  obtain rfl := List.mem_singleton.mp hs
  obtain rfl : 2 = b := Option.some.inj hb
  constructor <;> norm_num

/-- A base whose services fail half of the time. -/
def faultyBase (id : ℤ) : BaseServer := { freshBase id with errorProb := 1 / 2 }

/-- Seven clients in the order of their pointers. -/
def sevenClients : Queue ClientPtr where
  items := [some 6, some 5, some 4, some 3, some 2, some 1, some 0]
  size := 7
  capacity := 7

/-- A client a tick for one server of each kind, the fifth and the last one disabled,
and every third attempt a failure. Both servers have clients waiting, and at the
robotic one the disabled clients overtake a regular one. -/
def contended : Scenario where
  env := { mixed.env with rand := fun j => if j % 3 = 0 then 0 else Fin.last randMax }
  system :=
    { systemClients := some sevenClients
      standardServers := [.standard { base := faultyBase 0, clientQueue := emptyQueue }]
      roboticServers := [.robotic
        { base := faultyBase 1, boostRate := 2, disableClientQueue := emptyQueue,
          normalClientQueue := emptyQueue }] }
  world := { mixed.world with
    heap := fun p => newcomer p (p + 1) (if p = 4 ∨ p = 6 then .type2 else .noDisability) }
  clients := sevenClients
  systemClients_eq := rfl
  allocations _ := rfl
  clients_valid :=
    (represents_of_items (l := [0, 1, 2, 3, 4, 5, 6]) (u := []) rfl rfl rfl (by decide)).1
  clients_nodup := by decide
  types_valid p _ := newcomer_valid p (p + 1) (by split <;> decide)
  nonempty := Or.inl (List.cons_ne_nil _ _)
  standard_fresh s hs := by
    obtain rfl := List.mem_singleton.mp hs
    exact ⟨⟨rfl, rfl, rfl, holds_emptyQueue⟩, holds_emptyQueue⟩
  robotic_fresh s hs := by
    obtain rfl := List.mem_singleton.mp hs
    refine ⟨⟨⟨rfl, rfl, rfl, holds_emptyQueue⟩, holds_emptyQueue, holds_emptyQueue⟩, fun b hb => ?_⟩
    obtain rfl : 2 = b := Option.some.inj hb
    exact two_pos

theorem contended_ordinary : contended.Ordinary 70 := by
  refine Scenario.ordinary_of_isOk ?_ (by decide +kernel) (by decide +kernel)
  intro s hs b hb
  obtain rfl := List.mem_singleton.mp hs
  obtain rfl : 2 = b := Option.some.inj hb
  constructor <;> norm_num

end Small

end AcaBSim.Scenarios
