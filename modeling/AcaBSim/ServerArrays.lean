import AcaBSim.IndexLoops
import AcaBSim.Visits

/-!
The loops of system.c with their indices. The two arrays of a system come with
their sizes, every access is checked, and the combined index of `compute_stats`
is split at the number of standard servers.
-/
namespace AcaBSim.ServerArrays

open Machine ArrayQueue Clients Servers Outcome Sweeps IndexLoops Visits
open Systems (System SimStat Counters)

variable {k : ServerType}

/-- `system_t`, with the cells that its arrays really have. -/
structure SystemArrays extends System where
  standardServersSize : ℕ
  roboticServersSize : ℕ

/-- Each size is that of its array. -/
def SystemArrays.Matches (sys : SystemArrays) : Prop :=
  sys.standardServersSize = sys.standardServers.length ∧
    sys.roboticServersSize = sys.roboticServers.length

def readServer (servers : List (Server k)) (i : ℕ) : Except Fault (Server k) :=
  readAt .outOfBounds servers i

/-- Either selection loop of `assign_client`. -/
def lowLoadServer (servers : List (Server k)) (size : ℕ) (d : DisabilityType) :
    Prog (Option ℕ × ℤ) :=
  foldAt (readServer servers) (fun i low s =>
    pure (if low.2 > serverGetLoad s d then (some i, serverGetLoad s d) else low))
    size 0 (none, intMax)

/-- What `assign_client` does with the servers that its loops select. -/
def assignSelected (env : Env) (sys : System) (d : DisabilityType) (standard robotic : Option ℕ × ℤ)
    (p : ClientPtr) : Prog System :=
  let (lowStandard, minStandard) := standard
  let (lowRobotic, minRobotic) := robotic
  if lowRobotic.isNone && lowStandard.isNone then throw (.assertionFailed .lowLoadServer)
  else if d ≠ .noDisability ∧ lowRobotic.isSome then Systems.assignRobotic env sys lowRobotic p
  else if lowStandard.isNone then Systems.assignRobotic env sys lowRobotic p
  else if lowRobotic.isNone then Systems.assignStandard env sys lowStandard p
  else if minRobotic < minStandard then Systems.assignRobotic env sys lowRobotic p
  else Systems.assignStandard env sys lowStandard p

def assignClient (env : Env) (sys : SystemArrays) (p : ClientPtr) : Prog SystemArrays := do
  let c ← readClient p
  let standard ← lowLoadServer sys.standardServers sys.standardServersSize c.disabilityType
  let robotic ← lowLoadServer sys.roboticServers sys.roboticServersSize c.disabilityType
  let assigned ← assignSelected env sys.toSystem c.disabilityType standard robotic p
  pure { sys with toSystem := assigned }

def serversUpdateServeTime (sys : SystemArrays) : Prog SystemArrays := do
  let standard ← sweepAt .outOfBounds tickServer sys.standardServersSize 0 sys.standardServers
  let robotic ← sweepAt .outOfBounds tickServer sys.roboticServersSize 0 sys.roboticServers
  pure { sys with standardServers := standard, roboticServers := robotic }

def updateClients (env : Env) (servers : List (Server k)) (serversLen : ℕ) (t : ℤ) :
    Prog (List (Server k)) :=
  sweepAt .outOfBounds (visit env t) serversLen 0 servers

def serversRun (env : Env) (sys : SystemArrays) (t : ℤ) : Prog SystemArrays := do
  let sys ← serversUpdateServeTime sys
  let standard ← updateClients env sys.standardServers sys.standardServersSize t
  let robotic ← updateClients env sys.roboticServers sys.roboticServersSize t
  pure { sys with standardServers := standard, roboticServers := robotic }

def admitClient (env : Env) (sys : SystemArrays) (t : ℤ) : Prog SystemArrays :=
  match sys.systemClients with
  | none => throw .nullDereference
  | some clients => do
    let (newClient, clients) ← Systems.getClient env clients t
    let sys := { sys with systemClients := some clients }
    match newClient with
    | none => pure sys
    | some p => assignClient env sys p

def systemTick (env : Env) (sys : SystemArrays) (t : ℤ) : Prog SystemArrays := do
  let sys ← admitClient env sys t
  serversRun env sys t

def simulateLoop (env : Env) (sys : SystemArrays) : ℕ → Prog SystemArrays
  | 0 => pure sys
  | n + 1 => do
    let sys ← simulateLoop env sys n
    systemTick env sys n

/-- The server that `compute_stats` copies at its combined index. -/
def readBase (sys : SystemArrays) (i : ℕ) : Except Fault BaseServer :=
  if i < sys.standardServersSize then Server.base <$> readServer sys.standardServers i
  else Server.base <$> readServer sys.roboticServers (i - sys.standardServersSize)

/-- The loop body of `compute_stats`. -/
def countServer (env : Env) (counters : Counters) (b : BaseServer) : Prog Counters := do
  let total ← checkInt (counters.totalQueueLen + b.stat.meanServerQueueLen)
  let granted ← nextGranted env
  let iterator := queueIteratorCreate granted b.finishedClientsQueue
  let w ← get
  Systems.countFinished w.heap (queueSize b.finishedClientsQueue) iterator
    { counters with totalQueueLen := total }

/-- What `compute_stats` writes when its loop is over. -/
def report (stat : SimStat) (size : ℕ) (counters : Counters) : SimStat :=
  { stat with
    ndMeanWaitTime := Systems.meanOrZero counters.nd.waitTime counters.nd.total
    ndMeanServeTime := Systems.meanOrZero counters.nd.serviceTime counters.nd.total
    t1MeanWaitTime := Systems.meanOrZero counters.t1.waitTime counters.t1.total
    t1MeanServeTime := Systems.meanOrZero counters.t1.serviceTime counters.t1.total
    t2MeanWaitTime := Systems.meanOrZero counters.t2.waitTime counters.t2.total
    t2MeanServeTime := Systems.meanOrZero counters.t2.serviceTime counters.t2.total
    t3MeanWaitTime := Systems.meanOrZero counters.t3.waitTime counters.t3.total
    t3MeanServeTime := Systems.meanOrZero counters.t3.serviceTime counters.t3.total
    meanQueueSize :=
      if size > 0 then wrapInt ((counters.totalQueueLen % 2 ^ 64) / size) else 0
    meanServeTime := Systems.meanOrZero counters.all.serviceTime counters.all.total
    meanWaitTime := Systems.meanOrZero counters.all.waitTime counters.all.total }

def computeStats (env : Env) (sys : SystemArrays) (stat : SimStat) : Prog SimStat := do
  let counters ← foldAt (readBase sys) (fun _ counters b => countServer env counters b)
    (sys.standardServersSize + sys.roboticServersSize) 0 .zero
  pure (report stat (sys.standardServersSize + sys.roboticServersSize) counters)

/-- The lookup in the table of `standard_servers[0]` comes before the checks. -/
def simulate (env : Env) (system : Option SystemArrays) (simulationTime : ℤ)
    (stat : Option SimStat) : Prog (SystemArrays × SimStat) :=
  match system with
  | none => throw .nullDereference
  | some sys => do
    let _ ← readServer sys.standardServers 0
    match sys.systemClients with
    | none => throw .exitFailure
    | some clients =>
      if sys.roboticServersSize + sys.standardServersSize = 0 then throw .exitFailure
      else
        match stat with
        | none => throw .exitFailure
        | some stat => do
          let final ← simulateLoop env sys simulationTime.toNat
          let stat ← computeStats env final (stat.withTotalClients clients)
          pure (final, stat)

/-- A system with arrays of the right sizes. -/
def ofSystem (sys : System) : SystemArrays where
  toSystem := sys
  standardServersSize := sys.standardServers.length
  roboticServersSize := sys.roboticServers.length

theorem SystemArrays.Matches.eq {sys : SystemArrays} (h : sys.Matches) :
    sys = ofSystem sys.toSystem := by
  obtain ⟨hstandard, hrobotic⟩ := h
  cases sys
  simp_all [ofSystem]

section Refinement

variable {env : Env} {t : ℤ} {p : ClientPtr} (sys : System)

theorem lowLoadServer_eq (servers : List (Server k)) (d : DisabilityType) :
    lowLoadServer servers servers.length d =
      pure (Systems.lowLoad 0 (none, intMax) (servers.map fun s => serverGetLoad s d)) := by
  have hloop : ∀ (l : List (Server k)) (i : ℕ) (low : Option ℕ × ℤ),
      foldFrom (fun i low s =>
          (pure (if low.2 > serverGetLoad s d then (some i, serverGetLoad s d) else low) :
            Prog (Option ℕ × ℤ))) i l low =
        pure (Systems.lowLoad i low (l.map fun s => serverGetLoad s d)) := by
    intro l
    induction l with
    | nil => exact fun _ _ => rfl
    | cons s rest ih =>
      intro i low
      obtain ⟨selected, minLoad⟩ := low
      rw [foldFrom, pure_bind, ih, List.map_cons, Systems.lowLoad]
      split <;> rfl
  rw [lowLoadServer, foldAt_eq, hloop]
  intro j s hs
  rw [Nat.zero_add, readServer, readAt, hs]

def SameSizes (sys sys' : System) : Prop :=
  sys'.standardServers.length = sys.standardServers.length ∧
    sys'.roboticServers.length = sys.roboticServers.length

theorem length_assignTo (l : List (Server k)) (selected : Option ℕ) (w : World) :
    Ensures (fun _ => True) (Systems.assignTo env l selected p) w fun l' _ =>
      l'.length = l.length :=
  (assignTo_books l selected p).mono fun l' w' hpost => by
    have hlength := congrArg List.length hpost.1
    rwa [List.length_map, List.length_map] at hlength

theorem sizes_assignStandard (selected : Option ℕ) (w : World) :
    Ensures (fun _ => True) (Systems.assignStandard env sys selected p) w fun sys' _ =>
      SameSizes sys sys' := by
  rw [Systems.assignStandard, ensures_bind]
  exact (length_assignTo sys.standardServers selected w).mono fun _ _ hlength => ⟨hlength, rfl⟩

theorem sizes_assignRobotic (selected : Option ℕ) (w : World) :
    Ensures (fun _ => True) (Systems.assignRobotic env sys selected p) w fun sys' _ =>
      SameSizes sys sys' := by
  rw [Systems.assignRobotic, ensures_bind]
  exact (length_assignTo sys.roboticServers selected w).mono fun _ _ hlength => ⟨rfl, hlength⟩

theorem sizes_assignClient (w : World) :
    Ensures (fun _ => True) (Systems.assignClient env sys p) w fun sys' _ =>
      SameSizes sys sys' := by
  simp only [Systems.assignClient, ensures_bind, ensures_readClient]
  split
  · trivial
  · split
    · exact sizes_assignRobotic sys _ w
    · split
      · exact sizes_assignRobotic sys _ w
      · split
        · exact sizes_assignStandard sys _ w
        · split
          · exact sizes_assignRobotic sys _ w
          · exact sizes_assignStandard sys _ w

/-- What keeps the sizes of both arrays leads to arrays of the right sizes. -/
theorem map_withSystem {x : Prog System}
    (hx : ∀ w, Ensures (fun _ => True) x w fun sys' _ => SameSizes sys sys') :
    (fun sys' => { ofSystem sys with toSystem := sys' }) <$> x = ofSystem <$> x := by
  refine map_congr_of_ensures hx fun sys' hsame => ?_
  obtain ⟨hstandard, hrobotic⟩ := hsame
  simp only [ofSystem, hstandard, hrobotic]

theorem assignClient_eq :
    assignClient env (ofSystem sys) p = ofSystem <$> Systems.assignClient env sys p := by
  rw [← map_withSystem sys (sizes_assignClient sys), assignClient, Systems.assignClient, map_bind]
  refine congrArg (readClient p >>= ·) (funext fun c => ?_)
  simp only [ofSystem, lowLoadServer_eq, pure_bind]
  rw [map_eq_pure_bind]
  rfl

/-- A pair of loops that replace the servers of both arrays. -/
theorem sweepBoth_eq (f : Server .standard → Prog (Server .standard))
    (g : Server .robotic → Prog (Server .robotic)) :
    (do
      let standard ← sweepAt .outOfBounds f sys.standardServers.length 0 sys.standardServers
      let robotic ← sweepAt .outOfBounds g sys.roboticServers.length 0 sys.roboticServers
      pure { ofSystem sys with standardServers := standard, roboticServers := robotic }) =
    ofSystem <$> (do
      let standard ← sweep f sys.standardServers
      let robotic ← sweep g sys.roboticServers
      pure { sys with standardServers := standard, roboticServers := robotic } : Prog System) := by
  rw [← map_withSystem sys, map_bind]
  · simp only [sweepAt_length, map_bind, map_pure]
    rfl
  · intro w
    simp only [ensures_bind]
    apply (sweep_length f sys.standardServers w).mono
    intro standard w₁ hstandard
    apply (sweep_length g sys.roboticServers w₁).mono
    intro robotic w₂ hrobotic
    exact ⟨hstandard, hrobotic⟩

theorem serversUpdateServeTime_eq :
    serversUpdateServeTime (ofSystem sys) = ofSystem <$> Systems.serversUpdateServeTime sys := by
  simp only [Systems.serversUpdateServeTime, tickServers_eq]
  exact sweepBoth_eq sys tickServer tickServer

theorem serversRun_eq :
    serversRun env (ofSystem sys) t = ofSystem <$> Systems.serversRun env sys t := by
  rw [serversRun, Systems.serversRun, serversUpdateServeTime_eq, bind_map_left, map_bind]
  refine congrArg (Systems.serversUpdateServeTime sys >>= ·) (funext fun sys₁ => ?_)
  simp only [updateClients_eq]
  exact sweepBoth_eq sys₁ (visit env t) (visit env t)

theorem admitClient_eq :
    admitClient env (ofSystem sys) t = ofSystem <$> Systems.admitClient env sys t := by
  have hclients : (ofSystem sys).systemClients = sys.systemClients := rfl
  rw [admitClient, Systems.admitClient, hclients]
  cases sys.systemClients with
  | none => rfl
  | some clients =>
    dsimp only
    rw [map_bind]
    refine congrArg (Systems.getClient env clients t >>= ·) (funext fun r => ?_)
    obtain ⟨newClient, clients'⟩ := r
    cases newClient with
    | none => rfl
    | some p => exact assignClient_eq { sys with systemClients := some clients' }

theorem systemTick_eq :
    systemTick env (ofSystem sys) t = ofSystem <$> Systems.systemTick env sys t := by
  rw [systemTick, Systems.systemTick, admitClient_eq, bind_map_left, map_bind]
  exact congrArg (Systems.admitClient env sys t >>= ·) (funext fun sys₁ => serversRun_eq sys₁)

theorem simulateLoop_eq (n : ℕ) :
    simulateLoop env (ofSystem sys) n = ofSystem <$> Systems.simulateLoop env sys n := by
  induction n with
  | zero => rfl
  | succ n ih =>
    rw [simulateLoop, Systems.simulateLoop, ih, bind_map_left, map_bind]
    exact congrArg (Systems.simulateLoop env sys n >>= ·) (funext fun sys₁ => systemTick_eq sys₁)

/-- The combined index runs through the standard servers, then the robotic ones. -/
theorem readBase_eq {j : ℕ} {b : BaseServer}
    (hb : (sys.standardServers.map Server.base ++ sys.roboticServers.map Server.base)[j]? =
      some b) : readBase (ofSystem sys) (0 + j) = .ok b := by
  rw [Nat.zero_add, readBase]
  rw [List.getElem?_append, List.length_map, List.getElem?_map, List.getElem?_map] at hb
  split at hb
  · rename_i hlt
    have hj : j < (ofSystem sys).standardServersSize := hlt
    obtain ⟨s, hs, rfl⟩ := Option.map_eq_some_iff.mp hb
    rw [if_pos hj, readServer, readAt, show (ofSystem sys).standardServers[j]? = some s from hs]
    rfl
  · rename_i hge
    have hj : ¬ j < (ofSystem sys).standardServersSize := hge
    obtain ⟨s, hs, rfl⟩ := Option.map_eq_some_iff.mp hb
    rw [if_neg hj, readServer, readAt,
      show (ofSystem sys).roboticServers[j - (ofSystem sys).standardServersSize]? = some s from hs]
    rfl

theorem countServers_eq (bs : List BaseServer) (i : ℕ) (counters : Counters) :
    foldFrom (fun _ counters b => countServer env counters b) i bs counters =
      Systems.countServers env bs counters := by
  induction bs generalizing i counters with
  | nil => rfl
  | cons b rest ih =>
    rw [foldFrom, Systems.countServers, countServer]
    simp only [ih, bind_assoc]

theorem computeStats_eq (stat : SimStat) :
    computeStats env (ofSystem sys) stat = Systems.computeStats env sys stat := by
  have hsize : (ofSystem sys).standardServersSize + (ofSystem sys).roboticServersSize =
      (sys.standardServers.map Server.base ++ sys.roboticServers.map Server.base).length := by
    simp [ofSystem]
  rw [computeStats, Systems.computeStats, hsize,
    foldAt_eq fun j b hb => readBase_eq sys hb]
  simp only [countServers_eq]
  rfl

/-- On arrays of the right sizes, the loops over the indices compute what the loops
over the servers do. -/
theorem simulate_eq (env : Env) (system : Option System) (time : ℤ) (stat : Option SimStat) :
    simulate env (system.map ofSystem) time stat =
      (fun r => (ofSystem r.1, r.2)) <$> Systems.simulate env system time stat := by
  cases system with
  | none => rfl
  | some sys =>
    rw [Option.map_some, simulate, Systems.simulate]
    cases hstandard : sys.standardServers with
    | nil =>
      rw [readServer, readAt, show (ofSystem sys).standardServers[0]? = none by
        rw [show (ofSystem sys).standardServers = [] from hstandard]
        rfl]
      rfl
    | cons s rest =>
      rw [readServer, readAt, show (ofSystem sys).standardServers[0]? = some s by
        rw [show (ofSystem sys).standardServers = s :: rest from hstandard]
        rfl]
      dsimp only
      rw [lift_ok_bind, show (ofSystem sys).systemClients = sys.systemClients from rfl]
      cases sys.systemClients with
      | none => rfl
      | some clients =>
        have hsizes : (ofSystem sys).roboticServersSize + (ofSystem sys).standardServersSize =
            sys.roboticServers.length + (s :: rest).length := by rw [← hstandard]; rfl
        rw [hsizes]
        dsimp only
        split
        · rfl
        · cases stat with
          | none => rfl
          | some stat =>
            dsimp only
            rw [simulateLoop_eq, bind_map_left, map_bind]
            refine congrArg (Systems.simulateLoop env sys time.toNat >>= ·)
              (funext fun final => ?_)
            rw [computeStats_eq, map_bind]
            rfl

end Refinement

end AcaBSim.ServerArrays
