import AcaBSim.LostClients
import AcaBSim.Minima

/-!
Where `assign_client` sends a client. Both selection loops begin at `INT32_MAX`
and take a strictly smaller load, so a server whose load is `INT_MAX` is never
found, and a load beyond it wraps when it is converted to `int`.
-/
namespace AcaBSim.Assignments

open Machine ArrayQueue Clients Servers Systems Outcome Scenarios ServiceAssertions QueueGrowth
  LostClients Minima

variable {k : ServerType}

/-- The number of clients whose queues count for a client of the type. -/
def exactLoad : Server k → DisabilityType → ℤ
  | .standard s, _ => queueSize s.clientQueue
  | .robotic s, d =>
    if d = .noDisability then queueSize s.normalClientQueue + queueSize s.disableClientQueue
    else queueSize s.disableClientQueue

/-- A disabled client goes to a robotic server, if there is one. -/
def Preferred (sys : System) (d : DisabilityType) : Prop :=
  d ≠ .noDisability ∧ sys.roboticServers ≠ []

instance (sys : System) (d : DisabilityType) : Decidable (Preferred sys d) :=
  inferInstanceAs (Decidable (_ ∧ _ ≠ []))

/-- The server at `i`, of all servers in their order, is to receive the client. -/
def IsTarget (sys : System) (d : DisabilityType) (i : ℕ) : Prop :=
  if Preferred sys d then
    ∃ j load, i = sys.standardServers.length + j ∧
      FirstLeast (sys.roboticServers.map fun s => exactLoad s d) j load
  else ∃ load, FirstLeast ((servers sys).map fun s => exactLoad s.2 d) i load

/-- The client joins the back of its queue at the server at `i`, and nothing
else of any server changes. -/
def JoinsAt (sys : System) (d : DisabilityType) (p : ClientPtr) (i : ℕ) (sys' : System) : Prop :=
  sys'.systemClients = sys.systemClients ∧
    ∃ (s : AnyServer) (q : Queue ClientPtr), (servers sys)[i]? = some s ∧
      contents q = contents (targetQueue s.2 d) ++ [p] ∧
      servers sys' = (servers sys).set i ⟨s.1, withTarget q s.2 d⟩

/-- `assign_client` returns, having sent the client to its target. Where all
servers are compared, `server_get_load` is the load it stands for. -/
def RoutesRight (env : Env) (sys : System) (p : ClientPtr) (w : World) : Prop :=
  Returns (assignClient env sys p) w fun sys' w' =>
    w'.heap = w.heap ∧
    (∃ i, IsTarget sys (w.heap p).disabilityType i ∧
      JoinsAt sys (w.heap p).disabilityType p i sys') ∧
    (¬ Preferred sys (w.heap p).disabilityType →
      ∀ s ∈ servers sys, serverGetLoad s.2 (w.heap p).disabilityType =
        exactLoad s.2 (w.heap p).disabilityType)

/-- The loads that are compared are at most `INT_MAX`, and one is less. -/
def LoadsFit (sys : System) (d : DisabilityType) : Prop :=
  let compared := if Preferred sys d then sys.roboticServers.map fun s => exactLoad s d
    else (servers sys).map fun s => exactLoad s.2 d
  (∀ load ∈ compared, load ≤ intMax) ∧ ∃ load ∈ compared, load < intMax

/-- The queues of a server as its constructor and pushes leave them: a capacity
that only doubles from `QUEUE_BASE_SIZE` is at most 2^31. -/
def Fitting (s : AnyServer) : Prop :=
  ∀ q ∈ waitingQueues s.2, q.Valid ∧ q.capacity ≤ 2 ^ 31

/-- The queues of a server that represents a station are well formed. -/
theorem waitingQueues_valid {B : ℚ → Prop} {h₀ : Heap} {s : Server k}
    {st : Stations.Station ClientPtr} (h : ServerStations.Represents B h₀ s st)
    {q : Queue ClientPtr} (hq : q ∈ waitingQueues s) : q.Valid := by
  have hlines := h.lines
  cases s with
  | standard s =>
    obtain rfl := List.mem_singleton.mp hq
    exact hlines.2.1
  | robotic s =>
    rcases List.mem_pair.mp hq with rfl | rfl
    · exact hlines.1.1
    · exact hlines.2.1

section Loads

variable {s : Server k} {d : DisabilityType}

theorem serverGetLoad_eq (s : Server k) (d : DisabilityType) :
    serverGetLoad s d = wrapInt (exactLoad s d) := by
  cases s with
  | standard s => rfl
  | robotic s =>
    simp only [serverGetLoad, getRoboticServerLoad, exactLoad]
    split <;> rfl

theorem exactLoad_nonneg (s : Server k) (d : DisabilityType) : 0 ≤ exactLoad s d := by
  cases s with
  | standard s => exact Int.natCast_nonneg _
  | robotic s =>
    simp only [exactLoad]
    split <;> positivity

theorem size_le_exactLoad (s : Server k) (d : DisabilityType) :
    ((targetQueue s d).size : ℤ) ≤ exactLoad s d := by
  cases s with
  | standard s => exact le_refl _
  | robotic s =>
    simp only [exactLoad, targetQueue, queueSize]
    split <;> omega

theorem wrapInt_le (x : ℤ) : wrapInt x ≤ intMax := by
  unfold wrapInt intMax
  have hlt := Int.bmod_lt (x := x) (m := 2 ^ 32) (by decide)
  omega

/-- The load that the code compares is exact just if it is an `int`. -/
theorem serverGetLoad_exact_iff : serverGetLoad s d = exactLoad s d ↔ exactLoad s d ≤ intMax := by
  rw [serverGetLoad_eq]
  constructor
  · intro hexact
    rw [← hexact]
    exact wrapInt_le _
  · intro hle
    exact wrapInt_of_range ((show intMin ≤ 0 by decide).trans (exactLoad_nonneg s d)) hle

/-- A selection loop finds the first of the least loads below the load it begins with. -/
theorem lowLoad_spec (loads : List ℤ) (i : ℕ) (low : Option ℕ) (minLoad : ℤ) :
    ((∀ b ∈ loads, minLoad ≤ b) ∧ lowLoad i (low, minLoad) loads = (low, minLoad)) ∨
    ∃ j load, FirstLeast loads j load ∧ load < minLoad ∧
      lowLoad i (low, minLoad) loads = (some (i + j), load) := by
  induction loads generalizing i low minLoad with
  | nil => exact Or.inl ⟨by simp, rfl⟩
  | cons load rest ih =>
    simp only [lowLoad]
    split
    · rename_i hlt
      apply Or.inr
      rcases ih (i + 1) (some i) load with ⟨hle, hlow⟩ | ⟨j, least, hfirst, hless, hlow⟩
      · exact ⟨0, load, .cons_here hle, hlt, hlow⟩
      · refine ⟨j + 1, least, .cons_later hfirst hless, hless.trans hlt, ?_⟩
        rw [hlow, Nat.add_right_comm, Nat.add_assoc]
    · rename_i hle
      rw [gt_iff_lt, not_lt] at hle
      rcases ih (i + 1) low minLoad with ⟨hrest, hlow⟩ | ⟨j, least, hfirst, hless, hlow⟩
      · exact Or.inl ⟨List.forall_mem_cons.mpr ⟨hle, hrest⟩, hlow⟩
      · refine Or.inr ⟨j + 1, least, .cons_later hfirst (hless.trans_le hle), hless, ?_⟩
        rw [hlow, Nat.add_right_comm, Nat.add_assoc]

/-- The loops of `assign_client`: no load is below `INT_MAX`, or the first of the least is found. -/
theorem lowLoad_cases (loads : List ℤ) :
    ((∀ b ∈ loads, intMax ≤ b) ∧ lowLoad 0 (none, intMax) loads = (none, intMax)) ∨
    ∃ j load, FirstLeast loads j load ∧ load < intMax ∧
      lowLoad 0 (none, intMax) loads = (some j, load) := by
  simpa only [Nat.zero_add] using lowLoad_spec loads 0 none intMax

end Loads

section Pushes

variable {env : Env} {w : World} {p : ClientPtr} {sys : System} {i : ℕ} {tol : Fault → Prop}

/-- `server_assign_client` on the server at an index is one push to its target queue. -/
theorem ensures_assignTo {l : List (Server k)} {s : Server k} (hs : l[i]? = some s)
    {Q : List (Server k) → World → Prop} :
    Ensures tol (assignTo env l (some i) p) w Q ↔
      Ensures tol (liftM (queuePush (env.granted w.requests)
        (targetQueue s (w.heap p).disabilityType) (some p)) : Prog (Bool × Queue ClientPtr))
        { w with requests := w.requests + 1 } fun r w' =>
          Q (l.set i (withTarget r.2 s (w.heap p).disabilityType)) w' := by
  simp only [assignTo, hs, ensures_bind, ensures_serverAssignClient, ensures_pure]

theorem assignTo_joins (hgranted : env.AllocationsSucceed) {l : List (Server k)} {s : Server k}
    (hs : l[i]? = some s) (hrange : InRange (targetQueue s (w.heap p).disabilityType))
    (hroom : HasRoom true (targetQueue s (w.heap p).disabilityType)) :
    Ensures (fun _ => False) (assignTo env l (some i) p) w fun l' w' =>
      w'.heap = w.heap ∧ ∃ q,
        contents q = contents (targetQueue s (w.heap p).disabilityType) ++ [p] ∧
        l' = l.set i (withTarget q s (w.heap p).disabilityType) := by
  rw [ensures_assignTo hs, hgranted]
  rcases hrange.push_cases true p with ⟨-, q, hpush, -, hcontents⟩ | ⟨hfull, -⟩
  · rw [hpush, ensures_lift_ok]
    exact ⟨rfl, q, hcontents, rfl⟩
  · exact absurd hroom hfull

theorem assignStandard_joins (hgranted : env.AllocationsSucceed) {s : Server .standard}
    (hs : sys.standardServers[i]? = some s)
    (hrange : InRange (targetQueue s (w.heap p).disabilityType))
    (hroom : HasRoom true (targetQueue s (w.heap p).disabilityType)) :
    Ensures (fun _ => False) (assignStandard env sys (some i) p) w fun sys' w' =>
      w'.heap = w.heap ∧ JoinsAt sys (w.heap p).disabilityType p i sys' := by
  rw [assignStandard, ensures_bind]
  apply (assignTo_joins hgranted hs hrange hroom).mono
  intro l' w' hpost
  obtain ⟨hheap, q, hcontents, rfl⟩ := hpost
  obtain ⟨hi, hget⟩ := List.getElem?_eq_some_iff.mp hs
  refine ⟨hheap, rfl, ⟨_, s⟩, q, ?_, hcontents, ?_⟩
  · rw [servers, List.getElem?_append_left (by simpa using hi), List.getElem?_map, hs]
    rfl
  · simp only [servers, List.map_set]
    rw [List.set_append_left _ _ (by simpa using hi)]

theorem assignRobotic_joins (hgranted : env.AllocationsSucceed) {s : Server .robotic}
    (hs : sys.roboticServers[i]? = some s)
    (hrange : InRange (targetQueue s (w.heap p).disabilityType))
    (hroom : HasRoom true (targetQueue s (w.heap p).disabilityType)) :
    Ensures (fun _ => False) (assignRobotic env sys (some i) p) w fun sys' w' =>
      w'.heap = w.heap ∧
        JoinsAt sys (w.heap p).disabilityType p (sys.standardServers.length + i) sys' := by
  rw [assignRobotic, ensures_bind]
  apply (assignTo_joins hgranted hs hrange hroom).mono
  intro l' w' hpost
  obtain ⟨hheap, q, hcontents, rfl⟩ := hpost
  refine ⟨hheap, rfl, ⟨_, s⟩, q, ?_, hcontents, ?_⟩
  · rw [servers, List.getElem?_append_right (by simp)]
    simp [hs]
  · simp only [servers, List.map_set]
    rw [List.set_append_right _ _ (by simp)]
    simp

/-- A push without room stops the run. -/
theorem assignRobotic_fails (hgranted : env.AllocationsSucceed) {s : Server .robotic}
    (hs : sys.roboticServers[i]? = some s)
    (hrange : InRange (targetQueue s (w.heap p).disabilityType))
    (hfull : ¬ HasRoom true (targetQueue s (w.heap p).disabilityType)) :
    Ensures (fun _ => True) (assignRobotic env sys (some i) p) w fun _ _ => False := by
  rw [assignRobotic, ensures_bind, ensures_assignTo hs, hgranted, hrange.push_error hfull]
  trivial

end Pushes

section Routes

variable {env : Env} {w : World} {p : ClientPtr} {sys : System} {d : DisabilityType}

theorem hasRoom_of_load_lt {s : Server k} (hlt : exactLoad s d < intMax) :
    HasRoom true (targetQueue s d) := by
  have hsize := size_le_exactLoad s d
  unfold intMax at hlt
  simp only [HasRoom, true_and]
  omega

theorem loads_exact {l : List (Server k)} (hle : ∀ s ∈ l, exactLoad s d ≤ intMax) :
    (l.map fun s => serverGetLoad s d) = l.map fun s => exactLoad s d :=
  List.map_congr_left fun s hs => serverGetLoad_exact_iff.mpr (hle s hs)

theorem exists_server_of_load {l : List (Server k)} {j : ℕ} {load : ℤ}
    (h : FirstLeast (l.map fun s => exactLoad s d) j load) :
    ∃ s, l[j]? = some s ∧ exactLoad s d = load := by
  have hload := h.at_index
  rw [List.getElem?_map, Option.map_eq_some_iff] at hload
  exact hload

theorem servers_loads (sys : System) (d : DisabilityType) :
    ((servers sys).map fun s => exactLoad s.2 d) =
      (sys.standardServers.map fun s => exactLoad s d) ++
        sys.roboticServers.map fun s => exactLoad s d := by
  rw [servers, List.map_append, List.map_map, List.map_map]
  rfl

theorem mem_servers_standard {s : Server .standard} (hs : s ∈ sys.standardServers) :
    ⟨_, s⟩ ∈ servers sys := List.mem_append_left _ (List.mem_map_of_mem hs)

theorem mem_servers_robotic {s : Server .robotic} (hs : s ∈ sys.roboticServers) :
    ⟨_, s⟩ ∈ servers sys := List.mem_append_right _ (List.mem_map_of_mem hs)

section Found

variable (hgranted : env.AllocationsSucceed)
  (hqueues : ∀ s ∈ servers sys, ∀ q ∈ waitingQueues s.2, InRange q)

include hgranted hqueues

/-- The standard server with the first of the least loads receives the client. -/
theorem assignStandard_found {i : ℕ} {load : ℤ}
    (hfirst : FirstLeast (sys.standardServers.map fun s => exactLoad s (w.heap p).disabilityType)
      i load) (hlt : load < intMax) :
    Ensures (fun _ => False) (assignStandard env sys (some i) p) w fun sys' w' =>
      w'.heap = w.heap ∧ JoinsAt sys (w.heap p).disabilityType p i sys' := by
  obtain ⟨s, hs, hload⟩ := exists_server_of_load hfirst
  have hmem := mem_servers_standard (List.mem_of_getElem? hs)
  exact assignStandard_joins hgranted hs (hqueues _ hmem _ (targetQueue_mem s _))
    (hasRoom_of_load_lt (hload ▸ hlt))

/-- The robotic server with the first of the least loads receives the client. -/
theorem assignRobotic_found {j : ℕ} {load : ℤ}
    (hfirst : FirstLeast (sys.roboticServers.map fun s => exactLoad s (w.heap p).disabilityType)
      j load) (hlt : load < intMax) :
    Ensures (fun _ => False) (assignRobotic env sys (some j) p) w fun sys' w' =>
      w'.heap = w.heap ∧
        JoinsAt sys (w.heap p).disabilityType p (sys.standardServers.length + j) sys' := by
  obtain ⟨s, hs, hload⟩ := exists_server_of_load hfirst
  have hmem := mem_servers_robotic (List.mem_of_getElem? hs)
  exact assignRobotic_joins hgranted hs (hqueues _ hmem _ (targetQueue_mem s _))
    (hasRoom_of_load_lt (hload ▸ hlt))

/-- A disabled client goes to the robotic server with the shortest disable queue. -/
theorem assignClient_preferred (hpreferred : Preferred sys (w.heap p).disabilityType)
    (hle : ∀ s ∈ sys.roboticServers, exactLoad s (w.heap p).disabilityType ≤ intMax)
    (hless : ∃ s ∈ sys.roboticServers, exactLoad s (w.heap p).disabilityType < intMax) :
    Ensures (fun _ => False) (assignClient env sys p) w fun sys' w' =>
      w'.heap = w.heap ∧ ∃ i, IsTarget sys (w.heap p).disabilityType i ∧
        JoinsAt sys (w.heap p).disabilityType p i sys' := by
  simp only [assignClient, ensures_bind, ensures_readClient, loads_exact hle]
  rcases lowLoad_cases (sys.roboticServers.map fun s => exactLoad s (w.heap p).disabilityType)
    with ⟨hge, -⟩ | ⟨j, load, hfirst, hlt, hlow⟩
  · obtain ⟨s, hs, hlt⟩ := hless
    exact absurd (hge _ (List.mem_map_of_mem hs)) (not_le.mpr hlt)
  · rw [hlow]
    simp only [Option.isNone_some, Bool.false_and, Bool.false_eq_true, if_false,
      Option.isSome_some, and_true, if_pos hpreferred.1]
    apply (assignRobotic_found hgranted hqueues hfirst hlt).mono
    intro sys' w' hpost
    refine ⟨hpost.1, _, ?_, hpost.2⟩
    rw [IsTarget, if_pos hpreferred]
    exact ⟨j, load, rfl, hfirst⟩

section Compared

variable (hpreferred : ¬ Preferred sys (w.heap p).disabilityType)

include hpreferred

omit hgranted hqueues in
theorem isTarget_of_firstLeast {i : ℕ} {load : ℤ} (hfirst : FirstLeast
    ((sys.standardServers.map fun s => exactLoad s (w.heap p).disabilityType) ++
      sys.roboticServers.map fun s => exactLoad s (w.heap p).disabilityType) i load) :
    IsTarget sys (w.heap p).disabilityType i := by
  rw [IsTarget, if_neg hpreferred, servers_loads]
  exact ⟨load, hfirst⟩

/-- A standard server that no robotic one beats is the target. -/
theorem assignStandard_target {i : ℕ} {load : ℤ}
    (hfirst : FirstLeast (sys.standardServers.map fun s => exactLoad s (w.heap p).disabilityType)
      i load) (hlt : load < intMax)
    (hrobotic : ∀ b ∈ sys.roboticServers.map fun s => exactLoad s (w.heap p).disabilityType,
      load ≤ b) :
    Ensures (fun _ => False) (assignStandard env sys (some i) p) w fun sys' w' =>
      w'.heap = w.heap ∧ ∃ i, IsTarget sys (w.heap p).disabilityType i ∧
        JoinsAt sys (w.heap p).disabilityType p i sys' := by
  apply (assignStandard_found hgranted hqueues hfirst hlt).mono
  intro sys' w' hpost
  exact ⟨hpost.1, _, isTarget_of_firstLeast hpreferred (hfirst.append_left hrobotic), hpost.2⟩

/-- A robotic server that beats all standard ones is the target. -/
theorem assignRobotic_target {j : ℕ} {load : ℤ}
    (hfirst : FirstLeast (sys.roboticServers.map fun s => exactLoad s (w.heap p).disabilityType)
      j load) (hlt : load < intMax)
    (hstandard : ∀ a ∈ sys.standardServers.map fun s => exactLoad s (w.heap p).disabilityType,
      load < a) :
    Ensures (fun _ => False) (assignRobotic env sys (some j) p) w fun sys' w' =>
      w'.heap = w.heap ∧ ∃ i, IsTarget sys (w.heap p).disabilityType i ∧
        JoinsAt sys (w.heap p).disabilityType p i sys' := by
  apply (assignRobotic_found hgranted hqueues hfirst hlt).mono
  intro sys' w' hpost
  have hall := hfirst.append_right hstandard
  rw [List.length_map] at hall
  exact ⟨hpost.1, _, isTarget_of_firstLeast hpreferred hall, hpost.2⟩

/-- Otherwise the client goes to the first of the least loaded servers. -/
theorem assignClient_compared
    (hle : ∀ s ∈ servers sys, exactLoad s.2 (w.heap p).disabilityType ≤ intMax)
    (hless : ∃ s ∈ servers sys, exactLoad s.2 (w.heap p).disabilityType < intMax) :
    Ensures (fun _ => False) (assignClient env sys p) w fun sys' w' =>
      w'.heap = w.heap ∧ ∃ i, IsTarget sys (w.heap p).disabilityType i ∧
        JoinsAt sys (w.heap p).disabilityType p i sys' := by
  have hregular : ∀ {j load}, FirstLeast
      (sys.roboticServers.map fun s => exactLoad s (w.heap p).disabilityType) j load →
      (w.heap p).disabilityType = .noDisability := by
    intro j load hfirst
    by_contra hd
    have hnil : sys.roboticServers = [] := by_contra fun hne => hpreferred ⟨hd, hne⟩
    rw [hnil] at hfirst
    exact List.not_mem_nil hfirst.mem
  simp only [assignClient, ensures_bind, ensures_readClient,
    loads_exact fun s hs => hle _ (mem_servers_standard hs),
    loads_exact fun s hs => hle _ (mem_servers_robotic hs)]
  rcases lowLoad_cases (sys.standardServers.map fun s => exactLoad s (w.heap p).disabilityType)
    with ⟨hge₁, hlow₁⟩ | ⟨i, load₁, hfirst₁, hlt₁, hlow₁⟩ <;>
  rcases lowLoad_cases (sys.roboticServers.map fun s => exactLoad s (w.heap p).disabilityType)
    with ⟨hge₂, hlow₂⟩ | ⟨j, load₂, hfirst₂, hlt₂, hlow₂⟩ <;>
  rw [hlow₁, hlow₂]
  · obtain ⟨s, hs, hlt⟩ := hless
    have hload := List.mem_map_of_mem (f := fun s => exactLoad s.2 (w.heap p).disabilityType) hs
    rw [servers_loads] at hload
    rcases List.mem_append.mp hload with hload | hload
    · exact absurd (hge₁ _ hload) (not_le.mpr hlt)
    · exact absurd (hge₂ _ hload) (not_le.mpr hlt)
  · have hd := hregular hfirst₂
    simp only [Option.isNone_some, Option.isNone_none, Bool.false_and, Bool.false_eq_true, if_false,
      hd, ne_eq, not_true_eq_false, false_and, if_true]
    rw [← hd]
    exact assignRobotic_target hgranted hqueues hpreferred hfirst₂ hlt₂
      fun a ha => hlt₂.trans_le (hge₁ a ha)
  · simp only [Option.isNone_some, Option.isNone_none, Bool.and_false, Bool.false_eq_true, if_false,
      Option.isSome_none, and_false, if_true]
    exact assignStandard_target hgranted hqueues hpreferred hfirst₁ hlt₁
      fun b hb => hlt₁.le.trans (hge₂ b hb)
  · have hd := hregular hfirst₂
    simp only [Option.isNone_some, Bool.and_false, Bool.false_eq_true, if_false, hd, ne_eq,
      not_true_eq_false, false_and]
    rw [← hd]
    split
    · rename_i hless
      exact assignRobotic_target hgranted hqueues hpreferred hfirst₂ hlt₂
        fun a ha => hless.trans_le (hfirst₁.least a ha)
    · rename_i hle'
      exact assignStandard_target hgranted hqueues hpreferred hfirst₁ hlt₁
        fun b hb => (not_lt.mp hle').trans (hfirst₂.least b hb)

end Compared

end Found

/-- Loads that fit send the client to its target. -/
theorem routesRight_of_loadsFit (hgranted : env.AllocationsSucceed)
    (hqueues : ∀ s ∈ servers sys, ∀ q ∈ waitingQueues s.2, InRange q)
    (hfit : LoadsFit sys (w.heap p).disabilityType) : RoutesRight env sys p w := by
  rw [RoutesRight, returns_iff]
  by_cases hpreferred : Preferred sys (w.heap p).disabilityType
  · simp only [LoadsFit, if_pos hpreferred, List.forall_mem_map] at hfit
    obtain ⟨hle, load, hload, hlt⟩ := hfit
    obtain ⟨s, hs, rfl⟩ := List.mem_map.mp hload
    apply (assignClient_preferred hgranted hqueues hpreferred hle ⟨s, hs, hlt⟩).mono
    intro sys' w' hpost
    exact ⟨hpost.1, hpost.2, fun hnot => absurd hpreferred hnot⟩
  · simp only [LoadsFit, if_neg hpreferred, List.forall_mem_map] at hfit
    obtain ⟨hle, load, hload, hlt⟩ := hfit
    obtain ⟨s, hs, rfl⟩ := List.mem_map.mp hload
    apply (assignClient_compared hgranted hqueues hpreferred hle ⟨s, hs, hlt⟩).mono
    intro sys' w' hpost
    exact ⟨hpost.1, hpost.2, fun _ s hs => serverGetLoad_exact_iff.mpr (hle s hs)⟩

theorem targetQueue_withTarget (q : Queue ClientPtr) (s : Server k) (d : DisabilityType) :
    targetQueue (withTarget q s d) d = q := by
  cases s with
  | standard s => rfl
  | robotic s =>
    simp only [withTarget]
    split
    · rename_i hd
      simp [targetQueue, hd]
    · rename_i hd
      simp [targetQueue, hd]

/-- A client joins one server only. -/
theorem JoinsAt.unique {i j : ℕ} {sys' : System} (hi : JoinsAt sys d p i sys')
    (hj : JoinsAt sys d p j sys') : i = j := by
  obtain ⟨-, s, q, hs, hcontents, hservers⟩ := hi
  obtain ⟨-, s', q', -, -, hservers'⟩ := hj
  by_contra hne
  obtain ⟨hlt, -⟩ := List.getElem?_eq_some_iff.mp hs
  have hcell : (servers sys')[i]? = some ⟨s.1, withTarget q s.2 d⟩ := by
    rw [hservers, List.getElem?_set_self hlt]
  rw [hservers', List.getElem?_set_ne (Ne.symm hne), hs] at hcell
  obtain ⟨kind, s⟩ := s
  have hsame : withTarget q s d = s := by
    have hpair := Option.some.inj hcell
    simp only [Sigma.mk.injEq, heq_eq_eq, true_and] at hpair
    exact hpair.symm
  have hqueue := congrArg contents (targetQueue_withTarget q s d)
  rw [hsame, hcontents] at hqueue
  simp at hqueue

/-- A selection loop over full servers finds none. -/
theorem lowLoad_full {loads : List ℤ} (hfull : ∀ load ∈ loads, intMax ≤ load) :
    lowLoad 0 (none, intMax) loads = (none, intMax) := by
  rcases lowLoad_cases loads with ⟨-, hlow⟩ | ⟨j, load, hfirst, hlt, -⟩
  · exact hlow
  · exact absurd (hfull load hfirst.mem) (not_le.mpr hlt)

/-- Where all servers are compared, a client that is routed right has room below `INT_MAX`. -/
theorem loadsFit_of_compared (hpreferred : ¬ Preferred sys (w.heap p).disabilityType)
    (h : RoutesRight env sys p w) : LoadsFit sys (w.heap p).disabilityType := by
  obtain ⟨sys', w', hrun, -, -, hexact⟩ := (returns_iff.mp h).returns fun _ _ => not_false
  have hle : ∀ s ∈ servers sys, exactLoad s.2 (w.heap p).disabilityType ≤ intMax := fun s hs =>
    serverGetLoad_exact_iff.mp (hexact hpreferred s hs)
  simp only [LoadsFit, if_neg hpreferred, List.forall_mem_map]
  refine ⟨hle, ?_⟩
  by_contra hnone
  push Not at hnone
  rw [servers_loads, List.forall_mem_append] at hnone
  have hfails : Ensures (fun _ => True) (assignClient env sys p) w fun _ _ => False := by
    simp only [assignClient, ensures_bind, ensures_readClient,
      loads_exact fun s hs => hle _ (mem_servers_standard hs),
      loads_exact fun s hs => hle _ (mem_servers_robotic hs), lowLoad_full hnone.1,
      lowLoad_full hnone.2]
    trivial
  exact (ensures_of_ok hrun).mp hfails

section Disabled

variable (hgranted : env.AllocationsSucceed) (hfitting : ∀ s ∈ servers sys, Fitting s)

include hfitting in
/-- A disable queue of fitting capacity overflows `int` in one way only. -/
theorem exactLoad_of_wraps (hd : d ≠ .noDisability) {s : Server .robotic}
    (hs : s ∈ sys.roboticServers) (hwraps : serverGetLoad s d ≤ intMin ∨ intMax < exactLoad s d) :
    serverGetLoad s d = intMin ∧ ¬ HasRoom true (targetQueue s d) := by
  obtain ⟨hvalid, hcap⟩ := hfitting _ (mem_servers_robotic hs) _ (targetQueue_mem s d)
  have hsize := hvalid.size_le
  have hload : exactLoad s d = (targetQueue s d).size := by
    cases s with
    | robotic s => simp only [exactLoad, targetQueue, if_neg hd, queueSize]
  rw [serverGetLoad_eq, hload] at hwraps ⊢
  have hfull : (targetQueue s d).size = 2 ^ 31 := by
    by_contra hne
    have hrange : wrapInt (targetQueue s d).size = (targetQueue s d).size :=
      wrapInt_of_range (by unfold intMin; omega) (by unfold intMax; omega)
    rw [hrange] at hwraps
    unfold intMin intMax at hwraps
    omega
  refine ⟨by rw [hfull]; decide, ?_⟩
  simp only [HasRoom, true_and]
  omega

include hgranted hfitting in
/-- A disabled client is routed right only if no disable queue overflows `int`. -/
theorem load_le_of_preferred (hpreferred : Preferred sys (w.heap p).disabilityType)
    (h : RoutesRight env sys p w) :
    ∀ s ∈ sys.roboticServers, exactLoad s (w.heap p).disabilityType ≤ intMax := by
  obtain ⟨sys', w', hrun, -⟩ := (returns_iff.mp h).returns fun _ _ => not_false
  intro s hs
  by_contra hover
  have hwraps := exactLoad_of_wraps hfitting hpreferred.1 hs (Or.inr (not_le.mp hover))
  have hfails : Ensures (fun _ => True) (assignClient env sys p) w fun _ _ => False := by
    simp only [assignClient, ensures_bind, ensures_readClient]
    rcases lowLoad_cases
        (sys.roboticServers.map fun s => serverGetLoad s (w.heap p).disabilityType)
      with ⟨hge, -⟩ | ⟨j, load, hfirst, -, hlow⟩
    · have hge' := hge _ (List.mem_map_of_mem hs)
      rw [hwraps.1] at hge'
      exact absurd hge' (by decide)
    · -- the server found is full, too
      have hleast := hfirst.least _ (List.mem_map_of_mem hs)
      have hindex := hfirst.at_index
      rw [List.getElem?_map, Option.map_eq_some_iff] at hindex
      obtain ⟨s', hs', rfl⟩ := hindex
      have hmem := List.mem_of_getElem? hs'
      rw [hwraps.1] at hleast
      have hfull := (exactLoad_of_wraps hfitting hpreferred.1 hmem (Or.inl hleast)).2
      have hqueue := hfitting _ (mem_servers_robotic hmem) _
        (targetQueue_mem s' (w.heap p).disabilityType)
      rw [hlow]
      simp only [Option.isNone_some, Bool.false_and, Bool.false_eq_true, if_false,
        Option.isSome_some, and_true, if_pos hpreferred.1]
      exact assignRobotic_fails hgranted hs'
        ⟨hqueue.1, hqueue.2.trans_lt (by decide)⟩ hfull
  exact (ensures_of_ok hrun).mp hfails

include hgranted hfitting in
/-- A disabled client is routed right only if some disable queue is below `INT_MAX`. -/
theorem load_lt_of_preferred (hpreferred : Preferred sys (w.heap p).disabilityType)
    (h : RoutesRight env sys p w) :
    ∃ s ∈ sys.roboticServers, exactLoad s (w.heap p).disabilityType < intMax := by
  have hle := load_le_of_preferred hgranted hfitting hpreferred h
  obtain ⟨sys', w', hrun, -, ⟨i, htarget, hjoins⟩, -⟩ :=
    (returns_iff.mp h).returns fun _ _ => not_false
  rw [IsTarget, if_pos hpreferred] at htarget
  obtain ⟨j, load, rfl, -⟩ := htarget
  by_contra hnone
  push Not at hnone
  have helsewhere : Ensures (fun _ => True) (assignClient env sys p) w fun sys' _ =>
      ∃ i < sys.standardServers.length, JoinsAt sys (w.heap p).disabilityType p i sys' := by
    simp only [assignClient, ensures_bind, ensures_readClient, loads_exact hle]
    rw [lowLoad_full (by simpa using hnone)]
    rcases lowLoad_cases
        (sys.standardServers.map fun s => serverGetLoad s (w.heap p).disabilityType)
      with ⟨-, hlow⟩ | ⟨i, load, hfirst, -, hlow⟩
    · rw [hlow]
      trivial
    · have hindex := hfirst.at_index
      rw [List.getElem?_map, Option.map_eq_some_iff] at hindex
      obtain ⟨s, hs, -⟩ := hindex
      rw [hlow]
      simp only [Option.isNone_some, Option.isNone_none, Bool.and_false, Bool.false_eq_true,
        if_false, Option.isSome_none, and_false, if_true]
      have hmem := mem_servers_standard (List.mem_of_getElem? hs)
      have hqueue := hfitting _ hmem _ (targetQueue_mem s (w.heap p).disabilityType)
      have hrange : InRange (targetQueue s (w.heap p).disabilityType) :=
        ⟨hqueue.1, hqueue.2.trans_lt (by decide)⟩
      by_cases hroom : HasRoom true (targetQueue s (w.heap p).disabilityType)
      · apply ((assignStandard_joins hgranted hs hrange hroom).weaken fun _ => False.elim).mono
        intro sys' w' hpost
        exact ⟨i, hfirst.index_lt.trans_eq (List.length_map _), hpost.2⟩
      · rw [assignStandard, ensures_bind, ensures_assignTo hs, hgranted, hrange.push_error hroom]
        trivial
  obtain ⟨i, hi, hjoins'⟩ := (ensures_of_ok hrun).mp helsewhere
  have heq := hjoins'.unique hjoins
  omega

end Disabled

/-- With memory for every request a client is routed right just if the loads
that are compared fit into `int` and one of them is below its last value. -/
theorem client_routed_iff (env : Env) (sys : System) (p : ClientPtr) (w : World)
    (hgranted : env.AllocationsSucceed) :
    ((∀ s ∈ servers sys, Fitting s) →
      (RoutesRight env sys p w ↔ LoadsFit sys (w.heap p).disabilityType)) ∧
    ((∀ s ∈ servers sys, ∀ q ∈ waitingQueues s.2, InRange q) →
      LoadsFit sys (w.heap p).disabilityType → RoutesRight env sys p w) := by
  refine ⟨fun hfitting => ⟨fun h => ?_, ?_⟩, routesRight_of_loadsFit hgranted⟩
  · by_cases hpreferred : Preferred sys (w.heap p).disabilityType
    · have hle := load_le_of_preferred hgranted hfitting hpreferred h
      obtain ⟨s, hs, hlt⟩ := load_lt_of_preferred hgranted hfitting hpreferred h
      simp only [LoadsFit, if_pos hpreferred, List.forall_mem_map]
      exact ⟨hle, _, List.mem_map_of_mem hs, hlt⟩
    · exact loadsFit_of_compared hpreferred h
  · apply routesRight_of_loadsFit hgranted
    intro s hs q hq
    obtain ⟨hvalid, hcap⟩ := hfitting s hs q hq
    exact ⟨hvalid, hcap.trans_lt (by decide)⟩

theorem contended_fitting : ∀ s ∈ servers (contended.systemAt 6), Fitting s := by
  have hord : contended.Ordinary 6 := contended_ordinary.mono (by omega)
  have hcap : ((servers (contended.systemAt 6)).all fun s =>
      (waitingQueues s.2).all fun q => decide (q.capacity ≤ 2 ^ 31)) = true := by decide +kernel
  intro s hs q hq
  obtain ⟨i, hi⟩ := List.mem_iff_getElem?.mp hs
  obtain ⟨st, -, hrep⟩ := exists_station hord.refines hi
  exact ⟨waitingQueues_valid hrep hq,
    of_decide_eq_true (List.all_eq_true.mp (List.all_eq_true.mp hcap s hs) q hq)⟩

/-- A regular and a disabled client are at the door while clients wait at both servers. -/
theorem client_routed_iff_contended :
    let sys := contended.systemAt 6
    let w := (contended.stateAt 6).2
    (∀ s ∈ servers sys, waitingClients s.2 ≠ []) ∧
    (RoutesRight contended.env sys 5 w ↔ LoadsFit sys .noDisability) ∧
    (RoutesRight contended.env sys 6 w ↔ LoadsFit sys .type2) ∧
    RoutesRight contended.env sys 5 w ∧ RoutesRight contended.env sys 6 w := by
  intro sys w
  have hregular := client_routed_iff contended.env sys 5 w fun _ => rfl
  have hdisabled := client_routed_iff contended.env sys 6 w fun _ => rfl
  have hfits : ∀ d, d = .noDisability ∨ d = .type2 → LoadsFit sys d := by
    intro d hd
    unfold LoadsFit
    rcases hd with rfl | rfl <;> decide +kernel
  have hrange : ∀ s ∈ servers sys, ∀ q ∈ waitingQueues s.2, InRange q := fun s hs q hq =>
    ⟨(contended_fitting s hs q hq).1, (contended_fitting s hs q hq).2.trans_lt (by decide)⟩
  have htype : (w.heap 5).disabilityType = .noDisability ∧ (w.heap 6).disabilityType = .type2 := by
    decide +kernel
  rw [htype.1] at hregular
  rw [htype.2] at hdisabled
  exact ⟨by decide +kernel, hregular.1 contended_fitting, hdisabled.1 contended_fitting,
    hregular.2 hrange (hfits _ (.inl rfl)), hdisabled.2 hrange (hfits _ (.inr rfl))⟩

/-- A queue of 2^31 cells that holds client 0 `n` times over. -/
def longQueue (n : ℕ) : Queue ClientPtr :=
  { items := List.replicate n (some 0) ++ List.replicate (2 ^ 31 - n) none
    size := n
    capacity := 2 ^ 31 }

theorem longQueue_valid {n : ℕ} (hn : n ≤ 2 ^ 31) : (longQueue n).Valid := by
  refine (represents_of_items (l := List.replicate n 0) (u := List.replicate (2 ^ 31 - n) none)
    ?_ ?_ ?_ ?_).1
  · simp [longQueue]
  · simp [longQueue]
  · simp only [longQueue, List.length_append, List.length_replicate]
    omega
  · simp [longQueue]

/-- A system of one standard server with `n` clients waiting. -/
def queueing (n : ℕ) : System where
  systemClients := some emptyQueue
  standardServers := [.standard { base := freshBase 0, clientQueue := longQueue n }]
  roboticServers := []

theorem queueing_fitting {n : ℕ} (hn : n ≤ 2 ^ 31) : ∀ s ∈ servers (queueing n), Fitting s := by
  intro s hs q hq
  obtain rfl := List.mem_singleton.mp hs
  obtain rfl := List.mem_singleton.mp hq
  exact ⟨longQueue_valid hn, le_refl _⟩

theorem loadsFit_queueing {n : ℕ} : LoadsFit (queueing n) d ↔ (n : ℤ) < intMax := by
  have hpreferred : ¬ Preferred (queueing n) d := fun hboth => hboth.2 rfl
  have hload : ((servers (queueing n)).map fun s => exactLoad s.2 d) = [(n : ℤ)] := rfl
  simp only [LoadsFit, if_neg hpreferred, hload, List.mem_singleton, forall_eq, exists_eq_left]
  exact and_iff_right_of_imp le_of_lt

/-- The only server has `INT_MAX` clients waiting, so that no server is found. -/
theorem full_server_not_found :
    (∀ s ∈ servers (queueing 2147483647), Fitting s) ∧
    ¬ RoutesRight mixed.env (queueing 2147483647) 1 idleWorld := by
  have hfitting := queueing_fitting (n := 2147483647) (by norm_num)
  refine ⟨hfitting, fun hright => ?_⟩
  have hpreferred : ¬ Preferred (queueing 2147483647) (idleWorld.heap 1).disabilityType :=
    fun hboth => hboth.2 rfl
  have hlt := loadsFit_queueing.mp (loadsFit_of_compared hpreferred hright)
  exact absurd hlt (by decide)

end Routes

end AcaBSim.Assignments
