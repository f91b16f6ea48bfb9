import AcaBSim.Teardown
import AcaBSim.Conservation
import AcaBSim.GeneratedClients
import AcaBSim.Totals

/-!
What the end of a test hands to `free`. The routines that free go through the
places where a client can be when the loop of `simulate` stops, so with the
conservation of clients every client of `clients_init` is freed once.
-/
namespace AcaBSim.Releases

open Machine ArrayQueue Clients Servers Systems Outcome Stations Networks ServerStations
  Simulation Scenarios Conservation ClientGenerator GeneratedClients Teardown

variable {k : ServerType} {α : Type}

section Frees

variable {B : ℚ → Prop} {h₀ : Heap} {s : Server k} {st : Station ClientPtr}

/-- The loop frees a block of items, by induction on it. -/
theorem freeItems_block (block : List α) (pre post : List (Option α)) (i : ℕ)
    (hi : pre.length = i) :
    freeItems (pre ++ block.map some ++ post) i block.length = .ok block := by
  induction block generalizing pre i with
  | nil => rfl
  | cons a block ih =>
    have hread : readItem (pre ++ (a :: block).map some ++ post) i = .ok (some a) := by
      rw [List.map_cons, List.append_assoc]
      exact readItem_append hi
    have hrest := ih (pre ++ [some a]) (i + 1) (by rw [List.length_append, hi]; rfl)
    rw [List.append_assoc pre, List.singleton_append, ← List.map_cons] at hrest
    simp only [List.length_cons, freeItems, hread, hrest, Bind.bind, Except.bind]
    rfl

/-- `queue_free` hands over the contents, from the last to the first. -/
theorem queueFree_valid {q : Queue α} (h : q.Valid) :
    queueFree (some q) = .ok (contents q).reverse := by
  have hblock := freeItems_block (contents q).reverse [] (q.items.drop q.size) 0 rfl
  rw [List.nil_append, ← h.items_eq, List.length_reverse, h.length_contents] at hblock
  exact hblock

/-- `server_free` empties the waiting queues, the service and the finished queue. -/
theorem serverFree_perm (h : Represents B h₀ s st) :
    ∃ freed, serverFree s = .ok freed ∧ freed.Perm (serverPlaces s) := by
  have hbase : serverBaseFree s.base =
      .ok ((finishedClients s).reverse ++ s.base.currentClient.toList) := by
    rw [serverBaseFree, queueFree_valid h.finished.1]
    rfl
  have hplaces : ∀ waiting : List ClientPtr, waiting.Perm (waitingClients s) →
      ((finishedClients s).reverse ++ s.base.currentClient.toList ++ waiting).Perm
        (serverPlaces s) := by
    intro waiting hwaiting
    have hfront : ((finishedClients s).reverse ++ s.base.currentClient.toList).Perm
        (s.base.currentClient.toList ++ finishedClients s) :=
      List.perm_append_comm.trans ((List.reverse_perm _).append_left _)
    rw [serverPlaces, List.append_assoc (waitingClients s)]
    exact List.perm_append_comm.trans (hwaiting.append hfront)
  cases s with
  | standard s =>
    obtain ⟨-, hqueue⟩ := h.lines
    refine ⟨_, ?_, hplaces (contents s.clientQueue).reverse (List.reverse_perm _)⟩
    change serverBaseFree s.base = _ at hbase
    simp only [serverFree, hbase, queueFree_valid hqueue.1, Bind.bind, Except.bind]
  | robotic s =>
    obtain ⟨hdisable, hnormal⟩ := h.lines
    have hwaiting : ((contents s.normalClientQueue).reverse ++
        (contents s.disableClientQueue).reverse).Perm (waitingClients (.robotic s)) :=
      List.perm_append_comm.trans ((List.reverse_perm _).append (List.reverse_perm _))
    refine ⟨_, ?_, hplaces _ hwaiting⟩
    change serverBaseFree s.base = _ at hbase
    simp only [serverFree, hbase, queueFree_valid hdisable.1, queueFree_valid hnormal.1, Bind.bind,
      Except.bind, List.append_assoc]

theorem serversFree_perm {l : List (Server k)} {sts : List (Station ClientPtr)}
    (h : List.Forall₂ (Represents B h₀) l sts) :
    ∃ freed, serversFree l = .ok freed ∧ freed.Perm (l.flatMap serverPlaces) := by
  induction h with
  | nil => exact ⟨[], rfl, .nil⟩
  | cons hst _ ih =>
    obtain ⟨first, hfirst, hperm⟩ := serverFree_perm hst
    obtain ⟨others, hothers, hperms⟩ := ih
    refine ⟨first ++ others, ?_, ?_⟩
    · simp only [serversFree, hfirst, hothers, Bind.bind, Except.bind]
    · rw [List.flatMap_cons]
      exact hperm.append hperms

end Frees

section Setups

variable {env : Env} {w : World} {q : Queue ClientPtr} {params : SimParam} {unset : Unset}

/-- The servers and the queue of the clients hand over all clients of a scenario. -/
theorem runSetup_frees (S : Scenario) (hboost : S.BoostModerate)
    (hne : S.system.standardServers ≠ []) (htime : params.simulationTime ≤ intMax) :
    Ensures Fault.CounterOverflow (runSetup S.env S.system params unset) S.world fun r _ =>
      ∃ rest, queueFree r.2.1 = .ok rest ∧ (r.2.2 ++ rest).Perm (contents S.clients) := by
  have hticks := toNat_le_intMax htime
  rw [runSetup, ensures_bind]
  apply (Totals.simulate_follows S hboost hne htime unset.stats).mono
  intro r w' hpost
  obtain ⟨final, stats⟩ := r
  obtain ⟨w₁, hloop, -⟩ := hpost
  have hord : S.Ordinary params.simulationTime.toNat :=
    Scenario.ordinary_of_isOk hboost hticks (by rw [hloop]; rfl)
  have hrefines := hord.refines
  rw [Scenario.systemAt, Scenario.stateAt_of_loop hloop] at hrefines
  obtain ⟨gone, hprogress⟩ := S.fresh.progress (P := S.policy) params.simulationTime.toNat
  have hplaces : (places final).Perm (contents S.clients) :=
    (places_perm hrefines).trans hprogress.places
  obtain ⟨door, hdoor, hheld⟩ := hrefines.door
  obtain ⟨sts₁, sts₂, -, -, hservers⟩ := hrefines.stations
  obtain ⟨standard, hstandard, hperm₁⟩ := serversFree_perm hservers.standard
  obtain ⟨robotic, hrobotic, hperm₂⟩ := serversFree_perm hservers.robotic
  simp only [hstandard, hrobotic, ensures_bind, ensures_lift_ok, ensures_pure]
  refine ⟨(contents door).reverse, ?_, ?_⟩
  · rw [hdoor]
    exact queueFree_valid hheld.1
  · have hall : (standard ++ robotic).Perm ((servers final).flatMap fun s => serverPlaces s.2) := by
      rw [servers, List.flatMap_append, List.flatMap_map, List.flatMap_map]
      exact hperm₁.append hperm₂
    have hplaces' : (doorClients final ++ (servers final).flatMap fun s => serverPlaces s.2).Perm
        (contents S.clients) := hplaces
    rw [doorClients, hdoor] at hplaces'
    exact (List.perm_append_comm.trans ((List.reverse_perm _).append hall)).trans hplaces'

/-- A constructor that returns only fresh servers, and returns one. -/
theorem built_of_fresh {σ : Type} {x : Prog (Option σ)} {F : σ → Prop}
    (hfresh : Ensures (fun _ => False) x w fun s _ => ∀ s' ∈ s, F s')
    (hbuilt : Ensures (fun _ => True) x w fun s w' => s.isSome = true ∧ w'.heap = w.heap) :
    Ensures (fun _ => False) x w fun s w' => (∃ s', s = some s' ∧ F s') ∧ w'.heap = w.heap := by
  apply (hfresh.and hbuilt).mono
  intro s w' hpost
  obtain ⟨hfresh, hsome, hheap⟩ := hpost
  obtain ⟨s', rfl⟩ := Option.isSome_iff_exists.mp hsome
  exact ⟨⟨s', rfl, hfresh s' rfl⟩, hheap⟩

/-- With memory for it, the constructor returns a server and writes no client. -/
theorem standardServerNew_built (hgranted : env.AllocationsSucceed) {id : ℤ} {errorProb : ℚ}
    {toServe : ℤ} :
    Ensures (fun _ => False) (standardServerNew env id initTable errorProb toServe) w
      fun s w' => (∃ s', s = some s' ∧ FreshServer (.standard s')) ∧ w'.heap = w.heap := by
  refine built_of_fresh standardServerNew_fresh ?_
  simp only [standardServerNew, ensures_bind, ensures_nextGranted, hgranted _, Bool.not_true,
    Bool.false_eq_true, if_false]
  exact ⟨rfl, rfl⟩

theorem roboticServerNew_built (hgranted : env.AllocationsSucceed) {id : ℤ} {boost errorProb : ℚ}
    {toServe : ℤ} :
    Ensures (fun _ => False) (roboticServerNew env id initTable boost errorProb toServe) w
      fun s w' => (∃ s', s = some s' ∧ FreshServer (.robotic s') ∧ s'.boostRate = boost) ∧
        w'.heap = w.heap := by
  refine built_of_fresh roboticServerNew_fresh ?_
  simp only [roboticServerNew, ensures_bind, ensures_nextGranted, hgranted _, Bool.not_true,
    Bool.false_eq_true, if_false]
  exact ⟨rfl, rfl⟩

variable (hgranted : env.AllocationsSucceed) (hvalid : q.Valid) (hnodup : (contents q).Nodup)
  (htypes : ∀ p ∈ contents q, (w.heap p).Valid) (htime : params.simulationTime ≤ intMax)

include hgranted hvalid hnodup htypes htime

/-- The end of a setup with fresh servers is that of a scenario. -/
theorem runSetup_fresh_frees {standard : List (Server .standard)} {robotic : List (Server .robotic)}
    (hne : standard ≠ []) (hstandard : ∀ s ∈ standard, FreshServer s)
    (hrobotic : ∀ s ∈ robotic, FreshServer s ∧ ∀ b ∈ boostRate s, Moderate b) :
    Ensures Fault.CounterOverflow (runSetup env ⟨some q, standard, robotic⟩ params unset) w
      fun r _ => ∃ rest, queueFree r.2.1 = .ok rest ∧ (r.2.2 ++ rest).Perm (contents q) := by
  refine runSetup_frees
    { env := env
      system := ⟨some q, standard, robotic⟩
      world := w
      clients := q
      systemClients_eq := rfl
      allocations := hgranted
      clients_valid := hvalid
      clients_nodup := hnodup
      types_valid := htypes
      nonempty := Or.inl hne
      standard_fresh := hstandard
      robotic_fresh := fun s hs => ⟨(hrobotic s hs).1, fun b hb => ((hrobotic s hs).2 b hb).1⟩ }
    (fun s hs b hb => (hrobotic s hs).2 b hb) hne htime

theorem setup_frees (setup : Setup) (hboost : setup = .setup1 → Moderate params.robotBoostCoff) :
    Ensures Fault.CounterOverflow (setup.run env initTable q params unset) w
      fun r _ => ∃ rest, queueFree r.2.1 = .ok rest ∧ (r.2.2 ++ rest).Perm (contents q) := by
  cases setup with
  | setup0 =>
    simp only [Setup.run, Teardown.setup0, ensures_bind]
    apply ((standardServerNew_built hgranted).weaken fun _ hfalse => hfalse.elim).mono
    intro s w₁ hpost
    obtain ⟨⟨s₁, rfl, hfresh₁⟩, hheap₁⟩ := hpost
    apply ((standardServerNew_built hgranted).weaken fun _ hfalse => hfalse.elim).mono
    intro s w₂ hpost
    obtain ⟨⟨s₂, rfl, hfresh₂⟩, hheap₂⟩ := hpost
    rw [← hheap₁, ← hheap₂] at htypes
    refine runSetup_fresh_frees hgranted hvalid hnodup htypes htime (List.cons_ne_nil _ _)
      (fun s hs => ?_) fun s hs => absurd hs List.not_mem_nil
    simp only [List.mem_cons, List.not_mem_nil, or_false] at hs
    rcases hs with rfl | rfl
    · exact hfresh₁
    · exact hfresh₂
  | setup1 =>
    simp only [Setup.run, Teardown.setup1, ensures_bind]
    apply ((standardServerNew_built hgranted).weaken fun _ hfalse => hfalse.elim).mono
    intro s w₁ hpost
    obtain ⟨⟨s₁, rfl, hfresh₁⟩, hheap₁⟩ := hpost
    apply ((roboticServerNew_built hgranted).weaken fun _ hfalse => hfalse.elim).mono
    intro s w₂ hpost
    obtain ⟨⟨s₂, rfl, hfresh₂, hrate⟩, hheap₂⟩ := hpost
    rw [← hheap₁, ← hheap₂] at htypes
    refine runSetup_fresh_frees hgranted hvalid hnodup htypes htime (List.cons_ne_nil _ _)
      (fun s hs => ?_) fun s hs => ?_
    · obtain rfl := List.mem_singleton.mp hs
      exact hfresh₁
    · obtain rfl := List.mem_singleton.mp hs
      refine ⟨hfresh₂, fun b hb => ?_⟩
      obtain rfl : s₂.boostRate = b := Option.some.inj hb
      rw [hrate]
      exact hboost rfl

end Setups

section Created

variable (env : Env) (params : Parameters) (w : World)

/-- What `client_new` returns in the pass with number `m` of `clients_init`: the
memory of the first request of that pass, unless the pass leaves the loop. -/
def createdIn (m : ℕ) : Option ClientPtr :=
  match clientsInit env params m w, clientsInit env params (m + 1) w with
  | .ok (before, w'), .ok (after, _) =>
    if before.broke || after.broke then none else some w'.requests
  | _, _ => none

/-- The clients that the first `n` passes create. -/
def createdClients (n : ℕ) : List ClientPtr := (List.range n).filterMap (createdIn env params w)

variable {env : Env} {params : Parameters} {w w' : World} {g : Generator}
  {q : Queue ClientPtr} {n : ℕ}

theorem clientsInit_succ (env : Env) (params : Parameters) (n : ℕ) :
    clientsInit env params (n + 1) = clientsInit env params n >>= fun g =>
      if g.broke then pure g else generateClient env params g := by
  simp only [clientsInit, generatorLoop, bind_assoc]

/-- What a pass creates, read off the pass itself. -/
theorem createdIn_of_pass {g' : Generator} {w'' : World}
    (hrun : clientsInit env params n w = .ok (g, w'))
    (hpass : (if g.broke then pure g else generateClient env params g : Prog Generator) w' =
      .ok (g', w'')) :
    createdIn env params w n = if g.broke || g'.broke then none else some w'.requests := by
  have hsucc : clientsInit env params (n + 1) w = .ok (g', w'') := by
    rw [clientsInit_succ, ← hpass]
    change (clientsInit env params n w >>= _) = _
    rw [hrun]
    rfl
  simp only [createdIn, hrun, hsucc]

theorem createdClients_succ (env : Env) (params : Parameters) (w : World) (n : ℕ) :
    createdClients env params w (n + 1) =
      createdClients env params w n ++ (createdIn env params w n).toList := by
  have hlast : [n].filterMap (createdIn env params w) = (createdIn env params w n).toList := by
    cases hpass : createdIn env params w n with
    | none => simp [hpass]
    | some p => simp [hpass]
  rw [createdClients, createdClients, List.range_succ, List.filterMap_append, hlast]

/-- With memory for it, a pass pushes the client that it creates. -/
theorem generateClient_pushes (hgranted : env.AllocationsSucceed) (hclients : g.clients = some q)
    (hvalid : q.Valid) (hsize : q.size < 2 ^ 31) :
    Ensures (fun e => e = .intOverflow) (generateClient env params g) w fun g' _ =>
      (g'.broke = true ∧ g'.clients = g.clients) ∨
      (g'.broke = false ∧ ∃ q', g'.clients = some q' ∧
        contents q' = contents q ++ [w.requests]) := by
  simp only [generateClient, exponentialSample, ensures_bind, ensures_nextRand, ensures_pure]
  refine ensures_checkInt rfl fun _ => ?_
  split
  · exact Or.inl ⟨rfl, rfl⟩
  · rw [ensures_bind]
    refine ensures_clientNew (fun hrefused => ?_) ?_
    · rw [hgranted] at hrefused
      cases hrefused
    simp only [ensures_bind]
    refine ensures_checkInt rfl fun _ => ?_
    rw [ensures_chooseDisability (k := w.draws) (m := 0) rfl,
      ensures_chooseDestination (k := w.draws) (m := 0) rfl]
    simp only [ensures_readClient, ensures_writeClient, hclients, pushClient, ensures_bind,
      ensures_nextGranted, hgranted _]
    obtain ⟨q', hpush, hvalid', hcontents'⟩ := queuePush_valid hvalid hsize (Or.inr rfl) w.requests
    rw [hpush, ensures_lift_ok]
    exact Or.inr ⟨rfl, q', rfl, hcontents'⟩

/-- The queue that `clients_init` has filled. -/
theorem clientsInit_queue (hgranted : env.AllocationsSucceed)
    (hrun : clientsInit env params n w = .ok (g, w')) :
    ∃ q, g.clients = some q ∧ q.Valid ∧ (contents q).Nodup ∧ q.size < 2 ^ 31 := by
  have hgenerated : Ensures (fun _ => True) (clientsInit env params n) w fun g w' =>
      ∃ b, Generated env params w n b g w' := clientsInit_generated fun _ _ _ _ _ => trivial
  obtain ⟨b, hb⟩ := (ensures_of_ok hrun).mp hgenerated
  obtain ⟨q, hq⟩ := Option.isSome_iff_exists.mp (hb.queue hgranted)
  have hfilled := hb.filled q hq
  refine ⟨q, hq, hfilled.valid, hfilled.ordered.imp fun h => Nat.ne_of_lt h, ?_⟩
  obtain ⟨l, hcontents, hsub, -, -⟩ := hfilled.made
  have hle := hsub.length_le
  have hrange := hb.in_range
  have hlen : l.length = q.size := by
    rw [← hfilled.valid.length_contents, hcontents, List.length_map]
  rw [List.length_map, List.length_range, hlen] at hle
  unfold intMax at hrange
  omega

/-- The queue holds the clients that have been created, in that order and nothing
else, by induction on the number of passes. -/
theorem clientsInit_creates (hgranted : env.AllocationsSucceed) (n : ℕ) :
    Ensures (fun e => e = .intOverflow) (clientsInit env params n) w fun g _ =>
      ∀ q ∈ g.clients, contents q = createdClients env params w n := by
  induction n with
  | zero =>
    simp only [clientsInit, ensures_bind, ensures_nextGranted]
    intro q hq
    exact (valid_of_queueInit (by decide) hq).2
  | succ n ih =>
    rw [clientsInit_succ, ensures_bind]
    apply (ih.and (ensures_any fun _ _ hrun => hrun)).mono
    intro g w' hpost
    obtain ⟨hcontents, hrun⟩ := hpost
    cases hbroke : g.broke with
    | true =>
      have hcreated : createdIn env params w n = none := by
        rw [createdIn_of_pass hrun (by rw [hbroke]; rfl), hbroke]
        rfl
      rw [if_pos rfl]
      intro q hq
      rw [hcontents q hq, createdClients_succ, hcreated, Option.toList_none, List.append_nil]
    | false =>
      obtain ⟨q, hq, hvalid, -, hsize⟩ := clientsInit_queue hgranted hrun
      rw [if_neg Bool.false_ne_true]
      apply ((generateClient_pushes hgranted hq hvalid hsize).and
        (ensures_any fun _ _ hpass => hpass)).mono
      intro g' w'' hpost r hr
      obtain ⟨hcases, hpass⟩ := hpost
      have hcreated : createdIn env params w n = if g'.broke then none else some w'.requests := by
        rw [createdIn_of_pass hrun (by rw [hbroke]; exact hpass), hbroke, Bool.false_or]
      rw [createdClients_succ, hcreated, ← hcontents q hq]
      rcases hcases with ⟨hbreak, hsame⟩ | ⟨hgoes, q', hq', hpushed⟩
      · rw [hsame, hq] at hr
        obtain rfl := Option.some.inj hr
        rw [hbreak, if_pos rfl, Option.toList_none, List.append_nil]
      · rw [hq'] at hr
        obtain rfl := Option.some.inj hr
        rw [hgoes, hpushed]
        rfl

end Created

/-- The clients that `clients_init` leaves in its queue are of valid types. -/
def GeneratesValidTypes (env : Env) (params : Parameters) (n : ℕ) (w : World) : Prop :=
  Ensures (fun _ => True) (clientsInit env params n) w fun g w' =>
    ∀ q ∈ g.clients, ∀ p ∈ contents q, (w'.heap p).Valid

/-- Every run of `run_test` that is not stopped by a counter frees each client that
`clients_init` has created once, and no other pointer. -/
theorem runTest_frees_once (env : Env) (setup : Setup) (params : SimParam) (unset : Unset)
    (n : ℕ) (w : World) (hgranted : env.AllocationsSucceed)
    (hboost : setup = .setup1 → Moderate params.robotBoostCoff)
    (htime : params.simulationTime ≤ intMax)
    (htypes : GeneratesValidTypes env params.generator n w) :
    Ensures Fault.CounterOverflow (runTest env setup params (some initTable) unset n) w
      fun r _ => r.2.Perm (createdClients env params.generator w n) ∧ r.2.Nodup := by
  rw [runTest, ensures_bind]
  have hcreates : Ensures Fault.CounterOverflow (clientsInit env params.generator n) w fun g _ =>
      ∀ q ∈ g.clients, contents q = createdClients env params.generator w n :=
    (clientsInit_creates hgranted n).weaken fun _ he => Or.inl he
  refine ((hcreates.and htypes).and (ensures_any fun _ _ hrun => hrun)).mono fun g w₁ hpost => ?_
  obtain ⟨⟨hcontents, hvalidTypes⟩, hrun⟩ := hpost
  obtain ⟨q, hq, hvalid, hnodup, -⟩ := clientsInit_queue hgranted hrun
  simp only [hq, ensures_bind]
  apply (setup_frees hgranted hvalid hnodup (hvalidTypes q hq) htime setup hboost).mono
  intro r w₂ hpost
  obtain ⟨rest, hrest, hperm⟩ := hpost
  rw [hrest, ensures_lift_ok, ensures_pure, ← hcontents q hq]
  exact ⟨hperm, hperm.nodup_iff.mpr hnodup⟩

section Trial

/-- A client arrives at every tick, up to the last one. -/
def trialParams : SimParam where
  simulationTime := 12
  disabilityProb := 1 / 2
  robotBoostCoff := 2
  errorPerActProb := 0
  p1DestProb := 1 / 2

def trialUnset : Unset := ⟨0, 0, ⟨0, 0, 0, 0, 0, 0, 0, 0, 0, 0, 0, 0⟩⟩

theorem trial_validTypes : GeneratesValidTypes mixed.env trialParams.generator 12 mixed.world := by
  have hvalid : (match clientsInit mixed.env trialParams.generator 12 mixed.world with
    | .ok (g, w') => decide (∀ q ∈ g.clients, ∀ p ∈ contents q, (w'.heap p).Valid)
    | .error _ => true) = true := by decide +kernel
  refine ensures_any fun g w' hrun => ?_
  rw [hrun] at hvalid
  exact of_decide_eq_true hvalid

theorem runTest_frees_once_trial :
    ∃ r w', runTest mixed.env .setup1 trialParams (some initTable) trialUnset 12 mixed.world =
        .ok (r, w') ∧
      (r.2.Perm (createdClients mixed.env trialParams.generator mixed.world 12) ∧ r.2.Nodup) ∧
      r.2.length = 11 := by
  have hok : (runTest mixed.env .setup1 trialParams (some initTable) trialUnset 12
      mixed.world).isOk = true := by decide +kernel
  have hcall := runTest_frees_once mixed.env .setup1 trialParams trialUnset 12 mixed.world
    mixed.allocations (fun _ => by constructor <;> norm_num [trialParams]) (by decide)
    trial_validTypes
  obtain ⟨r, w', hrun, hfrees⟩ := hcall.returns fun e he _ => by
    rw [he] at hok
    cases hok
  refine ⟨r, w', hrun, hfrees, hfrees.1.length_eq.trans ?_⟩
  decide +kernel

end Trial

end AcaBSim.Releases
