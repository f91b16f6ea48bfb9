import AcaBSim.Parameters
import AcaBSim.Releases
import AcaBSim.Reports
import AcaBSim.ClientTypes

/-!
`main`: the parameters from the command line, `TEST_COUNT` tests one after
another on one stream of draws, and the report over their statistics. The draws
of `srand` and what lies on the stack are parameters, and what is printed or
handed to `free` is returned.
-/
namespace AcaBSim.MainProgram

open Machine ArrayQueue Clients Servers Systems Outcome Scenarios ClientGenerator
  GeneratedClients ClientTypes Teardown Releases Means Aggregation Reports Flags Parameters

/-- `TEST_COUNT`. -/
def testCount : ℕ := 10000

variable (env : Env) (strtod : Text → Conversion ℚ) (params : SimParam) (unset : ℕ → Unset)

/-- Passes of the loop of `clients_init` that are enough for gaps of one tick at least. -/
def enoughPasses (params : SimParam) : ℕ := params.simulationTime.toNat + 1

/-- The loop of `main` after `n` tests, on the table of `init_table`. -/
def testLoop : ℕ → Prog (SimStat × List (List ClientPtr))
  | 0 => pure (noStat, [])
  | n + 1 => do
    let (totalStats, freed) ← testLoop n
    let (stats, released) ←
      runTest env .setup0 params (some initTable) (unset n) (enoughPasses params)
    let totalStats ← updateTotalStats totalStats stats
    pure (totalStats, freed ++ [released])

def runTests (n : ℕ) : Prog (SimStat × List (List ClientPtr)) := do
  let (totalStats, freed) ← testLoop env params unset n
  let report ← finalizeStat totalStats n
  pure (report, freed)

/-- `params` after `initialize_parameters`, with what lies there where no option has been given. -/
def readParams (lying : SimParam) (st : FlagState Param ℚ) : SimParam :=
  let double (p : Param) (x : ℚ) : ℚ := match st.data p with
    | some (.double y) => y
    | _ => x
  { simulationTime := match st.data .simulationTime with
      | some (.int z) => z
      | _ => lying.simulationTime
    disabilityProb := double .disabilityProb lying.disabilityProb
    robotBoostCoff := double .robotBoostCoff lying.robotBoostCoff
    errorPerActProb := double .errorPerActProb lying.errorPerActProb
    p1DestProb := double .p1DestProb lying.p1DestProb }

/-- How the program ends: with the report, and what each test has freed, or with one of the
exits of `cflag_apply`. -/
inductive Ending
  | printed (report : SimStat) (freed : List (List ClientPtr))
  | usage (name : Text)
  | failed (message : Text)

def main (lying : SimParam) (argv : List Text) : Prog Ending := do
  match ← initializeParameters strtod argv with
  | .usage name => pure (.usage name)
  | .failed message => pure (.failed message)
  | .returned _ _ st => do
    let (report, freed) ← runTests env (readParams lying st) unset testCount
    pure (.printed report freed)

/-- A test as it has gone: the clients it has created, its statistics and what it has freed. -/
structure Test where
  created : List ClientPtr
  stats : SimStat
  freed : List ClientPtr

/-- `clients_init` leaves its loop by the `break` within `n` passes. -/
def GeneratorEnds (generator : ClientGenerator.Parameters) (n : ℕ) (w : World) : Prop :=
  ∃ g w', clientsInit env generator n w = .ok (g, w') ∧ g.broke = true

/-- Tests that have been run one after another, each from where the one before has ended. -/
inductive Tests (w₀ : World) : ℕ → List Test → World → Prop
  | none : Tests w₀ 0 [] w₀
  | next {n : ℕ} {tests : List Test} {w w' : World} {stats : SimStat} {freed : List ClientPtr}
    (h : Tests w₀ n tests w) (hends : GeneratorEnds env params.generator (enoughPasses params) w)
    (hrun : runTest env .setup0 params (some initTable) (unset n) (enoughPasses params) w =
      .ok ((stats, freed), w')) :
    Tests w₀ (n + 1)
      (tests ++ [⟨createdClients env params.generator w (enoughPasses params), stats, freed⟩]) w'

/-- Nothing that the test has created is lost or freed twice, and its statistics count it. -/
structure Test.Accounted (t : Test) : Prop where
  freed : t.freed.Perm t.created
  once : t.freed.Nodup
  counted : t.stats.totalClients = t.created.length

variable {env strtod params unset} {w : World} {n : ℕ}

theorem Tests.length_eq {w₀ : World} {tests : List Test}
    (h : Tests env params unset w₀ n tests w) : tests.length = n := by
  induction h with
  | none => rfl
  | next _ _ _ ih => rw [List.length_append, ih, List.length_singleton]

section Generation

/-- The loop of `clients_init` ends by its `break` within these passes. -/
theorem clientsInit_leaves {generator : ClientGenerator.Parameters}
    (hgaps : ∀ k, 1 ≤ env.exponential (env.rand k)) (hpos : 0 < n) (hn : generator.finishTime ≤ n) :
    Ensures (fun _ => True) (clientsInit env generator n) w fun g _ => g.broke = true := by
  have hnext : ∀ (k m : ℕ), (m : ℤ) ≤ nextBefore env generator k m := by
    intro k m
    induction m with
    | zero => exact le_refl 0
    | succ m ih =>
      have hstep := hgaps (passDraw env generator k m)
      change ((m + 1 : ℕ) : ℤ) ≤ nextBefore env generator k m + _
      push_cast
      omega
  have hgenerated : Ensures (fun _ => True) (clientsInit env generator n) w fun g w' =>
      ∃ b, Generated env generator w n b g w' := clientsInit_generated fun _ _ _ _ _ => trivial
  refine hgenerated.mono fun g w' hpost => ?_
  obtain ⟨b, hb⟩ := hpost
  by_contra hbroke
  obtain ⟨rfl, -⟩ := hb.running (Bool.eq_false_iff.mpr hbroke)
  have hle := hnext w.draws b
  obtain ⟨m, rfl⟩ := Nat.exists_eq_succ_of_ne_zero hpos.ne'
  have hlt := hb.begins m (Nat.lt_succ_self m)
  change nextBefore env generator w.draws m.succ < _ at hlt
  omega

/-- Draws that are not the last value of `rand ()` make clients of valid types only. -/
theorem generatesValidTypes (hdraws : ∀ k, (env.rand k).val ≠ randMax)
    (generator : ClientGenerator.Parameters) (n : ℕ) (w : World) :
    GeneratesValidTypes env generator n w := by
  refine ensures_any fun g w' hrun q hq p hp => ?_
  obtain ⟨m, -, hrecord⟩ := pass_of_client hrun hq hp
  rw [hrecord]
  exact recordOf_valid (fun _ => hdraws _) _

end Generation

section Tests

variable {k : ServerType} {q : Queue ClientPtr} {sys : System} {lost : Unset}

theorem computeStats_keeps (stat : SimStat) :
    Ensures (fun _ => True) (computeStats env sys stat) w fun stat' _ =>
      stat'.totalClients = stat.totalClients := by
  rw [computeStats, ensures_bind]
  exact ensures_any fun _ _ _ => rfl

/-- `simulate` counts the clients of the queue that it is given. -/
theorem simulate_counts (hclients : sys.systemClients = some q) (time : ℤ) (stat : SimStat) :
    Ensures (fun _ => True) (simulate env (some sys) time (some stat)) w fun r _ =>
      r.2.totalClients = wrapInt (queueSize q) := by
  cases hservers : sys.standardServers with
  | nil =>
    simp only [simulate, hservers]
    trivial
  | cons s rest =>
    simp only [simulate, hservers, hclients]
    split
    · trivial
    · simp only [ensures_bind]
      refine ensures_any fun final w₁ _ => ?_
      refine (computeStats_keeps (stat.withTotalClients q)).mono fun _ _ hkept => ?_
      rw [ensures_pure, hkept, SimStat.withTotalClients]

theorem setup0_counts :
    Ensures (fun _ => True) (setup0 env initTable q params lost) w fun r _ =>
      r.1.totalClients = wrapInt (queueSize q) := by
  rw [setup0, ensures_bind]
  refine ensures_any fun s₁ w₁ _ => ?_
  rw [ensures_bind]
  refine ensures_any fun s₂ w₂ _ => ?_
  split
  · rw [runSetup, ensures_bind]
    refine (simulate_counts rfl _ _).mono fun r w₃ hr => ?_
    simp only [ensures_bind]
    exact ensures_any fun _ _ _ => ensures_any fun _ _ _ => hr
  · trivial

/-- A test frees what it creates, once, and its statistics say how much that is. -/
theorem runTest_accounts (hgranted : env.AllocationsSucceed)
    (hdraws : ∀ k, (env.rand k).val ≠ randMax) (hgaps : ∀ k, 1 ≤ env.exponential (env.rand k))
    (htime : params.simulationTime ≤ intMax) :
    Ensures Fault.CounterOverflow
      (runTest env .setup0 params (some initTable) lost (enoughPasses params)) w fun r _ =>
        GeneratorEnds env params.generator (enoughPasses params) w ∧
        (⟨createdClients env params.generator w (enoughPasses params), r.1, r.2⟩ :
          Test).Accounted := by
  have hcreates : Ensures Fault.CounterOverflow
      (clientsInit env params.generator (enoughPasses params)) w fun g _ => ∀ q ∈ g.clients,
        contents q = createdClients env params.generator w (enoughPasses params) :=
    (clientsInit_creates hgranted _).weaken fun _ he => Or.inl he
  have hpasses : params.generator.finishTime ≤ enoughPasses params := by
    change params.simulationTime ≤ ((params.simulationTime.toNat + 1 : ℕ) : ℤ)
    omega
  have hleaves := clientsInit_leaves (w := w) hgaps (Nat.succ_pos _) hpasses
  rw [runTest, ensures_bind]
  refine (((hcreates.and (generatesValidTypes hdraws params.generator _ w)).and hleaves).and
    (ensures_any fun _ _ hrun => hrun)).mono fun g w₁ hpost => ?_
  obtain ⟨⟨⟨hcontents, htypes⟩, hbroke⟩, hrun⟩ := hpost
  obtain ⟨q, hq, hvalid, hnodup, hsize⟩ := clientsInit_queue hgranted hrun
  have hcreated := hcontents q hq
  simp only [hq, ensures_bind]
  refine ((setup_frees hgranted hvalid hnodup (htypes q hq) htime .setup0
    fun h => nomatch h).and setup0_counts).mono fun r w₂ hpost => ?_
  obtain ⟨⟨rest, hrest, hperm⟩, hcount⟩ := hpost
  rw [hrest, ensures_lift_ok, ensures_pure]
  refine ⟨⟨g, w₁, hrun, hbroke⟩, hcreated ▸ hperm, hperm.nodup_iff.mpr hnodup, hcount.trans ?_⟩
  rw [← hcreated, hvalid.length_contents, queueSize]
  exact wrapInt_of_range (by unfold intMin; omega) (by unfold intMax; omega)

/-- The tests of the loop, their sums and what they have freed, by induction on their number. -/
theorem testLoop_tests (hgranted : env.AllocationsSucceed)
    (hdraws : ∀ k, (env.rand k).val ≠ randMax) (hgaps : ∀ k, 1 ≤ env.exponential (env.rand k))
    (htime : params.simulationTime ≤ intMax) (n : ℕ) :
    Ensures Fault.CounterOverflow (testLoop env params unset n) w fun r w' => ∃ tests,
      Tests env params unset w n tests w' ∧ (∀ t ∈ tests, t.Accounted) ∧
        r.2 = tests.map Test.freed ∧
        ∀ counter ∈ counterFields,
          counter r.1 = (tests.map fun t => counter t.stats).sum := by
  induction n with
  | zero =>
    refine ⟨[], .none, fun _ h => absurd h List.not_mem_nil, rfl, fun counter hcounter => ?_⟩
    revert counter
    decide
  | succ n ih =>
    rw [testLoop, ensures_bind]
    refine ih.mono fun r w₁ hpost => ?_
    obtain ⟨tests, htests, haccounted, hfreed, hsums⟩ := hpost
    rw [ensures_bind]
    refine ((runTest_accounts hgranted hdraws hgaps htime).and
      (ensures_any fun _ _ hrun => hrun)).mono fun t w₂ hpost => ?_
    obtain ⟨⟨hends, haccount⟩, hrun⟩ := hpost
    have hadds := updateTotalStats_adds (w := w₂) r.1 t.1
    rw [ensures_bind]
    cases htotal : updateTotalStats r.1 t.1 with
    | error e =>
      rw [htotal, ensures_lift_error] at hadds
      exact Or.inl hadds
    | ok total =>
      rw [htotal, ensures_lift_ok] at hadds
      rw [ensures_lift_ok, ensures_pure]
      refine ⟨_, .next htests hends hrun, ?_, ?_, fun counter hcounter => ?_⟩
      · exact List.forall_mem_append.mpr ⟨haccounted, List.forall_mem_singleton.mpr haccount⟩
      · rw [List.map_append, hfreed]
        rfl
      · rw [hadds counter hcounter, hsums counter hcounter, List.map_append, List.sum_append]
        simp

theorem runTests_reports (hgranted : env.AllocationsSucceed)
    (hdraws : ∀ k, (env.rand k).val ≠ randMax) (hgaps : ∀ k, 1 ≤ env.exponential (env.rand k))
    (htime : params.simulationTime ≤ intMax) (hn : 0 < n) :
    Ensures Fault.CounterOverflow (runTests env params unset n) w fun r w' => ∃ tests,
      r.2 = tests.map Test.freed ∧ Tests env params unset w n tests w' ∧
        (∀ t ∈ tests, t.Accounted) ∧
        ∀ counter ∈ counterFields,
          counter r.1 = truncatedMean (tests.map fun t => counter t.stats) := by
  rw [runTests, ensures_bind]
  refine (testLoop_tests hgranted hdraws hgaps htime n).mono fun r w₁ hpost => ?_
  obtain ⟨tests, htests, haccounted, hfreed, hsums⟩ := hpost
  have hne : (n : ℤ) ≠ 0 := by exact_mod_cast hn.ne'
  have hdivides := finalizeStat_divides (w := w₁) r.1 hne
  rw [ensures_bind]
  cases hreport : finalizeStat r.1 n with
  | error e =>
    rw [hreport, ensures_lift_error] at hdivides
    exact Or.inl hdivides
  | ok report =>
    rw [hreport, ensures_lift_ok] at hdivides
    rw [ensures_lift_ok, ensures_pure]
    refine ⟨tests, hfreed, htests, haccounted, fun counter hcounter => ?_⟩
    rw [hdivides counter hcounter, hsums counter hcounter, truncatedMean, List.length_map,
      htests.length_eq, if_pos hn]

end Tests

section Program

variable {lying : SimParam} {given : List (Given ℚ)}

/-- The parameters that a line of options leaves. -/
def givenParams (lying : SimParam) (given : List (Given ℚ)) : SimParam :=
  readParams lying ⟨lastGiven given, false⟩

/-- A simulation time that has been read is an `int`. -/
theorem givenParams_time (hvalid : ∀ g ∈ given, g.Valid strtod)
    (hlying : lying.simulationTime ≤ intMax) :
    (givenParams lying given).simulationTime ≤ intMax := by
  simp only [givenParams, readParams]
  split
  · rename_i z hz
    obtain ⟨g, hg, hparam, hvalue⟩ := mem_of_lastGiven hz
    have hread := (hvalid g hg).value
    rw [hparam, hvalue] at hread
    obtain ⟨z', -, hread⟩ := Option.bind_eq_some_iff.mp hread
    split at hread
    · rename_i hrange
      cases hread
      exact hrange.2
    · cases hread
  · exact hlying

/-- On a line of valid options `main` runs its tests with the parameters given, unless a counter
stops it. Each test frees its clients once and counts them, and the report has the cut off
means of the statistics. -/
theorem main_reports (env : Env) (strtod : Text → Conversion ℚ) (unset : ℕ → Unset)
    (lying : SimParam) (argv0 : Text) (given : List (Given ℚ)) (rest : List Text) (w : World)
    (hvalid : ∀ g ∈ given, g.Valid strtod) (hhalts : Halts rest)
    (hgranted : env.AllocationsSucceed) (hdraws : ∀ k, (env.rand k).val ≠ randMax)
    (hgaps : ∀ k, 1 ≤ env.exponential (env.rand k)) (hlying : lying.simulationTime ≤ intMax) :
    Ensures Fault.CounterOverflow
      (main env strtod unset lying (argv0 :: (given.flatMap Given.words ++ rest))) w
      fun r w' => ∃ report tests, r = .printed report (tests.map Test.freed) ∧
        Tests env (givenParams lying given) unset w testCount tests w' ∧
        (∀ t ∈ tests, t.Accounted) ∧
        ∀ counter ∈ counterFields,
          counter report = truncatedMean (tests.map fun t => counter t.stats) := by
  have htime := givenParams_time hvalid hlying
  have hcount : 0 < testCount := by norm_num [testCount]
  rw [main, initializeParameters_given argv0 hvalid hhalts, ensures_bind, ensures_lift_ok]
  dsimp only
  rw [ensures_bind]
  generalize testCount = n at hcount ⊢
  refine (runTests_reports hgranted hdraws hgaps htime hcount).mono fun r w₁ hpost => ?_
  obtain ⟨tests, hfreed, htests, haccounted, hmeans⟩ := hpost
  exact ⟨r.1, tests, by rw [hfreed], htests, haccounted, hmeans⟩

/-- `strtod` on the numbers of the line below; of anything else it converts nothing. -/
def lineStrtod (arg : Text) : Conversion ℚ :=
  if arg = "0.5".toList then ⟨1 / 2, [], false⟩
  else if arg = "2".toList then ⟨2, [], false⟩
  else if arg = "0.25".toList then ⟨1 / 4, [], false⟩
  else ⟨0, arg, false⟩

/-- Five options, the simulation time twice and no destination probability. -/
def line : List (Given ℚ) :=
  [⟨.simulationTime, "-T".toList, "12".toList, .int 12⟩,
    ⟨.disabilityProb, "--disability-prob".toList, "0.5".toList, .double (1 / 2)⟩,
    ⟨.robotBoostCoff, "-A".toList, "2".toList, .double 2⟩,
    ⟨.errorPerActProb, "--error-prob".toList, "0.25".toList, .double (1 / 4)⟩,
    ⟨.simulationTime, "--simulation-time".toList, "30".toList, .int 30⟩]

theorem line_valid : ∀ g ∈ line, g.Valid lineStrtod := by
  intro g hg
  simp only [line, List.mem_cons, List.not_mem_nil, or_false] at hg
  obtain rfl | rfl | rfl | rfl | rfl := hg
  · exact ⟨.inl rfl, by decide⟩
  · exact ⟨.inr rfl, rfl⟩
  · exact ⟨.inl rfl, rfl⟩
  · exact ⟨.inr rfl, rfl⟩
  · exact ⟨.inr rfl, by decide⟩

theorem main_reports_line :
    Ensures Fault.CounterOverflow
      (main mixed.env lineStrtod (fun _ => trialUnset) trialParams
        (["simulator", "-T", "12", "--disability-prob", "0.5", "-A", "2", "--error-prob", "0.25",
          "--simulation-time", "30"].map String.toList)) mixed.world
      fun r w' => ∃ report tests, r = .printed report (tests.map Test.freed) ∧
        Tests mixed.env
          { simulationTime := 30, disabilityProb := 1 / 2, robotBoostCoff := 2,
            errorPerActProb := 1 / 4, p1DestProb := trialParams.p1DestProb }
          (fun _ => trialUnset) mixed.world testCount tests w' ∧
        (∀ t ∈ tests, t.Accounted) ∧
        ∀ counter ∈ counterFields,
          counter report = truncatedMean (tests.map fun t => counter t.stats) := by
  have hdraw : (5 : Rand).val ≠ randMax := by decide
  exact main_reports mixed.env _ _ trialParams "simulator".toList line [] mixed.world line_valid
    (.inl rfl) mixed.allocations (fun _ => hdraw) (fun _ => le_rfl) (by decide)

end Program

end AcaBSim.MainProgram
