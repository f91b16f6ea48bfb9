import AcaBSim.ServerArrays
import AcaBSim.Totals

/-!
What `simulate` does with the systems its check accepts and with those it turns
away. The check comes one access too late: the look at `standard_servers[0]`
before it needs a system, and a standard server in it.
-/
namespace AcaBSim.AcceptedSystems

open Machine ArrayQueue Clients Servers Outcome ServerStations Simulation Scenarios QueueIterators
  Aggregation IndexLoops ServerArrays
open Systems (System SimStat Counters)

/-- What the check of `simulate` turns away. -/
def Rejected (system : Option SystemArrays) (stat : Option SimStat) : Prop :=
  match system with
  | none => True
  | some sys => sys.systemClients = none ∨
      sys.roboticServersSize + sys.standardServersSize = 0 ∨ stat = none

/-- All ticks are run and `compute_stats` after them. -/
def RunsThrough (env : Env) (system : Option SystemArrays) (time : ℤ) (stat : Option SimStat)
    (w : World) : Prop :=
  ∃ sys ∈ system, ∃ clients ∈ sys.systemClients, ∃ before ∈ stat, ∃ final w₁ after w',
    simulateLoop env sys time.toNat w = .ok (final, w₁) ∧
    computeStats env final (before.withTotalClients clients) w₁ = .ok (after, w') ∧
    simulate env system time stat w = .ok ((final, after), w')

/-- The call reaches the error exit if it has to, and else its end. No access is
out of bounds, as that would be an end of another kind. -/
def SafeCall (env : Env) (system : Option SystemArrays) (time : ℤ) (stat : Option SimStat)
    (w : World) : Prop :=
  (Rejected system stat → simulate env system time stat w = .error .exitFailure) ∧
    (¬ Rejected system stat → RunsThrough env system time stat w)

/-- Any system of fresh servers and clients, or none, with memory for every request. -/
structure Prepared (env : Env) (system : Option SystemArrays) (w : World) : Prop where
  allocations : env.AllocationsSucceed
  sizes : ∀ sys ∈ system, sys.Matches
  fresh : ∀ sys ∈ system, ∀ s ∈ servers sys.toSystem, FreshServer s.2
  boost : ∀ sys ∈ system, ∀ s ∈ sys.roboticServers, ∀ b ∈ boostRate s, Scenarios.Moderate b
  clients : ∀ sys ∈ system, ∀ q ∈ sys.systemClients,
    q.Valid ∧ (contents q).Nodup ∧ ∀ p ∈ contents q, (w.heap p).Valid

section Calls

variable {env : Env} {sys : System} {w : World} {time : ℤ} {stat : Option SimStat}
  {clients : Queue ClientPtr}

/-- A system with clients and servers, as a scenario. -/
def Prepared.scenario (h : Prepared env (some (ofSystem sys)) w)
    (hclients : sys.systemClients = some clients) (hne : sys.standardServers ≠ []) : Scenario where
  env := env
  system := sys
  world := w
  clients := clients
  systemClients_eq := hclients
  allocations := h.allocations
  clients_valid := (h.clients _ rfl clients hclients).1
  clients_nodup := (h.clients _ rfl clients hclients).2.1
  types_valid := (h.clients _ rfl clients hclients).2.2
  nonempty := Or.inl hne
  standard_fresh s hs := h.fresh _ rfl ⟨_, s⟩ (List.mem_append_left _ (List.mem_map_of_mem hs))
  robotic_fresh s hs := ⟨h.fresh _ rfl ⟨_, s⟩ (List.mem_append_right _ (List.mem_map_of_mem hs)),
    fun b hb => (h.boost _ rfl s hs b hb).1⟩

theorem simulate_without_server (hs : sys.standardServers = []) :
    Systems.simulate env (some sys) time stat w = .error .outOfBounds := by
  rw [Systems.simulate, hs]
  rfl

/-- Past the lookup, the check does what it says. -/
theorem simulate_rejects (hne : sys.standardServers ≠ [])
    (hrejected : sys.systemClients = none ∨ stat = none) :
    Systems.simulate env (some sys) time stat w = .error .exitFailure := by
  obtain ⟨s, rest, hs⟩ := List.exists_cons_of_ne_nil hne
  rw [Systems.simulate, hs]
  cases hclients : sys.systemClients with
  | none => rfl
  | some clients =>
    have hstat : stat = none := hrejected.resolve_left (by simp [hclients])
    subst hstat
    dsimp only
    rw [if_neg (by simp)]
    rfl

/-- The whole call runs if its counters stay within `int`. -/
theorem simulate_runs (h : Prepared env (some (ofSystem sys)) w)
    (hclients : sys.systemClients = some clients) (hne : sys.standardServers ≠ [])
    (htime : time ≤ intMax) {before : SimStat}
    (hfits : ∀ e, Systems.simulate env (some sys) time (some before) w = .error e →
      ¬ e.CounterOverflow) :
    ∃ final w₁ after w', Systems.simulateLoop env sys time.toNat w = .ok (final, w₁) ∧
      Systems.computeStats env final (before.withTotalClients clients) w₁ = .ok (after, w') ∧
      Systems.simulate env (some sys) time (some before) w = .ok ((final, after), w') := by
  have hcall := Totals.simulate_follows (h.scenario hclients hne) (h.boost _ rfl) hne htime before
  obtain ⟨⟨final, after⟩, w', hrun, w₁, hloop, hstats⟩ := hcall.returns hfits
  exact ⟨final, w₁, after, w', hloop, hstats, hrun⟩

/-- Without a standard server the call ends in the lookup, accepted or not. -/
theorem not_safeCall_of_no_server (hs : sys.standardServers = []) :
    ¬ SafeCall env (some (ofSystem sys)) time stat w := by
  intro hsafe
  have hfault : simulate env (some (ofSystem sys)) time stat w = .error .outOfBounds := by
    rw [← Option.map_some, simulate_eq]
    exact map_run_error _ (simulate_without_server hs)
  by_cases hrejected : Rejected (some (ofSystem sys)) stat
  · have hexit := hsafe.1 hrejected
    rw [hfault] at hexit
    cases hexit
  · obtain ⟨_, _, _, _, _, _, _, _, _, _, _, _, hrun⟩ := hsafe.2 hrejected
    rw [hfault] at hrun
    cases hrun

/-- With a standard server the check decides, and an accepted call runs through. -/
theorem safeCall_of_server (h : Prepared env (some (ofSystem sys)) w)
    (hne : sys.standardServers ≠ []) (htime : time ≤ intMax)
    (hfits : ∀ e, simulate env (some (ofSystem sys)) time stat w = .error e →
      ¬ e.CounterOverflow) : SafeCall env (some (ofSystem sys)) time stat w := by
  have hcall := simulate_eq env (some sys) time stat
  rw [Option.map_some] at hcall
  have hsome : sys.roboticServers.length + sys.standardServers.length ≠ 0 := by
    have hpos := List.length_pos_iff.mpr hne
    omega
  refine ⟨fun hrejected => ?_, fun haccepted => ?_⟩
  · rw [hcall]
    apply map_run_error
    apply simulate_rejects hne
    rcases hrejected with hclients | hempty | hstat
    · exact Or.inl hclients
    · exact absurd hempty hsome
    · exact Or.inr hstat
  · obtain ⟨hclients, -, hstat⟩ : ¬ sys.systemClients = none ∧ _ ∧ ¬ stat = none := by
      simpa [Rejected, ofSystem] using haccepted
    obtain ⟨clients, hclients⟩ := Option.ne_none_iff_exists'.mp hclients
    obtain ⟨before, rfl⟩ := Option.ne_none_iff_exists'.mp hstat
    obtain ⟨final, w₁, after, w', hloop, hstats, hrun⟩ :=
      simulate_runs h hclients hne htime fun e he => hfits e (by
        rw [hcall]
        exact map_run_error _ he)
    refine ⟨ofSystem sys, rfl, clients, hclients, before, rfl, ofSystem final, w₁, after, w',
      ?_, ?_, ?_⟩
    · rw [simulateLoop_eq]
      exact map_run_ok _ hloop
    · rw [computeStats_eq]
      exact hstats
    · rw [hcall]
      exact map_run_ok _ hrun

end Calls

/-- The call is safe just if there is a system and its first array is not empty. -/
theorem simulate_safe_iff (env : Env) (system : Option SystemArrays) (time : ℤ)
    (stat : Option SimStat) (w : World) (h : Prepared env system w) (htime : time ≤ intMax)
    (hfits : ∀ e, simulate env system time stat w = .error e → ¬ e.CounterOverflow) :
    SafeCall env system time stat w ↔ ∃ sys ∈ system, sys.standardServersSize ≠ 0 := by
  cases system with
  | none =>
    refine iff_of_false (fun hsafe => ?_) (by simp)
    have hexit := hsafe.1 trivial
    cases hexit
  | some arrays =>
    have harrays := (h.sizes _ rfl).eq
    obtain ⟨sys, rfl⟩ : ∃ sys, arrays = ofSystem sys := ⟨arrays.toSystem, harrays⟩
    have hsize : (∃ s ∈ some (ofSystem sys), s.standardServersSize ≠ 0) ↔
        sys.standardServers ≠ [] := by
      simp [ofSystem]
    rw [hsize]
    constructor
    · intro hsafe hnil
      exact not_safeCall_of_no_server hnil hsafe
    · intro hne
      exact safeCall_of_server h hne htime hfits

theorem prepared_of_scenario (S : Scenario) (hboost : S.BoostModerate) :
    Prepared S.env (some (ofSystem S.system)) S.world where
  allocations := S.allocations
  sizes sys hsys := by
    obtain rfl := Option.some.inj hsys
    exact ⟨rfl, rfl⟩
  fresh sys hsys s hs := by
    obtain rfl := Option.some.inj hsys
    exact S.freshServer hs
  boost sys hsys := by
    obtain rfl := Option.some.inj hsys
    exact hboost
  clients sys hsys q hq := by
    obtain rfl := Option.some.inj hsys
    obtain rfl := Option.some.inj (S.systemClients_eq.symm.trans hq)
    exact ⟨S.clients_valid, S.clients_nodup, S.types_valid⟩

theorem simulate_safe_iff_mixed :
    SafeCall mixed.env (some (ofSystem mixed.system)) 10 (some noStat) mixed.world := by
  have hok : (simulate mixed.env (some (ofSystem mixed.system)) 10 (some noStat)
      mixed.world).isOk = true := by decide +kernel
  refine (simulate_safe_iff mixed.env (some (ofSystem mixed.system)) 10 (some noStat) mixed.world
    (prepared_of_scenario mixed mixed_ordinary.boost) (by decide) fun e he => ?_).mpr
    ⟨ofSystem mixed.system, rfl, by decide⟩
  rw [he] at hok
  cases hok

/-- The clients of `mixed`, with the robotic server alone. -/
def roboticOnly : Scenario where
  env := mixed.env
  system := { mixed.system with standardServers := [] }
  world := mixed.world
  clients := mixed.clients
  systemClients_eq := rfl
  allocations := mixed.allocations
  clients_valid := mixed.clients_valid
  clients_nodup := mixed.clients_nodup
  types_valid := mixed.types_valid
  nonempty := Or.inr (by simp [mixed, small])
  standard_fresh _ hs := absurd hs List.not_mem_nil
  robotic_fresh := mixed.robotic_fresh

/-- A system with a robotic server is accepted by the check, and never gets there. -/
theorem robotic_only_not_safe :
    Prepared roboticOnly.env (some (ofSystem roboticOnly.system)) roboticOnly.world ∧
    ¬ Rejected (some (ofSystem roboticOnly.system)) (some noStat) ∧
    simulate roboticOnly.env (some (ofSystem roboticOnly.system)) 10 (some noStat)
      roboticOnly.world = .error .outOfBounds ∧
    ¬ SafeCall roboticOnly.env (some (ofSystem roboticOnly.system)) 10 (some noStat)
      roboticOnly.world := by
  have haccepted : ¬ Rejected (some (ofSystem roboticOnly.system)) (some noStat) := by
    simp [Rejected, ofSystem, roboticOnly, mixed, small]
  have hfault : simulate roboticOnly.env (some (ofSystem roboticOnly.system)) 10 (some noStat)
      roboticOnly.world = .error .outOfBounds := rfl
  refine ⟨prepared_of_scenario roboticOnly mixed_ordinary.boost, haccepted, hfault, fun hsafe => ?_⟩
  obtain ⟨_, _, _, _, _, _, _, _, _, _, _, _, hrun⟩ := hsafe.2 haccepted
  rw [hfault] at hrun
  cases hrun

end AcaBSim.AcceptedSystems
