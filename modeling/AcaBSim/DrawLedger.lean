import AcaBSim.VisitEffects

/-!
The random numbers of a run. A service that ends takes one value of `rand ()`,
and nothing else in the loop of `simulate` takes any. So where the servers share
their error probability, the successes and the failures of a run are read off
the values it has used, whatever the servers are and however they share them.
-/
namespace AcaBSim.DrawLedger

open Machine ArrayQueue Clients Servers Systems Outcome Scenarios Sweeps Visits VisitEffects

variable {env : Env} {prob : ℚ} {w w₀ : World} {sys : System} {t : ℤ} {k : ServerType}
  {s : Server k}

/-- How many of the first `n` values satisfy `P`. -/
def drawn (env : Env) (P : Rand → Prop) [DecidablePred P] (n : ℕ) : ℤ :=
  ((List.range n).countP fun j => P (env.rand j) : ℕ)

/-- The comparison of `server_is_service_successful`. -/
def Succeeds (prob : ℚ) (r : Rand) : Prop := prob < unitDraw r

instance : DecidablePred (Succeeds prob) :=
  fun r => inferInstanceAs (Decidable (prob < unitDraw r))

/-- The sum of one statistic over the servers. -/
def total (stat : ServerStat → ℤ) (sys : System) : ℤ :=
  ((servers sys).map fun s => stat s.2.base.stat).sum

section Counting

variable {P : Rand → Prop} [DecidablePred P]

theorem drawn_succ (n : ℕ) :
    drawn env P (n + 1) = drawn env P n + if P (env.rand n) then 1 else 0 := by
  simp only [drawn, List.range_succ, List.countP_append, List.countP_singleton, decide_eq_true_iff]
  split <;> push_cast <;> rfl

theorem drawn_add_not (env : Env) (P : Rand → Prop) [DecidablePred P] (n : ℕ) :
    drawn env P n + drawn env (fun r => ¬ P r) n = n := by
  induction n with
  | zero => rfl
  | succ n ih =>
    rw [drawn_succ, drawn_succ]
    by_cases hP : P (env.rand n)
    · rw [if_pos hP, if_neg (not_not.mpr hP)]
      push_cast
      omega
    · rw [if_neg hP, if_pos hP]
      push_cast
      omega

end Counting

/-- A visit enters the values it draws: each that succeeds as a success, each other as a
failure. -/
structure EntersDraws (env : Env) (prob : ℚ) (b : BaseServer) (w : World) (s' : AnyServer)
    (w' : World) : Prop where
  errorProb : (book s'.2).errorProb = prob
  served : (book s'.2).stat.clientServed - b.stat.clientServed =
    drawn env (Succeeds prob) w'.draws - drawn env (Succeeds prob) w.draws
  failed : (book s'.2).stat.failureCount - b.stat.failureCount =
    drawn env (fun r => ¬ Succeeds prob r) w'.draws -
      drawn env (fun r => ¬ Succeeds prob r) w.draws

theorem visit_entersDraws (houtcomes : env.outcomes = .drawn) :
    Ensures (fun _ => True) (visit env t s) w fun s' w' =>
      (book s).errorProb = prob → EntersDraws env prob (book s) w ⟨k, s'⟩ w' := by
  apply visit_effects.mono
  intro s' w' hpost hprob
  obtain ⟨s₁, hserves, hbook⟩ := hpost
  cases hserves with
  | nothing hbook₁ hdraws =>
    rw [hbook₁] at hbook
    refine ⟨?_, ?_, ?_⟩
    · rw [hbook]
      exact hprob
    · simp [hbook, hdraws, enterQueueLen]
    · simp [hbook, hdraws, enterQueueLen]
  | success p pushed q hdone hpush hattempt hbook₁ hdraws =>
    have hsucceeds : Succeeds prob (env.rand w.draws) :=
      hprob ▸ (serverIsServiceSuccessful_drawn houtcomes hattempt).mp rfl
    rw [hbook₁] at hbook
    refine ⟨?_, ?_, ?_⟩
    · rw [hbook]
      exact hprob
    · rw [hdraws, drawn_succ, if_pos hsucceeds]
      simp [hbook, enterQueueLen]
    · rw [hdraws, drawn_succ, if_neg (not_not.mpr hsucceeds)]
      simp [hbook, enterQueueLen]
  | failure p hdone hattempt hbook₁ hdraws =>
    have hfails : ¬ Succeeds prob (env.rand w.draws) := fun hlt => Bool.false_ne_true
      ((serverIsServiceSuccessful_drawn houtcomes hattempt).mpr (hprob.symm ▸ hlt))
    rw [hbook₁] at hbook
    refine ⟨?_, ?_, ?_⟩
    · rw [hbook]
      exact hprob
    · rw [hdraws, drawn_succ, if_neg hfails]
      simp [hbook, enterQueueLen]
    · rw [hdraws, drawn_succ, if_pos hfails]
      simp [hbook, enterQueueLen]

/-- The statistics of a run from `sys₀` and `w₀` account for the values it has used. -/
structure Balanced (env : Env) (prob : ℚ) (sys₀ : System) (w₀ : World) (sys : System)
    (w : World) : Prop where
  errorProb : ∀ s ∈ servers sys, s.2.base.errorProb = prob
  served : total ServerStat.clientServed sys - total ServerStat.clientServed sys₀ =
    drawn env (Succeeds prob) w.draws - drawn env (Succeeds prob) w₀.draws
  failed : total ServerStat.failureCount sys - total ServerStat.failureCount sys₀ =
    drawn env (fun r => ¬ Succeeds prob r) w.draws -
      drawn env (fun r => ¬ Succeeds prob r) w₀.draws

/-- A total that the books keep. -/
theorem total_books {stat : ServerStat → ℤ}
    (hbook : ∀ {k : ServerType} (s : Server k), stat (book s).stat = stat s.base.stat)
    (sys : System) : ((books sys).map fun b => stat b.stat).sum = total stat sys := by
  rw [books, List.map_map, total]
  exact congrArg List.sum (List.map_congr_left fun s _ => hbook s.2)

theorem systemTick_balanced {sys₀ : System} (houtcomes : env.outcomes = .drawn)
    (h : Balanced env prob sys₀ w₀ sys w) :
    Ensures (fun _ => True) (systemTick env sys t) w (Balanced env prob sys₀ w₀) := by
  apply (systemTick_visits (V := fun _ _ => True)
    (R := fun b w s' w' => b.errorProb = prob → EntersDraws env prob b w s' w')
    (fun k s w _ => visit_entersDraws houtcomes)
    (tickMeets_of_forall (fun _ _ => trivial) sys)).mono
  intro sys' w' hpost
  obtain ⟨w₁, ⟨hdraws, -⟩, hswept⟩ := hpost
  have hprobs : ∀ b ∈ books sys, b.errorProb = prob := by
    rw [books, List.forall_mem_map]
    exact h.errorProb
  have hvisits := hswept.restrict hprobs
  have hserved := hvisits.sum (k := fun s' => s'.2.base.stat.clientServed)
    fun b w s' w' hR => (hR.2 hR.1).served
  have hfailed := hvisits.sum (k := fun s' => s'.2.base.stat.failureCount)
    fun b w s' w' hR => (hR.2 hR.1).failed
  rw [total_books fun _ => rfl, hdraws] at hserved hfailed
  refine ⟨?_, ?_, ?_⟩
  · exact hvisits.elements (fun b w s' w' hR _ => (hR.2 hR.1).errorProb) hprobs
  · have hbefore := h.served
    rw [total]
    omega
  · have hbefore := h.failed
    rw [total]
    omega

theorem simulateLoop_balanced (houtcomes : env.outcomes = .drawn)
    (hprob : ∀ s ∈ servers sys, s.2.base.errorProb = prob) (n : ℕ) :
    Ensures (fun _ => True) (simulateLoop env sys n) w (Balanced env prob sys w) := by
  refine simulateLoop_keeps (I := fun _ => Balanced env prob sys w) ?_
    (fun m sys' w' _ h _ => systemTick_balanced houtcomes h)
    (loopMeets_of_forall (V := fun _ _ _ => True) (fun _ _ _ => trivial) sys n)
  exact ⟨hprob, by rw [sub_self, sub_self], by rw [sub_self, sub_self]⟩

/-- Each value of `rand ()` that a run uses decides one attempt: the servers together count a
success for every value above their error probability, and a failure for every other. -/
theorem draws_decide_attempts (env : Env) (prob : ℚ) (sys sys' : System) (w w' : World) (n : ℕ)
    (houtcomes : env.outcomes = .drawn) (hprob : ∀ s ∈ servers sys, s.2.base.errorProb = prob)
    (hrun : simulateLoop env sys n w = .ok (sys', w')) :
    total ServerStat.clientServed sys' - total ServerStat.clientServed sys =
        drawn env (Succeeds prob) w'.draws - drawn env (Succeeds prob) w.draws ∧
      total ServerStat.failureCount sys' - total ServerStat.failureCount sys =
        drawn env (fun r => ¬ Succeeds prob r) w'.draws -
          drawn env (fun r => ¬ Succeeds prob r) w.draws ∧
      total ServerStat.clientServed sys' - total ServerStat.clientServed sys +
        (total ServerStat.failureCount sys' - total ServerStat.failureCount sys) =
        (w'.draws : ℤ) - w.draws := by
  have h := (ensures_of_ok hrun).mp (simulateLoop_balanced houtcomes hprob n)
  have hafter := drawn_add_not env (Succeeds prob) w'.draws
  have hbefore := drawn_add_not env (Succeeds prob) w.draws
  have hserved := h.served
  have hfailed := h.failed
  exact ⟨hserved, hfailed, by omega⟩

/-- Eleven values of `rand ()`: seven successes and four failures. -/
theorem draws_decide_attempts_contended :
    total ServerStat.clientServed (contended.systemAt 25) -
          total ServerStat.clientServed contended.system =
        drawn contended.env (Succeeds (1 / 2)) (contended.stateAt 25).2.draws -
          drawn contended.env (Succeeds (1 / 2)) contended.world.draws ∧
      total ServerStat.failureCount (contended.systemAt 25) -
          total ServerStat.failureCount contended.system =
        drawn contended.env (fun r => ¬ Succeeds (1 / 2) r) (contended.stateAt 25).2.draws -
          drawn contended.env (fun r => ¬ Succeeds (1 / 2) r) contended.world.draws ∧
      total ServerStat.clientServed (contended.systemAt 25) -
          total ServerStat.clientServed contended.system +
        (total ServerStat.failureCount (contended.systemAt 25) -
          total ServerStat.failureCount contended.system) =
        ((contended.stateAt 25).2.draws : ℤ) - contended.world.draws := by
  have hord : contended.Ordinary 25 := contended_ordinary.mono (by omega)
  refine draws_decide_attempts contended.env (1 / 2) contended.system (contended.systemAt 25)
    contended.world (contended.stateAt 25).2 25 rfl (fun s hs => ?_) hord.follows.1
  rcases List.mem_pair.mp hs with rfl | rfl <;> rfl

end AcaBSim.DrawLedger
