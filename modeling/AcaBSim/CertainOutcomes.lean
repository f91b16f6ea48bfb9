import AcaBSim.VisitEffects
import AcaBSim.ClientTypes

/-!
Probabilities 0 and 1 at the end points of `rand ()`. The three tests compare
strictly and in different directions: a service fails on a draw of 0 even if the
probability of an error is 0, and on a draw of `RAND_MAX` a client is not
disabled even if the probability of a disability is 1.
-/
namespace AcaBSim.CertainOutcomes

open Machine ArrayQueue Clients Servers Systems Outcome Scenarios Sweeps Visits VisitEffects
  ClientGenerator GeneratedClients ClientTypes

/-- Nothing is recorded as a failure in the first `n` ticks: the servers count
none, and a client whose count was 0 keeps it. -/
def NoFailures (env : Env) (sys : System) (w : World) (n : ℕ) : Prop :=
  ∀ m ≤ n, ∀ sys' w', simulateLoop env sys m w = .ok (sys', w') →
    (∀ s ∈ servers sys', s.2.base.stat.failureCount = 0) ∧
    ∀ p, failuresOf w.heap p = 0 → failuresOf w'.heap p = 0

/-- No draw that the first `n` ticks use is 0. -/
def DrawsPositive (env : Env) (sys : System) (w : World) (n : ℕ) : Prop :=
  ∀ m ≤ n, ∀ sys' w', simulateLoop env sys m w = .ok (sys', w') →
    ∀ j, w.draws ≤ j → j < w'.draws → (env.rand j).val ≠ 0

/-- No service succeeds in the first `n` ticks: no server counts or keeps a client. -/
def NoSuccess (env : Env) (sys : System) (w : World) (n : ℕ) : Prop :=
  ∀ m ≤ n, ∀ sys' w', simulateLoop env sys m w = .ok (sys', w') →
    ((servers sys').map fun s => (s.2.base.stat.clientServed, finishedClients s.2)) =
      (servers sys).map fun s => (s.2.base.stat.clientServed, finishedClients s.2)

/-- Every client that `clients_init` makes is of the types that `P` allows,
whatever lies in memory. -/
def EveryType (P : DisabilityType → Prop) (env : Env) (params : Parameters) (w : World) : Prop :=
  ∀ (garbage : Heap) (n : ℕ) (g : Generator) (w' : World),
    clientsInit env params n { w with heap := garbage } = .ok (g, w') →
    ∀ q ∈ g.clients, ∀ p ∈ contents q, P (w'.heap p).disabilityType

/-- One of the three disabilities. -/
def IsDisability (d : DisabilityType) : Prop := d.Valid ∧ d ≠ .noDisability

/-- Neither draw for the type of a client is the last value of `rand ()`. -/
def NoLastDraws (env : Env) (params : Parameters) (k : ℕ) : Prop :=
  ∀ m, MakesClient env params k m →
    (env.rand (passDraw env params k m + 1)).val ≠ randMax ∧
    (disabilityDraw env params k m).val ≠ randMax

/-- The number of zeros among the first `n` draws. -/
def zeroDraws (env : Env) (n : ℕ) : ℤ := ((List.range n).countP fun j => (env.rand j).val = 0 : ℕ)

section Draws

variable {env : Env}

theorem zeroDraws_succ (n : ℕ) :
    zeroDraws env (n + 1) = zeroDraws env n + if (env.rand n).val = 0 then 1 else 0 := by
  simp only [zeroDraws, List.range_succ, List.countP_append, List.countP_singleton]
  split <;> simp_all

theorem zeroDraws_mono {m n : ℕ} (h : m ≤ n) : zeroDraws env m ≤ zeroDraws env n := by
  induction n, h using Nat.le_induction with
  | base => exact le_refl _
  | succ n _ ih =>
    rw [zeroDraws_succ]
    split <;> omega

/-- As many zeros before as after, that is, none in between. -/
theorem zeroDraws_eq_iff {m n : ℕ} (h : m ≤ n) :
    zeroDraws env n = zeroDraws env m ↔ ∀ j, m ≤ j → j < n → (env.rand j).val ≠ 0 := by
  induction n, h using Nat.le_induction with
  | base => exact iff_of_true rfl fun j hj hlt => absurd hj (not_le.mpr hlt)
  | succ n hmn ih =>
    have hmono : zeroDraws env m ≤ zeroDraws env n := zeroDraws_mono hmn
    rw [zeroDraws_succ]
    by_cases hzero : (env.rand n).val = 0
    · rw [if_pos hzero]
      refine iff_of_false (by omega) fun hnone => ?_
      exact hnone n hmn (Nat.lt_succ_self n) hzero
    · rw [if_neg hzero, add_zero, ih]
      constructor
      · intro hnone j hj hlt
        rcases Nat.lt_succ_iff_lt_or_eq.mp hlt with hlt | rfl
        · exact hnone j hj hlt
        · exact hzero
      · exact fun hnone j hj hlt => hnone j hj (hlt.trans (Nat.lt_succ_self n))

theorem unitDraw_pos (r : Rand) : 0 < unitDraw r ↔ r.val ≠ 0 := by
  rw [unitDraw, div_pos_iff_of_pos_right (by norm_num [randMax]), Nat.cast_pos,
    Nat.pos_iff_ne_zero]

end Draws

section Services

variable {env : Env} {w w' : World} {sys : System} {t : ℤ} {k : ServerType} {s : Server k}

/-- With an error probability of 0 a visit counts as many failures as zeros drawn. -/
def CountsZeros (env : Env) (b : BaseServer) (w : World) (s' : AnyServer) (w' : World) : Prop :=
  b.errorProb = 0 → (book s'.2).errorProb = 0 ∧
    (book s'.2).stat.failureCount - b.stat.failureCount =
      zeroDraws env w'.draws - zeroDraws env w.draws ∧
    w.draws ≤ w'.draws ∧
    (zeroDraws env w'.draws = zeroDraws env w.draws → failuresOf w'.heap = failuresOf w.heap)

theorem visit_countsZeros (houtcomes : env.outcomes = .drawn) :
    Ensures (fun _ => True) (visit env t s) w fun s' w' =>
      CountsZeros env (book s) w ⟨k, s'⟩ w' := by
  apply visit_effects.mono
  intro s' w' hpost hprob
  obtain ⟨s₁, hserves, hbook⟩ := hpost
  rw [hbook]
  cases hserves with
  | nothing hbook₁ hdraws hfailures =>
    rw [hbook₁, hdraws]
    exact ⟨hprob, by simp [enterQueueLen], le_refl _, fun _ => hfailures⟩
  | success p pushed q hdone hpush hattempt hbook₁ hdraws hfailures =>
    have hpos : s.base.errorProb < unitDraw (env.rand w.draws) :=
      (serverIsServiceSuccessful_drawn houtcomes hattempt).mp rfl
    change s.base.errorProb = 0 at hprob
    rw [hprob, unitDraw_pos] at hpos
    rw [hbook₁, hdraws, zeroDraws_succ, if_neg hpos]
    exact ⟨hprob, by simp [enterQueueLen], Nat.le_succ _, fun _ => hfailures⟩
  | failure p hdone hattempt hbook₁ hdraws hfailures =>
    have hzero : ¬ s.base.errorProb < unitDraw (env.rand w.draws) := fun hlt =>
      Bool.false_ne_true ((serverIsServiceSuccessful_drawn houtcomes hattempt).mpr hlt)
    change s.base.errorProb = 0 at hprob
    rw [hprob, unitDraw_pos, not_not] at hzero
    rw [hbook₁, hdraws, zeroDraws_succ, if_pos hzero]
    refine ⟨hprob, by simp [enterQueueLen], Nat.le_succ _, fun hsame => ?_⟩
    omega

/-- The failures of a run from `w₀` are the zeros it has drawn. -/
structure FailuresAreZeros (env : Env) (w₀ : World) (sys : System) (w : World) : Prop where
  errorProb : ∀ b ∈ books sys, b.errorProb = 0
  nonneg : ∀ b ∈ books sys, 0 ≤ b.stat.failureCount
  draws_le : w₀.draws ≤ w.draws
  sum_eq : ((books sys).map fun b => b.stat.failureCount).sum =
    zeroDraws env w.draws - zeroDraws env w₀.draws
  kept : zeroDraws env w.draws = zeroDraws env w₀.draws →
    ∀ p, failuresOf w₀.heap p = 0 → failuresOf w.heap p = 0

theorem systemTick_zeros (houtcomes : env.outcomes = .drawn) {w₀ : World}
    (h : FailuresAreZeros env w₀ sys w) :
    Ensures (fun _ => True) (systemTick env sys t) w (FailuresAreZeros env w₀) := by
  apply (systemTick_visits (V := fun _ _ => True) (R := CountsZeros env)
    (fun k s w _ => visit_countsZeros houtcomes)
    (tickMeets_of_forall (fun _ _ => trivial) sys)).mono
  intro sys' w' hpost
  obtain ⟨w₁, ⟨hdraws₁, hadmits⟩, hswept⟩ := hpost
  have hcounts := hswept.restrict (P := fun b => b.errorProb = 0 ∧ 0 ≤ b.stat.failureCount)
    fun b hb => ⟨h.errorProb b hb, h.nonneg b hb⟩
  have hbooks : ∀ b ∈ books sys', b.errorProb = 0 ∧ 0 ≤ b.stat.failureCount := by
    rw [books, List.forall_mem_map]
    refine hcounts.elements (P := fun _ => True) (fun b w s' w' hR _ => ?_) fun _ _ => trivial
    obtain ⟨⟨hprob, hnonneg⟩, hR⟩ := hR
    obtain ⟨hprob', hcount, hle, -⟩ := hR hprob
    have hmono : zeroDraws env w.draws ≤ zeroDraws env w'.draws := zeroDraws_mono hle
    exact ⟨hprob', by omega⟩
  have hstate : w₁.draws ≤ w'.draws ∧ (zeroDraws env w'.draws = zeroDraws env w₁.draws →
      failuresOf w'.heap = failuresOf w₁.heap) := by
    refine hcounts.state (P := fun w w' => w.draws ≤ w'.draws ∧
      (zeroDraws env w'.draws = zeroDraws env w.draws → failuresOf w'.heap = failuresOf w.heap))
      (fun _ => ⟨le_refl _, fun _ => rfl⟩) (fun w t u hwt htu => ?_) fun b w s' w' hR => ?_
    · have hmono₁ : zeroDraws env w.draws ≤ zeroDraws env t.draws := zeroDraws_mono hwt.1
      have hmono₂ : zeroDraws env t.draws ≤ zeroDraws env u.draws := zeroDraws_mono htu.1
      exact ⟨hwt.1.trans htu.1, fun hsame => (htu.2 (by omega)).trans (hwt.2 (by omega))⟩
    · exact (hR.2 hR.1.1).2.2
  have hsum := hcounts.sum (f := fun b => b.stat.failureCount)
    (k := fun s' => (book s'.2).stat.failureCount) (g := fun w => zeroDraws env w.draws)
    fun b w s' w' hR => (hR.2 hR.1.1).2.1
  rw [h.sum_eq, hdraws₁] at hsum
  rw [hdraws₁] at hstate
  refine ⟨fun b hb => (hbooks b hb).1, fun b hb => (hbooks b hb).2,
    h.draws_le.trans hstate.1, ?_, fun hsame p hp => ?_⟩
  · rw [books, List.map_map]
    change ((servers sys').map fun s' => (book s'.2).stat.failureCount).sum = _
    omega
  · have hmono₀ : zeroDraws env w₀.draws ≤ zeroDraws env w.draws := zeroDraws_mono h.draws_le
    have hmono : zeroDraws env w.draws ≤ zeroDraws env w'.draws := zeroDraws_mono hstate.1
    rw [hstate.2 (by omega)]
    rcases hadmits p with hstat | hstat
    · rw [failuresOf, hstat]
      exact h.kept (by omega) p hp
    · rw [failuresOf, hstat]
      rfl

theorem simulateLoop_zeros (houtcomes : env.outcomes = .drawn)
    (hstart : ∀ s ∈ servers sys, s.2.base.errorProb = 0 ∧ s.2.base.stat.failureCount = 0) (n : ℕ) :
    Ensures (fun _ => True) (simulateLoop env sys n) w (FailuresAreZeros env w) := by
  have hbooks : ∀ b ∈ books sys, b.errorProb = 0 ∧ b.stat.failureCount = 0 := by
    rw [books, List.forall_mem_map]
    exact hstart
  refine simulateLoop_keeps (I := fun _ => FailuresAreZeros env w) ?_
    (fun m sys' w' _ h _ => systemTick_zeros houtcomes h)
    (loopMeets_of_forall (V := fun _ _ _ => True) (fun _ _ _ => trivial) sys n)
  refine ⟨fun b hb => (hbooks b hb).1, fun b hb => (hbooks b hb).2.ge, le_refl _, ?_,
    fun _ _ hp => hp⟩
  rw [sub_self]
  apply List.sum_eq_zero
  rw [List.forall_mem_map]
  exact fun b hb => (hbooks b hb).2

/-- An error probability of 0 is certain just if no draw is 0. -/
theorem noFailures_iff (houtcomes : env.outcomes = .drawn)
    (hstart : ∀ s ∈ servers sys, s.2.base.errorProb = 0 ∧ s.2.base.stat.failureCount = 0) (n : ℕ) :
    NoFailures env sys w n ↔ DrawsPositive env sys w n := by
  have hzeros : ∀ m sys' w', simulateLoop env sys m w = .ok (sys', w') →
      FailuresAreZeros env w sys' w' := fun m sys' w' hrun =>
    (ensures_of_ok hrun).mp (simulateLoop_zeros houtcomes hstart m)
  constructor
  · intro hnone m hm sys' w' hrun
    have h := hzeros m sys' w' hrun
    have hcounts : ((books sys').map fun b => b.stat.failureCount).sum = 0 := by
      apply List.sum_eq_zero
      rw [List.forall_mem_map, books, List.forall_mem_map]
      exact (hnone m hm sys' w' hrun).1
    have hsum := h.sum_eq
    exact (zeroDraws_eq_iff h.draws_le).mp (by omega)
  · intro hpos m hm sys' w' hrun
    have h := hzeros m sys' w' hrun
    have hsame := (zeroDraws_eq_iff h.draws_le).mpr (hpos m hm sys' w' hrun)
    refine ⟨fun s hs => ?_, h.kept hsame⟩
    have hle := List.single_le_sum (l := (books sys').map fun b => b.stat.failureCount)
      (by rw [List.forall_mem_map]; exact h.nonneg) _
      (List.mem_map_of_mem (List.mem_map_of_mem hs))
    have hnonneg := h.nonneg _ (List.mem_map_of_mem hs)
    rw [h.sum_eq, hsame, sub_self] at hle
    exact le_antisymm hle hnonneg

/-- What a server has to show for its successes. -/
def served (b : BaseServer) : ℤ × List ClientPtr :=
  (b.stat.clientServed, contents b.finishedClientsQueue)

/-- With an error probability of 1 a visit enters no success. -/
theorem visit_noSuccess (houtcomes : env.outcomes = .drawn) :
    Ensures (fun _ => True) (visit env t s) w fun s' _ => (book s).errorProb = 1 →
      (book s').errorProb = 1 ∧ served (book s') = served (book s) := by
  apply visit_effects.mono
  intro s' w' hpost hprob
  obtain ⟨s₁, hserves, hbook⟩ := hpost
  rw [hbook]
  cases hserves with
  | nothing hbook₁ =>
    rw [hbook₁]
    exact ⟨hprob, rfl⟩
  | failure p hdone hattempt hbook₁ =>
    rw [hbook₁]
    exact ⟨hprob, rfl⟩
  | success p pushed q hdone hpush hattempt =>
    have hlt := (serverIsServiceSuccessful_drawn houtcomes hattempt).mp rfl
    change s.base.errorProb = 1 at hprob
    rw [hprob] at hlt
    exact absurd (unitDraw_le_one _) (not_le.mpr hlt)

theorem simulateLoop_noSuccess (houtcomes : env.outcomes = .drawn)
    (hstart : ∀ s ∈ servers sys, s.2.base.errorProb = 1) (n : ℕ) :
    Ensures (fun _ => True) (simulateLoop env sys n) w fun sys' _ =>
      (∀ b ∈ books sys', b.errorProb = 1) ∧ (books sys').map served = (books sys).map served := by
  refine simulateLoop_keeps (I := fun _ sys' _ => (∀ b ∈ books sys', b.errorProb = 1) ∧
    (books sys').map served = (books sys).map served) ?_ (fun m sys₁ w₁ _ h _ => ?_)
    (loopMeets_of_forall (V := fun _ _ _ => True) (fun _ _ _ => trivial) sys n)
  · rw [books, List.forall_mem_map]
    exact ⟨hstart, rfl⟩
  · obtain ⟨hprob, hserved⟩ := h
    apply (systemTick_visits (V := fun _ _ => True)
      (R := fun b _ s' _ => b.errorProb = 1 →
        (book s'.2).errorProb = 1 ∧ served (book s'.2) = served b)
      (fun k s w _ => visit_noSuccess houtcomes)
      (tickMeets_of_forall (fun _ _ => trivial) sys₁)).mono
    intro sys' w' hpost
    obtain ⟨w₂, -, hswept⟩ := hpost
    have hvisits := hswept.restrict hprob
    have hsame : (books sys₁).map served = (servers sys').map fun s' => served (book s'.2) := by
      rw [← List.forall₂_eq_eq_eq, List.forall₂_map_left_iff, List.forall₂_map_right_iff]
      exact hvisits.forall₂ fun b w s' w' hR => (hR.2 hR.1).2.symm
    have hbooks : (books sys').map served = (servers sys').map fun s' => served (book s'.2) := by
      rw [books, List.map_map]
      rfl
    refine ⟨?_, (hbooks.trans hsame.symm).trans hserved⟩
    rw [books, List.forall_mem_map]
    exact hvisits.elements (P := fun _ => True) (fun b w s' w' hR _ => (hR.2 hR.1).1)
      fun _ _ => trivial

/-- An error probability of 1 is certain. -/
theorem noSuccess (houtcomes : env.outcomes = .drawn)
    (hstart : ∀ s ∈ servers sys, s.2.base.errorProb = 1) (n : ℕ) : NoSuccess env sys w n := by
  intro m _ sys' w' hrun
  have hserved := ((ensures_of_ok hrun).mp (simulateLoop_noSuccess houtcomes hstart m)).2
  rw [books, books, List.map_map, List.map_map] at hserved
  exact hserved

end Services

section Types

variable {env : Env} {params : Parameters} {w : World} {k m : ℕ}

/-- A disability probability of 0 is certain. -/
theorem nobody_disabled (hprob : params.disabilityProb = 0) :
    EveryType (· = .noDisability) env params w := by
  intro garbage n g w' hrun q hq p hp
  obtain ⟨m, -, hrecord⟩ := pass_of_client hrun hq hp
  have hnot : ¬ Disabled env params w.draws m := by
    rw [Disabled, hprob, not_lt]
    exact unitDraw_nonneg _
  rw [hrecord]
  simp only [recordOf, typeOf, if_neg hnot, Option.getD_some]

/-- With a disability probability of 1 the last draw alone does not disable. -/
theorem disabled_iff (hprob : params.disabilityProb = 1) :
    Disabled env params k m ↔ (env.rand (passDraw env params k m + 1)).val ≠ randMax := by
  rw [Disabled, hprob, ← not_le, one_le_unitDraw]

theorem disabilityTypeOf_ne {sample : ℤ} {d : DisabilityType}
    (h : disabilityTypeOf sample = some d) : d ≠ .noDisability := by
  intro hd
  subst hd
  unfold disabilityTypeOf at h
  split at h
  · cases h
  · split at h
    · cases h
    · split at h <;> cases h

theorem recordOf_isDisability (hdisabled : Disabled env params k m)
    (hdraw : (disabilityDraw env params k m).val ≠ randMax) (c : Client) :
    IsDisability (recordOf env params k m c).disabilityType := by
  obtain ⟨d, htype, hvalid⟩ := typeOf_valid fun _ : Disabled env params k m => hdraw
  have hne : d ≠ .noDisability := by
    rw [typeOf, if_pos hdisabled] at htype
    exact disabilityTypeOf_ne htype
  simp only [recordOf, htype, Option.getD_some]
  exact ⟨hvalid, hne⟩

theorem everyone_disabled (hprob : params.disabilityProb = 1)
    (hdraws : NoLastDraws env params w.draws) : EveryType IsDisability env params w := by
  intro garbage n g w' hrun q hq p hp
  obtain ⟨m, hmakes, hrecord⟩ := pass_of_client hrun hq hp
  obtain ⟨hfirst, hsecond⟩ := hdraws m hmakes
  rw [hrecord]
  exact recordOf_isDisability ((disabled_iff hprob).mpr hfirst) hsecond _

/-- A disability probability of 1 is certain only if no draw for a type is the last value. -/
theorem noLastDraws_of_everyone_disabled (hprob : params.disabilityProb = 1)
    (hgranted : env.AllocationsSucceed) (h : EveryType IsDisability env params w) :
    NoLastDraws env params w.draws := by
  intro m hmakes
  let garbage : Heap := fun _ => newcomer 0 0 (.other 0)
  obtain ⟨g, w', q, p, hrun, hq, hp, hrecord⟩ :=
    client_of_pass (w := { w with heap := garbage }) hgranted hmakes
  have htype := h garbage (m + 1) g w' hrun q hq p hp
  rw [hrecord] at htype
  have hfirst : Disabled env params w.draws m := by
    by_contra hnot
    simp only [recordOf, typeOf, if_neg hnot, Option.getD_some] at htype
    exact htype.2 rfl
  refine ⟨(disabled_iff hprob).mp hfirst, fun hlast => ?_⟩
  simp only [recordOf, typeOf_eq_none hfirst hlast, Option.getD_none] at htype
  exact absurd htype.1 (by decide)

end Types

/-- Of the four certainties one holds without condition on either side: nobody
is disabled with probability 0 and no service succeeds with an error probability
of 1. The other two fail on an end point of `rand ()`, and on nothing else. -/
theorem certain_outcomes_iff (env : Env) :
    (env.outcomes = .drawn → ∀ (sys : System) (w : World) (n : ℕ),
      ((∀ s ∈ servers sys, s.2.base.errorProb = 0 ∧ s.2.base.stat.failureCount = 0) →
        (NoFailures env sys w n ↔ DrawsPositive env sys w n)) ∧
      ((∀ s ∈ servers sys, s.2.base.errorProb = 1) → NoSuccess env sys w n)) ∧
    ∀ (params : Parameters) (w : World),
      (params.disabilityProb = 0 → EveryType (· = .noDisability) env params w) ∧
      (params.disabilityProb = 1 →
        (env.AllocationsSucceed →
          (EveryType IsDisability env params w ↔ NoLastDraws env params w.draws)) ∧
        (NoLastDraws env params w.draws → EveryType IsDisability env params w)) := by
  refine ⟨fun houtcomes sys w n => ⟨fun hstart => noFailures_iff houtcomes hstart n,
    fun hstart => noSuccess houtcomes hstart n⟩, fun params w => ⟨nobody_disabled, ?_⟩⟩
  intro hprob
  exact ⟨fun hgranted => ⟨noLastDraws_of_everyone_disabled hprob hgranted,
    everyone_disabled hprob⟩, everyone_disabled hprob⟩

/-- The scenario with every draw 0. -/
def zeroEnv : Env := { mixed.env with rand := fun _ => ⟨0, Nat.succ_pos randMax⟩ }

/-- The draws 0, `RAND_MAX`, `RAND_MAX` and then 0. The gaps are drawn from zeros, for
which `exponential_sample` is 1. -/
def lastEnv : Env :=
  { zeroEnv with rand := fun j => if j = 1 ∨ j = 2 then Fin.last randMax else zeroEnv.rand j }

theorem mixed_errorProb :
    ∀ s ∈ servers mixed.system, s.2.base.errorProb = 0 ∧ s.2.base.stat.failureCount = 0 := by
  intro s hs
  rcases List.mem_pair.mp hs with rfl | rfl <;> exact ⟨rfl, rfl⟩

theorem certain_outcomes_iff_zeroEnv :
    NoFailures zeroEnv mixed.system mixed.world 6 ↔
      DrawsPositive zeroEnv mixed.system mixed.world 6 :=
  ((certain_outcomes_iff zeroEnv).1 rfl mixed.system mixed.world 6).1 mixed_errorProb

/-- With an error probability of 0 the first attempt fails on a draw of 0, and
with a disability probability of 1 a draw of `RAND_MAX` makes a client of no
disability. -/
theorem end_points_not_certain :
    (∀ s ∈ servers mixed.system, s.2.base.errorProb = 0 ∧ s.2.base.stat.failureCount = 0) ∧
    ¬ NoFailures zeroEnv mixed.system mixed.world 6 ∧
    ¬ EveryType IsDisability lastEnv ⟨1, 1 / 2, 2⟩ mixed.world := by
  refine ⟨mixed_errorProb, fun hnone => ?_, fun hevery => ?_⟩
  · have hfailure : (match simulateLoop zeroEnv mixed.system 6 mixed.world with
      | .ok (sys', _) => (servers sys').any fun s => decide (s.2.base.stat.failureCount = 1)
      | .error _ => false) = true := by decide +kernel
    split at hfailure
    · rename_i sys' w' hrun
      obtain ⟨s, hs, hcount⟩ := List.any_eq_true.mp hfailure
      have hzero := (hnone 6 (le_refl 6) sys' w' hrun).1 s hs
      rw [of_decide_eq_true hcount] at hzero
      exact absurd hzero (by decide)
    · cases hfailure
  · have hregular : (match clientsInit lastEnv ⟨1, 1 / 2, 2⟩ 2 mixed.world with
      | .ok (g, w') => g.clients.any fun q => (contents q).any fun p =>
          decide ((w'.heap p).disabilityType = .noDisability)
      | .error _ => false) = true := by decide +kernel
    split at hregular
    · rename_i g w' hrun
      obtain ⟨q, hq, hany⟩ := (Option.any_eq_true _ _).mp hregular
      obtain ⟨p, hp, htype⟩ := List.any_eq_true.mp hany
      exact (hevery mixed.world.heap 2 g w' hrun q hq p hp).2 (of_decide_eq_true htype)
    · cases hregular

end AcaBSim.CertainOutcomes
