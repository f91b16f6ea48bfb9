import AcaBSim.CertainOutcomes
import AcaBSim.MeanAssertion

/-!
The mean queue lengths of a run. `sum_queue_lens` is converted back to an `int`
at every update, so it stands for the sum of the lengths only as long as that
sum fits. Past `INT_MAX` a standard server fails its assertion on the mean or
reports a wrong one, and a robotic server has no assertion to fail.
-/
namespace AcaBSim.QueueLengths

open Machine ArrayQueue Clients Servers Systems Outcome Stations Networks ServerStations
  Simulation Scenarios Sweeps Conservation Visits VisitEffects MeanAssertion CertainOutcomes

section Statement

variable (env : Env) (sys : System) (w : World) (i n : ℕ)

/-- The number of clients that wait at the `i`-th server when tick `n` ends. -/
def lengthAt : ℕ :=
  match simulateLoop env sys (n + 1) w with
  | .ok (sys', _) => (servers sys')[i]?.elim 0 fun s => waitingSize s.2
  | .error _ => 0

/-- The sum of the lengths over the ticks before `n`. -/
def lengthSum : ℕ := ((List.range n).map (lengthAt env sys w i)).sum

/-- Every tick before `n` returns, and after each the mean of every server is that
of the lengths so far, rounded down. -/
def ExactMeans : Prop :=
  ∀ m ≤ n, Returns (simulateLoop env sys m) w fun sys' _ =>
    ∀ i s, (servers sys')[i]? = some s →
      s.2.base.stat.meanServerQueueLen = ((lengthSum env sys w i m / m : ℕ) : ℤ)

/-- The service part of a visit computes no time that is not an `int`, and the sum
of lengths that the visit then stores is an `int`. -/
def VisitFits (env : Env) (t : ℤ) (s : AnyServer) (w : World) : Prop :=
  Ensures (fun e => e ≠ .intOverflow) (serveServer env s.2 t) w fun s' _ =>
    s'.base.stat.sumQueueLens + waitingSize s' ≤ intMax

end Statement

theorem lengthSum_succ (env : Env) (sys : System) (w : World) (i n : ℕ) :
    lengthSum env sys w i (n + 1) = lengthSum env sys w i n + lengthAt env sys w i n := by
  simp [lengthSum, List.range_succ]

/-- A sum past `INT_MAX` wraps to another mean than the exact one. -/
theorem wrapInt_tdiv_ne {x : ℤ} {n : ℕ} (hx : intMax < x) (hn : (n : ℤ) < intMax) :
    (wrapInt x).tdiv ((n : ℤ) + 1) ≠ x / ((n : ℤ) + 1) := by
  unfold intMax at hx hn
  have hwrap : wrapInt x + 2 ^ 32 ≤ x := by
    unfold wrapInt
    rw [Int.bmod_def]
    omega
  have hpos : (0 : ℤ) < (n : ℤ) + 1 := by omega
  have hone : 1 ≤ x / ((n : ℤ) + 1) := (Int.le_ediv_iff_mul_le hpos).mpr (by omega)
  apply ne_of_lt
  rcases le_or_gt 0 (wrapInt x) with hnonneg | hneg
  · rw [Int.tdiv_eq_ediv_of_nonneg hnonneg]
    -- the wrapped sum is short of more than one divisor
    have hstep : (wrapInt x + 1 * ((n : ℤ) + 1)) / ((n : ℤ) + 1) =
        wrapInt x / ((n : ℤ) + 1) + 1 := Int.add_mul_ediv_right _ _ hpos.ne'
    have hmono : (wrapInt x + 1 * ((n : ℤ) + 1)) / ((n : ℤ) + 1) ≤ x / ((n : ℤ) + 1) :=
      Int.ediv_le_ediv hpos (by omega)
    omega
  · have hopposite : 0 ≤ (-wrapInt x).tdiv ((n : ℤ) + 1) := Int.tdiv_nonneg (by omega) hpos.le
    rw [Int.neg_tdiv] at hopposite
    omega

section Visits

variable {k : ServerType} {env : Env} {t : ℤ} {w : World} {s : Server k} {sys : System}

/-- What a visit does to the sum and the mean. -/
def Adds (t : ℤ) (b : BaseServer) (s' : AnyServer) : Prop :=
  (book s'.2).stat.sumQueueLens = wrapInt (b.stat.sumQueueLens + waitingSize s'.2) ∧
    (book s'.2).stat.meanServerQueueLen = (book s'.2).stat.sumQueueLens.tdiv (t + 1)

theorem sumQueueLens_of_serves {s' : Server k} {w' : World} (h : Serves env s w s' w') :
    (book s').stat.sumQueueLens = (book s).stat.sumQueueLens := by
  cases h with
  | nothing hbook => rw [hbook]
  | success p pushed q hdone hpush hattempt hbook => rw [hbook]
  | failure p hdone hattempt hbook => rw [hbook]

theorem visit_adds : Ensures (fun _ => True) (visit env t s) w fun s' _ =>
    Adds t (book s) ⟨k, s'⟩ := by
  apply visit_effects.mono
  intro s' w' hpost
  obtain ⟨s₁, hserves, hbook⟩ := hpost
  rw [Adds, hbook]
  exact ⟨by rw [enterQueueLen, sumQueueLens_of_serves hserves], rfl⟩

/-- A visit that returns meets the condition if the sum it leads to does. -/
theorem visitFits_iff : Ensures (fun _ => True) (visit env t s) w fun s' _ =>
    (VisitFits env t ⟨k, s⟩ w ↔ (book s).stat.sumQueueLens + waitingSize s' ≤ intMax) := by
  rw [visit, ensures_bind]
  refine ensures_any fun s₁ w₁ hserve => ?_
  have hserves := (ensures_of_ok hserve).mp serveServer_serves
  apply serverUpdateStat_enters.mono
  intro s' w' hpost
  obtain ⟨-, hwaiting, -⟩ := hpost
  rw [VisitFits, ensures_of_ok hserve, hwaiting, ← sumQueueLens_of_serves hserves]
  rfl

/-- With a sum that fits, the update cannot fail. -/
theorem serverUpdateStat_returns (ht : 0 ≤ t ∧ t < intMax) (hsum : 0 ≤ s.base.stat.sumQueueLens)
    (hfits : s.base.stat.sumQueueLens + waitingSize s ≤ intMax) :
    Ensures (fun _ => False) (liftM (serverUpdateStat s t) : Prog (Server k)) w
      fun _ _ => True := by
  have hrange : intMin ≤ t + 1 ∧ t + 1 ≤ intMax := by
    unfold intMin
    omega
  cases s with
  | standard s =>
    have hassert := standardServerUpdateStat_fits ht.1 hsum hfits
    simp only [standardServerUpdateStat, ServerStat.addQueueLen, checkInt_ok hrange, Bind.bind,
      Except.bind] at hassert
    simp only [serverUpdateStat, standardServerUpdateStat, ServerStat.addQueueLen,
      ensures_lift_bind]
    refine ensures_checkInt_exact hrange ?_
    rw [ensures_lift_ok]
    split
    · trivial
    · rename_i hneg
      rw [if_neg hneg] at hassert
      exact absurd rfl hassert
  | robotic s =>
    simp only [serverUpdateStat, roboticServerUpdateStat, ServerStat.addQueueLen,
      ensures_lift_bind]
    exact ensures_checkInt_exact hrange trivial

/-- A visit that meets the condition stops for no counter. -/
theorem visit_spares (ht : 0 ≤ t ∧ t < intMax) (hsum : 0 ≤ (book s).stat.sumQueueLens)
    (hfits : VisitFits env t ⟨k, s⟩ w) :
    Ensures (fun e => ¬ e.CounterOverflow) (visit env t s) w fun _ _ => True := by
  rw [visit, ensures_bind]
  have hserve := hfits.both (spares_serveServer s w)
  refine ((hserve.and serveServer_serves).mono ?_).weaken fun e he hover => hover.elim he.1 he.2
  intro s₁ w₁ hpost
  obtain ⟨⟨hfits₁, -⟩, hserves⟩ := hpost
  have hsame := sumQueueLens_of_serves hserves
  refine (serverUpdateStat_returns ht (?_ : 0 ≤ s₁.base.stat.sumQueueLens) hfits₁).weaken
    fun _ hfalse => hfalse.elim
  change s₁.base.stat.sumQueueLens = _ at hsame
  rwa [hsame]

theorem updateClients_spares (ht : 0 ≤ t ∧ t < intMax) {l : List (Server k)}
    (hsums : ∀ b ∈ l.map book, 0 ≤ b.stat.sumQueueLens)
    (hfits : Meets (visit env t) (fun s => VisitFits env t ⟨k, s⟩) l w) :
    Ensures (fun e => ¬ e.CounterOverflow) (updateClients env t l) w fun _ _ => True := by
  rw [updateClients_eq]
  rw [List.forall_mem_map] at hsums
  exact (ensures_sweep (R := fun _ _ _ _ => True)
    (fun s hs w hV => visit_spares ht (hsums s hs) hV) hfits).mono fun _ _ _ => trivial

/-- Admission and the tick of the services return, so a tick stops at a visit. -/
theorem systemTick_spares {B : ℚ → Prop} {h₀ : Heap} {m n : ℕ} {N : Network ClientPtr}
    {door gone : List ClientPtr} (hgranted : env.AllocationsSucceed)
    (h : Refines B h₀ m sys w N)
    (hprogress : Network.Progress (Routing.policy env h₀ m) door n gone N)
    (hist : Network.Historic (Routing.policy env h₀ m) n N) (hdoor : door.Nodup)
    (hne : N.stations ≠ []) (hn : (n : ℤ) < intMax)
    (hsums : ∀ b ∈ books sys, 0 ≤ b.stat.sumQueueLens)
    (hfits : TickMeets (VisitFits env n) env n sys w) :
    Ensures (fun e => ¬ e.CounterOverflow) (systemTick env sys n) w fun _ _ => True := by
  have ht : (0 : ℤ) ≤ n ∧ (n : ℤ) < intMax := ⟨Int.natCast_nonneg n, hn⟩
  have hlen : ∀ st ∈ N.stations, (st.jobs.length : ℤ) < intMax := fun st hst => by
    have hle := hprogress.length_jobs_le hst
    omega
  simp only [systemTick, serversRun, ensures_bind]
  refine (((admitClient_admits hgranted h hlen hne (hprogress.nodup_places hdoor)).and
    (admitClient_books sys)).and hfits).mono ?_
  intro sys₁ w₁ hpost
  obtain ⟨⟨h₁, hbooks₁, -⟩, hfits₁⟩ := hpost
  obtain ⟨sts₁, sts₂, hstations, -, hservers⟩ := h₁.stations
  have hreached : ∀ st ∈ sts₁ ++ sts₂, st.Paced n ∧ ∀ a ∈ st.current, 1 ≤ a.remaining := by
    intro st hst
    rw [← hstations] at hst
    obtain ⟨i, s, hs, rfl⟩ := Network.mem_receive hst
    have hhistory := hist s (List.mem_of_getElem? hs)
    exact ⟨hhistory.paced.receiveAll _, by simpa using hhistory.settled.remaining_pos⟩
  refine (((serversUpdateServeTime_counts hn hservers (fun st hst => (hreached st hst).1)
    fun st hst => (hreached st hst).2).and (serversUpdateServeTime_books sys₁)).and hfits₁).mono ?_
  intro sys₂ w₂ hpost
  obtain ⟨⟨-, hbooks₂, -⟩, hstandard, hrobotic⟩ := hpost
  rw [← hbooks₁, ← hbooks₂, books_eq] at hsums
  refine ((updateClients_spares ht (fun b hb => hsums b (List.mem_append_left _ hb))
    hstandard).and hrobotic).mono ?_
  intro standard w₃ hpost
  exact updateClients_spares ht (fun b hb => hsums b (List.mem_append_right _ hb)) hpost.2

end Visits

section Runs

variable {env : Env} {sys₀ sys sys' : System} {w₀ w w' : World} {i m n : ℕ}

/-- The books of the `i`-th server after `m` ticks hold the exact sum and mean. -/
structure Tallied (env : Env) (sys₀ : System) (w₀ : World) (i m : ℕ) (b : BaseServer) : Prop where
  sum : b.stat.sumQueueLens = lengthSum env sys₀ w₀ i m
  mean : b.stat.meanServerQueueLen = ((lengthSum env sys₀ w₀ i m / m : ℕ) : ℤ)

def AllTallied (env : Env) (sys₀ : System) (w₀ : World) (m : ℕ) (sys : System) : Prop :=
  ∀ i b, (books sys)[i]? = some b → Tallied env sys₀ w₀ i m b

/-- The sums of the lengths over `m` ticks are `int`s. -/
def SumsFit (env : Env) (sys₀ : System) (w₀ : World) (m : ℕ) (sys : System) : Prop :=
  ∀ i s, (servers sys)[i]? = some s → (lengthSum env sys₀ w₀ i m : ℤ) ≤ intMax

theorem lengthAt_eq (hrun : simulateLoop env sys₀ (m + 1) w₀ = .ok (sys', w')) {s' : AnyServer}
    (hs' : (servers sys')[i]? = some s') : lengthAt env sys₀ w₀ i m = waitingSize s'.2 := by
  simp only [lengthAt, hrun, hs']
  rfl

theorem allTallied_start (hfresh : ∀ s ∈ servers sys₀, FreshServer s.2) :
    AllTallied env sys₀ w₀ 0 sys₀ := by
  intro i b hb
  have hzero : b.stat = .zero := by
    obtain ⟨s, hs, rfl⟩ := List.mem_map.mp (List.mem_of_getElem? hb)
    have hstat := (hfresh s hs).base.stat
    rw [book, hstat]
    rfl
  have hsum : lengthSum env sys₀ w₀ i 0 = 0 := rfl
  exact ⟨by rw [hzero, hsum]; rfl, by rw [hzero, hsum]; rfl⟩

/-- What a visit is about to store stands for one more length. -/
theorem Tallied.stores {b : BaseServer} {s' : AnyServer} (h : Tallied env sys₀ w₀ i m b)
    (hrun : simulateLoop env sys₀ (m + 1) w₀ = .ok (sys', w'))
    (hs' : (servers sys')[i]? = some s') :
    b.stat.sumQueueLens + waitingSize s'.2 = (lengthSum env sys₀ w₀ i (m + 1) : ℤ) := by
  rw [lengthSum_succ, h.sum, lengthAt_eq hrun hs', Nat.cast_add]

theorem exists_book {s : AnyServer} (hs : (servers sys)[i]? = some s) :
    (books sys)[i]? = some (book s.2) := by
  rw [books, List.getElem?_map, hs]
  rfl

theorem allTallied_exact (hall : AllTallied env sys₀ w₀ m sys) :
    ∀ i s, (servers sys)[i]? = some s →
      s.2.base.stat.meanServerQueueLen = ((lengthSum env sys₀ w₀ i m / m : ℕ) : ℤ) :=
  fun i s hs => (hall i (book s.2) (exists_book hs)).mean

theorem systemTick_adds (hrun : systemTick env sys m w = .ok (sys', w')) :
    List.Forall₂ (Adds m) (books sys) (servers sys') := by
  have hvisits := (ensures_of_ok hrun).mp (systemTick_visits (V := fun _ _ => True)
    (R := fun b _ s' _ => Adds m b s') (fun k s w _ => visit_adds)
    (tickMeets_of_forall (fun _ _ => trivial) sys))
  obtain ⟨w₁, -, hswept⟩ := hvisits
  exact hswept.forall₂ fun _ _ _ _ h => h

/-- A tick enters sums that fit exactly. -/
theorem AllTallied.tick (h : AllTallied env sys₀ w₀ m sys)
    (hrun : simulateLoop env sys₀ (m + 1) w₀ = .ok (sys', w'))
    (htick : systemTick env sys m w = .ok (sys', w'))
    (hfits : SumsFit env sys₀ w₀ (m + 1) sys') : AllTallied env sys₀ w₀ (m + 1) sys' := by
  intro i b' hb'
  rw [books, List.getElem?_map, Option.map_eq_some_iff] at hb'
  obtain ⟨s', hs', rfl⟩ := hb'
  obtain ⟨b, hb, hsum', hmean'⟩ := exists_partner (systemTick_adds htick) hs'
  rw [(h i b hb).stores hrun hs',
    wrapInt_of_range (by unfold intMin; omega) (hfits i s' hs')] at hsum'
  refine ⟨hsum', ?_⟩
  rw [hmean', hsum', Int.tdiv_eq_ediv_of_nonneg (Int.natCast_nonneg _)]
  push_cast
  rfl

/-- The sums of a tick that returns, of which every visit meets the condition, fit. -/
theorem sumsFit_of_meets (hall : AllTallied env sys₀ w₀ m sys)
    (hrun : simulateLoop env sys₀ (m + 1) w₀ = .ok (sys', w'))
    (htick : systemTick env sys m w = .ok (sys', w'))
    (hmeets : TickMeets (VisitFits env m) env m sys w) : SumsFit env sys₀ w₀ (m + 1) sys' := by
  intro i s' hs'
  have hvisits := (ensures_of_ok htick).mp (systemTick_visits
    (R := fun b _ s' _ => b.stat.sumQueueLens + waitingSize s'.2 ≤ intMax)
    (fun k s w hV => visitFits_iff.mono fun s' w' hiff => hiff.mp hV) hmeets)
  obtain ⟨w₁, -, hswept⟩ := hvisits
  obtain ⟨b, hb, hle⟩ := exists_partner (hswept.forall₂ fun _ _ _ _ h => h) hs'
  rwa [(hall i b hb).stores hrun hs'] at hle

/-- A tick after which the means are exact has entered sums that fit. -/
theorem tickMeets_of_exact (hm : (m : ℤ) < intMax) (hall : AllTallied env sys₀ w₀ m sys)
    (hrun : simulateLoop env sys₀ (m + 1) w₀ = .ok (sys', w'))
    (htick : systemTick env sys m w = .ok (sys', w'))
    (hexact : ∀ i s, (servers sys')[i]? = some s → s.2.base.stat.meanServerQueueLen =
      ((lengthSum env sys₀ w₀ i (m + 1) / (m + 1) : ℕ) : ℤ)) :
    TickMeets (VisitFits env m) env m sys w := by
  apply tickMeets_of_results (G := fun b s' => b.stat.sumQueueLens + waitingSize s'.2 ≤ intMax)
    (fun k s w => visitFits_iff.mono fun s' w' hiff => hiff.mpr) htick
  have hadds := systemTick_adds htick
  rw [List.forall₂_iff_get] at hadds ⊢
  refine ⟨hadds.1, fun i hi hi' => ?_⟩
  have hs' : (servers sys')[i]? = some ((servers sys').get ⟨i, hi'⟩) := List.getElem?_eq_getElem hi'
  have hb : (books sys)[i]? = some ((books sys).get ⟨i, hi⟩) := List.getElem?_eq_getElem hi
  have hstores := (hall i _ hb).stores hrun hs'
  rw [hstores]
  by_contra hover
  obtain ⟨hsum', hmean'⟩ := hadds.2 i hi hi'
  have hmean := hexact i _ hs'
  change (book ((servers sys').get ⟨i, hi'⟩).2).stat.meanServerQueueLen = _ at hmean
  rw [hmean', hsum', hstores] at hmean
  push_cast at hmean
  exact wrapInt_tdiv_ne (not_le.mp hover) hm hmean

/-- A loop that returns, with sums that fit, has entered them exactly. -/
theorem allTallied_of_sums (hstart : AllTallied env sys₀ w₀ 0 sys₀)
    (hrun : simulateLoop env sys₀ n w₀ = .ok (sys', w'))
    (hsums : ∀ i < (servers sys₀).length, (lengthSum env sys₀ w₀ i n : ℤ) ≤ intMax) :
    AllTallied env sys₀ w₀ n sys' ∧ (servers sys').length = (servers sys₀).length := by
  induction n generalizing sys' w' with
  | zero =>
    cases hrun
    exact ⟨hstart, rfl⟩
  | succ n ih =>
    obtain ⟨sys₁, w₁, hbefore, htick⟩ := simulateLoop_succ hrun
    obtain ⟨hall, hlength⟩ := ih hbefore fun i hi => by
      have hsum := hsums i hi
      rw [lengthSum_succ] at hsum
      omega
    have hkept := (systemTick_adds htick).length_eq
    rw [books, List.length_map] at hkept
    have hlength' := hkept.symm.trans hlength
    refine ⟨hall.tick hrun htick fun i s hs => hsums i ?_, hlength'⟩
    rw [← hlength']
    exact (List.getElem?_eq_some_iff.mp hs).1

end Runs

section Exactness

variable {S : Scenario} {m n : ℕ} {sys : System} {w : World}

/-- A tick whose visits meet the condition returns. -/
theorem systemTick_returns (hboost : S.BoostModerate) (hm : ((m + 1 : ℕ) : ℤ) ≤ intMax)
    (hsim : S.loop m = .ok (sys, w)) (hall : AllTallied S.env S.system S.world m sys)
    (hmeets : TickMeets (VisitFits S.env m) S.env m sys w) :
    ∃ sys' w', systemTick S.env sys m w = .ok (sys', w') := by
  have hlt : (m : ℤ) < intMax := by omega
  have hord : S.Ordinary m := Scenario.ordinary_of_isOk hboost hlt.le (by rw [hsim]; rfl)
  have hrefines := hord.refines
  rw [Scenario.systemAt, Scenario.stateAt_of_loop hsim] at hrefines
  obtain ⟨gone, hgone⟩ := S.fresh.progress (P := S.policy) m
  have hne : (S.run m).stations ≠ [] := by
    have hpos := List.length_pos_iff.mpr S.fresh.nonempty
    rw [← List.length_pos_iff, Scenario.run, Network.length_run]
    exact hpos
  have hsums : ∀ b ∈ books sys, 0 ≤ b.stat.sumQueueLens := by
    intro b hb
    obtain ⟨i, hi⟩ := List.mem_iff_getElem?.mp hb
    rw [(hall i b hi).sum]
    exact Int.natCast_nonneg _
  have hspares := systemTick_spares S.allocations hrefines hgone hord.historic S.clients_nodup hne
    hlt hsums hmeets
  obtain ⟨sys', w', hrun, -⟩ := hspares.returns fun e he hover => by
    exact hover (S.loop_error_counter hboost hm ((Scenario.loop_succ hsim).trans he))
  exact ⟨sys', w', hrun⟩

/-- The loop tallies as long as the visits meet the condition. -/
theorem loop_tallies (hboost : S.BoostModerate) (hn : (n : ℤ) ≤ intMax)
    (hmeets : LoopMeets (fun t => VisitFits S.env t) S.env S.system S.world n) :
    ∃ sys w, S.loop n = .ok (sys, w) ∧ AllTallied S.env S.system S.world n sys ∧
      SumsFit S.env S.system S.world n sys := by
  induction n with
  | zero =>
    have hfits : ((0 : ℕ) : ℤ) ≤ intMax := by decide
    exact ⟨S.system, S.world, rfl, allTallied_start fun _ => S.freshServer,
      fun _ _ _ => hfits⟩
  | succ n ih =>
    obtain ⟨hbefore, hlast⟩ := loopMeets_succ.mp hmeets
    obtain ⟨sys, w, hsim, hall, -⟩ := ih (by omega) hbefore
    have htick : TickMeets (VisitFits S.env n) S.env n sys w := (ensures_of_ok hsim).mp hlast
    obtain ⟨sys', w', hrun⟩ := systemTick_returns hboost hn hsim hall htick
    have hsim' : S.loop (n + 1) = .ok (sys', w') := (Scenario.loop_succ hsim).trans hrun
    have hfits := sumsFit_of_meets hall hsim' hrun htick
    exact ⟨sys', w', hsim', hall.tick hsim' hrun hfits, hfits⟩

/-- Exact means need sums that fit, at every visit. -/
theorem loopMeets_of_exactMeans (hboost : S.BoostModerate) (hn : (n : ℤ) ≤ intMax)
    (hexact : ExactMeans S.env S.system S.world n) :
    LoopMeets (fun t => VisitFits S.env t) S.env S.system S.world n := by
  induction n with
  | zero => exact fun u hu => absurd hu (Nat.not_lt_zero u)
  | succ n ih =>
    have hbefore := ih (by omega) fun m hm => hexact m (hm.trans (Nat.le_succ n))
    obtain ⟨sys, w, hsim, hall, -⟩ := loop_tallies hboost (by omega) hbefore
    refine loopMeets_succ.mpr ⟨hbefore, (ensures_of_ok hsim).mpr ?_⟩
    have hlast := hexact (n + 1) (le_refl _)
    obtain ⟨sys', w', hsim', hmeans⟩ := (returns_iff.mp hlast).returns fun _ _ h => h.elim
    have hrun : systemTick S.env sys n w = .ok (sys', w') :=
      (Scenario.loop_succ hsim).symm.trans hsim'
    exact tickMeets_of_exact (by omega) hall hsim' hrun hmeans

/-- The means are exact, and the assertion on them holds, just as long as every
sum of queue lengths is an `int`. -/
theorem exact_means_iff (S : Scenario) (n : ℕ) (hboost : S.BoostModerate)
    (hn : (n : ℤ) ≤ intMax) :
    ExactMeans S.env S.system S.world n ↔
      LoopMeets (fun t => VisitFits S.env t) S.env S.system S.world n := by
  constructor
  · exact loopMeets_of_exactMeans hboost hn
  · intro hmeets m hm
    obtain ⟨sys, w, hsim, hall, -⟩ := loop_tallies hboost (by omega) (hmeets.mono hm)
    exact (returns_of_ok hsim).mpr (allTallied_exact hall)

theorem exact_means_iff_mixed :
    ExactMeans mixed.env mixed.system mixed.world 10 ↔
      LoopMeets (fun t => VisitFits mixed.env t) mixed.env mixed.system mixed.world 10 :=
  exact_means_iff mixed 10 mixed_ordinary.boost mixed_ordinary.ticks

end Exactness

section Saturation

def arrivals (n : ℕ) : Queue ClientPtr where
  items := (List.range n).reverse.map some ++ [none]
  size := n
  capacity := n + 1

theorem holds_arrivals (n : ℕ) : Holds (arrivals n) (List.range n) :=
  represents_of_items (u := [none]) rfl (by simp [arrivals]) (by simp [arrivals])
    (by simp [arrivals])

/-- One server on which every attempt fails, and `n` clients that arrive one at each
tick from 1 on. -/
def saturated (n : ℕ) : Scenario where
  env := mixed.env
  system :=
    { systemClients := some (arrivals n)
      standardServers := [.standard
        { base := { freshBase 0 with errorProb := 1 }, clientQueue := emptyQueue }]
      roboticServers := [] }
  world := { heap := fun p => newcomer p (p + 1) .noDisability, draws := 0, requests := 0 }
  clients := arrivals n
  systemClients_eq := rfl
  allocations _ := rfl
  clients_valid := (holds_arrivals n).1
  clients_nodup := by
    rw [(holds_arrivals n).2]
    exact List.nodup_range
  types_valid p _ := newcomer_valid p (p + 1) (by decide)
  nonempty := Or.inl (by simp)
  standard_fresh s hs := by
    obtain rfl := List.mem_singleton.mp hs
    exact ⟨⟨rfl, rfl, rfl, holds_emptyQueue⟩, holds_emptyQueue⟩
  robotic_fresh s hs := absurd hs List.not_mem_nil

variable {n u : ℕ} {sys : System} {w : World}

theorem contents_saturated (n : ℕ) : contents (saturated n).clients = List.range n :=
  (holds_arrivals n).2

theorem saturated_boost (n : ℕ) : (saturated n).BoostModerate :=
  fun _ hs => absurd hs List.not_mem_nil

theorem saturated_scheduled (n : ℕ) : (saturated n).Scheduled := by
  constructor
  · rw [contents_saturated]
    refine List.pairwise_lt_range.imp fun {p q} hpq => ?_
    change ((p : ℤ) + 1) < (q : ℤ) + 1
    omega
  · intro p _
    change (1 : ℤ) ≤ (p : ℤ) + 1
    omega

theorem ordinary_saturated (hticks : (u : ℤ) ≤ intMax)
    (hsim : (saturated n).loop u = .ok (sys, w)) :
    (saturated n).Ordinary u :=
  Scenario.ordinary_of_isOk (saturated_boost n) hticks (by rw [hsim]; rfl)

theorem saturated_server (hticks : (u : ℤ) ≤ intMax) (hsim : (saturated n).loop u = .ok (sys, w)) :
    ∃ s st, (servers sys)[0]? = some s ∧ ((saturated n).run u).stations = [st] ∧
      Represents Moderate (saturated n).world.heap s.2 st := by
  have hrefines := (ordinary_saturated hticks hsim).refines
  rw [Scenario.systemAt, Scenario.stateAt_of_loop hsim] at hrefines
  have hone : ((saturated n).run u).stations.length = 1 := by
    rw [Scenario.run, Network.length_run]
    rfl
  obtain ⟨st, hst⟩ := List.length_eq_one_iff.mp hone
  obtain ⟨s, hs, hrep⟩ := exists_server hrefines (i := 0) (by rw [hst]; rfl)
  exact ⟨s, st, hs, hst, hrep⟩

/-- All clients that have arrived wait, but for one. -/
theorem le_lengthAt_saturated (hu : u ≤ n) (hticks : ((u + 1 : ℕ) : ℤ) ≤ intMax)
    (hsim : (saturated n).loop (u + 1) = .ok (sys, w)) :
    u ≤ lengthAt (saturated n).env (saturated n).system (saturated n).world 0 u + 1 := by
  have hord := ordinary_saturated hticks hsim
  obtain ⟨s, st, hs, hst, hrep⟩ := saturated_server hticks hsim
  -- the server has all clients whose arrival is past
  have hheld : List.range u ⊆ st.jobs := by
    intro p hp
    have hp' := List.mem_range.mp hp
    obtain ⟨i, st', hst', hjob⟩ := hord.held_of_arrival (saturated_scheduled n) (p := p)
      (by rw [contents_saturated]; exact List.mem_range.mpr (by omega))
      (show ((p : ℤ) + 1) < ((u + 1 : ℕ) : ℤ) by push_cast; omega)
    have hmem : st' ∈ ((saturated n).run (u + 1)).stations := List.mem_of_getElem? hst'
    rw [hst, List.mem_singleton] at hmem
    exact hmem ▸ hjob
  have hle := (List.subperm_of_subset List.nodup_range hheld).length_le
  rw [List.length_range, ← (serverPlaces_perm hrep).length_eq, length_serverPlaces hrep] at hle
  have hfinished : queueSize s.2.base.finishedClientsQueue = 0 := by
    have hprob : ∀ s ∈ servers (saturated n).system, s.2.base.errorProb = 1 := by
      intro s hs
      obtain rfl := List.mem_singleton.mp hs
      rfl
    have hnone := noSuccess (show (saturated n).env.outcomes = .drawn from rfl) hprob (u + 1)
      (u + 1) (le_refl _) sys w hsim
    have hat := congrArg (fun l => l[0]?) hnone
    simp only [List.getElem?_map, hs, Option.map_some] at hat
    have hnil : finishedClients s.2 = [] := congrArg Prod.snd (Option.some.inj hat)
    rw [hrep.finished.size, ← finishedClients_eq hrep, hnil, List.length_nil]
  rw [hfinished] at hle
  rw [lengthAt_eq hsim hs]
  split at hle <;> omega

def saturatedSum (n m : ℕ) : ℕ :=
  lengthSum (saturated n).env (saturated n).system (saturated n).world 0 m

theorem saturatedSum_succ {m : ℕ} (hm : m ≤ n) (hticks : ((m + 1 : ℕ) : ℤ) ≤ intMax)
    (hsim : ∃ sys w, (saturated n).loop (m + 1) = .ok (sys, w)) :
    saturatedSum n m + m ≤ saturatedSum n (m + 1) + 1 := by
  obtain ⟨sys, w, hloop⟩ := hsim
  have hlength := le_lengthAt_saturated hm hticks hloop
  rw [saturatedSum, saturatedSum, lengthSum_succ]
  omega

/-- The sum of the lengths grows with the square of the time. -/
theorem le_saturatedSum {m : ℕ} (hm : m ≤ n) (hticks : (m : ℤ) ≤ intMax)
    (hsim : ∀ u < m, ∃ sys w, (saturated n).loop (u + 1) = .ok (sys, w)) :
    m * m ≤ 2 * saturatedSum n m + 3 * m := by
  induction m with
  | zero => simp
  | succ m ih =>
    have hbefore := ih (by omega) (by omega) fun u hu => hsim u (hu.trans (Nat.lt_succ_self m))
    have hgrows := saturatedSum_succ (by omega) hticks (hsim m (Nat.lt_succ_self m))
    calc (m + 1) * (m + 1) = m * m + 2 * m + 1 := by ring
      _ ≤ 2 * saturatedSum n m + 3 * m + 2 * m + 1 := by omega
      _ ≤ 2 * saturatedSum n (m + 1) + 3 * (m + 1) := by omega

/-- The saturated run of 70000 ticks has means that are wrong, or fails the assertion. -/
theorem means_not_exact :
    (saturated 70000).BoostModerate ∧ (saturated 70000).Scheduled ∧
      ¬ ExactMeans (saturated 70000).env (saturated 70000).system (saturated 70000).world
        70000 := by
  refine ⟨saturated_boost 70000, saturated_scheduled 70000, fun hexact => ?_⟩
  have hticks : ((70000 : ℕ) : ℤ) ≤ intMax := by decide
  have hmeets := loopMeets_of_exactMeans (saturated_boost 70000) hticks hexact
  obtain ⟨sys, w, hsim, -, hfits⟩ := loop_tallies (saturated_boost 70000) hticks hmeets
  have hgrows := le_saturatedSum (n := 70000) (le_refl _) hticks fun u hu => by
    obtain ⟨sys', w', hrun, -⟩ := (returns_iff.mp (hexact (u + 1) hu)).returns fun _ _ h => h.elim
    exact ⟨sys', w', hrun⟩
  obtain ⟨s, -, hs, -⟩ := saturated_server hticks hsim
  have hle : (saturatedSum 70000 70000 : ℤ) ≤ intMax := hfits 0 s hs
  unfold intMax at hle
  omega

end Saturation

end AcaBSim.QueueLengths
