import AcaBSim.QueueLengths
import AcaBSim.Totals
import Mathlib.Data.Nat.Cast.Order.Field

/-!
The reports of stat.c over a batch of runs. Every counter of the runs is summed
up and divided by their number, so a report is the cut off mean of cut off
means, and what it has lost does not grow with the servers, ticks or runs. The
means of waiting times are over the clients that `compute_stats` has counted.
-/
namespace AcaBSim.Reports

open Machine ArrayQueue Clients Servers Systems Outcome Scenarios Sweeps Visits VisitEffects
  Means Aggregation Totals QueueLengths

/-- The counters of a `sim_stat_t`, in the order in which stat.c goes through them. -/
def counterFields : List (SimStat → ℤ) :=
  [SimStat.totalClients, SimStat.meanQueueSize, SimStat.meanWaitTime, SimStat.meanServeTime,
    SimStat.ndMeanWaitTime, SimStat.ndMeanServeTime, SimStat.t1MeanWaitTime,
    SimStat.t1MeanServeTime, SimStat.t2MeanWaitTime, SimStat.t2MeanServeTime,
    SimStat.t3MeanWaitTime, SimStat.t3MeanServeTime]

/-- One assignment for every counter. -/
def assignCounters (value : (SimStat → ℤ) → Except Fault ℤ) : Except Fault SimStat := do
  let totalClients ← value SimStat.totalClients
  let meanQueueSize ← value SimStat.meanQueueSize
  let meanWaitTime ← value SimStat.meanWaitTime
  let meanServeTime ← value SimStat.meanServeTime
  let ndMeanWaitTime ← value SimStat.ndMeanWaitTime
  let ndMeanServeTime ← value SimStat.ndMeanServeTime
  let t1MeanWaitTime ← value SimStat.t1MeanWaitTime
  let t1MeanServeTime ← value SimStat.t1MeanServeTime
  let t2MeanWaitTime ← value SimStat.t2MeanWaitTime
  let t2MeanServeTime ← value SimStat.t2MeanServeTime
  let t3MeanWaitTime ← value SimStat.t3MeanWaitTime
  let t3MeanServeTime ← value SimStat.t3MeanServeTime
  .ok ⟨totalClients, meanQueueSize, meanWaitTime, meanServeTime, ndMeanWaitTime, ndMeanServeTime,
    t1MeanWaitTime, t1MeanServeTime, t2MeanWaitTime, t2MeanServeTime, t3MeanWaitTime,
    t3MeanServeTime⟩

/-- `x / n` on `int`s; there is no value for `n = 0`. -/
def divideInt (x n : ℤ) : Except Fault ℤ :=
  if n = 0 then .error .intOverflow else checkInt (x.tdiv n)

def updateTotalStats (totalStats stats : SimStat) : Except Fault SimStat :=
  assignCounters fun counter => checkInt (counter totalStats + counter stats)

def finalizeStat (totalStats : SimStat) (testCount : ℤ) : Except Fault SimStat :=
  assignCounters fun counter => divideInt (counter totalStats) testCount

/-- `main` after the runs: the sums from zero on, and the division by their number. -/
def averageResults (stats : List SimStat) : Except Fault SimStat := do
  let totalStats ← stats.foldlM updateTotalStats noStat
  finalizeStat totalStats stats.length

section Counters

variable {value : (SimStat → ℤ) → Except Fault ℤ} {stats : List SimStat} {total : SimStat}
  {x n : ℤ} {w : World}

/-- All assignments are made, or one that has no value ends them. -/
theorem assignCounters_values (hvalue : ∀ counter e, value counter = .error e → e = .intOverflow) :
    Ensures (fun e => e = .intOverflow) (liftM (assignCounters value) : Prog SimStat) w
      fun report _ => ∀ counter ∈ counterFields, value counter = .ok (counter report) := by
  have hnext : ∀ {counter : SimStat → ℤ} {Q : ℤ → World → Prop},
      (∀ x, value counter = .ok x → Q x w) →
      Ensures (fun e => e = .intOverflow) (liftM (value counter) : Prog ℤ) w Q := by
    intro counter Q hQ
    cases hx : value counter with
    | ok x => exact hQ x hx
    | error e => exact hvalue counter e hx
  simp only [assignCounters, ensures_lift_bind, ensures_lift_ok]
  refine hnext fun x₁ h₁ => hnext fun x₂ h₂ => hnext fun x₃ h₃ => hnext fun x₄ h₄ =>
    hnext fun x₅ h₅ => hnext fun x₆ h₆ => hnext fun x₇ h₇ => hnext fun x₈ h₈ =>
    hnext fun x₉ h₉ => hnext fun x₁₀ h₁₀ => hnext fun x₁₁ h₁₁ => hnext fun x₁₂ h₁₂ => ?_
  simp [counterFields, h₁, h₂, h₃, h₄, h₅, h₆, h₇, h₈, h₉, h₁₀, h₁₁, h₁₂]

theorem updateTotalStats_adds (totalStats stats : SimStat) :
    Ensures (fun e => e = .intOverflow)
      (liftM (updateTotalStats totalStats stats) : Prog SimStat) w fun after _ =>
        ∀ counter ∈ counterFields, counter after = counter totalStats + counter stats :=
  (assignCounters_values fun _ _ => checkInt_error).mono fun _ _ hvalues counter hcounter =>
    eq_of_checkInt (hvalues counter hcounter)

theorem finalizeStat_divides (totalStats : SimStat) (hn : n ≠ 0) :
    Ensures (fun e => e = .intOverflow) (liftM (finalizeStat totalStats n) : Prog SimStat) w
      fun report _ => ∀ counter ∈ counterFields,
        counter report = (counter totalStats).tdiv n := by
  have hdivide : ∀ x, divideInt x n = checkInt (x.tdiv n) := fun x => if_neg hn
  refine (assignCounters_values fun counter e he => ?_).mono fun _ _ hvalues counter hcounter => ?_
  · rw [hdivide] at he
    exact checkInt_error he
  · have hvalue := hvalues counter hcounter
    rw [hdivide] at hvalue
    exact eq_of_checkInt hvalue

/-- The sums over the batch, by induction on it. -/
theorem foldlM_updateTotalStats (stats : List SimStat) (total : SimStat) :
    Ensures (fun e => e = .intOverflow)
      (liftM (stats.foldlM updateTotalStats total) : Prog SimStat) w fun after _ =>
        ∀ counter ∈ counterFields, counter after = counter total + (stats.map counter).sum := by
  induction stats generalizing total w with
  | nil =>
    intro counter _
    simp
  | cons first rest ih =>
    simp only [List.foldlM_cons, ensures_lift_bind]
    apply (updateTotalStats_adds total first).mono
    intro between w₁ hbetween
    apply (ih between).mono
    intro after w₂ hafter counter hcounter
    rw [hafter counter hcounter, hbetween counter hcounter, List.map_cons, List.sum_cons, add_assoc]

/-- Every counter of the report is the cut off mean over the runs. -/
theorem averageResults_means (hne : stats ≠ []) :
    Ensures (fun e => e = .intOverflow) (liftM (averageResults stats) : Prog SimStat) w
      fun report _ => ∀ counter ∈ counterFields,
        counter report = truncatedMean (stats.map counter) := by
  have hpos : 0 < stats.length := List.length_pos_iff.mpr hne
  simp only [averageResults, ensures_lift_bind]
  apply (foldlM_updateTotalStats stats noStat).mono
  intro total w₁ htotal
  have hn : (stats.length : ℤ) ≠ 0 := by exact_mod_cast hpos.ne'
  apply (finalizeStat_divides total hn).mono
  intro report w₂ hreport counter hcounter
  have hzero : counter noStat = 0 := by
    revert counter
    decide
  rw [hreport counter hcounter, htotal counter hcounter, hzero, zero_add, truncatedMean,
    List.length_map, if_pos hpos]

end Counters

/-- A run whose statistics go into a report: the loop from fresh servers on, and
`compute_stats` on what it has reached. The sums of its queue lengths are `int`s. -/
structure TestRun where
  env : Env
  system : System
  world : World
  ticks : ℕ
  before : SimStat
  final : System
  reached : World
  stat : SimStat
  after : World
  fresh : ∀ s ∈ servers system, FreshServer s.2
  nonempty : servers system ≠ []
  ticks_pos : 1 ≤ ticks
  ticks_le : (ticks : ℤ) ≤ intMax
  loop_eq : simulateLoop env system ticks world = .ok (final, reached)
  stats_eq : computeStats env final before reached = .ok (stat, after)
  lengths_fit : ∀ i < (servers system).length, (lengthSum env system world i ticks : ℤ) ≤ intMax
  waits_nonneg : ∀ t ∈ waits (finished reached.heap final), 0 ≤ t

namespace TestRun

/-- The exact mean length of the waiting queues, over the ticks and the servers. -/
def queueAverage (r : TestRun) : ℚ :=
  average ((List.range (servers r.system).length).map fun i =>
    (lengthSum r.env r.system r.world i r.ticks : ℚ) / r.ticks)

/-- The exact mean waiting time of the clients that are finished when the run ends. -/
def waitAverage (r : TestRun) : ℚ :=
  average ((waits (finished r.reached.heap r.final)).map fun t : ℤ => (t : ℚ))

/-- `compute_stats` gets an iterator for every finished queue that holds a client. -/
def Served (r : TestRun) : Prop := IteratorsServed r.env r.reached.requests (bases r.final)

end TestRun

/-- The reported mean queue size is not above the exact one, and less than 3 below. -/
def QueuesPrecise (runs : List TestRun) (report : SimStat) : Prop :=
  (report.meanQueueSize : ℚ) ≤ average (runs.map TestRun.queueAverage) ∧
    average (runs.map TestRun.queueAverage) < report.meanQueueSize + 3

def WaitsPrecise (runs : List TestRun) (report : SimStat) : Prop :=
  (report.meanWaitTime : ℚ) ≤ average (runs.map TestRun.waitAverage) ∧
    average (runs.map TestRun.waitAverage) < report.meanWaitTime + 2

section FinishedQueues

variable {k : ServerType} {env : Env} {s s' : Server k} {sys : System} {w w' : World} {m n : ℕ}

/-- A finished queue in good order, of at most `n` clients. -/
def FinishedWithin (n : ℕ) (b : BaseServer) : Prop :=
  b.finishedClientsQueue.Valid ∧ b.finishedClientsQueue.size ≤ n

theorem FinishedWithin.serves (h : FinishedWithin n (book s)) (hn : n < 2 ^ 31)
    (hserves : Serves env s w s' w') : FinishedWithin (n + 1) (book s') := by
  obtain ⟨hvalid, hsize⟩ := h
  cases hserves with
  | nothing hbook =>
    rw [hbook]
    exact ⟨hvalid, hsize.trans (Nat.le_succ n)⟩
  | success p pushed q hdone hpush hattempt hbook =>
    rw [hbook]
    rcases queuePush_cases hvalid (hsize.trans_lt hn) (env.granted w.requests) p with
      ⟨q', hpush', hvalid', hcontents⟩ | ⟨hpush', -, -⟩
    · cases hpush.symm.trans hpush'
      refine ⟨hvalid', ?_⟩
      rw [← hvalid'.length_contents, hcontents, List.length_append, hvalid.length_contents]
      exact Nat.succ_le_succ hsize
    · cases hpush.symm.trans hpush'
      exact ⟨hvalid, hsize.trans (Nat.le_succ n)⟩
  | failure p hdone hattempt hbook =>
    rw [hbook]
    exact ⟨hvalid, hsize.trans (Nat.le_succ n)⟩

/-- In every run from fresh servers on, at most one client a tick is finished. -/
theorem simulateLoop_finishedWithin (hfresh : ∀ s ∈ servers sys, FreshServer s.2)
    (hn : (n : ℤ) ≤ intMax) :
    Ensures (fun _ => True) (simulateLoop env sys n) w fun sys' _ =>
      ∀ b ∈ books sys', FinishedWithin n b := by
  refine simulateLoop_keeps_books (V := fun _ _ _ => True) (P := FinishedWithin) (fun b hb => ?_)
    (fun m k s w hm _ => ?_) (loopMeets_of_forall (fun _ _ _ => trivial) sys n)
  · obtain ⟨s, hs, rfl⟩ := List.mem_map.mp hb
    have hfinished := (hfresh s hs).base.finished
    exact ⟨hfinished.1, hfinished.size.le⟩
  · apply visit_effects.mono
    intro s' w' hpost hwithin
    obtain ⟨s₁, hserves, hbook⟩ := hpost
    rw [hbook]
    unfold intMax at hn
    exact hwithin.serves (by omega) hserves

end FinishedQueues

namespace TestRun

variable (r : TestRun)

theorem bases_final_valid : ∀ b ∈ bases r.final, b.finishedClientsQueue.Valid := by
  have hkept := (ensures_of_ok r.loop_eq).mp (simulateLoop_finishedWithin r.fresh r.ticks_le)
  intro b hb
  rw [bases_eq] at hb
  obtain ⟨s, hs, rfl⟩ := List.mem_map.mp hb
  exact (hkept (book s.2) (List.mem_map_of_mem hs)).1

/-- The mean length of the `i`-th server, cut off, as `server_update_stat` leaves it. -/
def meanLength (i : ℕ) : ℤ := (lengthSum r.env r.system r.world i r.ticks / r.ticks : ℕ)

theorem meanLengths_eq :
    ((bases r.final).map fun b => b.stat.meanServerQueueLen) =
      (List.range (servers r.system).length).map r.meanLength := by
  obtain ⟨hall, hlength⟩ := allTallied_of_sums (allTallied_start r.fresh) r.loop_eq r.lengths_fit
  rw [bases_eq, List.map_map]
  refine List.ext_getElem (by simp [hlength]) fun i hi hi' => ?_
  rw [List.getElem_map, List.getElem_map, List.getElem_range]
  exact allTallied_exact hall i _ (List.getElem?_eq_getElem _)

theorem meanLength_nonneg (i : ℕ) : 0 ≤ r.meanLength i := Int.natCast_nonneg _

/-- The means of `compute_stats` are cut off means of what the servers have. -/
theorem stat_means :
    r.stat.meanQueueSize =
      truncatedMean ((List.range (servers r.system).length).map r.meanLength) ∧
    r.stat.meanWaitTime = truncatedMean
      (waits (counted r.env r.reached.heap r.reached.requests (bases r.final))) := by
  obtain ⟨hfits, hqueue, hwait⟩ := (ensures_of_ok r.stats_eq).mp
    (computeStats_means r.before r.bases_final_valid)
  refine ⟨?_, hwait⟩
  have hlength : (bases r.final).length = (servers r.system).length := by
    have hlengths := congrArg List.length r.meanLengths_eq
    simpa using hlengths
  have hnonneg : 0 ≤ totalLength (bases r.final) := by
    rw [totalLength, r.meanLengths_eq]
    exact List.sum_nonneg (List.forall_mem_map.mpr fun i _ => r.meanLength_nonneg i)
  have hpos : 0 < (servers r.system).length := List.length_pos_iff.mpr r.nonempty
  have hle : totalLength (bases r.final) / (servers r.system).length ≤
      totalLength (bases r.final) :=
    Int.ediv_le_self _ hnonneg
  have hrange : 0 ≤ totalLength (bases r.final) / (servers r.system).length :=
    Int.ediv_nonneg hnonneg (Int.natCast_nonneg _)
  have hsmall : totalLength (bases r.final) < 2 ^ 64 := by
    unfold intMax at hfits
    omega
  rw [hqueue, hlength, if_pos hpos, Int.emod_eq_of_lt hnonneg hsmall,
    wrapInt_of_range (le_trans (by decide) hrange) (hle.trans hfits), truncatedMean,
    List.length_map, List.length_range, if_pos hpos, ← r.meanLengths_eq,
    ← Int.tdiv_eq_ediv_of_nonneg hnonneg]
  rfl

/-- Two divisions, of every sum by the ticks and of their total by the servers. -/
theorem meanQueueSize_close :
    (r.stat.meanQueueSize : ℚ) ≤ r.queueAverage ∧ r.queueAverage < r.stat.meanQueueSize + 2 := by
  have hticks : (0 : ℚ) < r.ticks := by exact_mod_cast r.ticks_pos
  have hclose := truncatedMean_close (c := 1) zero_le_one
    (l := List.range (servers r.system).length) (a := r.meanLength)
    (x := fun i => (lengthSum r.env r.system r.world i r.ticks : ℚ) / r.ticks)
    (fun i _ => r.meanLength_nonneg i) (fun i _ => ?_) (fun i _ => ?_)
  · rw [r.stat_means.1]
    refine ⟨hclose.1, hclose.2.trans_eq ?_⟩
    norm_num
  · exact_mod_cast Nat.cast_div_le
  · rw [div_le_iff₀ hticks]
    have hlt := Nat.lt_mul_div_succ (lengthSum r.env r.system r.world i r.ticks) r.ticks_pos
    rw [meanLength, Int.cast_natCast, mul_comm]
    exact_mod_cast hlt.le

theorem meanQueueSize_nonneg : 0 ≤ r.stat.meanQueueSize := by
  rw [r.stat_means.1]
  exact truncatedMean_nonneg (List.forall_mem_map.mpr fun i _ => r.meanLength_nonneg i)

theorem meanWaitTime_nonneg : 0 ≤ r.stat.meanWaitTime := by
  rw [r.stat_means.2]
  refine truncatedMean_nonneg (List.forall_mem_map.mpr fun c hc => ?_)
  refine List.forall_mem_map.mp r.waits_nonneg c ?_
  exact (counted_subperm r.env r.reached.heap r.reached.requests (bases r.final)).subset hc

/-- One division, by the number of clients, if all of them have been counted. -/
theorem meanWaitTime_close (h : r.Served) :
    (r.stat.meanWaitTime : ℚ) ≤ r.waitAverage ∧ r.waitAverage < r.stat.meanWaitTime + 1 := by
  have hclose := truncatedMean_close (c := 0) le_rfl
    (l := waits (finished r.reached.heap r.final)) (a := id) (x := fun t : ℤ => (t : ℚ))
    r.waits_nonneg (fun _ _ => le_rfl) (fun _ _ => (add_zero _).ge)
  rw [List.map_id, zero_add] at hclose
  have hcounted : (waits (counted r.env r.reached.heap r.reached.requests (bases r.final))).Perm
      (waits (finished r.reached.heap r.final)) := (counted_perm h).map _
  rw [r.stat_means.2, truncatedMean_perm hcounted]
  exact hclose

end TestRun

section Batches

variable {runs : List TestRun} {report : SimStat}

/-- One more division, by the number of runs. -/
theorem report_close {counter : SimStat → ℤ} {exact : TestRun → ℚ} {c : ℚ} (hc : 0 ≤ c)
    (hmean : counter report = truncatedMean ((runs.map TestRun.stat).map counter))
    (hnonneg : ∀ r : TestRun, 0 ≤ counter r.stat)
    (hclose : ∀ r ∈ runs, (counter r.stat : ℚ) ≤ exact r ∧ exact r < counter r.stat + c) :
    (counter report : ℚ) ≤ average (runs.map exact) ∧
      average (runs.map exact) < counter report + (c + 1) := by
  rw [hmean, List.map_map]
  exact truncatedMean_close hc (fun r _ => hnonneg r) (fun r hr => (hclose r hr).1)
    fun r hr => (hclose r hr).2.le

/-- Reports never overstate. What they lose is bounded whatever the number of
servers, ticks and runs, if no finished client has been left out. -/
theorem reports_precise (runs : List TestRun) (hne : runs ≠ [])
    (hfits : ∀ e, averageResults (runs.map TestRun.stat) = .error e → e ≠ .intOverflow) :
    ∃ report, averageResults (runs.map TestRun.stat) = .ok report ∧ QueuesPrecise runs report ∧
      ((∀ r ∈ runs, r.Served) → WaitsPrecise runs report) := by
  obtain ⟨r, -⟩ := List.exists_mem_of_ne_nil runs hne
  have hmeans := averageResults_means (w := r.world)
    (show runs.map TestRun.stat ≠ [] by simpa using hne)
  cases hrun : averageResults (runs.map TestRun.stat) with
  | error e =>
    rw [hrun, ensures_lift_error] at hmeans
    exact absurd hmeans (hfits e hrun)
  | ok report =>
    rw [hrun, ensures_lift_ok] at hmeans
    refine ⟨report, rfl, ?_, fun hserved => ?_⟩
    · have hmean := hmeans SimStat.meanQueueSize (by simp [counterFields])
      have hclose := report_close zero_le_two hmean TestRun.meanQueueSize_nonneg
        fun r _ => r.meanQueueSize_close
      exact ⟨hclose.1, hclose.2.trans_eq (by norm_num)⟩
    · have hmean := hmeans SimStat.meanWaitTime (by simp [counterFields])
      have hclose := report_close zero_le_one hmean TestRun.meanWaitTime_nonneg
        fun r hr => r.meanWaitTime_close (hserved r hr)
      exact ⟨hclose.1, hclose.2.trans_eq (by norm_num)⟩

end Batches

section Pair

/-- The first `n` requests for memory are served; every draw is 5. -/
def pairEnv (n : ℕ) : Env := { mixed.env with granted := fun k => k < n }

/-- One standard server on which no attempt fails, and two clients for it. -/
def pairSystem : System where
  systemClients := some (arrivals 2)
  standardServers := [.standard { base := freshBase 0, clientQueue := emptyQueue }]
  roboticServers := []

def pairWorld : World where
  heap p := newcomer p (p + 1) .noDisability
  draws := 0
  requests := 0

def pairState (n : ℕ) : System × World :=
  (simulateLoop (pairEnv n) pairSystem 12 pairWorld).toOption.getD (pairSystem, pairWorld)

def pairStat (n : ℕ) : SimStat × World :=
  (computeStats (pairEnv n) (pairState n).1 noStat (pairState n).2).toOption.getD
    (noStat, pairWorld)

theorem eq_ok_of_isOk {α : Type} {x : Except Fault α} (h : x.isOk = true) (a : α) :
    x = .ok (x.toOption.getD a) := by
  cases x with
  | ok b => rfl
  | error e => cases h

/-- The run of 12 ticks: both clients are finished, and have waited for 1 and 5 ticks. -/
def pairRun (n : ℕ)
    (hloop : (simulateLoop (pairEnv n) pairSystem 12 pairWorld).isOk = true)
    (hstats : (computeStats (pairEnv n) (pairState n).1 noStat (pairState n).2).isOk = true)
    (hlengths : lengthSum (pairEnv n) pairSystem pairWorld 0 12 ≤ 12)
    (hwaits : waits (finished (pairState n).2.heap (pairState n).1) = [1, 5]) : TestRun where
  env := pairEnv n
  system := pairSystem
  world := pairWorld
  ticks := 12
  before := noStat
  final := (pairState n).1
  reached := (pairState n).2
  stat := (pairStat n).1
  after := (pairStat n).2
  fresh s hs := by
    obtain rfl := List.mem_singleton.mp hs
    exact ⟨freshBase_fresh 0, holds_emptyQueue⟩
  nonempty := by simp [servers, pairSystem]
  ticks_pos := by decide
  ticks_le := by decide
  loop_eq := by
    rw [Prod.mk.eta]
    exact eq_ok_of_isOk hloop (pairSystem, pairWorld)
  stats_eq := by
    rw [Prod.mk.eta]
    exact eq_ok_of_isOk hstats (noStat, pairWorld)
  lengths_fit i hi := by
    obtain rfl := Nat.lt_one_iff.mp hi
    exact (Nat.cast_le.mpr hlengths).trans (by decide)
  waits_nonneg t ht := by
    rw [hwaits] at ht
    revert t
    decide

def servedRun : TestRun :=
  pairRun 9 (by decide +kernel) (by decide +kernel) (by decide +kernel) (by decide +kernel)

/-- The last request, for the iterator, is refused. -/
def refusedRun : TestRun :=
  pairRun 8 (by decide +kernel) (by decide +kernel) (by decide +kernel) (by decide +kernel)

theorem servedRun_served : servedRun.Served := by
  intro i b hb _
  have hlength : (bases servedRun.final).length = 1 := by decide +kernel
  have hi := (List.getElem?_eq_some_iff.mp hb).1
  obtain rfl : i = 0 := by omega
  decide +kernel

theorem reports_precise_served :
    ∃ report, averageResults ([servedRun, servedRun].map TestRun.stat) = .ok report ∧
      QueuesPrecise [servedRun, servedRun] report ∧ WaitsPrecise [servedRun, servedRun] report := by
  have hok : (averageResults ([servedRun, servedRun].map TestRun.stat)).isOk = true := by
    decide +kernel
  obtain ⟨report, hrun, hqueues, hwaits⟩ := reports_precise [servedRun, servedRun]
    (List.cons_ne_nil _ _) fun e he => by
      rw [he] at hok
      cases hok
  refine ⟨report, hrun, hqueues, hwaits fun r hr => ?_⟩
  obtain rfl : r = servedRun := by simpa using hr
  exact servedRun_served

/-- A batch of one run reports 0 where the clients have waited for 3 ticks on average. -/
theorem reports_not_precise :
    ∃ report, averageResults ([refusedRun].map TestRun.stat) = .ok report ∧
      report.meanWaitTime = 0 ∧ average ([refusedRun].map TestRun.waitAverage) = 3 ∧
      ¬ WaitsPrecise [refusedRun] report := by
  have hok : (averageResults ([refusedRun].map TestRun.stat)).isOk = true := by decide +kernel
  have hzero : ((averageResults ([refusedRun].map TestRun.stat)).toOption.getD
      noStat).meanWaitTime = 0 := by decide +kernel
  have haverage : average ([refusedRun].map TestRun.waitAverage) = 3 := by
    have hwaits : waits (finished refusedRun.reached.heap refusedRun.final) = [1, 5] := by
      decide +kernel
    rw [List.map_singleton, TestRun.waitAverage, hwaits]
    norm_num [average]
  refine ⟨_, eq_ok_of_isOk hok noStat, hzero, haverage, fun hprecise => ?_⟩
  have hlt := hprecise.2
  rw [haverage, hzero] at hlt
  norm_num at hlt

end Pair

end AcaBSim.Reports
