import AcaBSim.Aggregation

/-!
What `compute_stats` adds up over any clients at all. It stops for nothing but
a counter, and if it does not, the sums are exact for the clients it meets.
-/
namespace AcaBSim.Totals

open Machine ArrayQueue Clients Servers Systems Outcome ServerStations Simulation Scenarios
  QueueIterators Means Aggregation

variable {env : Env} {heap : Heap} {w : World}

/-- The counters have grown by the clients of `l`. -/
structure Grown (l : List Client) (before after : Counters) : Prop where
  totalQueueLen : after.totalQueueLen = before.totalQueueLen
  total : after.all.total = before.all.total + l.length
  waitTime : after.all.waitTime = before.all.waitTime + (waits l).sum

theorem Grown.trans {l l' : List Client} {c₁ c₂ c₃ : Counters} (h : Grown l c₁ c₂)
    (h' : Grown l' c₂ c₃) : Grown (l ++ l') c₁ c₃ where
  totalQueueLen := h'.totalQueueLen.trans h.totalQueueLen
  total := by
    rw [h'.total, h.total, List.length_append]
    push_cast
    ring
  waitTime := by
    rw [h'.waitTime, h.waitTime, waits_append, List.sum_append, add_assoc]

theorem computeClientStats_adds (c : Client) (totals : Totals) :
    Ensures (fun e => e = .intOverflow) (liftM (computeClientStats c totals) : Prog Totals) w
      fun after w' => after = ⟨totals.total + 1, totals.waitTime + c.serviceStat.waitTime,
        totals.serviceTime + c.serviceStat.totalTime⟩ ∧ w' = w := by
  simp only [computeClientStats, ensures_lift_bind]
  exact ensures_checkInt rfl fun _ => ensures_checkInt rfl fun _ => ensures_checkInt rfl
    fun _ => ⟨rfl, rfl⟩

/-- The client is added to its own totals, if it is of one of the types, and to all. -/
theorem addClient_adds (before : Counters) (c : Client) :
    Ensures (fun e => e = .intOverflow) (liftM (before.addClient c) : Prog Counters) w
      fun after w' => Grown [c] before after ∧ w' = w := by
  have hall : ∀ typed : Counters, typed.totalQueueLen = before.totalQueueLen →
      typed.all = before.all → Ensures (fun e => e = .intOverflow)
        (liftM (computeClientStats c typed.all) : Prog Totals) w fun all w' =>
          Grown [c] before { typed with all := all } ∧ w' = w := by
    intro typed hlen hsame
    apply (computeClientStats_adds c typed.all).mono
    intro all w' hpost
    obtain ⟨rfl, rfl⟩ := hpost
    rw [hsame]
    exact ⟨⟨hlen, by simp, by simp [waits]⟩, rfl⟩
  have htype : ∀ totals (update : Totals → Counters),
      (∀ t, (update t).totalQueueLen = before.totalQueueLen ∧ (update t).all = before.all) →
      Ensures (fun e => e = .intOverflow) (liftM (computeClientStats c totals) : Prog Totals) w
        fun t w' => Ensures (fun e => e = .intOverflow)
          (liftM (computeClientStats c (update t).all) : Prog Totals) w' fun all w' =>
            Grown [c] before { update t with all := all } ∧ w' = w := by
    intro totals update hkept
    apply (computeClientStats_adds c totals).mono
    intro t w' hpost
    obtain ⟨-, rfl⟩ := hpost
    exact hall (update t) (hkept t).1 (hkept t).2
  unfold Counters.addClient
  cases c.disabilityType with
  | noDisability =>
    simp only [ensures_lift_bind, ensures_lift_ok]
    exact htype before.nd (fun t => { before with nd := t }) fun _ => ⟨rfl, rfl⟩
  | type1 =>
    simp only [ensures_lift_bind, ensures_lift_ok]
    exact htype before.t1 (fun t => { before with t1 := t }) fun _ => ⟨rfl, rfl⟩
  | type2 =>
    simp only [ensures_lift_bind, ensures_lift_ok]
    exact htype before.t2 (fun t => { before with t2 := t }) fun _ => ⟨rfl, rfl⟩
  | type3 =>
    simp only [ensures_lift_bind, ensures_lift_ok]
    exact htype before.t3 (fun t => { before with t3 := t }) fun _ => ⟨rfl, rfl⟩
  | other raw =>
    simp only [ensures_lift_bind, ensures_lift_ok]
    exact hall before rfl rfl

/-- The iterator loop adds what the iterator delivers, by induction on that. -/
theorem countFinished_adds {iterator : Option (QueueIterator ClientPtr)} {ptrs : List ClientPtr}
    (hiteration : Iteration iterator (ptrs.map some)) {fuel : ℕ} (hfuel : ptrs.length ≤ fuel)
    (before : Counters) :
    Ensures (fun e => e = .intOverflow)
      (liftM (countFinished heap fuel iterator before) : Prog Counters) w
      fun after w' => Grown (ptrs.map heap) before after ∧ w' = w := by
  induction ptrs generalizing iterator fuel before with
  | nil =>
    have hstop : countFinished heap fuel iterator before = .ok before := by
      cases hiteration with
      | done hend => cases fuel <;> simp [countFinished, hend]
    rw [hstop]
    exact ⟨⟨rfl, by simp, by simp [waits]⟩, rfl⟩
  | cons p ptrs ih =>
    obtain ⟨fuel, rfl⟩ := Nat.exists_eq_add_of_le' (Nat.one_le_of_lt (Nat.lt_of_lt_of_le
      (Nat.zero_lt_succ _) hfuel))
    rw [List.map_cons] at hiteration
    cases hiteration with
    | next hmore hitem hrest =>
      simp only [countFinished, hmore, if_true, hitem, ensures_lift_bind, ensures_lift_ok]
      apply (addClient_adds before (heap p)).mono
      intro between w₁ hpost
      obtain ⟨hfirst, rfl⟩ := hpost
      apply (ih hrest (Nat.le_of_succ_le_succ hfuel) between).mono
      intro after w₂ hpost
      obtain ⟨hlater, rfl⟩ := hpost
      exact ⟨hfirst.trans hlater, rfl⟩

/-- The loop over finished queues in good order. -/
theorem countServers_adds {bs : List BaseServer} (before : Counters)
    (hvalid : ∀ b ∈ bs, b.finishedClientsQueue.Valid) (hfits : before.totalQueueLen ≤ intMax) :
    Ensures (fun e => e = .intOverflow) (countServers env bs before) w fun after _ =>
      Grown (counted env w.heap w.requests bs)
        { before with totalQueueLen := before.totalQueueLen + totalLength bs } after ∧
      after.totalQueueLen ≤ intMax := by
  induction bs generalizing before w with
  | nil => exact ⟨⟨by simp, by simp [counted], by simp [counted, waits]⟩, hfits⟩
  | cons b rest ih =>
    obtain ⟨hfirst, hrest⟩ := List.forall_mem_cons.mp hvalid
    have hiteration := iteration_counted hfirst (env.granted w.requests)
    have hfuel := length_delivered hfirst (env.granted w.requests)
    simp only [countServers, ensures_bind]
    refine ensures_checkInt rfl fun hrange => ?_
    simp only [ensures_nextGranted, ensures_get]
    apply (countFinished_adds hiteration hfuel _).mono
    intro between w₁ hpost
    obtain ⟨hb, rfl⟩ := hpost
    have hbetween : between.totalQueueLen ≤ intMax := hb.totalQueueLen.trans_le hrange.2
    apply (ih between hrest hbetween).mono
    intro after w₂ hpost
    obtain ⟨hlater, hafter⟩ := hpost
    rw [map_delivered] at hb
    refine ⟨⟨?_, ?_, ?_⟩, hafter⟩
    · rw [hlater.totalQueueLen, hb.totalQueueLen, totalLength_cons, add_assoc]
    · rw [hlater.total, hb.total, counted, List.length_append, Nat.cast_add, add_assoc]
    · rw [hlater.waitTime, hb.waitTime, counted, waits_append, List.sum_append, add_assoc]

/-- The two means over all clients that `compute_stats` reports. -/
theorem computeStats_means {sys : System} (stat : SimStat)
    (hvalid : ∀ b ∈ bases sys, b.finishedClientsQueue.Valid) :
    Ensures (fun e => e = .intOverflow) (computeStats env sys stat) w fun stat' _ =>
      totalLength (bases sys) ≤ intMax ∧
      stat'.meanQueueSize = (if (bases sys).length > 0 then
        wrapInt ((totalLength (bases sys) % 2 ^ 64) / (bases sys).length) else 0) ∧
      stat'.meanWaitTime = truncatedMean (waits (counted env w.heap w.requests (bases sys))) := by
  rw [computeStats, ensures_bind]
  have hzero : Counters.zero.totalQueueLen ≤ intMax := by decide
  apply (countServers_adds .zero hvalid hzero).mono
  intro after w' hpost
  obtain ⟨hgrown, hfits⟩ := hpost
  have hlen : after.totalQueueLen = totalLength (bases sys) :=
    hgrown.totalQueueLen.trans (zero_add _)
  have htotal : after.all.total = (counted env w.heap w.requests (bases sys)).length :=
    hgrown.total.trans (zero_add _)
  have hwait : after.all.waitTime = (waits (counted env w.heap w.requests (bases sys))).sum :=
    hgrown.waitTime.trans (zero_add _)
  refine ⟨hlen ▸ hfits, ?_, ?_⟩
  · dsimp only
    rw [hlen]
    rfl
  · dsimp only
    rw [htotal, hwait]
    exact meanOrZero_tally _ _

/-- A call that stops early stops for a counter, and one that returns has run all
ticks of the loop and then `compute_stats`. -/
theorem simulate_follows (S : Scenario) (hboost : S.BoostModerate)
    (hne : S.system.standardServers ≠ []) {time : ℤ} (htime : time ≤ intMax) (before : SimStat) :
    Ensures Fault.CounterOverflow (simulate S.env (some S.system) time (some before)) S.world
      fun r w' => ∃ w₁, S.loop time.toNat = .ok (r.1, w₁) ∧
        computeStats S.env r.1 (before.withTotalClients S.clients) w₁ = .ok (r.2, w') := by
  have hticks := toNat_le_intMax htime
  have hexcuses : Excuses Fault.CounterOverflow := ⟨Or.inr rfl, Or.inl rfl⟩
  rw [S.simulate_eq hne, ensures_bind]
  refine ((S.loop_follows hboost hticks hexcuses).and (ensures_any fun _ _ hrun => hrun)).mono
    fun final w₁ hpost => ?_
  obtain ⟨⟨hrefines, -⟩, hrun⟩ := hpost
  rw [ensures_bind]
  refine (((computeStats_means _ (bases_valid hrefines)).weaken fun e he => Or.inl he).and
    (ensures_any fun _ _ hstats => hstats)).mono fun after w' hpost => ?_
  exact ⟨w₁, hrun, hpost.2⟩

end AcaBSim.Totals
