import AcaBSim.ClientGenerator
import Mathlib.Tactic.FieldSimp
import Mathlib.Tactic.Linarith

/-!
What `clients_init` generates, as a function of the `rand ()` stream alone: the
draw at which each pass of its loop begins, the value of `next` there and the
record of its client. The loop fills the queue with the clients of its passes,
in their order.
-/
namespace AcaBSim.GeneratedClients

open Machine ArrayQueue Clients Outcome ClientGenerator

/-- The exact value of `unifrom_sample` for a draw. -/
def uniformValue (r : Rand) (a b : ℤ) : ℤ := a + truncate (unitDraw r * ((b - a + 1 : ℤ) : ℚ))

/-- A sample leaves `[a, b]` for the last value of `rand ()` only, and then by one. -/
theorem le_uniformValue (r : Rand) {a b : ℤ} (hab : a ≤ b) :
    a ≤ uniformValue r a b ∧ uniformValue r a b ≤ b + 1 ∧
      (uniformValue r a b ≤ b ↔ r.val ≠ randMax) := by
  have hwidth : 0 < b - a + 1 := by omega
  have hwidth' : (0 : ℚ) < ((b - a + 1 : ℤ) : ℚ) := by exact_mod_cast hwidth
  have hlow : 0 ≤ truncate (unitDraw r * ((b - a + 1 : ℤ) : ℚ)) :=
    truncate_nonneg (mul_nonneg (unitDraw_nonneg r) hwidth'.le)
  have hhigh : ¬ b - a + 1 + 1 ≤ truncate (unitDraw r * ((b - a + 1 : ℤ) : ℚ)) := by
    rw [le_truncate (by omega), not_le]
    push_cast at hwidth' ⊢
    have hle := mul_le_mul_of_nonneg_right (unitDraw_le_one r) hwidth'.le
    linarith
  have htop : b - a + 1 ≤ truncate (unitDraw r * ((b - a + 1 : ℤ) : ℚ)) ↔ r.val = randMax := by
    rw [le_truncate hwidth, le_mul_iff_one_le_left hwidth', one_le_unitDraw]
  unfold uniformValue
  refine ⟨by omega, by omega, ?_⟩
  rw [ne_eq, ← htop]
  omega

theorem ensures_unifromSample {tol : Fault → Prop} {env : Env} {w : World} {a b : ℤ}
    {Q : ℤ → World → Prop} (hab : a ≤ b) (ha : intMin ≤ a) (hb : b < intMax)
    (hwidth : b - a < intMax) :
    Ensures tol (unifromSample env a b) w Q ↔
      Q (uniformValue (env.rand w.draws) a b) { w with draws := w.draws + 1 } := by
  obtain ⟨hlow, hhigh, -⟩ := le_uniformValue (env.rand w.draws) hab
  have hmin : intMin ≤ 0 := by decide
  unfold uniformValue at hlow hhigh ⊢
  simp only [unifromSample, ensures_bind, ensures_nextRand, ensures_lift_ok,
    checkInt_ok (show intMin ≤ b - a ∧ b - a ≤ intMax by omega),
    checkInt_ok (show intMin ≤ b - a + 1 ∧ b - a + 1 ≤ intMax by omega),
    checkInt_ok (show intMin ≤ truncate (unitDraw (env.rand w.draws) * ((b - a + 1 : ℤ) : ℚ)) ∧
      truncate (unitDraw (env.rand w.draws) * ((b - a + 1 : ℤ) : ℚ)) ≤ intMax by omega),
    checkInt_ok (show intMin ≤ a + truncate (unitDraw (env.rand w.draws) *
      ((b - a + 1 : ℤ) : ℚ)) ∧ a + truncate (unitDraw (env.rand w.draws) *
      ((b - a + 1 : ℤ) : ℚ)) ≤ intMax by omega)]

section Schedule

variable (env : Env) (params : Parameters) (k : ℕ)

/-- The first draw of the `m`-th pass, the loop beginning with draw `k`. -/
def passDraw : ℕ → ℕ
  | 0 => k
  | m + 1 =>
    if unitDraw (env.rand (passDraw m + 1)) < params.disabilityProb then passDraw m + 4
    else passDraw m + 3

/-- The `m`-th pass samples a disability. -/
def Disabled (m : ℕ) : Prop :=
  unitDraw (env.rand (passDraw env params k m + 1)) < params.disabilityProb

instance (m : ℕ) : Decidable (Disabled env params k m) := inferInstanceAs (Decidable (_ < _))

/-- The draw that decides which disability. -/
def disabilityDraw (m : ℕ) : Rand := env.rand (passDraw env params k m + 2)

/-- The value of `next` before the `m`-th pass. -/
def nextBefore : ℕ → ℤ
  | 0 => 0
  | m + 1 => nextBefore m + env.exponential (env.rand (passDraw env params k m))

/-- The arrival time that the `m`-th pass computes. -/
def arrivalOf (m : ℕ) : ℤ := nextBefore env params k (m + 1)

/-- No pass before the `m`-th leaves the loop. -/
def Begins (m : ℕ) : Prop := ∀ j, j < m → arrivalOf env params k j < params.finishTime

def typeOf (m : ℕ) : Option DisabilityType :=
  if Disabled env params k m then
    disabilityTypeOf (uniformValue (disabilityDraw env params k m) 0 (disabilityTypeSize - 2))
  else some .noDisability

def destinationOf (m : ℕ) : Destination :=
  if unitDraw (env.rand (passDraw env params k (m + 1) - 1)) < params.destinationProb then .dest2
  else .dest1

/-- The record of the `m`-th client, in memory that held `c`. -/
def recordOf (m : ℕ) (c : Client) : Client where
  id := m
  serviceStat :=
    { ClientServiceStat.zero with
      totalTime := c.serviceStat.totalTime
      arrivalTime := arrivalOf env params k m }
  disabilityType := (typeOf env params k m).getD c.disabilityType
  destination := destinationOf env params k m

/-- The pass can be made: memory is served and its counters fit into `int`. -/
structure Passable (m : ℕ) : Prop where
  granted : env.AllocationsSucceed
  next : intMin ≤ arrivalOf env params k m ∧ arrivalOf env params k m ≤ intMax
  id : arrivalOf env params k m < params.finishTime → (m + 1 : ℤ) ≤ intMax

end Schedule

section Passes

variable {env : Env} {params : Parameters} {k m : ℕ} {tol : Fault → Prop} {w : World}

theorem passDraw_succ_of_disabled (h : Disabled env params k m) :
    passDraw env params k (m + 1) = passDraw env params k m + 4 := if_pos h

theorem passDraw_succ_of_not_disabled (h : ¬ Disabled env params k m) :
    passDraw env params k (m + 1) = passDraw env params k m + 3 := if_neg h

theorem Begins.mono {b : ℕ} (h : Begins env params k b) (hm : m ≤ b) : Begins env params k m :=
  fun j hj => h j (by omega)

theorem begins_succ : Begins env params k (m + 1) ↔
    Begins env params k m ∧ arrivalOf env params k m < params.finishTime := by
  refine ⟨fun h => ⟨h.mono (Nat.le_succ m), h m (Nat.lt_succ_self m)⟩, fun h j hj => ?_⟩
  rcases Nat.lt_succ_iff_lt_or_eq.mp hj with hj | rfl
  · exact h.1 j hj
  · exact h.2

/-- The branch on the first draw after that of the gap. -/
theorem ensures_chooseDisability {Q : Option DisabilityType → World → Prop}
    (hdraws : w.draws = passDraw env params k m + 1) :
    Ensures tol (chooseDisability env params.disabilityProb) w Q ↔
      Q (typeOf env params k m) { w with draws := passDraw env params k (m + 1) - 1 } := by
  have hcond : unitDraw (env.rand w.draws) < params.disabilityProb ↔ Disabled env params k m := by
    rw [hdraws]
    exact Iff.rfl
  simp only [chooseDisability, ensures_bind, ensures_nextRand]
  by_cases hdisabled : Disabled env params k m
  · rw [if_pos (hcond.mpr hdisabled), passDraw_succ_of_disabled hdisabled, typeOf,
      if_pos hdisabled]
    simp only [ensures_bind]
    rw [ensures_unifromSample (by decide) (by decide) (by decide) (by decide)]
    simp only [hdraws, disabilityDraw, ensures_pure]
    exact Iff.rfl
  · rw [if_neg (fun h => hdisabled (hcond.mp h)), passDraw_succ_of_not_disabled hdisabled, typeOf,
      if_neg hdisabled]
    simp only [hdraws, ensures_pure]
    exact Iff.rfl

theorem ensures_chooseDestination {Q : Destination → World → Prop}
    (hdraws : w.draws = passDraw env params k (m + 1) - 1) :
    Ensures tol (chooseDestination env params.destinationProb) w Q ↔
      Q (destinationOf env params k m) { w with draws := passDraw env params k (m + 1) } := by
  have hnext : w.draws + 1 = passDraw env params k (m + 1) := by
    by_cases hdisabled : Disabled env params k m
    · rw [passDraw_succ_of_disabled hdisabled] at hdraws ⊢
      omega
    · rw [passDraw_succ_of_not_disabled hdisabled] at hdraws ⊢
      omega
  rw [destinationOf, ← hdraws, ← hnext]
  simp only [chooseDestination, ensures_bind, ensures_nextRand]
  by_cases hdest : unitDraw (env.rand w.draws) < params.destinationProb
  · simp only [if_pos hdest, ensures_pure]
  · simp only [if_neg hdest, ensures_pure]

/-- `client_new` uses the memory of its request, unless that was refused. -/
theorem ensures_clientNew {Q : ClientPtr → World → Prop}
    (hrefused : env.granted w.requests = false → tol .nullDereference)
    (h : Q w.requests { w with
      requests := w.requests + 1
      heap := Function.update w.heap w.requests
        { w.heap w.requests with
          serviceStat := { ClientServiceStat.zero with
            totalTime := (w.heap w.requests).serviceStat.totalTime } } }) :
    Ensures tol (clientNew env) w Q := by
  simp only [clientNew, ensures_bind, ensures_get, ensures_nextGranted]
  cases hgranted : env.granted w.requests with
  | false => exact hrefused hgranted
  | true => exact h

end Passes

/-- The queue holds clients of passes before the `b`-th, in the order of these:
all of them if memory is always served. -/
structure Filled (env : Env) (params : Parameters) (w₀ : World) (b : ℕ) (q : Queue ClientPtr)
    (w : World) : Prop where
  valid : q.Valid
  made : ∃ l : List (ClientPtr × ℕ), contents q = l.map Prod.fst ∧
    (l.map Prod.snd).Sublist (List.range b) ∧
    (env.AllocationsSucceed → l.map Prod.snd = List.range b) ∧
    ∀ x ∈ l, w.heap x.1 = recordOf env params w₀.draws x.2 (w₀.heap x.1)
  ordered : (contents q).Pairwise (· < ·)
  allocated : ∀ p ∈ contents q, p < w.requests

/-- What holds after at most `n` passes, of which `b` have made a client. -/
structure Generated (env : Env) (params : Parameters) (w₀ : World) (n b : ℕ) (g : Generator)
    (w : World) : Prop where
  le : b ≤ n
  begins : Begins env params w₀.draws b
  in_range : (b : ℤ) ≤ intMax
  arrivals : ∀ j, j < b → intMin ≤ arrivalOf env params w₀.draws j ∧
    arrivalOf env params w₀.draws j ≤ intMax
  fresh : ∀ p, w.requests ≤ p → w.heap p = w₀.heap p
  filled : ∀ q ∈ g.clients, Filled env params w₀ b q w
  queue : env.AllocationsSucceed → g.clients.isSome = true
  running : g.broke = false → b = n ∧ w.draws = passDraw env params w₀.draws b ∧
    g.next = nextBefore env params w₀.draws b ∧ g.id = b
  stopped : g.broke = true → params.finishTime ≤ arrivalOf env params w₀.draws b

section Loop

variable {env : Env} {params : Parameters} {w₀ w : World} {n b : ℕ} {g : Generator}
  {tol : Fault → Prop}

theorem Filled.frame {q : Queue ClientPtr} {w' : World} (h : Filled env params w₀ b q w)
    (hheap : w'.heap = w.heap) (hrequests : w.requests ≤ w'.requests) :
    Filled env params w₀ b q w' where
  valid := h.valid
  made := by
    rw [hheap]
    exact h.made
  ordered := h.ordered
  allocated p hp := (h.allocated p hp).trans_le hrequests

theorem Filled.size_lt {q : Queue ClientPtr} (h : Filled env params w₀ b q w)
    (hb : ((b + 1 : ℕ) : ℤ) ≤ intMax) : q.size < 2 ^ 31 := by
  obtain ⟨l, hcontents, hsub, -, -⟩ := h.made
  have hle := hsub.length_le
  have hlen : l.length = (contents q).length := by rw [hcontents, List.length_map]
  rw [List.length_map, List.length_range, hlen, h.valid.length_contents] at hle
  unfold intMax at hb
  omega

section Push

variable {q : Queue ClientPtr} {w₁ : World} (h : Filled env params w₀ b q w₁)
  (hheap : ∀ p, p < w₁.requests → w.heap p = w₁.heap p) (hrequests : w₁.requests < w.requests)

include h hheap

/-- The records of the earlier clients are as they were. -/
theorem Filled.kept {l : List (ClientPtr × ℕ)} (hcontents : contents q = l.map Prod.fst)
    (hmade : ∀ x ∈ l, w₁.heap x.1 = recordOf env params w₀.draws x.2 (w₀.heap x.1)) :
    ∀ x ∈ l, w.heap x.1 = recordOf env params w₀.draws x.2 (w₀.heap x.1) := by
  intro x hx
  rw [hheap x.1 (h.allocated x.1 (hcontents ▸ List.mem_map_of_mem hx))]
  exact hmade x hx

include hrequests

/-- The queue with the `b`-th client at its back. -/
theorem Filled.push {q' : Queue ClientPtr} (hvalid : q'.Valid)
    (hcontents' : contents q' = contents q ++ [w₁.requests])
    (hrecord : w.heap w₁.requests = recordOf env params w₀.draws b (w₀.heap w₁.requests)) :
    Filled env params w₀ (b + 1) q' w := by
  obtain ⟨l, hcontents, hsub, hall, hmade⟩ := h.made
  refine ⟨hvalid, ⟨l ++ [(w₁.requests, b)], ?_, ?_, ?_, ?_⟩, ?_, ?_⟩
  · simp [hcontents', hcontents]
  · rw [List.map_append, List.range_succ]
    exact hsub.append_right _
  · intro hgranted
    rw [List.map_append, List.range_succ, hall hgranted]
    rfl
  · intro x hx
    rcases List.mem_append.mp hx with hx | hx
    · exact h.kept hheap hcontents hmade x hx
    · obtain rfl := List.mem_singleton.mp hx
      exact hrecord
  · rw [hcontents', List.pairwise_append]
    refine ⟨h.ordered, List.pairwise_singleton _ _, fun r hr r' hr' => ?_⟩
    obtain rfl := List.mem_singleton.mp hr'
    exact h.allocated r hr
  · intro r hr
    rw [hcontents', List.mem_append, List.mem_singleton] at hr
    rcases hr with hr | rfl
    · exact (h.allocated r hr).trans hrequests
    · exact hrequests

/-- The same queue when the push of the `b`-th client was refused. -/
theorem Filled.skip (hrefused : ¬ env.AllocationsSucceed) :
    Filled env params w₀ (b + 1) q w := by
  obtain ⟨l, hcontents, hsub, -, hmade⟩ := h.made
  refine ⟨h.valid, ⟨l, hcontents, ?_, fun hgranted => absurd hgranted hrefused,
    h.kept hheap hcontents hmade⟩, h.ordered, fun r hr => (h.allocated r hr).trans hrequests⟩
  rw [List.range_succ]
  exact hsub.trans (List.sublist_append_left _ _)

end Push

/-- The push of the `b`-th client, whatever becomes of its memory request. -/
theorem pushClient_filled {clients : Option (Queue ClientPtr)} {w₁ : World}
    (hfilled : ∀ q ∈ clients, Filled env params w₀ b q w₁)
    (hsome : env.AllocationsSucceed → clients.isSome = true) (hb : ((b + 1 : ℕ) : ℤ) ≤ intMax)
    (hheap : ∀ p, p < w₁.requests → w.heap p = w₁.heap p) (hrequests : w₁.requests < w.requests)
    (hrecord : w.heap w₁.requests =
      recordOf env params w₀.draws b (w₀.heap w₁.requests)) :
    Ensures tol (pushClient env clients w₁.requests) w fun clients' w' =>
      (∀ q ∈ clients', Filled env params w₀ (b + 1) q w') ∧
        (env.AllocationsSucceed → clients'.isSome = true) ∧ w'.heap = w.heap ∧
        w'.draws = w.draws ∧ w.requests ≤ w'.requests := by
  cases clients with
  | none => exact ⟨by simp, hsome, rfl, rfl, le_refl _⟩
  | some q =>
    have hq := hfilled q rfl
    simp only [pushClient, ensures_bind, ensures_nextGranted]
    rcases queuePush_cases hq.valid (hq.size_lt hb) (env.granted w.requests) w₁.requests with
      ⟨q', hpush, hvalid', hcontents'⟩ | ⟨hpush, -, hfalse⟩
    · rw [hpush, ensures_lift_ok]
      refine ⟨fun r hr => ?_, fun _ => rfl, rfl, rfl, Nat.le_succ _⟩
      obtain rfl := Option.some.inj hr
      exact (hq.push hheap hrequests hvalid' hcontents' hrecord).frame rfl (Nat.le_succ _)
    · rw [hpush, ensures_lift_ok]
      refine ⟨fun r hr => ?_, fun _ => rfl, rfl, rfl, Nat.le_succ _⟩
      obtain rfl := Option.some.inj hr
      refine (hq.skip hheap hrequests fun hgranted => ?_).frame rfl (Nat.le_succ _)
      rw [hgranted w.requests] at hfalse
      cases hfalse

/-- The pass that draws an arrival past the finish time leaves the loop. -/
theorem Generated.leave (h : Generated env params w₀ n b g w)
    (hbreak : params.finishTime ≤ arrivalOf env params w₀.draws b) (next : ℤ) (draws : ℕ) :
    Generated env params w₀ (n + 1) b { g with next := next, broke := true }
      { w with draws := draws } where
  le := h.le.trans (Nat.le_succ n)
  begins := h.begins
  in_range := h.in_range
  arrivals := h.arrivals
  fresh := h.fresh
  filled q hq := (h.filled q hq).frame rfl (le_refl _)
  queue := h.queue
  running hfalse := by cases hfalse
  stopped _ := hbreak

/-- Any other pass makes the `b`-th client in the memory of its first request. -/
theorem Generated.make (h : Generated env params w₀ n b g w)
    (hlt : arrivalOf env params w₀.draws b < params.finishTime)
    (hrange : intMin ≤ arrivalOf env params w₀.draws b ∧
      arrivalOf env params w₀.draws b ≤ intMax)
    (hb : ((b + 1 : ℕ) : ℤ) ≤ intMax) {clients : Option (Queue ClientPtr)} {w' : World}
    (hfilled : ∀ q ∈ clients, Filled env params w₀ (b + 1) q w')
    (hqueue : env.AllocationsSucceed → clients.isSome = true)
    (hheap : ∀ p, w.requests < p → w'.heap p = w.heap p) (hrequests : w.requests < w'.requests)
    (hdraws : w'.draws = passDraw env params w₀.draws (b + 1)) :
    Generated env params w₀ (b + 1) (b + 1)
      { clients := clients, id := (b + 1 : ℕ), next := arrivalOf env params w₀.draws b,
        broke := false } w' where
  le := le_refl _
  begins := begins_succ.mpr ⟨h.begins, hlt⟩
  in_range := hb
  arrivals j hj := by
    rcases Nat.lt_succ_iff_lt_or_eq.mp hj with hj | rfl
    · exact h.arrivals j hj
    · exact hrange
  fresh p hp := by
    have hlt' : w.requests < p := hrequests.trans_le hp
    rw [hheap p hlt', h.fresh p hlt'.le]
  filled := hfilled
  queue := hqueue
  running _ := ⟨rfl, hdraws, rfl, rfl⟩
  stopped hfalse := by cases hfalse

/-- One pass of the loop makes the `b`-th client, or leaves the loop. -/
theorem generateClient_generated (htol : ∀ e, ¬ Passable env params w₀.draws b → tol e)
    (h : Generated env params w₀ n b g w) (hrunning : g.broke = false) :
    Ensures tol (generateClient env params g) w fun g' w' =>
      ∃ b', Generated env params w₀ (n + 1) b' g' w' := by
  obtain ⟨rfl, hdraws, hnext, hid⟩ := h.running hrunning
  have harrival : g.next + env.exponential (env.rand w.draws) =
      arrivalOf env params w₀.draws b := by
    rw [hnext, hdraws]
    rfl
  simp only [generateClient, exponentialSample, ensures_bind, ensures_nextRand, ensures_pure,
    harrival]
  apply ensures_checkInt_of_range (fun hrange => htol _ fun hpass => hrange hpass.next)
  intro hrange
  split
  · rename_i hbreak
    rw [ensures_pure]
    exact ⟨b, h.leave hbreak _ _⟩
  · rename_i hcontinue
    have hlt : arrivalOf env params w₀.draws b < params.finishTime := not_le.mp hcontinue
    rw [ensures_bind]
    refine ensures_clientNew (fun hrefused => htol _ fun hpass => ?_) ?_
    · have hserved := hpass.granted w.requests
      simp only at hrefused
      rw [hrefused] at hserved
      cases hserved
    simp only [ensures_bind]
    refine ensures_checkInt_of_range ?_ ?_
    · rw [hid]
      refine fun hover => htol _ fun hpass => hover ⟨?_, hpass.id hlt⟩
      exact (show intMin ≤ 0 by decide).trans (by omega)
    intro hcount
    rw [ensures_chooseDisability (k := w₀.draws) (m := b) (by simp only [hdraws]),
      ensures_chooseDestination (k := w₀.draws) (m := b) rfl]
    simp only [ensures_readClient, ensures_writeClient, Function.update_self,
      Function.update_idem]
    have hfresh := h.fresh w.requests (le_refl _)
    have hb : ((b + 1 : ℕ) : ℤ) ≤ intMax := by
      rw [hid] at hcount
      exact_mod_cast hcount.2
    refine (pushClient_filled h.filled h.queue hb ?_ (Nat.lt_succ_self _) ?_).mono ?_
    · exact fun p hp => Function.update_of_ne (Nat.ne_of_lt hp) _ _
    · simp only [Function.update_self, recordOf, hid, hfresh]
    intro clients' w' hpost
    obtain ⟨hfilled, hsome, hheap, hdraws', hrequests⟩ := hpost
    dsimp only at hheap hdraws' hrequests
    have hcounted : g.id + 1 = ((b + 1 : ℕ) : ℤ) := by
      rw [hid]
      push_cast
      rfl
    rw [ensures_pure, hcounted]
    refine ⟨b + 1, h.make hlt hrange hb hfilled hsome ?_
      (lt_of_lt_of_le (Nat.lt_succ_self _) hrequests) hdraws'⟩
    intro p hp
    rw [hheap, Function.update_of_ne (Nat.ne_of_gt hp)]

theorem generatorLoop_generated (htol : ∀ m, m < n → Begins env params w₀.draws m →
      ∀ e, ¬ Passable env params w₀.draws m → tol e)
    (h : Generated env params w₀ 0 0 g w) :
    Ensures tol (generatorLoop env params g n) w fun g' w' =>
      ∃ b, Generated env params w₀ n b g' w' := by
  induction n with
  | zero => exact ⟨0, h⟩
  | succ n ih =>
    simp only [generatorLoop, ensures_bind]
    apply (ih fun m hm => htol m (by omega)).mono
    intro g' w' hpost
    obtain ⟨b, hgenerated⟩ := hpost
    cases hbroke : g'.broke with
    | true =>
      refine ⟨b, ⟨hgenerated.le.trans (Nat.le_succ n), hgenerated.begins, hgenerated.in_range,
        hgenerated.arrivals, hgenerated.fresh, hgenerated.filled, hgenerated.queue,
        fun hfalse => ?_,
        hgenerated.stopped⟩⟩
      rw [hbroke] at hfalse
      cases hfalse
    | false =>
      obtain ⟨rfl, -⟩ := hgenerated.running hbroke
      exact generateClient_generated (htol b (Nat.lt_succ_self b) hgenerated.begins) hgenerated
        hbroke

/-- Whatever stops a run of `clients_init` early is a pass that is not passable;
a run of `n` passes that is not stopped has generated its first clients. -/
theorem clientsInit_generated (htol : ∀ m, m < n → Begins env params w₀.draws m →
      ∀ e, ¬ Passable env params w₀.draws m → tol e) :
    Ensures tol (clientsInit env params n) w₀ fun g w =>
      ∃ b, Generated env params w₀ n b g w := by
  simp only [clientsInit, ensures_bind, ensures_nextGranted]
  refine generatorLoop_generated htol ⟨le_refl 0, fun j hj => absurd hj (Nat.not_lt_zero j),
    by decide, fun j hj => absurd hj (Nat.not_lt_zero j), fun _ _ => rfl, ?_, ?_,
    fun _ => ⟨rfl, rfl, rfl, rfl⟩, fun hfalse => ?_⟩
  · intro q hq
    obtain ⟨hvalid, hempty⟩ := valid_of_queueInit (by decide) hq
    exact ⟨hvalid, ⟨[], by simp [hempty], by simp, by simp, by simp⟩, by simp [hempty],
      by simp [hempty]⟩
  · intro hgranted
    rw [hgranted, hgranted]
    rfl
  · cases hfalse

end Loop

end AcaBSim.GeneratedClients
