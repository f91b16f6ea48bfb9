import AcaBSim.ClientFates
import AcaBSim.NetworkCoupling

/-!
Later arrivals cannot affect earlier clients. Two runs of the same servers
whose clients agree up to and including one client treat it alike, if it is
disabled or routed to a standard server: whatever is routed around it, its
station takes nobody who came later before it.
-/
namespace AcaBSim.LaterArrivals

open Machine ArrayQueue Clients Servers Systems Outcome Stations Networks ServerStations
  ServerSteps Routing Simulation Scenarios ClientFates

/-- The clients `ahead` and then `c`. -/
def UpTo (ahead : List ClientPtr) (c p : ClientPtr) : Prop := p ∈ ahead ∨ p = c

/-- The two scenarios differ at most in the clients that come after `c`; whether
an attempt succeeds depends on the client and the number of the attempt. -/
structure SameUpTo (S₁ S₂ : Scenario) (c : ClientPtr) : Prop where
  outcomes : ∃ succeeds, S₁.env.outcomes = .perAttempt succeeds ∧
    S₂.env.outcomes = .perAttempt succeeds
  standard : S₁.system.standardServers = S₂.system.standardServers
  robotic : S₁.system.roboticServers = S₂.system.roboticServers
  clients : ∃ ahead rest₁ rest₂, contents S₁.clients = ahead ++ c :: rest₁ ∧
    contents S₂.clients = ahead ++ c :: rest₂ ∧
    ∀ p, UpTo ahead c p → S₁.world.heap p = S₂.world.heap p

/-- The client is disabled, or if it is routed at all then to a standard server. -/
def Protected (S : Scenario) (n : ℕ) (c : ClientPtr) : Prop :=
  (S.world.heap c).disabilityType ≠ .noDisability ∨
    ∀ i t, t < n → S.AdmittedTo i c t → i < S.system.standardServers.length

/-- The two runs do the same with the client in `n` ticks. -/
structure SameFate (S₁ S₂ : Scenario) (n : ℕ) (c : ClientPtr) : Prop where
  admitted : ∀ i t, t < n → (S₁.AdmittedTo i c t ↔ S₂.AdmittedTo i c t)
  starts : ∀ i t, t < n → (S₁.StartsAt i c t ↔ S₂.StartsAt i c t)
  finishes : ∀ i t, t < n → (S₁.FinishesAt i c t ↔ S₂.FinishesAt i c t)
  record : S₁.heapAt n c = S₂.heapAt n c
  waiting : ∀ i, S₁.WaitingAt i c n ↔ S₂.WaitingAt i c n
  served : ∀ i, S₁.ServedAt i c n ↔ S₂.ServedAt i c n
  finished : ∀ i, S₁.FinishedAt i c n ↔ S₂.FinishedAt i c n

section Routes

variable {known : ClientPtr → Prop} {d : DisabilityType} {l₁ l₂ : List (Station ClientPtr)}

/-- Twins carry the same load. -/
theorem map_stationLoad_eq (h : Network.AllTwin known l₁ l₂) (k : ServerType) :
    l₁.map (stationLoad d k) = l₂.map (stationLoad d k) := by
  apply List.ext_getElem (by simp [h.1])
  intro i h₁ h₂
  rw [List.length_map] at h₁ h₂
  have htwin := h.2 i _ _ (List.getElem?_eq_getElem h₁) (List.getElem?_eq_getElem h₂)
  rw [List.getElem_map, List.getElem_map]
  cases k with
  | standard => simp only [stationLoad, htwin.regular]
  | robotic => simp only [stationLoad, htwin.regular, htwin.express]

theorem routeIndex_eq (h : Network.AllTwin known l₁ l₂) (m : ℕ) :
    routeIndex d m l₁ = routeIndex d m l₂ := by
  simp only [routeIndex, List.map_take, List.map_drop, map_stationLoad_eq h]

end Routes

section Start

variable {S₁ S₂ : Scenario} {c : ClientPtr} {ahead rest₁ rest₂ : List ClientPtr}

/-- The policies of the two scenarios agree on the clients up to `c`. -/
theorem alike_policies (h : SameUpTo S₁ S₂ c) {known : ClientPtr → Prop}
    (hsame : ∀ p, known p → S₁.world.heap p = S₂.world.heap p) :
    Network.Alike known S₁.policy S₂.policy where
  arrival p hp := by
    change (S₁.world.heap p).serviceStat.arrivalTime = (S₂.world.heap p).serviceStat.arrivalTime
    rw [hsame p hp]
  route p l₁ l₂ hp htwin := by
    simp only [Scenario.policy, Routing.policy, hsame p hp, h.standard, routeIndex_eq htwin,
      htwin.1]
  succeeds k₁ k₂ p₁ p₂ a _ := by
    obtain ⟨succeeds, h₁, h₂⟩ := h.outcomes
    change attemptSucceeds S₁.env k₁ p₁ a = attemptSucceeds S₂.env k₂ p₂ a
    simp only [attemptSucceeds, h₁, h₂]

/-- Before the first tick the two networks are together. -/
theorem together_start (h : SameUpTo S₁ S₂ c) (h₁ : contents S₁.clients = ahead ++ c :: rest₁)
    (h₂ : contents S₂.clients = ahead ++ c :: rest₂)
    (hsame : ∀ p, UpTo ahead c p → S₁.world.heap p = S₂.world.heap p) :
    Network.Together (UpTo ahead c) c ahead S₁.network S₂.network where
  door₁ := ⟨rest₁, h₁⟩
  door₂ := ⟨rest₂, h₂⟩
  ahead_known p hp := Or.inl hp
  stations := by
    have hagree : ∀ {k : ServerType} (s : Server k), Agree (UpTo ahead c)
        (profileOf S₁.world.heap s) (profileOf S₂.world.heap s) := by
      intro k s
      refine ⟨fun p hp => ?_, fun p hp => ?_, rfl⟩
      · simp only [profileOf, hsame p hp]
      · simp only [profileOf, hsame p hp]
    have hservers : ∀ {k : ServerType} (l : List (Server k)),
        List.Forall₂ (Agree (UpTo ahead c)) (l.map (profileOf S₁.world.heap))
          (l.map (profileOf S₂.world.heap)) := by
      intro k l
      rw [List.forall₂_map_left_iff, List.forall₂_map_right_iff, List.forall₂_same]
      exact fun s _ => hagree s
    simp only [Scenario.network, Network.start, h.standard, h.robotic]
    exact Network.allTwin_empty (List.rel_append (hservers _) (hservers _))

end Start

section Fates

variable {S₁ S₂ S : Scenario} {c : ClientPtr} {n i r t : ℕ}

/-- Nothing happens to a client at a server that does not hold it in the end. -/
theorem nothing_elsewhere (h : S.Ordinary n) (hout : ¬ Network.Held S.policy S.network i c n) :
    (∀ t, t < n → ¬ S.AdmittedTo i c t ∧ ¬ S.StartsAt i c t ∧ ¬ S.FinishesAt i c t) ∧
      ¬ S.WaitingAt i c n ∧ ¬ S.ServedAt i c n ∧ ¬ S.FinishedAt i c n := by
  refine ⟨fun t ht => ⟨?_, ?_, ?_⟩, ?_, ?_, ?_⟩
  · exact fun hadmitted => hout (h.held_of_admitted ht hadmitted)
  · exact fun hstart => hout (held_of_starts h ht hstart)
  · exact fun hend => hout (held_of_finishes h ht hend)
  · exact fun hp => hout (h.heldAt_iff.mp (Or.inl hp))
  · exact fun hp => hout (h.heldAt_iff.mp (Or.inr (Or.inl hp)))
  · exact fun hp => hout (h.heldAt_iff.mp (Or.inr (Or.inr hp)))

/-- A client at the door of both systems, with the same record. -/
theorem sameFate_of_atDoor (h₁ : S₁.Ordinary n) (h₂ : S₂.Ordinary n)
    (hdoor₁ : Network.AtDoor S₁.policy S₁.network c n)
    (hdoor₂ : Network.AtDoor S₂.policy S₂.network c n)
    (hsame : S₁.world.heap c = S₂.world.heap c) : SameFate S₁ S₂ n c := by
  have hout₁ := fun i => nothing_elsewhere h₁ (S₁.fresh.not_held_of_atDoor (i := i) hdoor₁)
  have hout₂ := fun i => nothing_elsewhere h₂ (S₂.fresh.not_held_of_atDoor (i := i) hdoor₂)
  refine ⟨fun i t ht => ?_, fun i t ht => ?_, fun i t ht => ?_, ?_, fun i => ?_, fun i => ?_,
    fun i => ?_⟩
  · exact iff_of_false ((hout₁ i).1 t ht).1 ((hout₂ i).1 t ht).1
  · exact iff_of_false ((hout₁ i).1 t ht).2.1 ((hout₂ i).1 t ht).2.1
  · exact iff_of_false ((hout₁ i).1 t ht).2.2 ((hout₂ i).1 t ht).2.2
  · rw [Scenario.heapAt, Scenario.heapAt, h₁.refines.atDoor c hdoor₁, h₂.refines.atDoor c hdoor₂,
      hsame]
  · exact iff_of_false (hout₁ i).2.1 (hout₂ i).2.1
  · exact iff_of_false (hout₁ i).2.2.1 (hout₂ i).2.2.1
  · exact iff_of_false (hout₁ i).2.2.2 (hout₂ i).2.2.2

/-- Two families that hold at one index only agree if they agree there. -/
theorem iff_of_only {P₁ P₂ : ℕ → Prop} (hout₁ : ∀ i, i ≠ r → ¬ P₁ i)
    (hout₂ : ∀ i, i ≠ r → ¬ P₂ i) (hr : P₁ r ↔ P₂ r) (i : ℕ) : P₁ i ↔ P₂ i := by
  by_cases hi : i = r
  · rw [hi]
    exact hr
  · exact iff_of_false (hout₁ i hi) (hout₂ i hi)

/-- A client is admitted at its arrival only. -/
theorem admittedTo_iff_of_admitted (h : S.Ordinary n) (ht : t < n) (hadmitted : S.AdmittedTo r c t)
    {u : ℕ} (hu : u < n) : S.AdmittedTo r c u ↔ u = t := by
  have harrival := h.arrival_of_admitted ht hadmitted
  constructor
  · intro hu'
    have heq := h.arrival_of_admitted hu hu'
    omega
  · intro heq
    obtain rfl := heq
    exact hadmitted

/-- The same fate at the same server, to which both have admitted the client. -/
theorem sameFate_of_fate (h₁ : S₁.Ordinary n) (h₂ : S₂.Ordinary n) (ht : t < n)
    (hadmitted₁ : S₁.AdmittedTo r c t) (hadmitted₂ : S₂.AdmittedTo r c t)
    {start finish : Option ℤ} {record : Client} (hfate₁ : Fate S₁ n r c start finish record)
    (hfate₂ : Fate S₂ n r c start finish record) : SameFate S₁ S₂ n c := by
  have hout₁ := fun i (hne : i ≠ r) => nothing_elsewhere h₁ fun hheld =>
    hne (S₁.fresh.held_unique hheld (h₁.held_of_admitted ht hadmitted₁))
  have hout₂ := fun i (hne : i ≠ r) => nothing_elsewhere h₂ fun hheld =>
    hne (S₂.fresh.held_unique hheld (h₂.held_of_admitted ht hadmitted₂))
  refine ⟨fun i u hu => ?_, fun i u hu => ?_, fun i u hu => ?_, ?_, ?_, ?_, ?_⟩
  · refine iff_of_only (fun i hi => ((hout₁ i hi).1 u hu).1) (fun i hi => ((hout₂ i hi).1 u hu).1)
      ?_ i
    rw [admittedTo_iff_of_admitted h₁ ht hadmitted₁ hu,
      admittedTo_iff_of_admitted h₂ ht hadmitted₂ hu]
  · refine iff_of_only (fun i hi => ((hout₁ i hi).1 u hu).2.1)
      (fun i hi => ((hout₂ i hi).1 u hu).2.1) ?_ i
    rw [hfate₁.starts u hu, hfate₂.starts u hu]
  · refine iff_of_only (fun i hi => ((hout₁ i hi).1 u hu).2.2)
      (fun i hi => ((hout₂ i hi).1 u hu).2.2) ?_ i
    rw [hfate₁.finishes u hu, hfate₂.finishes u hu]
  · rw [hfate₁.record_eq, hfate₂.record_eq]
  · apply iff_of_only (fun i hi => (hout₁ i hi).2.1) (fun i hi => (hout₂ i hi).2.1)
    rw [hfate₁.waiting, hfate₂.waiting]
  · apply iff_of_only (fun i hi => (hout₁ i hi).2.2.1) (fun i hi => (hout₂ i hi).2.2.1)
    rw [hfate₁.served, hfate₂.served]
  · apply iff_of_only (fun i hi => (hout₁ i hi).2.2.2) (fun i hi => (hout₂ i hi).2.2.2)
    rw [hfate₁.finished, hfate₂.finished]

/-- No later client overtakes a disabled one, nor anyone at a standard server. -/
theorem firstInLine_of_server (h : S.Ordinary n)
    (hc : (S.world.heap c).disabilityType ≠ .noDisability ∨
      r < S.system.standardServers.length) {st : Station ClientPtr}
    (hst : (S.run n).stations[r]? = some st) : Network.FirstInLine c st := by
  obtain ⟨⟨k, s⟩, hs, hrep⟩ := exists_server h.refines hst
  have hkind : k = _ := h.kind_eq hs
  cases s with
  | standard s =>
    apply Or.inr
    intro p
    rw [hrep.profile]
    rfl
  | robotic s =>
    have hr : ¬ r < S.system.standardServers.length := by
      intro hr
      rw [if_pos hr] at hkind
      cases hkind
    apply Or.inl
    rw [hrep.profile]
    exact decide_eq_true (hc.resolve_right hr)

end Fates

/-- In two runs that agree up to a protected client, it has the same fate. -/
theorem later_arrivals_harmless (S₁ S₂ : Scenario) (c : ClientPtr) (n : ℕ)
    (h : SameUpTo S₁ S₂ c) (h₁ : S₁.Ordinary n) (h₂ : S₂.Ordinary n)
    (hprotected : Protected S₁ n c) :
    S₁.loop n = .ok (S₁.stateAt n) ∧ S₂.loop n = .ok (S₂.stateAt n) ∧ SameFate S₁ S₂ n c := by
  refine ⟨h₁.follows.1, h₂.follows.1, ?_⟩
  obtain ⟨ahead, rest₁, rest₂, hclients₁, hclients₂, hsame⟩ := h.clients
  have hc := hsame c (Or.inr rfl)
  have hknown : UpTo ahead c c := Or.inr rfl
  rcases Network.together_run (n := n) hknown (alike_policies h hsame)
      (fun m hm => (h₁.mono hm).historic) (fun m hm => (h₂.mono hm).historic) S₁.fresh.nonempty
      (together_start h hclients₁ hclients₂ hsame) with
    ⟨ahead', htogether⟩ | ⟨r, t, ht, hdoor₁, hdoor₂, hfirst, hjoined⟩
  · obtain ⟨rest, hdoor₁⟩ := htogether.door₁
    obtain ⟨rest', hdoor₂⟩ := htogether.door₂
    have hmem₁ : c ∈ (S₁.network.run S₁.policy n).door := by simp [hdoor₁]
    have hmem₂ : c ∈ (S₂.network.run S₂.policy n).door := by simp [hdoor₂]
    exact sameFate_of_atDoor h₁ h₂ hmem₁ hmem₂ hc
  · have hadmitted : ∀ {S : Scenario}, S.Ordinary n →
        Network.AtDoor S.policy S.network c t →
        Network.Held S.policy S.network r c (t + 1) → S.AdmittedTo r c t := by
      intro S hS hdoor hheld
      refine (hS.mono ht).admittedTo_iff.mpr ⟨hdoor, fun hstill => ?_, hheld⟩
      exact S.fresh.not_held_of_atDoor hstill hheld
    obtain ⟨s₁, s₂, hs₁, hs₂, hjob₁, hjob₂, -, -⟩ := hfirst
    have hadmitted₁ := hadmitted h₁ hdoor₁ ⟨s₁, hs₁, hjob₁⟩
    have hadmitted₂ := hadmitted h₂ hdoor₂ ⟨s₂, hs₂, hjob₂⟩
    obtain ⟨st₁, st₂, hst₁, hst₂, -, -, hagree, hcoupled⟩ := hjoined
    have hserver₁ := hprotected.imp id fun hstandard => hstandard r t ht hadmitted₁
    have hserver₂ := hserver₁
    rw [hc, h.standard] at hserver₂
    have hfirst₁ := firstInLine_of_server h₁ hserver₁ hst₁
    have hfirst₂ := firstInLine_of_server h₂ hserver₂ hst₂
    rcases hcoupled hfirst₁ hfirst₂ with
      ⟨_, _, _, hline₁, hline₂, -⟩ | ⟨a, ha₁, ha₂, rfl⟩ | ⟨k, hk₁, hk₂, rfl⟩
    · have hfate₁ := fate_of_waiting h₁ hst₁ (show c ∈ st₁.waiting _ by rw [hline₁]; simp)
      have hfate₂ := fate_of_waiting h₂ hst₂ (show c ∈ st₂.waiting _ by rw [hline₂]; simp)
      rw [← hc] at hfate₂
      exact sameFate_of_fate h₁ h₂ ht hadmitted₁ hadmitted₂ hfate₁ hfate₂
    · have hfate₁ := fate_of_current h₁ hst₁ ha₁
      have hfate₂ := fate_of_current h₂ hst₂ ha₂
      rw [← hc] at hfate₂
      exact sameFate_of_fate h₁ h₂ ht hadmitted₁ hadmitted₂ hfate₁ hfate₂
    · have hfate₁ := fate_of_completed h₁ hst₁ hk₁
      have hfate₂ := fate_of_completed h₂ hst₂ hk₂
      rw [← hc] at hfate₂
      exact sameFate_of_fate h₁ h₂ ht hadmitted₁ hadmitted₂ hfate₁ hfate₂

section Small

/-- A disabled client, whose first attempt fails, and then the given one. -/
def followedBy (second : Client) (hsecond : second.Valid) : Scenario :=
  small 3 (newcomer 0 1 .type2) second (.perAttempt fun _ failures => failures == 1) three_pos
    (newcomer_valid 0 1 (by decide)) hsecond

theorem followedBy_boostModerate (second : Client) (hsecond : second.Valid) :
    (followedBy second hsecond).BoostModerate := by
  intro s hs b hb
  obtain rfl := List.mem_singleton.mp hs
  obtain rfl : 3 = b := Option.some.inj hb
  constructor <;> norm_num

theorem later_arrivals_harmless_small :
    (followedBy (newcomer 1 3 .type2) (by decide)).loop 10 =
        .ok ((followedBy (newcomer 1 3 .type2) (by decide)).stateAt 10) ∧
      (followedBy (newcomer 1 2 .noDisability) (by decide)).loop 10 =
        .ok ((followedBy (newcomer 1 2 .noDisability) (by decide)).stateAt 10) ∧
      SameFate (followedBy (newcomer 1 3 .type2) (by decide))
        (followedBy (newcomer 1 2 .noDisability) (by decide)) 10 0 := by
  refine later_arrivals_harmless _ _ 0 10 ⟨⟨_, rfl, rfl⟩, rfl, rfl, [], [1], [1], by decide +kernel,
    by decide +kernel, ?_⟩ ?_ ?_ (Or.inl (by decide))
  · intro p hp
    rcases hp with hp | rfl
    · cases hp
    · rfl
  · exact Scenario.ordinary_of_isOk (followedBy_boostModerate _ _) (by decide) (by decide +kernel)
  · exact Scenario.ordinary_of_isOk (followedBy_boostModerate _ _) (by decide) (by decide +kernel)

end Small

end AcaBSim.LaterArrivals
