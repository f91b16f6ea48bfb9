import AcaBSim.ClientTypes
import AcaBSim.PairedRuns

/-!
Two runs of `clients_init` on one `rand ()` stream whose destination
probabilities differ. They make the same requests and draws and the same
clients up to the destinations. The test sends a draw below the probability to
`DEST_2`, against its comment, so a larger probability drives clients away from
`DEST_1`.
-/
namespace AcaBSim.Destinations

open Machine ArrayQueue Clients Outcome Scenarios ClientGenerator GeneratedClients ClientTypes
  PairedRuns

/-- The parameters with another destination probability. -/
def withDestinationProb (params : Parameters) (prob : ℚ) : Parameters :=
  { params with destinationProb := prob }

def undirected (c : Client) : Client := { c with destination := .dest1 }

/-- The worlds differ in the destinations of clients only. -/
structure Alike (w w' : World) : Prop where
  draws : w'.draws = w.draws
  requests : w'.requests = w.requests
  heap : ∀ p, undirected (w'.heap p) = undirected (w.heap p)

/-- Both runs of `clients_init` make the same clients, up to the destinations. -/
def SameClients (env : Env) (params : Parameters) (prob : ℚ) (w : World) : Prop :=
  ∀ n, Paired (clientsInit env params n) w
    (clientsInit env (withDestinationProb params prob) n) w
    fun g w₁ g' w₁' => g' = g ∧ Alike w₁ w₁'

/-- A client bound for `DEST_1` in the first run is so in the second. -/
def KeepsFirst (env : Env) (params : Parameters) (prob : ℚ) (w : World) : Prop :=
  ∀ n, Paired (clientsInit env params n) w
    (clientsInit env (withDestinationProb params prob) n) w
    fun g w₁ _ w₁' => ∀ q ∈ g.clients, ∀ p ∈ contents q,
      (w₁.heap p).destination = .dest1 → (w₁'.heap p).destination = .dest1

/-- The draw that decides the destination of the client of the `m`-th pass. -/
def destinationDraw (env : Env) (params : Parameters) (k m : ℕ) : Rand :=
  env.rand (passDraw env params k (m + 1) - 1)

/-- No draw for a destination lies between the probabilities. -/
def NoDrawBetween (env : Env) (params : Parameters) (prob : ℚ) (k : ℕ) : Prop :=
  ∀ m, MakesClient env params k m →
    ¬ (params.destinationProb ≤ unitDraw (destinationDraw env params k m) ∧
      unitDraw (destinationDraw env params k m) < prob)

section Coupling

variable {env : Env} {params : Parameters} {prob : ℚ} {w w' : World}

theorem Alike.serviceStat (h : Alike w w') (p : ClientPtr) :
    (w'.heap p).serviceStat = (w.heap p).serviceStat := by
  have hfield := congrArg Client.serviceStat (h.heap p)
  exact hfield

theorem Alike.id_eq (h : Alike w w') (p : ClientPtr) : (w'.heap p).id = (w.heap p).id := by
  have hfield := congrArg Client.id (h.heap p)
  exact hfield

theorem Alike.disabilityType (h : Alike w w') (p : ClientPtr) :
    (w'.heap p).disabilityType = (w.heap p).disabilityType := by
  have hfield := congrArg Client.disabilityType (h.heap p)
  exact hfield

theorem Alike.write (h : Alike w w') (p : ClientPtr) {c c' : Client}
    (hc : undirected c' = undirected c) :
    Alike { w with heap := Function.update w.heap p c }
      { w' with heap := Function.update w'.heap p c' } := by
  refine ⟨h.draws, h.requests, fun q => ?_⟩
  by_cases hq : q = p
  · subst hq
    simpa using hc
  · simpa [Function.update_of_ne hq] using h.heap q

theorem Alike.draw (h : Alike w w') :
    Alike { w with draws := w.draws + 1 } { w' with draws := w'.draws + 1 } :=
  ⟨congrArg (· + 1) h.draws, h.requests, h.heap⟩

theorem Alike.request (h : Alike w w') :
    Alike { w with requests := w.requests + 1 } { w' with requests := w'.requests + 1 } :=
  ⟨h.draws, congrArg (· + 1) h.requests, h.heap⟩

/-- The programs return the same value and leave the worlds alike. -/
def InStep {α : Type} (x y : Prog α) (w w' : World) : Prop :=
  Paired x w y w' fun a w b w' => b = a ∧ Alike w w'

theorem inStep_bind {α β : Type} {x y : Prog α} {f g : α → Prog β}
    {Q : β → World → β → World → Prop}
    (hxy : InStep x y w w')
    (hfg : ∀ a w w', Alike w w' → Paired (f a) w (g a) w' Q) :
    Paired (x >>= f) w (y >>= g) w' Q := by
  apply paired_bind hxy
  intro a w₁ b w₁' hpost
  obtain ⟨rfl, halike⟩ := hpost
  exact hfg b w₁ w₁' halike

theorem inStep_pure {α : Type} (h : Alike w w') (a : α) : InStep (pure a) (pure a) w w' :=
  paired_pure ⟨rfl, h⟩

theorem inStep_lift {α : Type} (h : Alike w w') (v : Except Fault α) :
    InStep (liftM v) (liftM v) w w' :=
  paired_lift fun _ _ => ⟨rfl, h⟩

theorem inStep_nextRand (h : Alike w w') : InStep (nextRand env) (nextRand env) w w' :=
  ⟨congrArg env.rand h.draws, h.draw⟩

theorem inStep_nextGranted (h : Alike w w') : InStep (nextGranted env) (nextGranted env) w w' :=
  ⟨congrArg env.granted h.requests, h.request⟩

theorem inStep_write (h : Alike w w') (p : ClientPtr) {c c' : Client}
    (hc : undirected c' = undirected c) : InStep (writeClient p c) (writeClient p c') w w' :=
  ⟨rfl, h.write p hc⟩

theorem inStep_exponentialSample (h : Alike w w') :
    InStep (exponentialSample env) (exponentialSample env) w w' :=
  inStep_bind (inStep_nextRand h) fun r _ _ h => inStep_pure h (env.exponential r)

theorem inStep_unifromSample (h : Alike w w') (a b : ℤ) :
    InStep (unifromSample env a b) (unifromSample env a b) w w' :=
  inStep_bind (inStep_nextRand h) fun _ _ _ h => inStep_bind (inStep_lift h _) fun _ _ _ h =>
    inStep_bind (inStep_lift h _) fun _ _ _ h => inStep_bind (inStep_lift h _) fun _ _ _ h =>
      inStep_lift h _

theorem inStep_chooseDisability (h : Alike w w') (disabilityProb : ℚ) :
    InStep (chooseDisability env disabilityProb) (chooseDisability env disabilityProb) w w' := by
  apply inStep_bind (inStep_nextRand h)
  intro r w w' h
  split
  · exact inStep_bind (inStep_unifromSample h _ _) fun _ _ _ h => inStep_pure h _
  · exact inStep_pure h _

/-- The choice of a destination makes one draw, whatever it chooses. -/
theorem paired_chooseDestination (h : Alike w w') (prob prob' : ℚ) :
    Paired (chooseDestination env prob) w (chooseDestination env prob') w'
      fun _ w _ w' => Alike w w' := by
  have hpure : ∀ (prob : ℚ) (r : Rand) (w : World),
      ∃ d, (if unitDraw r < prob then pure .dest2 else pure .dest1 : Prog Destination) w =
        .ok (d, w) := by
    intro prob r w
    split
    · exact ⟨_, rfl⟩
    · exact ⟨_, rfl⟩
  apply inStep_bind (inStep_nextRand h)
  intro r w w' h
  obtain ⟨d, hd⟩ := hpure prob r w
  obtain ⟨d', hd'⟩ := hpure prob' r w'
  simpa only [Paired, hd, hd'] using h

/-- The records read are those of the same client. -/
theorem paired_readClient (h : Alike w w') (p : ClientPtr) :
    Paired (readClient p) w (readClient p) w' fun c w c' w' =>
      c = w.heap p ∧ c' = w'.heap p ∧ Alike w w' :=
  ⟨rfl, rfl, h⟩

theorem paired_get (h : Alike w w') :
    Paired (get : Prog World) w (get : Prog World) w' fun a w b w' =>
      b.requests = a.requests ∧ Alike w w' :=
  ⟨h.requests, h⟩

theorem inStep_clientNew (h : Alike w w') : InStep (clientNew env) (clientNew env) w w' := by
  unfold clientNew
  apply paired_bind (paired_get h)
  intro a w b w' hpost
  obtain ⟨hsame, h⟩ := hpost
  rw [hsame]
  apply inStep_bind (inStep_nextGranted h)
  intro granted w w' h
  split
  · apply paired_bind (paired_readClient h a.requests)
    intro c w c' w' hpost
    obtain ⟨rfl, rfl, h⟩ := hpost
    refine inStep_bind (inStep_write h a.requests ?_) fun _ _ _ h => inStep_pure h _
    simp only [undirected, h.serviceStat, h.id_eq, h.disabilityType]
  · exact paired_throw _ _

theorem inStep_pushClient (h : Alike w w') (clients : Option (Queue ClientPtr)) (p : ClientPtr) :
    InStep (pushClient env clients p) (pushClient env clients p) w w' := by
  unfold pushClient
  cases clients with
  | none => exact inStep_pure h _
  | some q =>
    exact inStep_bind (inStep_nextGranted h) fun _ _ _ h =>
      inStep_bind (inStep_lift h _) fun _ _ _ h => inStep_pure h _

theorem inStep_generateClient (h : Alike w w') (g : Generator) :
    InStep (generateClient env params g) (generateClient env (withDestinationProb params prob) g)
      w w' := by
  apply inStep_bind (inStep_exponentialSample h)
  intro gap w w' h
  apply inStep_bind (inStep_lift h _)
  intro next w w' h
  change InStep (ite (next ≥ params.finishTime) _ _) (ite (next ≥ params.finishTime) _ _) w w'
  split
  · exact inStep_pure h _
  · apply inStep_bind (inStep_clientNew h)
    intro p w w' h
    apply inStep_bind (inStep_lift h _)
    intro id w w' h
    apply inStep_bind (inStep_chooseDisability h _)
    intro disabilityType w w' h
    apply paired_bind (paired_chooseDestination h _ _)
    intro destination w destination' w' h
    apply paired_bind (paired_readClient h p)
    intro c w c' w' hpost
    obtain ⟨rfl, rfl, h⟩ := hpost
    refine inStep_bind (inStep_write h p ?_) fun _ _ _ h =>
      inStep_bind (inStep_pushClient h _ _) fun _ _ _ h => inStep_pure h _
    simp only [undirected, h.serviceStat, h.disabilityType]

theorem inStep_generatorLoop (h : Alike w w') (g : Generator) (n : ℕ) :
    InStep (generatorLoop env params g n)
      (generatorLoop env (withDestinationProb params prob) g n) w w' := by
  induction n with
  | zero => exact inStep_pure h g
  | succ n ih =>
    apply inStep_bind ih
    intro g w w' h
    split
    · exact inStep_pure h g
    · exact inStep_generateClient h g

/-- The runs make the same clients, up to their destinations. -/
theorem sameClients (env : Env) (params : Parameters) (prob : ℚ) (w : World) :
    SameClients env params prob w := by
  intro n
  have halike : Alike w w := ⟨rfl, rfl, fun _ => rfl⟩
  exact inStep_bind (inStep_nextGranted halike) fun _ _ _ h =>
    inStep_bind (inStep_nextGranted h) fun _ _ _ h => inStep_generatorLoop h _ n

end Coupling

section Probabilities

variable {env : Env} {params : Parameters} {prob : ℚ} {w : World} {k m : ℕ}

theorem passDraw_withDestinationProb :
    passDraw env (withDestinationProb params prob) k m = passDraw env params k m := by
  induction m with
  | zero => rfl
  | succ m ih =>
    simp only [passDraw, ih]
    rfl

theorem destinationOf_eq_first :
    destinationOf env params k m = .dest1 ↔
      params.destinationProb ≤ unitDraw (destinationDraw env params k m) := by
  rw [← not_lt, destinationDraw, destinationOf]
  split <;> simp_all

theorem destinationOf_with_eq_first :
    destinationOf env (withDestinationProb params prob) k m = .dest1 ↔
      prob ≤ unitDraw (destinationDraw env params k m) := by
  rw [destinationOf_eq_first, destinationDraw, passDraw_withDestinationProb]
  rfl

/-- What the two runs say of a client is decided by the draw of one pass. -/
theorem destinations_of_runs {n : ℕ} {g : Generator} {w₁ w₁' : World}
    (hrun : clientsInit env params n w = .ok (g, w₁))
    (hrun' : clientsInit env (withDestinationProb params prob) n w = .ok (g, w₁'))
    (halike : Alike w₁ w₁') {q : Queue ClientPtr} (hq : q ∈ g.clients) {p : ClientPtr}
    (hp : p ∈ contents q) :
    ∃ m, MakesClient env params w.draws m ∧
      w₁.heap p = recordOf env params w.draws m (w.heap p) ∧
      ((w₁.heap p).destination = .dest1 ↔
        params.destinationProb ≤ unitDraw (destinationDraw env params w.draws m)) ∧
      ((w₁'.heap p).destination = .dest1 ↔
        prob ≤ unitDraw (destinationDraw env params w.draws m)) := by
  obtain ⟨m, hmakes, hrecord⟩ := pass_of_client hrun hq hp
  obtain ⟨m', -, hrecord'⟩ := pass_of_client hrun' hq hp
  have hid : (w₁.heap p).id = m := by rw [hrecord]; rfl
  have hid' : (w₁'.heap p).id = m' := by rw [hrecord']; rfl
  have hsame : m' = m := by
    have hpass := halike.id_eq p
    rw [hid, hid'] at hpass
    exact_mod_cast hpass
  subst hsame
  refine ⟨m', hmakes, hrecord, ?_, ?_⟩
  · rw [hrecord]
    exact destinationOf_eq_first
  · rw [hrecord']
    exact destinationOf_with_eq_first

theorem keepsFirst_of_noDrawBetween (h : NoDrawBetween env params prob w.draws) :
    KeepsFirst env params prob w := by
  intro n
  refine (sameClients env params prob w n).with_runs fun g w₁ g' w₁' hrun hrun' hpost => ?_
  obtain ⟨rfl, halike⟩ := hpost
  intro q hq p hp hfirst
  obtain ⟨m, hmakes, -, hdest, hdest'⟩ := destinations_of_runs hrun hrun' halike hq hp
  have hreach := hdest.mp hfirst
  exact hdest'.mpr (not_lt.mp fun hlt => h m hmakes ⟨hreach, hlt⟩)

/-- A draw between the probabilities sends its client to `DEST_1` in the first
run and to `DEST_2` in the second. -/
theorem noDrawBetween_of_keepsFirst (hgranted : env.AllocationsSucceed)
    (h : KeepsFirst env params prob w) : NoDrawBetween env params prob w.draws := by
  intro m hmakes hbetween
  obtain ⟨hlow, hhigh⟩ := hbetween
  obtain ⟨g, w₁, q, p, hrun, hq, hp, hrecord⟩ := client_of_pass hgranted hmakes
  obtain ⟨g', w₁', hrun', rfl, halike⟩ := (sameClients env params prob w (m + 1)).returns hrun
  obtain ⟨g'', w₁'', hagain, hkeeps⟩ := (h (m + 1)).returns hrun
  obtain ⟨rfl, rfl⟩ := Prod.mk.inj (Except.ok.inj (hrun'.symm.trans hagain))
  obtain ⟨m', -, hrecord', hdest, hdest'⟩ := destinations_of_runs hrun hrun' halike hq hp
  have hpass : (m' : ℤ) = m := by
    have hid := congrArg Client.id (hrecord'.symm.trans hrecord)
    exact hid
  obtain rfl : m' = m := by exact_mod_cast hpass
  exact absurd (hdest'.mp (hkeeps q hq p hp (hdest.mpr hlow))) (not_le.mpr hhigh)

/-- The destination probability changes nothing but destinations. A client bound
for `DEST_1` stays so under the other probability just as long as no draw for a
destination lies between the two: `DEST_1` is what the draws from the
probability on choose. -/
theorem first_destination_kept_iff (env : Env) (params : Parameters) (prob : ℚ) (w : World) :
    SameClients env params prob w ∧
    (NoDrawBetween env params prob w.draws → KeepsFirst env params prob w) ∧
    (env.AllocationsSucceed →
      (KeepsFirst env params prob w ↔ NoDrawBetween env params prob w.draws)) :=
  ⟨sameClients env params prob w, keepsFirst_of_noDrawBetween, fun hgranted =>
    ⟨noDrawBetween_of_keepsFirst hgranted, keepsFirst_of_noDrawBetween⟩⟩

/-- The one client is bound for `DEST_1` with probability 0, and for `DEST_2` with
probability 1. -/
theorem first_destination_not_kept :
    (0 : ℚ) ≤ 1 ∧ ¬ KeepsFirst mixed.env ⟨1 / 2, 0, 2⟩ 1 mixed.world := by
  refine ⟨zero_le_one, fun hkeeps => ?_⟩
  have hmoved : (match clientsInit mixed.env ⟨1 / 2, 0, 2⟩ 2 mixed.world,
      clientsInit mixed.env (withDestinationProb ⟨1 / 2, 0, 2⟩ 1) 2 mixed.world with
    | .ok (g, w), .ok (_, w') => g.clients.any fun q => (contents q).any fun p =>
        decide ((w.heap p).destination = .dest1 ∧ (w'.heap p).destination = .dest2)
    | _, _ => false) = true := by decide +kernel
  split at hmoved
  · rename_i g w₁ g' w₁' hrun hrun'
    obtain ⟨g'', w₁'', hagain, hkept⟩ := (hkeeps 2).returns hrun
    obtain ⟨rfl, rfl⟩ := Prod.mk.inj (Except.ok.inj (hrun'.symm.trans hagain))
    obtain ⟨q, hq, hany⟩ := (Option.any_eq_true _ _).mp hmoved
    obtain ⟨p, hp, hmove⟩ := List.any_eq_true.mp hany
    obtain ⟨hfirst, hsecond⟩ := of_decide_eq_true hmove
    have hstill := hkept q hq p hp hfirst
    rw [hsecond] at hstill
    cases hstill
  · cases hmoved

end Probabilities

end AcaBSim.Destinations
