import AcaBSim.GeneratedClients
import AcaBSim.Scenarios

/-!
The types of generated clients. A sample of `unifrom_sample` leaves its range
for the last value of `rand ()`, and a client whose sample it decides keeps as
its disability type what `malloc` found in its memory.
-/
namespace AcaBSim.ClientTypes

open Machine ArrayQueue Clients Servers Systems Outcome ServerStations Simulation Scenarios
  ClientGenerator GeneratedClients

/-- The pass with number `m` gets as far as the type of its client. -/
structure MakesClient (env : Env) (params : Parameters) (k m : ℕ) : Prop where
  begins : Begins env params k (m + 1)
  arrivals : ∀ j, j ≤ m → intMin ≤ arrivalOf env params k j ∧ arrivalOf env params k j ≤ intMax
  id : ((m + 1 : ℕ) : ℤ) ≤ intMax

/-- No draw that decides a disability is the last value of `rand ()`. -/
def DrawsInRange (env : Env) (params : Parameters) (k : ℕ) : Prop :=
  ∀ m, MakesClient env params k m → Disabled env params k m →
    (disabilityDraw env params k m).val ≠ randMax

/-- `hashmap_get` on the service table finds the entry of the client. -/
def Served (c : Client) : Prop :=
  (hashmapGet initTable ⟨c.disabilityType, c.destination, 0⟩).isSome = true

/-- Whatever lies in memory, every client in the queue after any number of
passes of `clients_init` has valid types and an entry in the service table. -/
def EveryClientServed (env : Env) (params : Parameters) (w : World) : Prop :=
  ∀ (garbage : Heap) (n : ℕ) (g : Generator) (w' : World),
    clientsInit env params n { w with heap := garbage } = .ok (g, w') →
    ∀ q ∈ g.clients, ∀ p ∈ contents q, (w'.heap p).Valid ∧ Served (w'.heap p)

theorem served_of_valid {c : Client} (h : c.Valid) : Served c := by
  obtain ⟨value, hvalue, -⟩ := hashmapGet_initTable h
  rw [Served, hvalue]
  rfl

theorem disabilityTypeOf_valid {sample : ℤ} (hlow : 0 ≤ sample) (hhigh : sample ≤ 2) :
    ∃ d, disabilityTypeOf sample = some d ∧ d.Valid := by
  obtain rfl | rfl | rfl : sample = 0 ∨ sample = 1 ∨ sample = 2 := by omega
  · exact ⟨.type1, rfl, by decide⟩
  · exact ⟨.type2, rfl, by decide⟩
  · exact ⟨.type3, rfl, by decide⟩

theorem disabilityTypeOf_eq_none {sample : ℤ} (h : 2 < sample) :
    disabilityTypeOf sample = none := by
  rw [disabilityTypeOf, if_neg (by omega), if_neg (by omega), if_neg (by omega)]

section Types

variable {env : Env} {params : Parameters} {k m : ℕ}

/-- The type is assigned, unless it is decided by the last value of `rand ()`. -/
theorem typeOf_valid (h : Disabled env params k m → (disabilityDraw env params k m).val ≠ randMax) :
    ∃ d, typeOf env params k m = some d ∧ d.Valid := by
  unfold typeOf
  split
  · rename_i hdisabled
    obtain ⟨hlow, -, hhigh⟩ :=
      le_uniformValue (disabilityDraw env params k m)
        (show (0 : ℤ) ≤ disabilityTypeSize - 2 by decide)
    exact disabilityTypeOf_valid hlow (hhigh.mpr (h hdisabled))
  · exact ⟨.noDisability, rfl, by decide⟩

theorem typeOf_eq_none (hdisabled : Disabled env params k m)
    (h : (disabilityDraw env params k m).val = randMax) : typeOf env params k m = none := by
  obtain ⟨-, -, hhigh⟩ :=
    le_uniformValue (disabilityDraw env params k m)
      (show (0 : ℤ) ≤ disabilityTypeSize - 2 by decide)
  rw [typeOf, if_pos hdisabled]
  refine disabilityTypeOf_eq_none (not_le.mp fun hle => ?_)
  exact hhigh.mp hle h

theorem recordOf_valid (h : Disabled env params k m →
    (disabilityDraw env params k m).val ≠ randMax) (c : Client) :
    (recordOf env params k m c).Valid := by
  obtain ⟨d, htype, hvalid⟩ := typeOf_valid h
  refine ⟨?_, ?_⟩
  · simp only [recordOf, htype, Option.getD_some]
    exact hvalid
  · simp only [recordOf, destinationOf]
    split
    · exact Or.inr rfl
    · exact Or.inl rfl

end Types

variable {env : Env} {params : Parameters} {w : World}

/-- Every client in the queue after any number of passes is that of a pass. -/
theorem pass_of_client {n : ℕ} {g : Generator} {w' : World}
    (hrun : clientsInit env params n w = .ok (g, w')) {q : Queue ClientPtr} (hq : q ∈ g.clients)
    {p : ClientPtr} (hp : p ∈ contents q) :
    ∃ m, MakesClient env params w.draws m ∧
      w'.heap p = recordOf env params w.draws m (w.heap p) := by
  have hensures : Ensures (fun _ => True) (clientsInit env params n) w
      fun g w' => ∃ b, Generated env params w n b g w' :=
    clientsInit_generated fun _ _ _ _ _ => trivial
  obtain ⟨b, hgenerated⟩ := (ensures_of_ok hrun).mp hensures
  obtain ⟨-, ⟨l, hcontents, hsub, -, hmade⟩, -, -⟩ := hgenerated.filled q hq
  obtain ⟨x, hx, rfl⟩ := List.mem_map.mp (hcontents ▸ hp)
  have hlt : x.2 < b := List.mem_range.mp (hsub.subset (List.mem_map_of_mem hx))
  refine ⟨x.2, ⟨hgenerated.begins.mono hlt, fun j hj => hgenerated.arrivals j (by omega), ?_⟩,
    hmade x hx⟩
  have hb := hgenerated.in_range
  omega

/-- Every pass that gets as far as a client puts it into the queue, if memory is served. -/
theorem client_of_pass (hgranted : env.AllocationsSucceed) {m : ℕ}
    (hmakes : MakesClient env params w.draws m) :
    ∃ g w' q p, clientsInit env params (m + 1) w = .ok (g, w') ∧ q ∈ g.clients ∧
      p ∈ contents q ∧ w'.heap p = recordOf env params w.draws m (w.heap p) := by
  have hpass : ∀ j, j < m + 1 → Begins env params w.draws j → Passable env params w.draws j := by
    intro j hj _
    refine ⟨hgranted, hmakes.arrivals j (by omega), fun _ => ?_⟩
    have hid := hmakes.id
    push_cast at hid
    omega
  have hensures : Ensures (fun _ => False) (clientsInit env params (m + 1)) w
      fun g w' => ∃ b, Generated env params w (m + 1) b g w' :=
    clientsInit_generated fun j hj hbegins _ hnot => hnot (hpass j hj hbegins)
  obtain ⟨g, w', hrun, b, hgenerated⟩ := hensures.returns fun _ _ hfalse => hfalse
  obtain ⟨q, hq⟩ := Option.isSome_iff_exists.mp (hgenerated.queue hgranted)
  obtain ⟨-, ⟨l, hcontents, -, hall, hmade⟩, -, -⟩ := hgenerated.filled q hq
  have hb : m < b := by
    cases hbroke : g.broke with
    | false =>
      obtain ⟨hb, -⟩ := hgenerated.running hbroke
      omega
    | true =>
      by_contra hlt
      have hstop := hgenerated.stopped hbroke
      have hgo := hmakes.begins b (by omega)
      omega
  have hmem : m ∈ l.map Prod.snd := by
    rw [hall hgranted]
    exact List.mem_range.mpr hb
  obtain ⟨x, hx, rfl⟩ := List.mem_map.mp hmem
  exact ⟨g, w', q, x.1, hrun, hq, hcontents ▸ List.mem_map_of_mem hx, hmade x hx⟩

theorem everyClientServed_of_drawsInRange (h : DrawsInRange env params w.draws) :
    EveryClientServed env params w := by
  intro garbage n g w' hrun q hq p hp
  obtain ⟨m, hmakes, hrecord⟩ := pass_of_client hrun hq hp
  have hvalid : (w'.heap p).Valid := by
    rw [hrecord]
    exact recordOf_valid (h m hmakes) _
  exact ⟨hvalid, served_of_valid hvalid⟩

/-- The client of a pass decided by the last value keeps whatever memory held. -/
theorem drawsInRange_of_everyClientServed (hgranted : env.AllocationsSucceed)
    (h : EveryClientServed env params w) : DrawsInRange env params w.draws := by
  intro m hmakes hdisabled hlast
  let garbage : Heap := fun _ => newcomer 0 0 (.other 0)
  obtain ⟨g, w', q, p, hrun, hq, hp, hrecord⟩ :=
    client_of_pass (w := { w with heap := garbage }) hgranted hmakes
  have hvalid := (h garbage (m + 1) g w' hrun q hq p hp).1.1
  rw [hrecord] at hvalid
  simp only [recordOf, typeOf_eq_none hdisabled hlast, Option.getD_none] at hvalid
  exact absurd hvalid (by decide)

theorem unifromSample_eq {a b v : ℤ} {w' : World}
    (h : unifromSample env a b w = .ok (v, w')) : v = uniformValue (env.rand w.draws) a b := by
  have hensures : Ensures (fun _ => True) (unifromSample env a b) w fun v _ =>
      v = uniformValue (env.rand w.draws) a b := by
    simp only [unifromSample, ensures_bind, ensures_nextRand]
    apply ensures_checkInt trivial
    intro _
    apply ensures_checkInt trivial
    intro _
    exact ensures_checkInt trivial fun _ => ensures_checkInt trivial fun _ => rfl
  exact (ensures_of_ok h).mp hensures

/-- Generated clients can be served just as long as no draw that decides a
disability is the last value of `rand ()`, the one value for which
`unifrom_sample` leaves its range; runs on servable clients look nothing up in vain. -/
theorem generated_clients_served_iff (env : Env) (params : Parameters) (w : World) :
    (env.AllocationsSucceed →
      (EveryClientServed env params w ↔ DrawsInRange env params w.draws)) ∧
    (DrawsInRange env params w.draws → EveryClientServed env params w) ∧
    (∀ (r : Rand) (a b : ℤ), a ≤ b →
      (a ≤ uniformValue r a b ∧ uniformValue r a b ≤ b ↔ r.val ≠ randMax)) ∧
    (∀ (a b v : ℤ) (w' : World), unifromSample env a b w = .ok (v, w') →
      v = uniformValue (env.rand w.draws) a b) ∧
    ∀ (S : Scenario) (n : ℕ), (n : ℤ) ≤ intMax → S.loop n ≠ .error .nullDereference := by
  refine ⟨fun hgranted => ⟨drawsInRange_of_everyClientServed hgranted,
    everyClientServed_of_drawsInRange⟩, everyClientServed_of_drawsInRange, ?_,
    fun _ _ _ _ => unifromSample_eq, ?_⟩
  · intro r a b hab
    obtain ⟨hlow, -, hhigh⟩ := le_uniformValue r hab
    rw [← hhigh]
    exact and_iff_right hlow
  · intro S n hn herror
    rcases S.loop_error_cases hn herror with (hfault | hfault) | hfault <;> cases hfault

/-- The third draw, which decides the disability of the first client, is the
last value of `rand ()`. -/
def lastDraw : Env where
  rand k := if k = 2 then Fin.last randMax else ⟨0, Nat.succ_pos randMax⟩
  exponential _ := 1
  outcomes := .drawn
  granted _ := true

/-- The first client keeps the value 7 that `malloc` found in its memory, and
its service time is looked up in vain. -/
theorem unassigned_disability :
    uniformValue (Fin.last randMax) 0 2 = 3 ∧
    ¬ EveryClientServed lastDraw ⟨1 / 2, 1 / 2, 2⟩ ⟨fun _ => newcomer 0 0 (.other 7), 0, 0⟩ := by
  refine ⟨by decide +kernel, fun hserved => ?_⟩
  have hunserved : (match clientsInit lastDraw ⟨1 / 2, 1 / 2, 2⟩ 2
      ⟨fun _ => newcomer 0 0 (.other 7), 0, 0⟩ with
    | .ok (g, w') => g.clients.any fun q => (contents q).any fun p =>
        decide ((w'.heap p).disabilityType = .other 7)
    | .error _ => false) = true := by decide +kernel
  split at hunserved
  · rename_i g w' hrun
    obtain ⟨q, hq, hany⟩ := (Option.any_eq_true _ _).mp hunserved
    obtain ⟨p, hp, htype⟩ := List.any_eq_true.mp hany
    have hvalid := (hserved (fun _ => newcomer 0 0 (.other 7)) 2 g w' hrun q hq p hp).1.1
    rw [of_decide_eq_true htype] at hvalid
    exact absurd hvalid (by decide)
  · cases hunserved

end AcaBSim.ClientTypes
