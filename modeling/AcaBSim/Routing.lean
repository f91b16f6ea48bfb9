import AcaBSim.ServerSteps

/-!
Routing of an admitted client by `assign_client`. The loads it compares are
lengths of lines, so the choice of a server is a function of the stations; it
always names one, and the chosen server admits the client to its line.
-/
namespace AcaBSim.Routing

open Machine ArrayQueue Clients Servers Systems Outcome Stations Networks ServerStations ServerSteps

/-- `server_get_load` of a server of a kind, for a client of type `d`. -/
def stationLoad (d : DisabilityType) (k : ServerType) (st : Station ClientPtr) : ℤ :=
  match k with
  | .standard => st.regular.length
  | .robotic =>
    if d = .noDisability then st.regular.length + st.express.length else st.express.length

/-- The index of the station `assign_client` selects, the first `m` stations
being standard servers. -/
def routeIndex (d : DisabilityType) (m : ℕ) (l : List (Station ClientPtr)) : ℕ :=
  let standard := lowLoad 0 (none, intMax) ((l.take m).map (stationLoad d .standard))
  let robotic := lowLoad 0 (none, intMax) ((l.drop m).map (stationLoad d .robotic))
  if d ≠ .noDisability ∧ robotic.1.isSome then m + robotic.1.getD 0
  else if standard.1.isNone then m + robotic.1.getD 0
  else if robotic.1.isNone then standard.1.getD 0
  else if robotic.2 < standard.2 then m + robotic.1.getD 0
  else standard.1.getD 0

/-- What the system is as a policy: arrivals come from the heap `h₀` before the
first tick. Indices out of range do not occur (`routeIndex_lt`). -/
def policy (env : Env) (h₀ : Heap) (m : ℕ) : Policy ClientPtr where
  arrival p := (h₀ p).serviceStat.arrivalTime
  route p l :=
    if routeIndex (h₀ p).disabilityType m l < l.length
    then routeIndex (h₀ p).disabilityType m l else 0
  succeeds := attemptSucceeds env
  route_lt p l hl := by
    split
    · assumption
    · exact List.length_pos_iff.mpr hl

variable {k : ServerType} {B : ℚ → Prop} {h₀ : Heap} {s : Server k} {st : Station ClientPtr}
  {env : Env} {w : World} {tol : Fault → Prop} {d : DisabilityType} {p : ClientPtr}

theorem lowLoad_lt {loads : List ℤ} {i j : ℕ} {selected : Option ℕ × ℤ}
    (hselected : ∀ j, selected.1 = some j → j < i)
    (hj : (lowLoad i selected loads).1 = some j) : j < i + loads.length := by
  induction loads generalizing i selected with
  | nil => exact hselected j hj
  | cons load rest ih =>
    have hlen : i + (load :: rest).length = i + 1 + rest.length := by
      simp only [List.length_cons]
      omega
    rw [hlen]
    obtain ⟨low, minLoad⟩ := selected
    simp only [lowLoad] at hj
    split at hj
    · refine ih (fun l hl => ?_) hj
      have heq : i = l := by simpa using hl
      omega
    · refine ih (fun l hl => ?_) hj
      have hlt := hselected l hl
      omega

theorem lowLoad_isSome {loads : List ℤ} {i : ℕ} {selected : Option ℕ × ℤ}
    (h : selected.1.isSome ∨ ∃ load ∈ loads, load < selected.2) :
    (lowLoad i selected loads).1.isSome := by
  induction loads generalizing i selected with
  | nil => simpa [lowLoad] using h
  | cons load rest ih =>
    obtain ⟨low, minLoad⟩ := selected
    simp only [lowLoad]
    split
    · exact ih (Or.inl rfl)
    · rename_i hle
      refine ih (h.imp_right ?_)
      intro hload
      obtain ⟨l, hl, hlt⟩ := hload
      rcases List.mem_cons.mp hl with rfl | hl
      · exact absurd hlt (by dsimp only; omega)
      · exact ⟨l, hl, hlt⟩

theorem stationLoad_bounds (d : DisabilityType) (k : ServerType) (st : Station ClientPtr) :
    0 ≤ stationLoad d k st ∧ stationLoad d k st ≤ st.jobs.length := by
  have hlen : st.jobs.length = st.started.length + st.express.length + st.regular.length := by
    simp [Station.jobs]
    omega
  rw [hlen]
  cases k with
  | standard =>
    simp only [stationLoad]
    omega
  | robotic =>
    simp only [stationLoad]
    split <;> omega

theorem serverGetLoad_represents (h : Represents B h₀ s st) (hlen : st.jobs.length < intMax) :
    serverGetLoad s d = stationLoad d k st := by
  have hbounds := stationLoad_bounds d k st
  have hrange : ∀ n : ℕ, (n : ℤ) = stationLoad d k st → wrapInt n = stationLoad d k st := by
    intro n hn
    rw [hn]
    exact wrapInt_of_range (by unfold intMin; omega) (by omega)
  cases s with
  | standard s =>
    obtain ⟨-, hqueue⟩ := h.lines
    simp only [serverGetLoad, getStandardServerLoad, hqueue.size]
    exact hrange _ rfl
  | robotic s =>
    obtain ⟨hdisable, hnormal⟩ := h.lines
    simp only [serverGetLoad, getRoboticServerLoad, hdisable.size, hnormal.size]
    by_cases hd : d = .noDisability
    · rw [if_pos hd]
      exact_mod_cast hrange (st.regular.length + st.express.length) (by simp [stationLoad, hd])
    · rw [if_neg hd]
      exact hrange _ (by simp [stationLoad, hd])

theorem loads_eq {l : List (Server k)} {sts : List (Station ClientPtr)}
    (h : List.Forall₂ (Represents B h₀) l sts) (hlen : ∀ st ∈ sts, (st.jobs.length : ℤ) < intMax) :
    (l.map fun s => serverGetLoad s d) = sts.map (stationLoad d k) := by
  induction h with
  | nil => rfl
  | @cons s st l sts hst _ ih =>
    rw [List.map_cons, List.map_cons, serverGetLoad_represents hst (hlen st (by simp)),
      ih fun st' hst' => hlen st' (by simp [hst'])]

/-- Over stations that are not overfull, a low load is found if there are any. -/
theorem lowLoad_cases (d : DisabilityType) (k : ServerType) {sts : List (Station ClientPtr)}
    (hlen : ∀ st ∈ sts, (st.jobs.length : ℤ) < intMax) :
    (sts = [] ∧ lowLoad 0 (none, intMax) (sts.map (stationLoad d k)) = (none, intMax)) ∨
    ∃ i load, lowLoad 0 (none, intMax) (sts.map (stationLoad d k)) = (some i, load) ∧
      i < sts.length := by
  cases sts with
  | nil => exact Or.inl ⟨rfl, rfl⟩
  | cons st rest =>
    apply Or.inr
    have hload : stationLoad d k st < intMax := by
      have hbounds := (stationLoad_bounds d k st).2
      have hst := hlen st (by simp)
      omega
    have hsome : (lowLoad 0 (none, intMax) ((st :: rest).map (stationLoad d k))).1.isSome :=
      lowLoad_isSome (Or.inr ⟨stationLoad d k st, by simp, hload⟩)
    obtain ⟨i, hi⟩ := Option.isSome_iff_exists.mp hsome
    have hlt := lowLoad_lt (by simp) hi
    exact ⟨i, _, Prod.ext hi rfl, by simpa using hlt⟩

/-- The selected station exists. -/
theorem routeIndex_lt {sts₁ sts₂ : List (Station ClientPtr)}
    (hlen : ∀ st ∈ sts₁ ++ sts₂, (st.jobs.length : ℤ) < intMax) (hne : sts₁ ++ sts₂ ≠ []) :
    routeIndex d sts₁.length (sts₁ ++ sts₂) < (sts₁ ++ sts₂).length := by
  have hstandard := lowLoad_cases d .standard fun st hst => hlen st (List.mem_append_left _ hst)
  have hrobotic := lowLoad_cases d .robotic fun st hst => hlen st (List.mem_append_right _ hst)
  simp only [routeIndex, List.take_left, List.drop_left, List.length_append]
  rcases hstandard with ⟨rfl, hstandard⟩ | ⟨i, li, hstandard, hi⟩ <;>
    rcases hrobotic with ⟨rfl, hrobotic⟩ | ⟨j, lj, hrobotic, hj⟩ <;>
    rw [hstandard, hrobotic]
  · exact absurd rfl hne
  · simpa using hj
  · simpa using hi
  · simp only [Option.isSome_some, Option.getD_some, Option.isNone_some, Bool.false_eq_true,
      if_false]
    split
    · omega
    · split <;> omega

theorem Recorded.receive {h : Heap} (hrec : Recorded h₀ h st)
    (hrecord : h p = waitingRecord (h₀ p)) :
    Recorded h₀ h (st.receive p) where
  waiting line q hq := by
    have hq' : q ∈ (st.receiveAll (some p)).waiting line := hq
    rcases Station.mem_waiting_receiveAll hq' with hq | hq
    · exact hrec.waiting line q hq
    · obtain rfl := Option.mem_some_iff.mp hq
      exact hrecord
  serving := by simpa using hrec.serving
  finished := by simpa using hrec.finished

/-- `server_assign_client` admits the client to its line. -/
theorem serverAssignClient_represents (hgranted : env.AllocationsSucceed)
    (h : Represents B h₀ s st) (hlen : st.jobs.length < intMax)
    (hrecord : w.heap p = waitingRecord (h₀ p)) :
    Ensures tol (serverAssignClient env s p) w fun r w' =>
      Represents B h₀ r.2 (st.receive p) ∧ w'.heap = w.heap ∧ w'.draws = w.draws := by
  have hserved := hgranted w.requests
  have hclass : st.profile.express p = expressAt s (h₀ p) := by rw [h.profile]; rfl
  have hroom : ∀ line, (st.waiting line).length < 2 ^ 31 := by
    intro line
    have hsum : st.jobs.length =
        st.started.length + st.express.length + st.regular.length := by
      simp [Station.jobs]
      omega
    unfold intMax at hlen
    cases line with
    | true => simp only [Station.waiting_true]; omega
    | false => simp only [Station.waiting_false]; omega
  cases s with
  | standard s =>
    obtain ⟨hex, hqueue⟩ := h.lines
    obtain ⟨q, hpush, hq⟩ := hqueue.push (hroom false) p
    simp only [serverAssignClient, assignClientToStandardServer, ensures_bind,
      ensures_nextGranted, hserved, hpush, ensures_lift_ok, ensures_pure, and_self, and_true]
    rw [Station.receive, hclass]
    exact h.setWaiting ⟨hex, hq⟩ rfl rfl rfl
  | robotic s =>
    obtain ⟨hdisable, hnormal⟩ := h.lines
    have htype : (waitingRecord (h₀ p)).disabilityType = (h₀ p).disabilityType := rfl
    simp only [serverAssignClient, assignClientToRoboticServer, ensures_bind, ensures_readClient,
      hrecord, htype]
    rw [Station.receive, hclass]
    by_cases hd : (h₀ p).disabilityType = .noDisability
    · obtain ⟨q, hpush, hq⟩ := hnormal.push (hroom false) p
      have hline : expressAt (.robotic s) (h₀ p) = false := by simp [expressAt, hd]
      rw [if_pos hd, hline]
      simp only [ensures_bind, ensures_nextGranted, hserved, hpush, ensures_lift_ok, ensures_pure,
        and_self, and_true]
      exact h.setWaiting ⟨hdisable, hq⟩ rfl rfl rfl
    · obtain ⟨q, hpush, hq⟩ := hdisable.push (hroom true) p
      have hline : expressAt (.robotic s) (h₀ p) = true := by simp [expressAt, hd]
      rw [if_neg hd, hline]
      simp only [ensures_bind, ensures_nextGranted, hserved, hpush, ensures_lift_ok, ensures_pure,
        and_self, and_true]
      exact h.setWaiting ⟨hq, hnormal⟩ rfl rfl rfl

theorem forall₂_set_modify {α β : Type} {R : α → β → Prop} {l : List α} {l' : List β}
    (h : List.Forall₂ R l l') {i : ℕ} {a : α} {f : β → β}
    (ha : ∀ b, l'[i]? = some b → R a (f b)) : List.Forall₂ R (l.set i a) (l'.modify i f) := by
  induction h generalizing i with
  | nil => simp
  | cons hab htail ih =>
    cases i with
    | zero => simpa using ⟨ha _ rfl, htail⟩
    | succ i => simpa using ⟨hab, ih fun b hb => ha b (by simpa using hb)⟩

/-- The server at the selected index admits the client, the others are untouched. -/
theorem assignTo_admits (hgranted : env.AllocationsSucceed) {l : List (Server k)}
    {sts : List (Station ClientPtr)} (h : List.Forall₂ (Represents B h₀) l sts)
    (hlen : ∀ st ∈ sts, (st.jobs.length : ℤ) < intMax)
    (hrecord : w.heap p = waitingRecord (h₀ p)) {i : ℕ} (hi : i < sts.length) :
    Ensures tol (assignTo env l (some i) p) w fun l' w' =>
      List.Forall₂ (Represents B h₀) l' (sts.modify i (Station.receive p)) ∧
        w'.heap = w.heap ∧ w'.draws = w.draws := by
  have hil : i < l.length := by rw [h.length_eq]; exact hi
  have hrep : Represents B h₀ l[i] sts[i] := h.get hil hi
  simp only [assignTo, List.getElem?_eq_getElem hil, ensures_bind]
  refine (serverAssignClient_represents hgranted hrep (hlen _ (List.getElem_mem hi))
    hrecord).mono ?_
  intro r w' hpost
  obtain ⟨status, s'⟩ := r
  obtain ⟨hs', hheap, hdraws⟩ := hpost
  refine ⟨forall₂_set_modify h fun b hb => ?_, hheap, hdraws⟩
  rw [List.getElem?_eq_getElem hi] at hb
  obtain rfl := Option.some.inj hb
  exact hs'

theorem modify_append_left {α : Type} {l₁ : List α} (l₂ : List α) {i : ℕ} (f : α → α)
    (hi : i < l₁.length) : (l₁ ++ l₂).modify i f = l₁.modify i f ++ l₂ := by
  induction l₁ generalizing i with
  | nil => simp at hi
  | cons a rest ih =>
    cases i with
    | zero => rfl
    | succ i => simpa using ih (by simpa using hi)

theorem modify_append_right {α : Type} (l₁ l₂ : List α) (j : ℕ) (f : α → α) :
    (l₁ ++ l₂).modify (l₁.length + j) f = l₁ ++ l₂.modify j f := by
  induction l₁ with
  | nil => simp
  | cons a rest ih =>
    rw [List.length_cons, show rest.length + 1 + j = rest.length + j + 1 by omega]
    simpa using ih

/-- The stations of a system, the standard servers first. -/
structure SystemStations (B : ℚ → Prop) (h₀ : Heap) (sys : System)
    (sts₁ sts₂ : List (Station ClientPtr)) : Prop where
  standard : List.Forall₂ (Represents B h₀) sys.standardServers sts₁
  robotic : List.Forall₂ (Represents B h₀) sys.roboticServers sts₂

/-- The `i`-th station has received the client `p`, who stays as recorded. -/
def Routed (B : ℚ → Prop) (h₀ : Heap) (p : ClientPtr) (sys : System) (w : World)
    (sts₁ sts₂ : List (Station ClientPtr)) (i : ℕ) (sys' : System) (w' : World) : Prop :=
  sys'.systemClients = sys.systemClients ∧ w'.heap = w.heap ∧ w'.draws = w.draws ∧
    ∃ sts₁' sts₂', (sts₁ ++ sts₂).modify i (Station.receive p) = sts₁' ++ sts₂' ∧
      sts₁'.length = sts₁.length ∧ SystemStations B h₀ sys' sts₁' sts₂'

section Assignment

variable {sys : System} {sts₁ sts₂ : List (Station ClientPtr)}

theorem assignStandard_admits (hgranted : env.AllocationsSucceed)
    (h : SystemStations B h₀ sys sts₁ sts₂) (hlen : ∀ st ∈ sts₁, (st.jobs.length : ℤ) < intMax)
    (hrecord : w.heap p = waitingRecord (h₀ p)) {i : ℕ} (hi : i < sts₁.length) :
    Ensures tol (assignStandard env sys (some i) p) w (Routed B h₀ p sys w sts₁ sts₂ i) := by
  rw [assignStandard, ensures_bind]
  apply (assignTo_admits hgranted h.standard hlen hrecord hi).mono
  intro servers w' hpost
  obtain ⟨hservers, hheap, hdraws⟩ := hpost
  exact ⟨rfl, hheap, hdraws, _, sts₂, modify_append_left sts₂ _ hi, by simp, hservers, h.robotic⟩

theorem assignRobotic_admits (hgranted : env.AllocationsSucceed)
    (h : SystemStations B h₀ sys sts₁ sts₂) (hlen : ∀ st ∈ sts₂, (st.jobs.length : ℤ) < intMax)
    (hrecord : w.heap p = waitingRecord (h₀ p)) {j : ℕ} (hj : j < sts₂.length) :
    Ensures tol (assignRobotic env sys (some j) p) w
      (Routed B h₀ p sys w sts₁ sts₂ (sts₁.length + j)) := by
  rw [assignRobotic, ensures_bind]
  apply (assignTo_admits hgranted h.robotic hlen hrecord hj).mono
  intro servers w' hpost
  obtain ⟨hservers, hheap, hdraws⟩ := hpost
  exact ⟨rfl, hheap, hdraws, sts₁, _, modify_append_right sts₁ sts₂ j _, rfl, h.standard, hservers⟩

/-- `assign_client` admits the client to the station at the route's index. -/
theorem assignClient_admits (hgranted : env.AllocationsSucceed)
    (h : SystemStations B h₀ sys sts₁ sts₂)
    (hlen : ∀ st ∈ sts₁ ++ sts₂, (st.jobs.length : ℤ) < intMax) (hne : sts₁ ++ sts₂ ≠ [])
    (hrecord : w.heap p = waitingRecord (h₀ p)) :
    Ensures tol (assignClient env sys p) w (Routed B h₀ p sys w sts₁ sts₂
      (routeIndex (h₀ p).disabilityType sts₁.length (sts₁ ++ sts₂))) := by
  have hlen₁ : ∀ st ∈ sts₁, (st.jobs.length : ℤ) < intMax := fun st hst =>
    hlen st (List.mem_append_left _ hst)
  have hlen₂ : ∀ st ∈ sts₂, (st.jobs.length : ℤ) < intMax := fun st hst =>
    hlen st (List.mem_append_right _ hst)
  have htype : (waitingRecord (h₀ p)).disabilityType = (h₀ p).disabilityType := rfl
  simp only [assignClient, ensures_bind, ensures_readClient, hrecord, htype,
    loads_eq h.standard hlen₁, loads_eq h.robotic hlen₂]
  simp only [routeIndex, List.take_left, List.drop_left]
  rcases lowLoad_cases (h₀ p).disabilityType .standard hlen₁ with
    ⟨rfl, hlow₁⟩ | ⟨i, li, hlow₁, hi⟩ <;>
    rcases lowLoad_cases (h₀ p).disabilityType .robotic hlen₂ with
      ⟨rfl, hlow₂⟩ | ⟨j, lj, hlow₂, hj⟩ <;>
    rw [hlow₁, hlow₂]
  · exact absurd rfl hne
  · simp only [Option.isNone_some, Option.isNone_none, Bool.false_and, Bool.false_eq_true,
      if_false, Option.isSome_some, and_true, if_true, Option.getD_some, ite_self]
    exact assignRobotic_admits hgranted h hlen₂ hrecord hj
  · simp only [Option.isNone_some, Option.isNone_none, Bool.and_false, Bool.false_eq_true,
      if_false, Option.isSome_none, and_false, if_true, Option.getD_some]
    exact assignStandard_admits hgranted h hlen₁ hrecord hi
  · simp only [Option.isNone_some, Bool.and_false, Bool.false_eq_true, if_false,
      Option.isSome_some, and_true, Option.getD_some]
    by_cases hd : (h₀ p).disabilityType ≠ .noDisability
    · rw [if_pos hd, if_pos hd]
      exact assignRobotic_admits hgranted h hlen₂ hrecord hj
    · rw [if_neg hd, if_neg hd]
      by_cases hload : lj < li
      · rw [if_pos hload, if_pos hload]
        exact assignRobotic_admits hgranted h hlen₂ hrecord hj
      · rw [if_neg hload, if_neg hload]
        exact assignStandard_admits hgranted h hlen₁ hrecord hi

end Assignment

end AcaBSim.Routing
