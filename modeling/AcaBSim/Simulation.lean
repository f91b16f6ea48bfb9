import AcaBSim.Routing
import AcaBSim.NetworkTrace

/-!
The simulation loop of system.c runs a network of stations: one tick of the
system is one tick of the network, from any state that represents it, and so
the loop follows the run of the network for any number of ticks.
-/
namespace AcaBSim.Simulation

open Machine ArrayQueue Clients Servers Systems Outcome Stations Networks ServerStations
  ServerSteps Routing

variable {k : ServerType} {B : ℚ → Prop} {h₀ : Heap} {env : Env} {w : World} {t : ℤ}
  {tol : Fault → Prop} {P : Policy ClientPtr} {m n : ℕ}

/-- Either loop of `servers_update_serve_time` counts the tick at every station. -/
theorem tickServers_counts (ht : t < intMax) {l : List (Server k)}
    {sts : List (Station ClientPtr)} (h : List.Forall₂ (Represents B h₀) l sts)
    (hpaced : ∀ st ∈ sts, st.Paced t) (hpos : ∀ st ∈ sts, ∀ a ∈ st.current, 1 ≤ a.remaining) :
    Ensures tol (tickServers l) w fun l' w' =>
      List.Forall₂ (Represents B h₀) l' (sts.map Station.countdown) ∧ w' = w := by
  induction h with
  | nil => exact ⟨List.Forall₂.nil, rfl⟩
  | @cons s st l sts hst _ ih =>
    rw [List.forall_mem_cons] at hpaced hpos
    simp only [tickServers, ensures_bind]
    apply (serverTick_represents hst hpaced.1 ht hpos.1).mono
    intro b w' hpost
    obtain ⟨rfl, hb⟩ := hpost
    apply (ih hpaced.2 hpos.2).mono
    intro l' w' hpost
    obtain ⟨hl', rfl⟩ := hpost
    exact ⟨List.Forall₂.cons hb hl', rfl⟩

/-- A service that may start takes time, unless the assertion on it is excused. -/
theorem startToServe_excused (hB : ∀ b, B b → 0 < b)
    (hover : (∀ b, B b → b ≤ 4) ∨ tol (.assertionFailed .startToServe)) {s : Server k}
    {st : Station ClientPtr} (h : Represents B h₀ s st) (hvalid : ∀ p ∈ st.jobs, (h₀ p).Valid) :
    ∀ p ∈ st.jobs, serviceTime s (h₀ p) ≤ 0 → tol (.assertionFailed .startToServe) := by
  intro p hp hle
  apply hover.resolve_left
  intro hle4
  have hge : (4 : ℚ) ≤ tableTime (h₀ p) := by exact_mod_cast tableTime_ge (hvalid p hp)
  have hpos := (one_le_serviceTime_iff (hvalid p hp) fun b hb => hB b (h.boost b hb)).mpr
    fun b hb => (hle4 b (h.boost b hb)).trans hge
  omega

/-- What the loop of `update_clients` over some servers leads to. -/
structure Served (B : ℚ → Prop) (h₀ h : Heap) (sts : List (Station ClientPtr))
    (result : ℕ × List (Station ClientPtr)) (l : List (Server k)) (w : World) : Prop where
  represents : List.Forall₂ (Represents B h₀) l result.2
  recorded : ∀ st ∈ result.2, Recorded h₀ w.heap st
  draws : w.draws = result.1
  frame : ∀ p, p ∉ sts.flatMap Station.jobs → w.heap p = h p

theorem updateClients_serves (htol : Excuses tol) (hB : ∀ b, B b → 0 < b)
    (hgranted : env.AllocationsSucceed) (ht : 0 ≤ t ∧ t < intMax)
    (hP : P.succeeds = attemptSucceeds env) {l : List (Server k)}
    {sts : List (Station ClientPtr)} (h : List.Forall₂ (Represents B h₀) l sts)
    (hrec : ∀ st ∈ sts, Recorded h₀ w.heap st) (hnodup : (sts.flatMap Station.jobs).Nodup)
    (hvalid : ∀ st ∈ sts, ∀ p ∈ st.jobs, (h₀ p).Valid)
    (hpaced : ∀ st ∈ sts, st.Paced (t + 1))
    (hover : (∀ b, B b → b ≤ 4) ∨ tol (.assertionFailed .startToServe)) :
    Ensures tol (updateClients env t l) w
      (Served B h₀ w.heap sts (Network.serveAll P t w.draws sts)) := by
  induction h generalizing w with
  | nil => exact ⟨List.Forall₂.nil, by simp [Network.serveAll], rfl, fun _ _ => rfl⟩
  | @cons s st l sts hst _ ih =>
    rw [List.forall_mem_cons] at hrec hvalid hpaced
    rw [List.flatMap_cons, List.nodup_append'] at hnodup
    obtain ⟨hst_nodup, hsts_nodup, hdisjoint⟩ := hnodup
    have hseparate : ∀ p ∈ st.jobs, p ∉ sts.flatMap Station.jobs := fun p hp => hdisjoint hp
    have houtcome : st.current.elim false (attemptSucceeds env w.draws st.profile) =
        Network.outcome P w.draws st := by rw [Network.outcome, hP]
    simp only [updateClients, ensures_bind]
    refine (serveServer_stepped htol hB hgranted hpaced.1 ht hst hrec.1 hst_nodup
      hvalid.1 (startToServe_excused hB hover hst hvalid.1)).mono ?_
    intro s₁ w₁ hpost
    obtain ⟨hs₁, hrec₁, hdraws₁, hframe₁⟩ := hpost
    rw [houtcome] at hs₁ hrec₁
    apply (serverUpdateStat_represents htol ht hs₁).mono
    intro s₂ w₂ hpost
    obtain ⟨hs₂, rfl⟩ := hpost
    have hrest : ∀ st' ∈ sts, Recorded h₀ w₂.heap st' := by
      intro st' hst'
      apply (hrec.2 st' hst').frame
      intro p hp
      apply hframe₁ p
      intro hmem
      exact hseparate p hmem (List.mem_flatMap.mpr ⟨st', hst', hp⟩)
    refine (ih hrest hsts_nodup hvalid.2 hpaced.2).mono ?_
    intro l' w' hpost
    obtain ⟨hl', hrec', hdraws', hframe'⟩ := hpost
    rw [hdraws₁] at hl' hrec' hdraws'
    refine ⟨List.Forall₂.cons hs₂ hl', List.forall_mem_cons.mpr ⟨?_, hrec'⟩, hdraws',
      fun p hp => ?_⟩
    · refine hrec₁.frame fun p hp => hframe' p (hseparate p ?_)
      exact (Station.jobs_serve t _ st).mem_iff.mp hp
    · rw [List.flatMap_cons, List.mem_append, not_or] at hp
      rw [hframe' p hp.2, hframe₁ p hp.1]

/-- `get_client` takes the head of the door if it arrives now, and resets its record. -/
theorem getClient_admits {N : Network ClientPtr} {q : Queue ClientPtr} (hq : Holds q N.door)
    (hheap : ∀ p ∈ N.door, w.heap p = h₀ p)
    (hP : ∀ p, P.arrival p = (h₀ p).serviceStat.arrivalTime) :
    Ensures tol (getClient env q t) w fun r w' =>
      r.1 = N.arriving P t ∧ Holds r.2 (N.receive P t).door ∧ w'.draws = w.draws ∧
        w'.heap = (N.arriving P t).elim w.heap fun p =>
          Function.update w.heap p (waitingRecord (h₀ p)) := by
  simp only [getClient, ensures_bind, hq.top, ensures_lift_ok]
  cases hdoor : N.door with
  | nil =>
    have harr : N.arriving P t = none := by simp [Network.arriving, hdoor]
    simp only [List.head?_nil, ensures_pure, harr, Network.receive_of_none harr, Option.elim,
      true_and, and_true]
    exact hq
  | cons p rest =>
    have hp : w.heap p = h₀ p := hheap p (by simp [hdoor])
    simp only [List.head?_cons, ensures_bind, ensures_readClient, hp]
    by_cases hnow : (h₀ p).serviceStat.arrivalTime = t
    · have harr : N.arriving P t = some p :=
        Network.arriving_eq_some.mpr ⟨by simp [hdoor], (hP p).trans hnow⟩
      rw [hdoor] at hq
      obtain ⟨q', hpop, hq'⟩ := hq.pop (env.granted w.requests)
      simp only [if_pos hnow, ensures_bind, ensures_nextGranted, hpop, ensures_lift_ok, if_true,
        ensures_writeClient, ensures_pure, harr, Network.receive_of_some harr, Option.elim,
        hdoor, List.tail_cons, true_and]
      exact ⟨hq', rfl⟩
    · have harr : N.arriving P t = none := by
        simp [Network.arriving, hdoor, hP, hnow]
      simp only [if_neg hnow, ensures_pure, harr, Network.receive_of_none harr, Option.elim,
        true_and, and_true]
      exact hq

/-- The system and its memory represent the network `N`: clients at the door
still have their first records, all others those of their stations. -/
structure Refines (B : ℚ → Prop) (h₀ : Heap) (m : ℕ) (sys : System) (w : World)
    (N : Network ClientPtr) : Prop where
  door : ∃ q, sys.systemClients = some q ∧ Holds q N.door
  stations : ∃ sts₁ sts₂, N.stations = sts₁ ++ sts₂ ∧ sts₁.length = m ∧
    SystemStations B h₀ sys sts₁ sts₂
  atDoor : ∀ p ∈ N.door, w.heap p = h₀ p
  recorded : ∀ st ∈ N.stations, Recorded h₀ w.heap st
  draws : w.draws = N.draws

theorem mem_modify {α : Type} {f : α → α} {l : List α} {i : ℕ} {b : α}
    (h : b ∈ l.modify i f) : b ∈ l ∨ ∃ a ∈ l, f a = b := by
  induction l generalizing i with
  | nil => simp at h
  | cons a rest ih =>
    cases i with
    | zero =>
      rcases List.mem_cons.mp (by simpa using h) with rfl | hb
      · exact Or.inr ⟨a, by simp, rfl⟩
      · exact Or.inl (by simp [hb])
    | succ i =>
      rw [List.modify_succ_cons] at h
      rcases List.mem_cons.mp h with rfl | hb
      · exact Or.inl (by simp)
      · rcases ih hb with hb | ⟨c, hc, rfl⟩
        · exact Or.inl (by simp [hb])
        · exact Or.inr ⟨c, by simp [hc], rfl⟩

/-- The first half of `system_tick` admits to the network. -/
theorem admitClient_admits (hgranted : env.AllocationsSucceed) {sys : System}
    {N : Network ClientPtr} (h : Refines B h₀ m sys w N)
    (hlen : ∀ st ∈ N.stations, (st.jobs.length : ℤ) < intMax) (hne : N.stations ≠ [])
    (hnodup : (N.door ++ N.stations.flatMap Station.jobs).Nodup) :
    Ensures tol (admitClient env sys t) w fun sys' w' =>
      Refines B h₀ m sys' w' (N.receive (policy env h₀ m) t) := by
  obtain ⟨q, hdoor, hq⟩ := h.door
  obtain ⟨sts₁, sts₂, hstations, hm, hservers⟩ := h.stations
  simp only [admitClient, hdoor, ensures_bind]
  apply (getClient_admits (P := policy env h₀ m) hq h.atDoor fun _ => rfl).mono
  intro r w₁ hpost
  obtain ⟨newClient, q'⟩ := r
  obtain ⟨rfl, hq', hdraws₁, hheap₁⟩ := hpost
  dsimp only at hq' ⊢
  cases harr : N.arriving (policy env h₀ m) t with
  | none =>
    rw [harr] at hheap₁
    simp only [Network.receive_of_none harr, ensures_pure] at hq' ⊢
    refine ⟨⟨q', rfl, hq'⟩, ⟨sts₁, sts₂, hstations, hm, ⟨hservers.standard, hservers.robotic⟩⟩,
      ?_, ?_, hdraws₁.trans h.draws⟩
    · rw [hheap₁]
      exact h.atDoor
    · rw [hheap₁]
      exact h.recorded
  | some p =>
    rw [harr] at hheap₁
    simp only [Option.elim] at hheap₁
    obtain ⟨-, htail, hout⟩ := Network.arriving_separate harr hnodup
    have hrecord : w₁.heap p = waitingRecord (h₀ p) := by rw [hheap₁, Function.update_self]
    have hroute : (policy env h₀ m).route p N.stations =
        routeIndex (h₀ p).disabilityType sts₁.length (sts₁ ++ sts₂) := by
      have hlt := routeIndex_lt (d := (h₀ p).disabilityType) (hstations ▸ hlen) (hstations ▸ hne)
      simp only [policy, hstations, ← hm, if_pos hlt]
    have hrec₁ : ∀ st ∈ N.stations, Recorded h₀ w₁.heap st := by
      intro st hst
      apply (h.recorded st hst).frame
      intro r hr
      have hne : r ≠ p := fun heq => hout st hst (heq ▸ hr)
      rw [hheap₁, Function.update_of_ne hne]
    have hsys : SystemStations B h₀ { sys with systemClients := some q' } sts₁ sts₂ :=
      ⟨hservers.standard, hservers.robotic⟩
    refine (assignClient_admits hgranted hsys (hstations ▸ hlen) (hstations ▸ hne)
      hrecord).mono ?_
    intro sys' w' hpost
    obtain ⟨hclients, hheap', hdraws', sts₁', sts₂', hmodify, hm', hservers'⟩ := hpost
    rw [Network.receive_of_some harr] at hq' ⊢
    refine ⟨⟨q', hclients, hq'⟩, ⟨sts₁', sts₂', ?_, hm'.trans hm, hservers'⟩, ?_, ?_,
      hdraws'.trans (hdraws₁.trans h.draws)⟩
    · dsimp only
      rw [hroute, hstations, hmodify]
    · intro r hr
      have hne : r ≠ p := fun heq => htail (heq ▸ hr)
      rw [hheap', hheap₁, Function.update_of_ne hne]
      exact h.atDoor r (List.mem_of_mem_tail hr)
    · intro st hst
      rw [hheap']
      rcases mem_modify hst with hst | ⟨st', hst', rfl⟩
      · exact hrec₁ st hst
      · exact Recorded.receive (hrec₁ st' hst') hrecord

theorem serversUpdateServeTime_counts (ht : t < intMax) {sys : System}
    {sts₁ sts₂ : List (Station ClientPtr)} (h : SystemStations B h₀ sys sts₁ sts₂)
    (hpaced : ∀ st ∈ sts₁ ++ sts₂, st.Paced t)
    (hpos : ∀ st ∈ sts₁ ++ sts₂, ∀ a ∈ st.current, 1 ≤ a.remaining) :
    Ensures tol (serversUpdateServeTime sys) w fun sys' w' =>
      sys'.systemClients = sys.systemClients ∧ w' = w ∧
        SystemStations B h₀ sys' (sts₁.map Station.countdown) (sts₂.map Station.countdown) := by
  rw [List.forall_mem_append] at hpaced hpos
  simp only [serversUpdateServeTime, ensures_bind]
  refine (tickServers_counts ht h.standard hpaced.1 hpos.1).mono ?_
  intro standard w₁ hpost
  obtain ⟨hstandard, rfl⟩ := hpost
  refine (tickServers_counts ht h.robotic hpaced.2 hpos.2).mono ?_
  intro robotic w₂ hpost
  obtain ⟨hrobotic, rfl⟩ := hpost
  exact ⟨rfl, rfl, hstandard, hrobotic⟩

theorem flatMap_jobs_countdown (sts : List (Station ClientPtr)) :
    (sts.map Station.countdown).flatMap Station.jobs = sts.flatMap Station.jobs := by
  simp [List.flatMap_map]

/-- The loop of `update_clients` after the tick of the same servers. -/
theorem updateClients_serves_countdown (htol : Excuses tol) (hB : ∀ b, B b → 0 < b)
    (hgranted : env.AllocationsSucceed) (ht : 0 ≤ t ∧ t < intMax)
    (hP : P.succeeds = attemptSucceeds env) {l : List (Server k)}
    {sts : List (Station ClientPtr)}
    (h : List.Forall₂ (Represents B h₀) l (sts.map Station.countdown))
    (hrec : ∀ st ∈ sts, Recorded h₀ w.heap st) (hnodup : (sts.flatMap Station.jobs).Nodup)
    (hvalid : ∀ st ∈ sts, ∀ p ∈ st.jobs, (h₀ p).Valid)
    (hpaced : ∀ st ∈ sts, st.Paced t)
    (hover : (∀ b, B b → b ≤ 4) ∨ tol (.assertionFailed .startToServe)) :
    Ensures tol (updateClients env t l) w (Served B h₀ w.heap (sts.map Station.countdown)
      (Network.serveAll P t w.draws (sts.map Station.countdown))) := by
  apply updateClients_serves htol hB hgranted ht hP h
  · intro st hst
    obtain ⟨st', hst', rfl⟩ := List.mem_map.mp hst
    exact (hrec st' hst').countdown
  · rwa [flatMap_jobs_countdown]
  · intro st hst
    obtain ⟨st', hst', rfl⟩ := List.mem_map.mp hst
    rw [Station.jobs_countdown]
    exact hvalid st' hst'
  · intro st hst
    obtain ⟨st', hst', rfl⟩ := List.mem_map.mp hst
    exact (hpaced st' hst').countdown
  · exact hover

/-- The second half of `system_tick` is the tick of all stations. -/
theorem serversRun_serves (htol : Excuses tol) (hB : ∀ b, B b → 0 < b)
    (hgranted : env.AllocationsSucceed) (ht : 0 ≤ t ∧ t < intMax) {sys : System}
    {N : Network ClientPtr} (h : Refines B h₀ m sys w N)
    (hP : P.succeeds = attemptSucceeds env)
    (hpos : ∀ st ∈ N.stations, ∀ a ∈ st.current, 1 ≤ a.remaining)
    (hpaced : ∀ st ∈ N.stations, st.Paced t)
    (hnodup : (N.door ++ N.stations.flatMap Station.jobs).Nodup)
    (hvalid : ∀ st ∈ N.stations, ∀ p ∈ st.jobs, (h₀ p).Valid)
    (hover : (∀ b, B b → b ≤ 4) ∨ tol (.assertionFailed .startToServe)) :
    Ensures tol (serversRun env sys t) w fun sys' w' =>
      Refines B h₀ m sys' w'
        { N with
          stations := (Network.serveAll P t N.draws (N.stations.map Station.countdown)).2
          draws := (Network.serveAll P t N.draws (N.stations.map Station.countdown)).1 } := by
  obtain ⟨q, hdoor, hq⟩ := h.door
  obtain ⟨sts₁, sts₂, hstations, hm, hservers⟩ := h.stations
  have hrecorded := h.recorded
  rw [hstations] at hpos hpaced hnodup hvalid hrecorded
  rw [List.flatMap_append, List.nodup_append', List.nodup_append'] at hnodup
  obtain ⟨-, ⟨hjobs₁, hjobs₂, hdisjoint⟩, houtside⟩ := hnodup
  have hseparate : ∀ p ∈ sts₁.flatMap Station.jobs, p ∉ sts₂.flatMap Station.jobs :=
    fun p hp => hdisjoint hp
  simp only [serversRun, ensures_bind]
  apply (serversUpdateServeTime_counts ht.2 hservers hpaced hpos).mono
  intro sys₂ w₂ hpost
  obtain ⟨hclients₂, rfl, hservers₂⟩ := hpost
  rw [List.forall_mem_append] at hrecorded hvalid hpaced
  refine (updateClients_serves_countdown htol hB hgranted ht hP hservers₂.standard
    hrecorded.1 hjobs₁ hvalid.1 hpaced.1 hover).mono ?_
  intro standard w₃ hserved₁
  have hframe₁ := hserved₁.frame
  rw [flatMap_jobs_countdown] at hframe₁
  have hrecorded₂ : ∀ st ∈ sts₂, Recorded h₀ w₃.heap st := by
    intro st hst
    apply (hrecorded.2 st hst).frame
    intro p hp
    apply hframe₁ p
    intro hp₁
    exact hseparate p hp₁ (List.mem_flatMap.mpr ⟨st, hst, hp⟩)
  refine (updateClients_serves_countdown htol hB hgranted ht hP hservers₂.robotic
    hrecorded₂ hjobs₂ hvalid.2 hpaced.2 hover).mono ?_
  intro robotic w₄ hserved₂
  have hframe₂ := hserved₂.frame
  rw [flatMap_jobs_countdown] at hframe₂
  have hserve : Network.serveAll P t N.draws (N.stations.map Station.countdown) =
      ((Network.serveAll P t w₃.draws (sts₂.map Station.countdown)).1,
        (Network.serveAll P t w₂.draws (sts₁.map Station.countdown)).2 ++
          (Network.serveAll P t w₃.draws (sts₂.map Station.countdown)).2) := by
    rw [hstations, List.map_append, Network.serveAll_append, hserved₁.draws, h.draws]
  rw [hserve]
  refine ⟨⟨q, hclients₂.trans hdoor, hq⟩, ⟨_, _, rfl, ?_, hserved₁.represents,
    hserved₂.represents⟩, ?_, ?_, hserved₂.draws⟩
  · simpa using hm
  · intro p hp
    have hout : p ∉ sts₁.flatMap Station.jobs ++ sts₂.flatMap Station.jobs := fun hmem =>
      houtside hp hmem
    rw [List.mem_append, not_or] at hout
    rw [hframe₂ p hout.2, hframe₁ p hout.1]
    exact h.atDoor p hp
  · refine List.forall_mem_append.mpr ⟨fun st hst => ?_, hserved₂.recorded⟩
    refine (hserved₁.recorded st hst).frame fun p hp => hframe₂ p (hseparate p ?_)
    exact (Network.jobs_serveAll w₂.draws sts₁).mem_iff.mp (List.mem_flatMap.mpr ⟨st, hst, hp⟩)

theorem exists_represented {l : List (Server k)} {sts : List (Station ClientPtr)}
    (h : List.Forall₂ (Represents B h₀) l sts) {st : Station ClientPtr} (hst : st ∈ sts) :
    ∃ s ∈ l, Represents B h₀ s st := by
  induction h with
  | nil => simp at hst
  | cons hs _ ih =>
    rcases List.mem_cons.mp hst with rfl | hst
    · exact ⟨_, List.mem_cons_self, hs⟩
    · obtain ⟨s, hs, hrep⟩ := ih hst
      exact ⟨s, List.mem_cons_of_mem _ hs, hrep⟩

theorem Refines.worked {sys : System} {N : Network ClientPtr} (h : Refines B h₀ m sys w N) :
    ∀ st ∈ N.stations, ∀ a ∈ st.current, 1 ≤ st.profile.work a.job := by
  obtain ⟨sts₁, sts₂, hstations, -, hservers⟩ := h.stations
  intro st hst
  rw [hstations] at hst
  rcases List.mem_append.mp hst with hst | hst
  · obtain ⟨s, -, hrep⟩ := exists_represented hservers.standard hst
    exact hrep.worked
  · obtain ⟨s, -, hrep⟩ := exists_represented hservers.robotic hst
    exact hrep.worked

/-- One tick of the system is one tick of the network. -/
theorem systemTick_refines (htol : Excuses tol)
    (hB : ∀ b, B b → 0 < b) (hgranted : env.AllocationsSucceed) {sys : System}
    {N : Network ClientPtr} {door gone : List ClientPtr} (h : Refines B h₀ m sys w N)
    (hprogress : Network.Progress (policy env h₀ m) door n gone N)
    (hist : Network.Historic (policy env h₀ m) n N) (hdoor : door.Nodup)
    (hvalid : ∀ p ∈ door, (h₀ p).Valid) (hne : N.stations ≠ []) (hn : (n : ℤ) < intMax)
    (hover : (∀ b, B b → b ≤ 4) ∨ tol (.assertionFailed .startToServe)) :
    Ensures tol (systemTick env sys n) w fun sys' w' =>
      Refines B h₀ m sys' w' (N.tick (policy env h₀ m) n) := by
  obtain ⟨gone', hsplit, hheld, -, -, hcount⟩ := hprogress.receive hne
  have hplaces : ((N.receive (policy env h₀ m) n).door ++
      (N.receive (policy env h₀ m) n).stations.flatMap Station.jobs).Perm door := by
    rw [← hsplit]
    exact List.perm_append_comm.trans (hheld.append_right _)
  have hlen : ∀ st ∈ N.stations, (st.jobs.length : ℤ) < intMax := fun st hst => by
    have hle := hprogress.length_jobs_le hst
    omega
  simp only [systemTick, ensures_bind]
  apply (admitClient_admits hgranted h hlen hne (hprogress.nodup_places hdoor)).mono
  intro sys₁ w₁ h₁
  refine serversRun_serves htol hB hgranted ⟨Int.natCast_nonneg n, hn⟩ h₁ rfl ?_ ?_
    (hplaces.nodup_iff.mpr hdoor) ?_ hover
  · intro st hst
    obtain ⟨i, s, hs, rfl⟩ := Network.mem_receive hst
    simpa using (hist s (List.mem_of_getElem? hs)).settled.remaining_pos
  · intro st hst
    obtain ⟨i, s, hs, rfl⟩ := Network.mem_receive hst
    exact (hist s (List.mem_of_getElem? hs)).paced.receiveAll _
  · intro st hst p hp
    refine hvalid p (hplaces.mem_iff.mp (List.mem_append_right _ ?_))
    exact List.mem_flatMap.mpr ⟨st, hst, hp⟩

/-- The loop of `simulate` follows the run of the network. -/
theorem simulateLoop_refines (htol : Excuses tol)
    (hB : ∀ b, B b → 0 < b) (hgranted : env.AllocationsSucceed) {sys : System}
    {N : Network ClientPtr} (h : Refines B h₀ m sys w N) (hfresh : Network.Fresh N)
    (hist : Network.Historic (policy env h₀ m) 0 N) (hvalid : ∀ p ∈ N.door, (h₀ p).Valid)
    (hn : (n : ℤ) ≤ intMax)
    (hover : (∀ b, B b → b ≤ 4) ∨ tol (.assertionFailed .startToServe)) :
    Ensures tol (simulateLoop env sys n) w fun sys' w' =>
      Refines B h₀ m sys' w' (N.run (policy env h₀ m) n) ∧
        Network.Historic (policy env h₀ m) n (N.run (policy env h₀ m) n) := by
  induction n with
  | zero => exact ⟨h, hist⟩
  | succ n ih =>
    push_cast at hn
    simp only [simulateLoop, ensures_bind]
    apply (ih (by omega)).mono
    intro sys₁ w₁ hpost
    obtain ⟨h₁, hist₁⟩ := hpost
    obtain ⟨gone, hgone⟩ := hfresh.progress (P := policy env h₀ m) n
    have hne : (N.run (policy env h₀ m) n).stations ≠ [] := by
      have hpos := List.length_pos_iff.mpr hfresh.nonempty
      rw [← List.length_pos_iff]
      simpa using hpos
    refine (systemTick_refines htol hB hgranted h₁ hgone hist₁ hfresh.nodup hvalid hne
      (by omega) hover).mono ?_
    intro sys₂ w₂ h₂
    exact ⟨h₂, hist₁.tick h₂.worked⟩

end AcaBSim.Simulation
