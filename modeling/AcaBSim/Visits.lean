import AcaBSim.Scenarios
import AcaBSim.Sweeps

/-!
A tick seen as the visits that `update_clients` pays to the servers one by one.
Admission and the tick of the services leave the books of a server alone, so
what every visit does to them and to the world tells what the tick does, and a
condition on the visits of a run restricts it.
-/
namespace AcaBSim.Visits

open Machine ArrayQueue Clients Servers Systems Outcome Scenarios Sweeps

variable {k : ServerType} {env : Env} {t : ℤ} {w : World}

/-- The loop body of `update_clients`. -/
def visit (env : Env) (t : ℤ) (s : Server k) : Prog (Server k) := do
  let s ← serveServer env s t
  serverUpdateStat s t

/-- The loop body of `servers_update_serve_time`. -/
def tickServer (s : Server k) : Prog (Server k) := do
  let base ← serverTick s.base
  pure (s.withBase base)

theorem updateClients_eq (l : List (Server k)) :
    updateClients env t l = sweep (visit env t) l := by
  induction l with
  | nil => rfl
  | cons s rest ih =>
    rw [updateClients, sweep, visit, ih]
    simp only [bind_assoc]

theorem tickServers_eq (l : List (Server k)) : tickServers l = sweep tickServer l := by
  induction l with
  | nil => rfl
  | cons s rest ih =>
    rw [tickServers, sweep, tickServer, ih]
    simp only [bind_assoc, pure_bind]

/-- The visits of a tick meet the condition `V`. -/
def TickMeets (V : AnyServer → World → Prop) (env : Env) (t : ℤ) (sys : System)
    (w : World) : Prop :=
  Ensures (fun _ => True) (admitClient env sys t) w fun sys w =>
    Ensures (fun _ => True) (serversUpdateServeTime sys) w fun sys w =>
      Meets (visit env t) (fun s => V ⟨_, s⟩) sys.standardServers w ∧
        Ensures (fun _ => True) (updateClients env t sys.standardServers) w fun _ w =>
          Meets (visit env t) (fun s => V ⟨_, s⟩) sys.roboticServers w

/-- The visits of the first `n` ticks of the loop of `simulate` meet the condition. -/
def LoopMeets (V : ℤ → AnyServer → World → Prop) (env : Env) (sys : System) (w : World)
    (n : ℕ) : Prop :=
  ∀ u < n, Ensures (fun _ => True) (simulateLoop env sys u) w fun sys w =>
    TickMeets (V u) env u sys w

/-- The books of a server: what neither `server_tick` nor the start of a service
writes. -/
def book (s : Server k) : BaseServer :=
  { s.base with
    currentClient := none
    toServe := 0
    stat := { s.base.stat with activeTime := 0, idleTime := 0 } }

def books (sys : System) : List BaseServer := (servers sys).map fun s => book s.2

/-- No draw is made, and the only statistics touched are those erased. -/
def AdmitsOnly (w w' : World) : Prop :=
  w'.draws = w.draws ∧ ∀ p, (w'.heap p).serviceStat = (w.heap p).serviceStat ∨
    (w'.heap p).serviceStat = .zero

theorem books_eq (sys : System) :
    books sys = sys.standardServers.map book ++ sys.roboticServers.map book := by
  rw [books, servers, List.map_append, List.map_map, List.map_map]
  rfl

@[simp] theorem base_withBase (b : BaseServer) (s : Server k) : (s.withBase b).base = b := by
  cases s <;> rfl

/-- `get_client` touches the record of the client it returns. -/
theorem getClient_admitsOnly (q : Queue ClientPtr) :
    Ensures (fun _ => True) (getClient env q t) w fun _ w' => AdmitsOnly w w' := by
  simp only [getClient, ensures_bind]
  apply ensures_lift_any
  intro top _
  cases top with
  | none => exact ⟨rfl, fun _ => Or.inl rfl⟩
  | some p =>
    simp only [ensures_bind, ensures_readClient]
    split
    · simp only [ensures_bind, ensures_nextGranted]
      apply ensures_lift_any
      intro result _
      split
      · simp only [ensures_bind, ensures_writeClient, ensures_pure]
        refine ⟨rfl, fun r => ?_⟩
        by_cases hr : r = p
        · subst hr
          exact Or.inr (by simp)
        · exact Or.inl (by simp [Function.update_of_ne hr])
      · trivial
    · exact ⟨rfl, fun _ => Or.inl rfl⟩

/-- `server_assign_client` touches the waiting queues alone. -/
theorem serverAssignClient_base (s : Server k) (p : ClientPtr) :
    Ensures (fun _ => True) (serverAssignClient env s p) w fun r w' =>
      r.2.base = s.base ∧ w'.heap = w.heap ∧ w'.draws = w.draws := by
  cases s with
  | standard s =>
    simp only [serverAssignClient, assignClientToStandardServer, ensures_bind,
      ensures_nextGranted]
    exact ensures_lift_any fun _ _ => ⟨rfl, rfl, rfl⟩
  | robotic s =>
    simp only [serverAssignClient, assignClientToRoboticServer, ensures_bind, ensures_readClient]
    split
    · simp only [ensures_bind, ensures_nextGranted]
      exact ensures_lift_any fun _ _ => ⟨rfl, rfl, rfl⟩
    · simp only [ensures_bind, ensures_nextGranted]
      exact ensures_lift_any fun _ _ => ⟨rfl, rfl, rfl⟩

theorem assignTo_books (l : List (Server k)) (selected : Option ℕ) (p : ClientPtr) :
    Ensures (fun _ => True) (assignTo env l selected p) w fun l' w' =>
      l'.map book = l.map book ∧ w'.heap = w.heap ∧ w'.draws = w.draws := by
  cases selected with
  | none => trivial
  | some i =>
    cases hs : l[i]? with
    | none => simp [assignTo, hs]
    | some s =>
      simp only [assignTo, hs, ensures_bind]
      apply (serverAssignClient_base s p).mono
      intro r w' hpost
      obtain ⟨hbase, hworld⟩ := hpost
      have hbook : book r.2 = book s := by rw [book, book, hbase]
      obtain ⟨hi, rfl⟩ := List.getElem?_eq_some_iff.mp hs
      refine ⟨?_, hworld⟩
      rw [List.map_set, hbook, ← List.getElem_map book (h := by simpa using hi)]
      exact List.set_getElem_self _

/-- `assign_client` leaves all books alone. -/
theorem assignClient_books (sys : System) (p : ClientPtr) :
    Ensures (fun _ => True) (assignClient env sys p) w fun sys' w' =>
      books sys' = books sys ∧ w'.heap = w.heap ∧ w'.draws = w.draws := by
  have hstandard : ∀ selected, Ensures (fun _ => True) (assignStandard env sys selected p) w
      fun sys' w' => books sys' = books sys ∧ w'.heap = w.heap ∧ w'.draws = w.draws := by
    intro selected
    rw [assignStandard, ensures_bind]
    apply (assignTo_books _ selected p).mono
    intro l w' hpost
    obtain ⟨hkept, hworld⟩ := hpost
    exact ⟨by rw [books_eq, books_eq, hkept], hworld⟩
  have hrobotic : ∀ selected, Ensures (fun _ => True) (assignRobotic env sys selected p) w
      fun sys' w' => books sys' = books sys ∧ w'.heap = w.heap ∧ w'.draws = w.draws := by
    intro selected
    rw [assignRobotic, ensures_bind]
    apply (assignTo_books _ selected p).mono
    intro l w' hpost
    obtain ⟨hkept, hworld⟩ := hpost
    exact ⟨by rw [books_eq, books_eq, hkept], hworld⟩
  simp only [assignClient, ensures_bind, ensures_readClient]
  split
  · trivial
  · split
    · exact hrobotic _
    · split
      · exact hrobotic _
      · split
        · exact hstandard _
        · split
          · exact hrobotic _
          · exact hstandard _

theorem admitClient_books (sys : System) :
    Ensures (fun _ => True) (admitClient env sys t) w fun sys' w' =>
      books sys' = books sys ∧ AdmitsOnly w w' := by
  unfold admitClient
  cases sys.systemClients with
  | none => trivial
  | some q =>
    simp only [ensures_bind]
    apply (getClient_admitsOnly q).mono
    intro r w₁ hadmits
    obtain ⟨newClient, q'⟩ := r
    cases newClient with
    | none => exact ⟨rfl, hadmits⟩
    | some p =>
      apply (assignClient_books _ p).mono
      intro sys' w' hpost
      obtain ⟨hbooks, hheap, hdraws⟩ := hpost
      exact ⟨hbooks, by rw [hdraws, hadmits.1], fun q => by rw [hheap]; exact hadmits.2 q⟩

/-- `server_tick` writes no more than the times. -/
theorem tickServer_book (s : Server k) :
    Ensures (fun _ => True) (tickServer s) w fun s' w' => book s' = book s ∧ w' = w := by
  simp only [tickServer, ensures_bind, serverTick]
  split
  · split
    · simp only [ensures_lift_bind]
      apply ensures_checkInt trivial
      intro _
      simp [book]
    · trivial
  · simp only [ensures_lift_bind]
    apply ensures_checkInt trivial
    intro _
    simp [book]

theorem tickServers_books (l : List (Server k)) :
    Ensures (fun _ => True) (tickServers l) w fun l' w' =>
      l'.map book = l.map book ∧ w' = w := by
  rw [tickServers_eq]
  apply (ensures_sweep_all fun s _ w => tickServer_book s).mono
  intro l' w' hswept
  have hsame : List.Forall₂ (fun s s' => book s = book s') l l' :=
    hswept.forall₂ fun _ _ _ _ h => h.1.symm
  have hmaps : List.Forall₂ Eq (l.map book) (l'.map book) := by
    simpa only [List.forall₂_map_left_iff, List.forall₂_map_right_iff] using hsame
  exact ⟨(List.forall₂_eq_eq_eq ▸ hmaps : l.map book = l'.map book).symm,
    hswept.state (P := fun w w' => w' = w) (fun _ => rfl) (fun _ _ _ h h' => h'.trans h)
      fun _ _ _ _ h => h.2⟩

theorem serversUpdateServeTime_books (sys : System) :
    Ensures (fun _ => True) (serversUpdateServeTime sys) w fun sys' w' =>
      books sys' = books sys ∧ w' = w := by
  simp only [serversUpdateServeTime, ensures_bind]
  apply (tickServers_books sys.standardServers).mono
  intro standard w₁ hpost
  obtain ⟨hstandard, rfl⟩ := hpost
  apply (tickServers_books sys.roboticServers).mono
  intro robotic w₂ hpost
  obtain ⟨hrobotic, rfl⟩ := hpost
  exact ⟨by rw [books_eq, books_eq, hstandard, hrobotic], rfl⟩

/-- What each visit does to the books of its server and to the world tells what
a tick does, if its visits meet a condition. -/
theorem systemTick_visits {V : AnyServer → World → Prop}
    {R : BaseServer → World → AnyServer → World → Prop}
    (hvisit : ∀ (k : ServerType) (s : Server k) (w : World), V ⟨k, s⟩ w →
      Ensures (fun _ => True) (visit env t s) w fun s' w' => R (book s) w ⟨k, s'⟩ w')
    {sys : System} (hmeets : TickMeets V env t sys w) :
    Ensures (fun _ => True) (systemTick env sys t) w fun sys' w' =>
      ∃ w₁, AdmitsOnly w w₁ ∧ Swept R (books sys) w₁ (servers sys') w' := by
  simp only [systemTick, serversRun, ensures_bind]
  apply ((admitClient_books sys).and hmeets).mono
  intro sys₁ w₁ hpost
  obtain ⟨⟨hbooks₁, hadmits⟩, hmeets₁⟩ := hpost
  apply ((serversUpdateServeTime_books sys₁).and hmeets₁).mono
  intro sys₂ w₂ hpost
  obtain ⟨⟨hbooks₂, hworld⟩, hstandard, hmeets₂⟩ := hpost
  subst hworld
  have hswept : ∀ {k : ServerType} {l : List (Server k)} {w : World},
      Meets (visit env t) (fun s => V ⟨k, s⟩) l w →
      Ensures (fun _ => True) (updateClients env t l) w fun l' w' =>
        Swept R (l.map book) w (l'.map (Sigma.mk k)) w' := by
    intro k l w hl
    rw [updateClients_eq]
    apply (ensures_sweep (fun s _ w => hvisit k s w) hl).mono
    intro l' w' h
    exact h.map fun _ _ _ _ hR => hR
  apply ((hswept hstandard).and hmeets₂).mono
  intro standard w₃ hpost
  obtain ⟨hswept₃, hrobotic⟩ := hpost
  apply (hswept hrobotic).mono
  intro robotic w₄ hswept₄
  refine ⟨w₂, hadmits, ?_⟩
  rw [← hbooks₁, ← hbooks₂, books_eq]
  exact hswept₃.append hswept₄

/-- What the results of a tick that returns say about its visits. -/
theorem tickMeets_of_results {V : AnyServer → World → Prop} {G : BaseServer → AnyServer → Prop}
    (hvisit : ∀ (k : ServerType) (s : Server k) (w : World),
      Ensures (fun _ => True) (visit env t s) w fun s' _ => G (book s) ⟨k, s'⟩ → V ⟨k, s⟩ w)
    {sys sys' : System} {w' : World} (hrun : systemTick env sys t w = .ok (sys', w'))
    (hG : List.Forall₂ G (books sys) (servers sys')) : TickMeets V env t sys w := by
  have htick : Ensures (fun _ => True) (systemTick env sys t) w fun sys' _ =>
      List.Forall₂ G (books sys) (servers sys') → TickMeets V env t sys w := by
    have hlist : ∀ {k : ServerType} {l l' : List (Server k)} {w w' : World},
        updateClients env t l w = .ok (l', w') →
        List.Forall₂ G (l.map book) (l'.map (Sigma.mk k)) →
        Meets (visit env t) (fun s => V ⟨k, s⟩) l w := by
      intro k l l' w w' hupdate hforall
      rw [updateClients_eq] at hupdate
      rw [List.forall₂_map_left_iff, List.forall₂_map_right_iff] at hforall
      exact meets_of_results (fun s w => hvisit k s w) hupdate hforall
    simp only [systemTick, serversRun, ensures_bind]
    refine ensures_any fun sys₁ w₁ hadmit => ensures_any fun sys₂ w₂ hcount =>
      ensures_any fun standard w₃ hstandard => ensures_any fun robotic w₄ hrobotic => ?_
    intro hforall
    have hbooks : books sys = books sys₂ :=
      (((ensures_of_ok hcount).mp (serversUpdateServeTime_books sys₁)).1.trans
        ((ensures_of_ok hadmit).mp (admitClient_books sys)).1).symm
    rw [hbooks, books_eq] at hforall
    have hlength : (sys₂.standardServers.map book).length =
        (standard.map (Sigma.mk ServerType.standard)).length := by
      rw [updateClients_eq] at hstandard
      have hswept := (ensures_of_ok hstandard).mp (ensures_sweep_all (R := fun _ _ _ _ => True)
        fun _ _ _ => ensures_any fun _ _ _ => trivial)
      simpa using (hswept.forall₂ (P := fun _ _ => True) fun _ _ _ _ h => h).length_eq
    have hforall₁ := List.forall₂_take_append _ _ _ hforall
    have hforall₂ := List.forall₂_drop_append _ _ _ hforall
    rw [← hlength, List.take_left] at hforall₁
    rw [← hlength, List.drop_left] at hforall₂
    refine (ensures_of_ok hadmit).mpr ((ensures_of_ok hcount).mpr ⟨hlist hstandard hforall₁, ?_⟩)
    exact (ensures_of_ok hstandard).mpr (hlist hrobotic hforall₂)
  exact (ensures_of_ok hrun).mp htick hG

theorem tickMeets_of_forall {V : AnyServer → World → Prop} (hV : ∀ s w, V s w) (sys : System) :
    TickMeets V env t sys w := by
  refine ensures_any fun sys₁ w₁ _ => ensures_any fun sys₂ w₂ _ => ⟨?_, ?_⟩
  · exact meets_of_forall (fun s => hV ⟨_, s⟩) _ w₂
  · exact ensures_any fun _ w₃ _ => meets_of_forall (fun s => hV ⟨_, s⟩) _ w₃

theorem loopMeets_of_forall {V : ℤ → AnyServer → World → Prop} (hV : ∀ t s w, V t s w)
    (sys : System) (n : ℕ) : LoopMeets V env sys w n :=
  fun u _ => ensures_any fun sys _ _ => tickMeets_of_forall (hV u) sys

theorem LoopMeets.mono {V : ℤ → AnyServer → World → Prop} {sys : System} {m n : ℕ}
    (h : LoopMeets V env sys w n) (hm : m ≤ n) : LoopMeets V env sys w m :=
  fun u hu => h u (hu.trans_le hm)

theorem loopMeets_succ {V : ℤ → AnyServer → World → Prop} {sys : System} {n : ℕ} :
    LoopMeets V env sys w (n + 1) ↔ LoopMeets V env sys w n ∧
      Ensures (fun _ => True) (simulateLoop env sys n) w fun sys w =>
        TickMeets (V n) env n sys w := by
  constructor
  · intro hmeets
    exact ⟨fun u hu => hmeets u (hu.trans (Nat.lt_succ_self n)), hmeets n (Nat.lt_succ_self n)⟩
  · intro hmeets u hu
    rcases Nat.lt_succ_iff_lt_or_eq.mp hu with hu | rfl
    · exact hmeets.1 u hu
    · exact hmeets.2

/-- What every tick keeps, the loop keeps, if its visits meet the condition. -/
theorem simulateLoop_keeps {V : ℤ → AnyServer → World → Prop} {I : ℕ → System → World → Prop}
    {sys : System} {n : ℕ} (hstart : I 0 sys w)
    (hstep : ∀ m sys w, m < n → I m sys w → TickMeets (V m) env m sys w →
      Ensures (fun _ => True) (systemTick env sys m) w (I (m + 1)))
    (hmeets : LoopMeets V env sys w n) :
    Ensures (fun _ => True) (simulateLoop env sys n) w (I n) := by
  induction n with
  | zero => exact hstart
  | succ n ih =>
    obtain ⟨hbefore, hlast⟩ := loopMeets_succ.mp hmeets
    rw [simulateLoop, ensures_bind]
    have hrun := ih (fun m sys w hm => hstep m sys w (hm.trans (Nat.lt_succ_self n))) hbefore
    apply (hrun.and hlast).mono
    intro sys₁ w₁ hpost
    exact hstep n sys₁ w₁ (Nat.lt_succ_self n) hpost.1 hpost.2

/-- What every visit keeps of the books of its server, the loop keeps of all books. -/
theorem simulateLoop_keeps_books {V : ℤ → AnyServer → World → Prop} {P : ℕ → BaseServer → Prop}
    {sys : System} {n : ℕ} (hstart : ∀ b ∈ books sys, P 0 b)
    (hvisit : ∀ (m : ℕ) (k : ServerType) (s : Server k) (w : World), m < n → V m ⟨k, s⟩ w →
      Ensures (fun _ => True) (visit env m s) w fun s' _ => P m (book s) → P (m + 1) (book s'))
    (hmeets : LoopMeets V env sys w n) :
    Ensures (fun _ => True) (simulateLoop env sys n) w fun sys' _ => ∀ b ∈ books sys', P n b := by
  refine simulateLoop_keeps (I := fun m sys _ => ∀ b ∈ books sys, P m b) hstart ?_ hmeets
  intro m sys w hm hkept hvisits
  apply (systemTick_visits (R := fun b _ s' _ => P m b → P (m + 1) (book s'.2))
    (fun k s w hV => hvisit m k s w hm hV) hvisits).mono
  intro sys' w' hpost
  obtain ⟨w₁, -, hswept⟩ := hpost
  rw [books, List.forall_mem_map]
  exact hswept.elements (fun _ _ _ _ hkept => hkept) hkept

end AcaBSim.Visits
