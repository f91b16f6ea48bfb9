import AcaBSim.Visits
import AcaBSim.Conservation

/-!
What one visit of `update_clients` can do: nothing to the books, or enter one
success or one failure into them, and then one more queue length. Whatever is
true of all visits of a run is read off these cases.
-/
namespace AcaBSim.VisitEffects

open Machine ArrayQueue Clients Servers Systems Outcome Conservation Visits

variable {k : ServerType} {env : Env} {t : ℤ} {w : World} {s : Server k}

def failuresOf (h : Heap) (p : ClientPtr) : ℤ := (h p).serviceStat.failureCount

/-- The effects of `serve_server`: no attempt ends, or one ends well, or badly. -/
inductive Serves (env : Env) (s : Server k) (w : World) (s' : Server k) (w' : World) : Prop
  | nothing (hbook : book s' = book s) (hdraws : w'.draws = w.draws)
      (hfailures : failuresOf w'.heap = failuresOf w.heap)
  | success (p : ClientPtr) (pushed : Bool) (q : Queue ClientPtr)
      (hdone : serverIsServiceFinished s = true)
      (hpush : queuePush (env.granted w.requests) s.base.finishedClientsQueue (some p) =
        .ok (pushed, q))
      (hattempt : serverIsServiceSuccessful env s w = .ok (true, { w with draws := w.draws + 1 }))
      (hbook : book s' = { book s with
        finishedClientsQueue := q
        stat := { (book s).stat with clientServed := (book s).stat.clientServed + 1 } })
      (hdraws : w'.draws = w.draws + 1) (hfailures : failuresOf w'.heap = failuresOf w.heap)
  | failure (p : ClientPtr) (hdone : serverIsServiceFinished s = true)
      (hattempt : serverIsServiceSuccessful env s w = .ok (false, { w with draws := w.draws + 1 }))
      (hbook : book s' = { book s with
        stat := { (book s).stat with failureCount := (book s).stat.failureCount + 1 } })
      (hdraws : w'.draws = w.draws + 1)
      (hfailures : failuresOf w'.heap =
        Function.update (failuresOf w.heap) p (failuresOf w.heap p + 1))

theorem failuresOf_update (h : Heap) (p : ClientPtr) (c : Client) :
    failuresOf (Function.update h p c) =
      Function.update (failuresOf h) p c.serviceStat.failureCount := by
  funext q
  by_cases hq : q = p
  · subst hq
    simp [failuresOf]
  · simp [failuresOf, Function.update_of_ne hq]

/-- A record whose failure count is not written. -/
theorem failuresOf_update_self (h : Heap) (p : ClientPtr) {c : Client}
    (hc : c.serviceStat.failureCount = (h p).serviceStat.failureCount) :
    failuresOf (Function.update h p c) = failuresOf h := by
  rw [failuresOf_update, hc]
  exact Function.update_eq_self p (failuresOf h)

theorem startService_book (asserted : Bool) (next : Option ClientPtr) :
    Ensures (fun _ => True) (startService asserted s next t) w fun s' w' =>
      book s' = book s ∧ w'.draws = w.draws ∧ failuresOf w'.heap = failuresOf w.heap := by
  cases next with
  | none => trivial
  | some p =>
    simp only [startService, ensures_bind, ensures_readClient]
    apply ensures_lift_any
    intro toServe _
    split
    · trivial
    · rw [ensures_bind]
      apply ensures_checkInt trivial
      intro _
      simp only [ensures_bind, ensures_writeClient, ensures_pure]
      exact ⟨by simp [book], trivial, failuresOf_update_self _ _ rfl⟩

/-- Taking the next client from a waiting queue changes no books. -/
theorem takeNext_book (q : Queue ClientPtr) (rebuild : Queue ClientPtr → Server k)
    (asserted : Bool) (hrebuild : ∀ q, (rebuild q).base = s.base) :
    Ensures (fun _ => True) (do
      let next ← queueTop q
      let (popped, q) ← queuePop (← nextGranted env) q
      if !popped then throw .exitFailure
      else startService asserted (rebuild q) next t : Prog (Server k)) w fun s' w' =>
        book s' = book s ∧ w'.draws = w.draws ∧ failuresOf w'.heap = failuresOf w.heap := by
  simp only [ensures_bind]
  apply ensures_lift_any
  intro next _
  rw [ensures_nextGranted]
  apply ensures_lift_any
  intro result _
  split
  · trivial
  · apply (startService_book asserted next).mono
    intro s' w' hpost
    obtain ⟨hbook, hdraws, hfailures⟩ := hpost
    refine ⟨hbook.trans ?_, hdraws, hfailures⟩
    rw [book, book, hrebuild]

theorem serverSetNextClient_book :
    Ensures (fun _ => True) (serverSetNextClient env s t) w fun s' w' =>
      book s' = book s ∧ w'.draws = w.draws ∧ failuresOf w'.heap = failuresOf w.heap := by
  cases s with
  | standard s =>
    simp only [serverSetNextClient, standardServerSetNextClient]
    split
    · exact takeNext_book _ (fun q => .standard { s with clientQueue := q }) _ fun _ => rfl
    · exact ⟨rfl, rfl, rfl⟩
  | robotic s =>
    simp only [serverSetNextClient, roboticServerSetNextClient]
    split
    · exact takeNext_book _ (fun q => .robotic { s with disableClientQueue := q }) _ fun _ => rfl
    · split
      · exact takeNext_book _ (fun q => .robotic { s with normalClientQueue := q }) _ fun _ => rfl
      · exact ⟨rfl, rfl, rfl⟩

/-- An attempt costs one draw. -/
theorem serverIsServiceSuccessful_world {successful : Bool} {w' : World}
    (h : serverIsServiceSuccessful env s w = .ok (successful, w')) :
    w' = { w with draws := w.draws + 1 } := by
  have hensures : Ensures (fun _ => True) (serverIsServiceSuccessful env s) w fun _ w' =>
      w' = { w with draws := w.draws + 1 } := by
    simp only [serverIsServiceSuccessful, ensures_bind, ensures_nextRand]
    cases env.outcomes with
    | drawn => rfl
    | perAttempt succeeds =>
      cases s.base.currentClient with
      | none => trivial
      | some p => exact rfl
  exact (ensures_of_ok h).mp hensures

/-- In the code's own mode the draw decides the attempt. -/
theorem serverIsServiceSuccessful_drawn (houtcomes : env.outcomes = .drawn) {successful : Bool}
    {w' : World} (h : serverIsServiceSuccessful env s w = .ok (successful, w')) :
    successful = true ↔ s.base.errorProb < unitDraw (env.rand w.draws) := by
  have hensures : Ensures (fun _ => True) (serverIsServiceSuccessful env s) w fun successful _ =>
      (successful = true ↔ s.base.errorProb < unitDraw (env.rand w.draws)) := by
    simp only [serverIsServiceSuccessful, houtcomes, ensures_bind, ensures_nextRand, ensures_pure,
      decide_eq_true_iff]
  exact (ensures_of_ok h).mp hensures

/-- An attempt that ends well, up to the start of the next service. -/
theorem finish_serves (hdone : serverIsServiceFinished s = true)
    (hattempt : serverIsServiceSuccessful env s w = .ok (true, { w with draws := w.draws + 1 })) :
    Ensures (fun _ => True) (do
      let (finished, s) ← serverFinalizeCurrentClient env s
      clientFinalize finished t
      serverSetNextClient env s t : Prog (Server k)) { w with draws := w.draws + 1 }
      (Serves env s w) := by
  simp only [serverFinalizeCurrentClient, ensures_bind]
  apply ensures_checkInt trivial
  intro _
  rw [ensures_nextGranted]
  apply ensures_lift_any
  intro result hpush
  obtain ⟨pushed, q⟩ := result
  cases hcur : s.base.currentClient with
  | none => trivial
  | some p =>
    simp only [ensures_pure, clientFinalize, ensures_bind, ensures_readClient]
    apply ensures_checkInt trivial
    intro _
    rw [ensures_writeClient]
    apply serverSetNextClient_book.mono
    intro s' w' hpost
    obtain ⟨hbook, hdraws, hfailures⟩ := hpost
    rw [hcur] at hpush
    refine .success p pushed q hdone hpush hattempt (hbook.trans ?_) hdraws (hfailures.trans ?_)
    · simp [book]
    · exact failuresOf_update_self _ _ rfl

theorem serverRetry_serves (hdone : serverIsServiceFinished s = true)
    (hattempt : serverIsServiceSuccessful env s w = .ok (false, { w with draws := w.draws + 1 })) :
    Ensures (fun _ => True) (serverRetry s) { w with draws := w.draws + 1 } (Serves env s w) := by
  simp only [serverRetry, ensures_bind]
  apply ensures_checkInt trivial
  intro _
  cases hcur : s.base.currentClient with
  | none => trivial
  | some p =>
    simp only [ensures_bind, ensures_readClient]
    apply ensures_checkInt trivial
    intro _
    rw [ensures_writeClient]
    apply ensures_lift_any
    intro toServe _
    rw [ensures_pure]
    exact .failure p hdone hattempt (by simp [book]) rfl (failuresOf_update _ _ _)

/-- The cases of the service part of a visit. -/
theorem serveServer_serves : Ensures (fun _ => True) (serveServer env s t) w (Serves env s w) := by
  have hnext : Ensures (fun _ => True) (serverSetNextClient env s t) w (Serves env s w) :=
    serverSetNextClient_book.mono fun _ _ h => .nothing h.1 h.2.1 h.2.2
  unfold serveServer
  split
  · split
    · rename_i hdone
      rw [ensures_bind]
      apply ensures_any
      intro successful w₁ hattempt
      obtain rfl := serverIsServiceSuccessful_world hattempt
      split
      · rename_i hsuccess
        exact finish_serves hdone (hsuccess ▸ hattempt)
      · rename_i hfailure
        rw [Bool.not_eq_true] at hfailure
        exact serverRetry_serves hdone (hfailure ▸ hattempt)
    · exact .nothing rfl rfl rfl
  · exact hnext

/-- `server_update_stat` adds the queue length to a sum that wraps, and divides. -/
def enterQueueLen (t : ℤ) (waiting : ℕ) (b : BaseServer) : BaseServer :=
  { b with stat := { b.stat with
      sumQueueLens := wrapInt (b.stat.sumQueueLens + waiting)
      meanServerQueueLen := (wrapInt (b.stat.sumQueueLens + waiting)).tdiv (t + 1) } }

theorem serverUpdateStat_enters :
    Ensures (fun _ => True) (liftM (serverUpdateStat s t) : Prog (Server k)) w fun s' w' =>
      book s' = enterQueueLen t (waitingSize s) (book s) ∧ waitingSize s' = waitingSize s ∧
        w' = w := by
  cases s with
  | standard s =>
    simp only [serverUpdateStat, standardServerUpdateStat, ServerStat.addQueueLen,
      ensures_lift_bind]
    apply ensures_checkInt trivial
    intro _
    rw [ensures_lift_ok]
    split
    · exact ⟨rfl, rfl, rfl⟩
    · trivial
  | robotic s =>
    simp only [serverUpdateStat, roboticServerUpdateStat, ServerStat.addQueueLen,
      ensures_lift_bind]
    apply ensures_checkInt trivial
    intro _
    exact ⟨by simp [book, enterQueueLen, waitingSize, Server.base], rfl, rfl⟩

/-- The cases of a whole visit. -/
theorem visit_effects : Ensures (fun _ => True) (visit env t s) w fun s' w' =>
    ∃ s₁ : Server k, Serves env s w s₁ w' ∧
      book s' = enterQueueLen t (waitingSize s') (book s₁) := by
  rw [visit, ensures_bind]
  apply serveServer_serves.mono
  intro s₁ w₁ hserves
  apply serverUpdateStat_enters.mono
  intro s' w' hpost
  obtain ⟨hbook, hwaiting, rfl⟩ := hpost
  exact ⟨s₁, hserves, by rw [hbook, hwaiting]⟩

end AcaBSim.VisitEffects
