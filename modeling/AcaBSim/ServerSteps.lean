import AcaBSim.ServerStations

/-!
The functions of server.c on a server that represents a station: the tick, the
start of the next service, the end of an attempt and the statistics.
-/
namespace AcaBSim.ServerSteps

open Machine ArrayQueue Clients Servers Systems Outcome Stations ServerStations

variable {k : ServerType} {B : ℚ → Prop} {h₀ : Heap} {s : Server k} {st : Station ClientPtr}
  {env : Env} {w : World} {t : ℤ} {tol : Fault → Prop}

theorem serverTick_represents (h : Represents B h₀ s st) (hpaced : st.Paced t) (ht : t < intMax)
    (hpos : ∀ a ∈ st.current, 1 ≤ a.remaining) :
    Ensures tol (liftM (serverTick s.base) : Prog BaseServer) w fun b w' =>
      w' = w ∧ Represents B h₀ (s.withBase b) st.countdown := by
  obtain ⟨hbusy_nonneg, hbusy, hidle, -⟩ := hpaced.counters_le
  have hidle_nonneg := hpaced.idle_nonneg
  have hactive := h.counted.active
  have hcounted_idle := h.counted.idle
  have hmin : intMin ≤ 0 := by decide
  have hcurrent := h.current
  cases hcur : st.current with
  | none =>
    rw [hcur] at hcurrent
    simp only [serverTick, hcurrent, Option.map_none, ensures_lift_bind]
    refine ensures_checkInt_exact (by omega) ⟨rfl, ?_⟩
    refine h.update (by simp) (by simp) (by simpa using h.finished) ?_ ?_ ?_ rfl rfl ?_
    · simp [Station.countdown_of_none hcur, hcur]
    · simp [Station.countdown_of_none hcur, hcur]
    · rw [Station.countdown_of_none hcur]
      exact ⟨h.counted.active, by simpa using h.counted.idle, h.counted.served, h.counted.failed⟩
    · simp [Station.countdown_of_none hcur, hcur]
  | some a =>
    rw [hcur] at hcurrent
    have htoServe := h.toServe a hcur
    have hrem := hpos a hcur
    simp only [serverTick, hcurrent, Option.map_some, htoServe,
      if_pos (show a.remaining > 0 by omega),
      ensures_lift_bind]
    refine ensures_checkInt_exact (by omega) ⟨rfl, ?_⟩
    refine h.update (by simp) (by simp) (by simpa using h.finished) ?_ ?_ ?_ rfl rfl ?_
    · simp [Station.countdown_of_some hcur]
    · simp [Station.countdown_of_some hcur]
    · rw [Station.countdown_of_some hcur]
      exact ⟨by simpa using h.counted.active, h.counted.idle, h.counted.served, h.counted.failed⟩
    · simpa [Station.countdown_of_some hcur] using h.worked a hcur

/-- The time since an arrival that admission has set to zero. -/
theorem time_in_range (ht : 0 ≤ t ∧ t < intMax) : intMin ≤ t - 0 ∧ t - 0 ≤ intMax := by
  unfold intMin
  omega

/-- What `set_next_client` does once it has taken `p` from a queue. -/
theorem startService_represents (htol : Excuses tol) (hB : ∀ b, B b → 0 < b)
    (ht : 0 ≤ t ∧ t < intMax) (h : Represents B h₀ s st) {asserted : Bool} {p : ClientPtr}
    (hvalid : (h₀ p).Valid) (hrecord : w.heap p = waitingRecord (h₀ p))
    (hstart : serviceTime s (h₀ p) ≤ 0 → asserted = true ∧ tol (.assertionFailed .startToServe)) :
    Ensures tol (startService asserted s (some p) t) w fun s' w' =>
      Represents B h₀ s' (Station.begin t p st) ∧
      w' = { w with heap := Function.update w.heap p (servingRecord (h₀ p) t 0) } := by
  have htime := htol.getServiceTime h hB (c := waitingRecord (h₀ p)) hvalid
  rw [show serviceTime s (waitingRecord (h₀ p)) = serviceTime s (h₀ p) from rfl] at htime
  simp only [startService, ensures_bind, ensures_readClient, hrecord]
  rcases htime with hok | ⟨herror, hoverflow⟩
  · rw [hok, ensures_lift_ok]
    by_cases hpos : serviceTime s (h₀ p) ≤ 0
    · obtain ⟨rfl, hassert⟩ := hstart hpos
      rw [if_pos (by simpa using hpos)]
      exact hassert
    · rw [if_neg (by simp [hpos]), ensures_bind]
      apply ensures_checkInt_exact (time_in_range ht)
      simp only [ensures_bind, ensures_writeClient, ensures_pure]
      have hwork : 1 ≤ st.profile.work p := by
        rw [h.profile]
        exact not_le.mp hpos
      refine ⟨h.update (fun _ => rfl) rfl h.finished rfl ?_ ?_ rfl rfl ?_, ?_⟩
      · intro a ha
        obtain rfl := Option.some.inj ha
        change serviceTime s (h₀ p) = st.profile.work p
        rw [h.profile]
        rfl
      · exact ⟨h.counted.active, h.counted.idle, h.counted.served, h.counted.failed⟩
      · intro a ha
        obtain rfl := Option.some.inj ha
        exact hwork
      · simp [clientSetStartServiceTime, clientSetWaitTime, servingRecord, waitingRecord,
          ClientServiceStat.zero]
  · rw [herror, ensures_lift_error]
    exact hoverflow

/-- A step of a server from `st` in the heap `h` to `st'`: it writes the records
of its own clients only, and `draws` outcomes are drawn when it is over. -/
structure Stepped (B : ℚ → Prop) (h₀ h : Heap) (st st' : Station ClientPtr) (draws : ℕ)
    (s' : Server k) (w' : World) : Prop where
  represents : Represents B h₀ s' st'
  recorded : Recorded h₀ w'.heap st'
  draws : w'.draws = draws
  frame : ∀ p, p ∉ st.jobs → w'.heap p = h p

/-- The start of the service of `p`, taken from the head of its line. -/
theorem startService_stepped (htol : Excuses tol) (hB : ∀ b, B b → 0 < b)
    (ht : 0 ≤ t ∧ t < intMax) {asserted line : Bool} {p : ClientPtr} {rest : List ClientPtr}
    (h : Represents B h₀ s (st.setWaiting line rest)) (hrec : Recorded h₀ w.heap st)
    (hnodup : st.jobs.Nodup) (hvalid : ∀ p ∈ st.jobs, (h₀ p).Valid) (hidle : st.current = none)
    (hline : st.waiting line = p :: rest)
    (hnext : Station.startNext t st = Station.begin t p (st.setWaiting line rest))
    (hstart : serviceTime s (h₀ p) ≤ 0 → asserted = true ∧ tol (.assertionFailed .startToServe)) :
    Ensures tol (startService asserted s (some p) t) w
      (Stepped B h₀ w.heap st (Station.startNext t st) w.draws) := by
  have hp : p ∈ st.waiting line := by simp [hline]
  have hmem := Station.mem_jobs_of_mem_waiting hp
  refine (startService_represents htol hB ht h (hvalid p hmem) (hrec.waiting line p hp)
    hstart).mono ?_
  intro s' w' hpost
  obtain ⟨hrep, rfl⟩ := hpost
  refine ⟨by rw [hnext]; exact hrep, ?_, rfl, fun q hq => ?_⟩
  · have hstarted := (Station.jobs_startNext hidle t).nodup_iff.mpr hnodup
    have hcur : (Station.startNext t st).current = some ⟨p, t, 0, st.profile.work p⟩ := by
      simp [hnext, Station.begin]
    refine recorded_serving (a := ⟨p, t, 0, st.profile.work p⟩) hcur hstarted ?_ ?_
    · intro other q hq
      exact hrec.waiting other q (Station.waiting_startNext_subset other hq)
    · intro c hc
      rw [Station.completed_startNext] at hc
      exact hrec.finished c hc
  · have hne : q ≠ p := fun heq => hq (heq ▸ hmem)
    exact Function.update_of_ne hne _ _

theorem serveNobody_stepped (h : Represents B h₀ s st) (hrec : Recorded h₀ w.heap st)
    (hex : st.express = []) (hreg : st.regular = []) :
    Stepped B h₀ w.heap st (Station.startNext t st) w.draws (serveNobody s) w := by
  have hnext : Station.startNext t st = { st with current := none } := by
    simp only [Station.startNext, hex, hreg]
  rw [hnext]
  refine ⟨?_, ⟨hrec.waiting, by simp, hrec.finished⟩, rfl, fun _ _ => rfl⟩
  exact h.update (fun _ => rfl) rfl h.finished rfl (by simp)
    ⟨h.counted.active, h.counted.idle, h.counted.served, h.counted.failed⟩ rfl rfl (by simp)

/-- The start of the next client of a queue, once it is taken from the queue. -/
theorem ensures_takeNext {q : Queue ClientPtr} {p : ClientPtr} {rest : List ClientPtr}
    (hq : Holds q (p :: rest)) (f : Queue ClientPtr → Server k) {asserted : Bool}
    {Q : Server k → World → Prop}
    (h : ∀ q', Holds q' rest → Ensures tol (startService asserted (f q') (some p) t)
      { w with requests := w.requests + 1 } Q) :
    Ensures tol (do
      let next ← queueTop q
      let (popped, q') ← queuePop (← nextGranted env) q
      if !popped then throw .exitFailure
      else startService asserted (f q') next t) w Q := by
  obtain ⟨q', hpop, hq'⟩ := hq.pop (env.granted w.requests)
  simp only [ensures_bind, hq.top, ensures_lift_ok, ensures_nextGranted, hpop, Bool.not_true,
    Bool.false_eq_true, if_false, List.head?_cons]
  exact h q' hq'

/-- With nobody waiting the server serves nobody. -/
theorem serverSetNextClient_nobody (h : Represents B h₀ s st) (hex : st.express = [])
    (hreg : st.regular = []) : serverSetNextClient env s t = pure (serveNobody s) := by
  cases s with
  | standard s =>
    obtain ⟨-, hqueue⟩ := h.lines
    simp only [serverSetNextClient, standardServerSetNextClient, hqueue.size, hreg]
    rfl
  | robotic s =>
    obtain ⟨hdisable, hnormal⟩ := h.lines
    simp only [serverSetNextClient, roboticServerSetNextClient, hdisable.size, hnormal.size, hex,
      hreg]
    rfl

/-- `server_set_next_client` starts the next service of the station. -/
theorem serverSetNextClient_stepped (htol : Excuses tol) (hB : ∀ b, B b → 0 < b)
    (ht : 0 ≤ t ∧ t < intMax) (h : Represents B h₀ s st) (hrec : Recorded h₀ w.heap st)
    (hnodup : st.jobs.Nodup) (hvalid : ∀ p ∈ st.jobs, (h₀ p).Valid) (hidle : st.current = none)
    (hstart : ∀ p ∈ st.jobs, serviceTime s (h₀ p) ≤ 0 → tol (.assertionFailed .startToServe)) :
    Ensures tol (serverSetNextClient env s t) w
      (Stepped B h₀ w.heap st (Station.startNext t st) w.draws) := by
  rcases Station.startNext_cases t st with
    ⟨line, p, rest, hline, hregular, hnext⟩ | ⟨hex, hreg, -⟩
  · have hp : p ∈ st.jobs := Station.mem_jobs_of_mem_waiting
      (show p ∈ st.waiting line by simp [hline])
    have hstarts : ∀ {s' : Server k} {asserted : Bool},
        Represents B h₀ s' (st.setWaiting line rest) →
        (serviceTime s' (h₀ p) ≤ 0 →
          asserted = true ∧ tol (.assertionFailed .startToServe)) →
        Ensures tol (startService asserted s' (some p) t)
          { w with requests := w.requests + 1 }
          (Stepped B h₀ w.heap st (Station.startNext t st) w.draws) :=
      fun hrep hassert => startService_stepped (w := { w with requests := w.requests + 1 }) htol hB
        ht hrep hrec hnodup hvalid hidle hline hnext hassert
    cases s with
    | standard s =>
      obtain ⟨hex, hqueue⟩ := h.lines
      obtain rfl : line = false := by
        cases line with
        | true => simp [hex] at hline
        | false => rfl
      have hreg : st.regular = p :: rest := hline
      rw [hreg] at hqueue
      simp only [serverSetNextClient, standardServerSetNextClient, hqueue.size]
      rw [if_pos (by simp)]
      refine ensures_takeNext hqueue (fun q => .standard { s with clientQueue := q })
        fun q hq => hstarts (h.setWaiting ⟨hex, hq⟩ rfl rfl rfl) fun hle => ?_
      have hge := tableTime_ge (hvalid p hp)
      simp only [serviceTime] at hle
      omega
    | robotic s =>
      obtain ⟨hdisable, hnormal⟩ := h.lines
      have hassert := hstart p hp
      cases line with
      | true =>
        have hex : st.express = p :: rest := hline
        rw [hex] at hdisable
        simp only [serverSetNextClient, roboticServerSetNextClient, hdisable.size]
        rw [if_pos (by simp)]
        exact ensures_takeNext hdisable (fun q => .robotic { s with disableClientQueue := q })
          fun q hq => hstarts (h.setWaiting ⟨hq, hnormal⟩ rfl rfl rfl) fun hle =>
            ⟨rfl, hassert hle⟩
      | false =>
        have hex : st.express = [] := hregular rfl
        have hreg : st.regular = p :: rest := hline
        rw [hreg] at hnormal
        rw [hex] at hdisable
        simp only [serverSetNextClient, roboticServerSetNextClient, hdisable.size, hnormal.size]
        rw [if_neg (by simp), if_pos (by simp)]
        exact ensures_takeNext hnormal (fun q => .robotic { s with normalClientQueue := q })
          fun q hq => hstarts (h.setWaiting ⟨hex ▸ hdisable, hq⟩ rfl rfl rfl) fun hle =>
            ⟨rfl, hassert hle⟩
  · rw [serverSetNextClient_nobody h hex hreg, ensures_pure]
    exact serveNobody_stepped h hrec hex hreg

/-- `server_retry` begins the next attempt on the same client. -/
theorem serverRetry_stepped (htol : Excuses tol) (hB : ∀ b, B b → 0 < b)
    (hpaced : st.Paced (t + 1)) (ht : t < intMax) (h : Represents B h₀ s st)
    (hrec : Recorded h₀ w.heap st) (hnodup : st.jobs.Nodup)
    (hvalid : ∀ p ∈ st.jobs, (h₀ p).Valid) {a : Attempt ClientPtr} (hcur : st.current = some a)
    (hdone : a.remaining = 0) :
    Ensures tol (serverRetry s) w (Stepped B h₀ w.heap st (Station.retry a st) w.draws) := by
  have hclient := h.currentClient_eq hcur
  have hmem := Station.mem_jobs_of_current hcur
  have hrecord := hrec.serving a hcur
  have htime := htol.getServiceTime h hB
    (c := servingRecord (h₀ a.job) a.start (a.failures + 1)) (hvalid a.job hmem)
  obtain ⟨hfailures_nonneg, hfailures_le⟩ := hpaced.failures a hcur
  have hfailed := hpaced.failed_lt hcur hdone (h.worked a hcur)
  have hcounted := h.counted.failed
  have hmin : intMin ≤ 0 := by decide
  simp only [serverRetry, ensures_bind]
  apply ensures_checkInt_exact (by omega)
  simp only [hclient, ensures_bind, ensures_readClient, hrecord]
  apply ensures_checkInt_exact (by simp only [servingRecord]; omega)
  simp only [ensures_writeClient]
  change Ensures tol (liftM (getServiceTime s (servingRecord (h₀ a.job) a.start (a.failures + 1))) :
    Prog ℤ) _ _
  rcases htime with hok | ⟨herror, hoverflow⟩
  · rw [hok, ensures_lift_ok]
    refine ⟨h.update (fun _ => rfl) rfl h.finished rfl ?_ ?_ rfl rfl ?_, ?_, rfl, fun p hp => ?_⟩
    · intro b hb
      obtain rfl := Option.some.inj hb
      change serviceTime s (h₀ a.job) = st.profile.work a.job
      rw [h.profile]
      rfl
    · exact ⟨h.counted.active, h.counted.idle, h.counted.served, by
        simpa [Station.retry] using h.counted.failed⟩
    · intro b hb
      obtain rfl := Option.some.inj hb
      exact h.worked a hcur
    · have hjobs : (Station.retry a st).jobs.Nodup := by
        rw [Station.jobs, Station.started_retry hcur rfl]
        exact hnodup
      exact recorded_serving
        (a := { a with failures := a.failures + 1, remaining := st.profile.work a.job })
        rfl hjobs hrec.waiting hrec.finished
    · have hne : p ≠ a.job := fun heq => hp (heq ▸ hmem)
      exact Function.update_of_ne hne _ _
  · rw [herror, ensures_lift_error]
    exact hoverflow

/-- `server_finalize_current_client` completes the service in progress. -/
theorem serverFinalizeCurrentClient_represents (hgranted : env.AllocationsSucceed)
    (hpaced : st.Paced (t + 1)) (ht : t < intMax) (h : Represents B h₀ s st)
    {a : Attempt ClientPtr} (hcur : st.current = some a) (hdone : a.remaining = 0) :
    Ensures tol (serverFinalizeCurrentClient env s) w fun r w' =>
      r.1 = a.job ∧ Represents B h₀ r.2 (Station.complete t a st) ∧ w'.heap = w.heap ∧
        w'.draws = w.draws := by
  have hclient := h.currentClient_eq hcur
  have hserved := hgranted w.requests
  have hcompleted := hpaced.failed_lt hcur hdone (h.worked a hcur)
  have hfailed := hpaced.failed_nonneg
  have hcounted := h.counted.served
  have hroom : (st.completed.map Completed.job).length < 2 ^ 31 := by
    rw [List.length_map]
    unfold intMax at ht
    omega
  obtain ⟨q, hpush, hq⟩ := h.finished.push hroom a.job
  simp only [serverFinalizeCurrentClient, ensures_bind]
  apply ensures_checkInt_exact (by unfold intMin; omega)
  simp only [ensures_nextGranted, hserved, hclient, hpush, ensures_lift_ok, ensures_pure,
    true_and, and_true]
  refine h.update (fun _ => rfl) rfl ?_ rfl (by simp [Station.complete]) ?_ rfl rfl
    (by simp [Station.complete])
  · simpa [Station.complete] using hq
  · exact ⟨h.counted.active, h.counted.idle, by
      simpa [Station.complete] using h.counted.served, h.counted.failed⟩

theorem clientFinalize_writes (ht : 0 ≤ t ∧ t < intMax) {p : ClientPtr}
    {start failures : ℤ} (hrecord : w.heap p = servingRecord (h₀ p) start failures) :
    Ensures tol (clientFinalize p t) w fun _ w' =>
      w' = { w with
        heap := Function.update w.heap p (finishedRecord (h₀ p) start failures t) } := by
  simp only [clientFinalize, ensures_bind, ensures_readClient, hrecord]
  apply ensures_checkInt_exact (time_in_range ht)
  simp [clientSetFinishTime, clientSetTotalServiceTime, servingRecord, finishedRecord,
    ClientServiceStat.zero]

/-- The outcome of an attempt when `draws` outcomes have been drawn. -/
def attemptSucceeds (env : Env) (draws : ℕ) (profile : Profile ClientPtr)
    (a : Attempt ClientPtr) : Bool :=
  match env.outcomes with
  | .drawn => decide (profile.errorProb < unitDraw (env.rand draws))
  | .perAttempt succeeds => succeeds a.job a.failures

theorem serverIsServiceSuccessful_draws (h : Represents B h₀ s st) (hrec : Recorded h₀ w.heap st)
    {a : Attempt ClientPtr} (hcur : st.current = some a) :
    serverIsServiceSuccessful env s w =
      .ok (attemptSucceeds env w.draws st.profile a, { w with draws := w.draws + 1 }) := by
  have hclient := h.currentClient_eq hcur
  have hrecord := hrec.serving a hcur
  have hprob : s.base.errorProb = st.profile.errorProb := by rw [h.profile]; rfl
  have hgoal : Ensures (fun _ => False) (serverIsServiceSuccessful env s) w fun b w' =>
      b = attemptSucceeds env w.draws st.profile a ∧ w' = { w with draws := w.draws + 1 } := by
    simp only [serverIsServiceSuccessful, ensures_bind, ensures_nextRand, attemptSucceeds]
    cases env.outcomes with
    | drawn => simp [hprob]
    | perAttempt succeeds =>
      simp only [hclient, ensures_bind, ensures_readClient, hrecord, ensures_pure, servingRecord,
        and_self]
  obtain ⟨b, w', hrun, rfl, rfl⟩ := hgoal.returns (by simp)
  exact hrun

/-- The end of a successful attempt and the start of the next service. -/
theorem finish_stepped (htol : Excuses tol) (hB : ∀ b, B b → 0 < b)
    (hgranted : env.AllocationsSucceed) (hpaced : st.Paced (t + 1)) (ht : 0 ≤ t ∧ t < intMax)
    (h : Represents B h₀ s st) (hrec : Recorded h₀ w.heap st) (hnodup : st.jobs.Nodup)
    (hvalid : ∀ p ∈ st.jobs, (h₀ p).Valid) {a : Attempt ClientPtr} (hcur : st.current = some a)
    (hdone : a.remaining = 0)
    (hstart : ∀ p ∈ st.jobs, serviceTime s (h₀ p) ≤ 0 → tol (.assertionFailed .startToServe)) :
    Ensures tol (do
      let (finished, s) ← serverFinalizeCurrentClient env s
      clientFinalize finished t
      serverSetNextClient env s t) w
      (Stepped B h₀ w.heap st (Station.startNext t (Station.complete t a st)) w.draws) := by
  have hmem := Station.mem_jobs_of_current hcur
  have hjobs : (Station.complete t a st).jobs = st.jobs := by
    rw [Station.jobs, Station.started_complete hcur rfl]
    rfl
  rw [ensures_bind]
  apply (serverFinalizeCurrentClient_represents hgranted hpaced ht.2 h hcur hdone).mono
  intro r w₁ hpost
  obtain ⟨finished, s₁⟩ := r
  obtain ⟨rfl, h₁, hheap₁, hdraws₁⟩ := hpost
  dsimp only
  have hrecord : w₁.heap a.job = servingRecord (h₀ a.job) a.start a.failures := by
    rw [hheap₁]
    exact hrec.serving a hcur
  rw [ensures_bind]
  apply (clientFinalize_writes ht hrecord).mono
  intro _ w₂ heq
  obtain rfl := heq
  have hrec₁ : Recorded h₀ w₁.heap st := by rwa [hheap₁]
  have hwork : ∀ p, serviceTime s₁ (h₀ p) = serviceTime s (h₀ p) := by
    intro p
    have hprofile : profileOf h₀ s₁ = profileOf h₀ s := h₁.profile.symm.trans h.profile
    exact congrFun (congrArg Profile.work hprofile) p
  refine (serverSetNextClient_stepped htol hB ht h₁ (hrec₁.complete hcur hnodup) (by rwa [hjobs])
    (by rwa [hjobs]) rfl ?_).mono ?_
  · intro p hp hle
    rw [hjobs] at hp
    rw [hwork] at hle
    exact hstart p hp hle
  · intro s' w' hpost
    obtain ⟨hrep, hrecorded, hdraws, hframe⟩ := hpost
    refine ⟨hrep, hrecorded, hdraws.trans hdraws₁, fun p hp => ?_⟩
    have hne : p ≠ a.job := fun heq => hp (heq ▸ hmem)
    rw [hframe p (by rwa [hjobs])]
    exact (Function.update_of_ne hne _ _).trans (congrFun hheap₁ p)

/-- The loop body of `update_clients` serves the station. -/
theorem serveServer_stepped (htol : Excuses tol) (hB : ∀ b, B b → 0 < b)
    (hgranted : env.AllocationsSucceed) (hpaced : st.Paced (t + 1)) (ht : 0 ≤ t ∧ t < intMax)
    (h : Represents B h₀ s st) (hrec : Recorded h₀ w.heap st) (hnodup : st.jobs.Nodup)
    (hvalid : ∀ p ∈ st.jobs, (h₀ p).Valid)
    (hstart : ∀ p ∈ st.jobs, serviceTime s (h₀ p) ≤ 0 → tol (.assertionFailed .startToServe)) :
    Ensures tol (serveServer env s t) w (Stepped B h₀ w.heap st
      (st.serve t (st.current.elim false (attemptSucceeds env w.draws st.profile)))
      (if st.asks then w.draws + 1 else w.draws)) := by
  have hclient := h.current
  cases hcur : st.current with
  | none =>
    rw [hcur] at hclient
    have hactive : serverIsActive s = false := by simp [serverIsActive, hclient]
    have hasks : st.asks = false := by simp [Station.asks, hcur]
    have hserve : st.serve t (st.current.elim false (attemptSucceeds env w.draws st.profile)) =
        Station.startNext t st := by simp only [Station.serve, hcur]
    rw [hcur] at hserve
    simp only [serveServer, hactive, Bool.false_eq_true, if_false, hasks]
    rw [hserve]
    exact serverSetNextClient_stepped htol hB ht h hrec hnodup hvalid hcur hstart
  | some a =>
    rw [hcur] at hclient
    have htoServe := h.toServe a hcur
    have hactive : serverIsActive s = true := by simp [serverIsActive, hclient]
    by_cases hrem : a.remaining = 0
    · have hfinished : serverIsServiceFinished s = true := by
        simp [serverIsServiceFinished, hclient, htoServe, hrem]
      have hasks : st.asks = true := by simp [Station.asks, hcur, hrem]
      have hrun : serverIsServiceSuccessful env s w = _ :=
        serverIsServiceSuccessful_draws h hrec hcur
      simp only [serveServer, hactive, hfinished, hasks, if_true]
      rw [ensures_bind, ensures_of_ok hrun]
      simp only [Option.elim]
      cases hsuccess : attemptSucceeds env w.draws st.profile a with
      | true =>
        have hserve : st.serve t true = Station.startNext t (Station.complete t a st) := by
          simp only [Station.serve, hcur, hrem, if_true]
        rw [hserve, if_pos rfl]
        exact finish_stepped (w := { w with draws := w.draws + 1 }) htol hB hgranted hpaced ht
          h hrec hnodup hvalid hcur hrem hstart
      | false =>
        have hserve : st.serve t false = Station.retry a st := by
          simp only [Station.serve, hcur, hrem, if_true, Bool.false_eq_true, if_false]
        rw [hserve, if_neg Bool.false_ne_true]
        exact serverRetry_stepped (w := { w with draws := w.draws + 1 }) htol hB hpaced ht.2 h
          hrec hnodup hvalid hcur hrem
    · have hfinished : serverIsServiceFinished s = false := by
        simp [serverIsServiceFinished, hclient, htoServe, hrem]
      have hasks : st.asks = false := by simp [Station.asks, hcur, hrem]
      have hserve : ∀ success, st.serve t success = st := fun success => by
        simp only [Station.serve, hcur, if_neg hrem]
      simp only [serveServer, hactive, hfinished, hasks, if_true, Bool.false_eq_true, if_false,
        ensures_pure]
      rw [hserve]
      exact ⟨h, hrec, rfl, fun _ _ => rfl⟩

/-- The statistics of a server do not touch what it represents. -/
theorem serverUpdateStat_represents (htol : Excuses tol) (ht : 0 ≤ t ∧ t < intMax)
    (h : Represents B h₀ s st) :
    Ensures tol (liftM (serverUpdateStat s t) : Prog (Server k)) w fun s' w' =>
      Represents B h₀ s' st ∧ w' = w := by
  have hticks : intMin ≤ t + 1 ∧ t + 1 ≤ intMax := by
    unfold intMin
    omega
  have hkept : ∀ sum mean : ℤ, Represents B h₀ (s.withBase { s.base with
      stat := { s.base.stat with sumQueueLens := sum, meanServerQueueLen := mean } }) st :=
    fun sum mean => h.update (fun _ => rfl) rfl h.finished h.current h.toServe
      ⟨h.counted.active, h.counted.idle, h.counted.served, h.counted.failed⟩ rfl rfl h.worked
  cases s with
  | standard s =>
    simp only [serverUpdateStat, standardServerUpdateStat, ServerStat.addQueueLen,
      ensures_lift_bind]
    apply ensures_checkInt_exact hticks
    rw [ensures_lift_ok]
    split
    · exact ⟨hkept _ _, rfl⟩
    · exact htol.mean
  | robotic s =>
    simp only [serverUpdateStat, roboticServerUpdateStat, ServerStat.addQueueLen,
      ensures_lift_bind]
    exact ensures_checkInt_exact hticks ⟨hkept _ _, rfl⟩

end AcaBSim.ServerSteps
