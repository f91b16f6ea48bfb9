import AcaBSim.StationTrace
import Mathlib.Data.List.Induction

/-!
How far the regular jobs of a station delay its express jobs. A regular service
starts only when no express job is waiting, so one of them at most is in the way
of an express job that arrives. Each express job starts less than the longest
regular service later than at a server without regular jobs.
-/
namespace AcaBSim.Stations

section Recurrence

variable {a d : ℕ → ℤ}

theorem arrival_le_fifoStart (a d : ℕ → ℤ) (k : ℕ) : a k ≤ fifoStart a d k := by
  cases k with
  | zero => exact le_refl _
  | succ k => exact le_max_left _ _

theorem fifoStart_mono (hd : ∀ k, 0 ≤ d k) {i k : ℕ} (hle : i ≤ k) :
    fifoStart a d i ≤ fifoStart a d k := by
  induction k, hle using Nat.le_induction with
  | base => exact le_refl _
  | succ k _ ih =>
    have hnext : fifoStart a d k + d k ≤ fifoStart a d (k + 1) := le_max_right _ _
    have hnonneg := hd k
    omega

end Recurrence

variable {J : Type} {arrival : J → ℤ} {express : J → Bool} {longest : ℤ}

theorem arrival_le_serviceStart (free : Option ℤ) (j : J) :
    arrival j ≤ serviceStart arrival free j := by
  cases free with
  | none => exact le_refl _
  | some f => exact le_max_left _ _

/-- The express services of a list of services. -/
def expressServices (express : J → Bool) (l : List (Completed J)) : List (Completed J) :=
  l.filter fun c => express c.job

theorem expressServices_snoc {l : List (Completed J)} {c : Completed J}
    (h : express c.job = true) :
    expressServices express (l ++ [c]) = expressServices express l ++ [c] := by
  simp [expressServices, h]

theorem expressServices_snoc_of_regular {l : List (Completed J)} {c : Completed J}
    (h : express c.job = false) :
    expressServices express (l ++ [c]) = expressServices express l := by
  simp [expressServices, h]

/-- Services without a break between them, the regular ones of a bounded length
and each started before any express job that is served after it has arrived. -/
structure Courteous (arrival : J → ℤ) (express : J → Bool) (longest : ℤ)
    (l : List (Completed J)) : Prop where
  chained : Chained arrival none l
  forward : ∀ c ∈ l, c.start ≤ c.finish
  before : l.Pairwise fun b c =>
    express b.job = false → express c.job = true → b.start < arrival c.job
  regular : ∀ c ∈ l, express c.job = false → c.finish ≤ c.start + longest

namespace Courteous

open Station

variable {l : List (Completed J)} {c : Completed J}

theorem init (h : Courteous arrival express longest (l ++ [c])) :
    Courteous arrival express longest l where
  chained := ((chained_snoc none l c).mp h.chained).1
  forward b hb := h.forward b (List.mem_append_left _ hb)
  before := (List.pairwise_append.mp h.before).1
  regular b hb := h.regular b (List.mem_append_left _ hb)

/-- No service finishes after the last one. -/
theorem finish_le_last (h : Courteous arrival express longest l) (hc : c ∈ l) :
    ∃ f, lastFinish none l = some f ∧ c.finish ≤ f := by
  induction l using List.reverseRecOn with
  | nil => simp at hc
  | append_singleton l b ih =>
    refine ⟨b.finish, lastFinish_snoc none l b, ?_⟩
    rcases List.mem_append.mp hc with hc | hc
    · obtain ⟨f, hlast, hle⟩ := ih h.init hc
      have hstart := ((chained_snoc none l b).mp h.chained).2
      rw [hlast] at hstart
      calc c.finish ≤ f := hle
        _ ≤ max (arrival b.job) f := le_max_right _ _
        _ = b.start := hstart.symm
        _ ≤ b.finish := h.forward b (by simp)
    · rw [List.mem_singleton.mp hc]

/-- What a service finds is over before its start. -/
theorem finish_le_start (h : Courteous arrival express longest (l ++ [c])) {b : Completed J}
    (hb : b ∈ l) : b.finish ≤ c.start := by
  obtain ⟨f, hlast, hle⟩ := h.init.finish_le_last hb
  have hstart := ((chained_snoc none l c).mp h.chained).2
  rw [hlast] at hstart
  rw [hstart]
  exact hle.trans (le_max_right _ _)

section Recurrence

variable {a d : ℕ → ℤ}

/-- An express service starts no sooner than at a server of its own. -/
theorem fifoStart_le (h : Courteous arrival express longest (l ++ [c]))
    (harrival : a (expressServices express l).length = arrival c.job)
    (hspan : ∀ k b, (expressServices express l)[k]? = some b →
      b.finish = b.start + d k ∧ fifoStart a d k ≤ b.start) :
    fifoStart a d (expressServices express l).length ≤ c.start := by
  have hstart := ((chained_snoc none l c).mp h.chained).2
  have harrived : arrival c.job ≤ c.start := hstart ▸ arrival_le_serviceStart _ _
  rcases List.eq_nil_or_concat (expressServices express l) with hnil | ⟨init, b, hconcat⟩
  · rw [hnil] at harrival ⊢
    exact harrival.trans_le harrived
  · rw [List.concat_eq_append] at hconcat
    obtain ⟨hfinish, hle⟩ := hspan init.length b (by simp [hconcat])
    have hb : b ∈ l := (List.mem_filter.mp (show b ∈ expressServices express l by
      simp [hconcat])).1
    have hover := h.finish_le_start hb
    rw [hconcat, List.length_append, List.length_singleton] at harrival ⊢
    exact max_le (harrival.trans_le harrived) (by omega)

/-- An express service waits for the one before it: for a regular one it has
less than its length to wait, and an express one has passed its own delay on. -/
theorem lt_fifoStart_add (h : Courteous arrival express longest (l ++ [c]))
    (hpos : 0 < longest) (hexpress : express c.job = true)
    (harrival : a (expressServices express l).length = arrival c.job)
    (hspan : ∀ k b, (expressServices express l)[k]? = some b →
      b.finish = b.start + d k ∧ b.start < fifoStart a d k + longest) :
    c.start < fifoStart a d (expressServices express l).length + longest := by
  have hstart := ((chained_snoc none l c).mp h.chained).2
  have hle := arrival_le_fifoStart a d (expressServices express l).length
  rw [harrival] at hle
  rcases List.eq_nil_or_concat l with rfl | ⟨init, b, rfl⟩
  · have halone : c.start = arrival c.job := hstart
    omega
  · rw [List.concat_eq_append] at *
    rw [lastFinish_snoc] at hstart
    have hmax : c.start = max (arrival c.job) b.finish := hstart
    have hb : b ∈ (init ++ [b]) ++ [c] := by simp
    cases hclass : express b.job with
    | false =>
      have hbefore := (List.pairwise_append.mp h.before).2.2 b (by simp) c (by simp)
        hclass hexpress
      have hbound := h.regular b hb hclass
      omega
    | true =>
      have hsnoc := expressServices_snoc (l := init) hclass
      obtain ⟨hfinish, hlt⟩ := hspan (expressServices express init).length b (by simp [hsnoc])
      rw [hsnoc, List.length_append, List.length_singleton] at hle ⊢
      have hnext : fifoStart a d (expressServices express init).length +
          d (expressServices express init).length ≤
            fifoStart a d ((expressServices express init).length + 1) := le_max_right _ _
      omega

/-- Every express service starts as at a server of its own, or later by less
than the longest regular service. -/
theorem near (h : Courteous arrival express longest l) (hpos : 0 < longest)
    (hspan : ∀ k c, (expressServices express l)[k]? = some c →
      a k = arrival c.job ∧ c.finish = c.start + d k)
    {k : ℕ} (hc : (expressServices express l)[k]? = some c) :
    fifoStart a d k ≤ c.start ∧ c.start < fifoStart a d k + longest := by
  induction l using List.reverseRecOn generalizing k c with
  | nil => simp [expressServices] at hc
  | append_singleton l b ih =>
    cases hclass : express b.job with
    | false =>
      rw [expressServices_snoc_of_regular hclass] at hspan hc
      exact ih h.init hspan hc
    | true =>
      rw [expressServices_snoc hclass] at hspan hc
      have hinit : ∀ k c, (expressServices express l)[k]? = some c →
          a k = arrival c.job ∧ c.finish = c.start + d k := by
        intro k c hc
        have hlt := (List.getElem?_eq_some_iff.mp hc).1
        exact hspan k c (by rw [List.getElem?_append_left hlt, hc])
      rcases lt_or_ge k (expressServices express l).length with hk | hk
      · rw [List.getElem?_append_left hk] at hc
        exact ih h.init hinit hc
      · obtain rfl : k = (expressServices express l).length := by
          have hlt := (List.getElem?_eq_some_iff.mp hc).1
          simp only [List.length_append, List.length_singleton] at hlt
          omega
        obtain rfl : b = c := by simpa using hc
        have harrival := (hspan _ b hc).1
        refine ⟨h.fifoStart_le harrival fun i e he => ⟨(hinit i e he).2, ?_⟩,
          h.lt_fifoStart_add hpos hclass harrival fun i e he => ⟨(hinit i e he).2, ?_⟩⟩
        · exact (ih h.init hinit he).1
        · exact (ih h.init hinit he).2

end Recurrence

/-- The same for services that are first in a list of express jobs. -/
theorem near_in_jobs (h : Courteous arrival express longest l) (hpos : 0 < longest)
    {work failures : J → ℤ}
    (hspan : ∀ c ∈ l, c.finish = c.start + (failures c.job + 1) * work c.job) {jobs : List J}
    (hjobs : (expressServices express l).map Completed.job <+: jobs) {k : ℕ}
    (hc : (expressServices express l)[k]? = some c) :
    fifoStart (arrivalAt arrival jobs) (durationAt work failures jobs) k ≤ c.start ∧
      c.start <
        fifoStart (arrivalAt arrival jobs) (durationAt work failures jobs) k + longest := by
  refine h.near hpos (fun i b hb => ?_) hc
  have hmap : ((expressServices express l).map Completed.job)[i]? = some b.job := by simp [hb]
  have hlt := (List.getElem?_eq_some_iff.mp hmap).1
  have hjob : jobs[i]? = some b.job := by
    obtain ⟨rest, rfl⟩ := hjobs
    rw [List.getElem?_append_left hlt, hmap]
  have hmem : b ∈ l := (List.mem_filter.mp (List.mem_of_getElem? hb)).1
  refine ⟨by simp [arrivalAt, hjob], ?_⟩
  simp only [durationAt, hjob, Option.elim]
  exact hspan b hmem

end Courteous

namespace Station

variable {t : ℤ} {profile : Profile J} {n : ℕ} {s : Station J}

theorem waiting_tick_subset (t : ℤ) (success : Bool) (s : Station J) (line : Bool) :
    (s.tick t success).waiting line ⊆ s.waiting line := by
  have hsame : ∀ s' : Station J, s'.waiting line = s.countdown.waiting line →
      s'.waiting line ⊆ s.waiting line := by
    intro s' hwaiting
    rw [hwaiting, waiting_countdown]
    exact List.Subset.refl _
  rcases tick_cases t success s with
    ⟨-, hstep⟩ | ⟨a, -, -, hstep⟩ | ⟨a, -, -, -, hstep⟩ | ⟨a, -, -, -, hstep⟩
  · rw [hstep]
    exact List.Subset.trans (waiting_startNext_subset line) (hsame _ rfl)
  · rw [hstep]
    exact hsame _ rfl
  · rw [hstep]
    exact List.Subset.trans (waiting_startNext_subset line) (hsame (complete t _ s.countdown) rfl)
  · rw [hstep]
    exact hsame _ rfl

/-- Every service started at a tick that has passed. -/
theorem History.services_before (h : History arrival profile n s) {x : J × ℤ}
    (hx : x ∈ s.services) : x.2 < n := by
  induction h with
  | start => simp [Station.empty, services] at hx
  | @tick n s incoming success _ _ _ ih =>
    rcases services_tick n success (s.receiveAll incoming) with
      hsame | ⟨line, j, rest, -, hnew, -, -⟩
    · rw [hsame, services_receiveAll] at hx
      have hlt := ih hx
      omega
    · rw [hnew, services_receiveAll, List.mem_append, List.mem_singleton] at hx
      rcases hx with hx | rfl
      · have hlt := ih hx
        omega
      · dsimp only
        omega

/-- A regular service has started before any express job arrived that is served
after it or still waits. -/
structure Yielding (arrival : J → ℤ) (s : Station J) : Prop where
  served : s.services.Pairwise fun x y =>
    s.profile.express x.1 = false → s.profile.express y.1 = true → x.2 < arrival y.1
  waiting : ∀ x ∈ s.services, s.profile.express x.1 = false → ∀ j ∈ s.express, x.2 < arrival j

theorem Yielding.receiveAll (h : Yielding arrival s) {now : ℤ}
    (hbefore : ∀ x ∈ s.services, x.2 < now) {incoming : Option J}
    (hnow : ∀ j ∈ incoming, arrival j = now) : Yielding arrival (s.receiveAll incoming) where
  served := by
    rw [services_receiveAll, profile_receiveAll]
    exact h.served
  waiting x hx hregular j hj := by
    rw [services_receiveAll] at hx
    rw [profile_receiveAll] at hregular
    have hline : j ∈ (s.receiveAll incoming).waiting true := hj
    rcases mem_waiting_receiveAll hline with hj | hj
    · exact h.waiting x hx hregular j hj
    · rw [hnow j hj]
      exact hbefore x hx

/-- A regular job that starts leaves no express job behind. -/
theorem Yielding.tick (h : Yielding arrival s)
    (hclass : ∀ line, ∀ j ∈ s.waiting line, s.profile.express j = line) (success : Bool) :
    Yielding arrival (s.tick t success) := by
  have hexpress : (s.tick t success).express ⊆ s.express := waiting_tick_subset t success s true
  rcases services_tick t success s with hsame | ⟨line, j, rest, hline, hnew, -, hempty⟩
  · refine ⟨?_, fun x hx hregular i hi => ?_⟩
    · rw [hsame, profile_tick]
      exact h.served
    · rw [hsame] at hx
      rw [profile_tick] at hregular
      exact h.waiting x hx hregular i (hexpress hi)
  · have hj : j ∈ s.waiting line := by simp [hline]
    refine ⟨?_, fun x hx hregular i hi => ?_⟩
    · rw [hnew, profile_tick, List.pairwise_append]
      refine ⟨h.served, List.pairwise_singleton _ _, fun x hx y hy hregular hyexpress => ?_⟩
      obtain rfl := List.mem_singleton.mp hy
      obtain rfl : line = true := (hclass line j hj).symm.trans hyexpress
      exact h.waiting x hx hregular j hj
    · rw [hnew, List.mem_append, List.mem_singleton] at hx
      rw [profile_tick] at hregular
      rcases hx with hx | rfl
      · exact h.waiting x hx hregular i (hexpress hi)
      · obtain rfl : line = false := (hclass line j hj).symm.trans hregular
        rw [hempty rfl] at hi
        cases hi

theorem History.yielding (h : History arrival profile n s) : Yielding arrival s := by
  induction h with
  | start => exact ⟨by simp [Station.empty, services], by simp [Station.empty, services]⟩
  | @tick n s incoming success hs harrival _ ih =>
    have hordered := hs.ordered.receiveAll (by omega) harrival
    have hreceived := ih.receiveAll (fun x hx => hs.services_before hx) harrival
    exact hreceived.tick hordered.class_eq success

/-- The order of a class lists the jobs of the station that belong to it. -/
theorem Ordered.mem_classOrder_iff {latest : ℤ} (h : Ordered arrival latest s) {line : Bool}
    {j : J} : j ∈ s.classOrder line ↔ j ∈ s.jobs ∧ s.profile.express j = line := by
  constructor
  · intro hj
    refine ⟨mem_jobs_of_mem_classOrder hj, ?_⟩
    rcases List.mem_append.mp hj with hj | hj
    · exact beq_iff_eq.mp (List.mem_filter.mp hj).2
    · exact h.class_eq line j hj
  · rintro ⟨hj, rfl⟩
    have hwaiting : ∀ other, j ∈ s.waiting other → j ∈ s.classOrder (s.profile.express j) := by
      intro other hj
      rw [← h.class_eq other j hj] at hj
      exact List.mem_append_right _ hj
    simp only [jobs, List.mem_append] at hj
    rcases hj with (hj | hj) | hj
    · exact List.mem_append_left _ (List.mem_filter.mpr ⟨hj, beq_self_eq_true _⟩)
    · exact hwaiting true hj
    · exact hwaiting false hj

theorem durationAt_nonneg {work failures : J → ℤ} {l : List J}
    (h : ∀ j ∈ l, 0 ≤ (failures j + 1) * work j) (k : ℕ) : 0 ≤ durationAt work failures l k := by
  rw [durationAt]
  cases hj : l[k]? with
  | none => exact le_refl _
  | some j => exact h j (List.mem_of_getElem? hj)

/-- `failures` gives the failed attempts of every job, with those that an
unfinished job may still have. -/
structure CountsFailures (failures : J → ℤ) (s : Station J) : Prop where
  completed : ∀ c ∈ s.completed, failures c.job = c.failures
  current : ∀ a ∈ s.current, a.failures ≤ failures a.job

/-- The services of a station, the one in progress as it will be completed. -/
def foreseen (failures : J → ℤ) (s : Station J) : List (Completed J) :=
  s.completed ++ s.current.toList.map fun a =>
    ⟨a.job, a.start, failures a.job, a.start + (failures a.job + 1) * s.profile.work a.job⟩

/-- The service that comes next if it is that of `j`. -/
def nextService (arrival : J → ℤ) (failures : J → ℤ) (s : Station J) (j : J) : Completed J :=
  let start := serviceStart arrival (lastFinish none (s.foreseen failures)) j
  ⟨j, start, failures j, start + (failures j + 1) * s.profile.work j⟩

variable {failures : J → ℤ}

theorem services_eq_foreseen (failures : J → ℤ) (s : Station J) :
    s.services = (s.foreseen failures).map fun c => (c.job, c.start) := by
  simp [services, foreseen, Function.comp_def]

theorem classOrder_eq_foreseen (failures : J → ℤ) (s : Station J) :
    s.classOrder true =
      (expressServices s.profile.express (s.foreseen failures)).map Completed.job ++ s.express := by
  have hstarted : s.started = (s.foreseen failures).map Completed.job := by
    simp [started, foreseen, Function.comp_def]
  rw [classOrder, hstarted, List.filter_map]
  simp [expressServices, Function.comp_def]

theorem Timed.foreseen_span {now : ℤ} (h : Timed arrival now s)
    (hcounts : s.CountsFailures failures) {c : Completed J} (hc : c ∈ s.foreseen failures) :
    c.finish = c.start + (failures c.job + 1) * s.profile.work c.job ∧ c.start ≤ c.finish := by
  rcases List.mem_append.mp hc with hc | hc
  · obtain ⟨hfail, hwork, hspan, -⟩ := h.completed_span c hc
    rw [← hcounts.completed c hc] at hfail hspan
    have hlong : 0 ≤ (failures c.job + 1) * s.profile.work c.job :=
      Int.mul_nonneg (by omega) (by omega)
    exact ⟨hspan, by omega⟩
  · obtain ⟨a, ha, rfl⟩ := List.mem_map.mp hc
    rw [Option.mem_toList] at ha
    obtain ⟨hfail, hwork, -⟩ := h.current_span a ha
    have hle := hcounts.current a ha
    have hlong : 0 ≤ (failures a.job + 1) * s.profile.work a.job :=
      Int.mul_nonneg (by omega) (by omega)
    exact ⟨rfl, by dsimp only; omega⟩

theorem Timed.foreseen_chained {now : ℤ} (h : Timed arrival now s) (failures : J → ℤ) :
    Chained arrival none (s.foreseen failures) := by
  rw [foreseen]
  cases hcur : s.current with
  | none => simpa using h.chained
  | some a => exact (chained_snoc none s.completed _).mpr ⟨h.chained, h.current_start a hcur⟩

/-- The service in progress is not over yet. -/
theorem History.le_lastFinish (h : History arrival profile n s)
    (hcounts : s.CountsFailures failures) {a : Attempt J} (ha : s.current = some a) :
    lastFinish none (s.foreseen failures) =
        some (a.start + (failures a.job + 1) * profile.work a.job) ∧
      n ≤ a.start + (failures a.job + 1) * profile.work a.job := by
  have hprofile := h.profile_eq
  obtain ⟨-, hwork, hspan⟩ := h.timed.current_span a ha
  have hleft := h.settled.remaining_pos a ha
  have hle := hcounts.current a ha
  rw [hprofile] at hwork hspan
  have hmore : (a.failures + 1) * profile.work a.job ≤
      (failures a.job + 1) * profile.work a.job := by
    apply Int.mul_le_mul_of_nonneg_right <;> omega
  refine ⟨?_, ?_⟩
  · simp [foreseen, ha, hprofile]
  · rw [add_mul, one_mul] at hmore
    omega

/-- A job that waits keeps the server busy, so its service is still to come. -/
theorem History.le_next_start (h : History arrival profile n s)
    (hcounts : s.CountsFailures failures) {j : J} (hj : j ∈ s.express) :
    n ≤ (s.nextService arrival failures j).start := by
  cases hcur : s.current with
  | none => simp [(h.settled.idle_empty hcur).1] at hj
  | some b =>
    obtain ⟨hlast, hnow⟩ := h.le_lastFinish hcounts hcur
    have hdue : (s.nextService arrival failures j).start =
        max (arrival j) (b.start + (failures b.job + 1) * profile.work b.job) := by
      simp only [nextService, hlast, serviceStart, Option.elim]
    rw [hdue]
    exact hnow.trans (le_max_right _ _)

section Delay

variable (h : History arrival profile n s) (hcounts : s.CountsFailures failures)
  (hlongest : ∀ j ∈ s.started, profile.express j = false →
    (failures j + 1) * profile.work j ≤ longest)

include h hcounts hlongest

theorem History.courteous :
    Courteous arrival profile.express longest (s.foreseen failures) where
  chained := h.timed.foreseen_chained failures
  forward c hc := (h.timed.foreseen_span hcounts hc).2
  before := by
    have hserved := h.yielding.served
    rw [services_eq_foreseen failures, List.pairwise_map, h.profile_eq] at hserved
    exact hserved
  regular c hc hregular := by
    have hjob : c.job ∈ s.started := by
      rw [started_eq_services, services_eq_foreseen failures, List.map_map]
      exact List.mem_map.mpr ⟨c, hc, rfl⟩
    rw [(h.timed.foreseen_span hcounts hc).1, h.profile_eq]
    have hbound := hlongest c.job hjob hregular
    omega

/-- The next express service is courteous too. -/
theorem History.courteous_next {j : J} (hj : j ∈ s.express)
    (hwork : 0 ≤ (failures j + 1) * profile.work j) :
    Courteous arrival profile.express longest
      (s.foreseen failures ++ [s.nextService arrival failures j]) := by
  have hprofile := h.profile_eq
  have hclass : profile.express j = true := hprofile ▸ h.ordered.class_eq true j hj
  have hnow := h.courteous hcounts hlongest
  refine ⟨(chained_snoc none _ _).mpr ⟨hnow.chained, rfl⟩, fun c hc => ?_, ?_,
    fun c hc hregular => ?_⟩
  · rcases List.mem_append.mp hc with hc | hc
    · exact hnow.forward c hc
    · obtain rfl := List.mem_singleton.mp hc
      simp only [nextService, hprofile]
      omega
  · refine List.pairwise_append.mpr ⟨hnow.before, List.pairwise_singleton _ _, ?_⟩
    intro b hb c hc hregular _
    obtain rfl := List.mem_singleton.mp hc
    have hservice : (b.job, b.start) ∈ s.services := by
      rw [services_eq_foreseen failures]
      exact List.mem_map.mpr ⟨b, hb, rfl⟩
    exact h.yielding.waiting _ hservice (hprofile ▸ hregular) j hj
  · rcases List.mem_append.mp hc with hc | hc
    · exact hnow.regular c hc hregular
    · obtain rfl := List.mem_singleton.mp hc
      exact absurd (hclass.symm.trans hregular) (by decide)

/-- When the first express job that waits would start at a server of its own has
not been passed yet by `longest`. -/
theorem History.first_waiting (hpos : 0 < longest)
    (hwork : ∀ j ∈ s.classOrder true, 0 ≤ (failures j + 1) * profile.work j) {i : J}
    {rest : List J} (hexpress : s.express = i :: rest) :
    n < fifoStart (arrivalAt arrival (s.classOrder true))
      (durationAt profile.work failures (s.classOrder true))
      (expressServices profile.express (s.foreseen failures)).length + longest := by
  have hprofile := h.profile_eq
  have horder := classOrder_eq_foreseen failures s
  rw [hprofile, hexpress] at horder
  have hi : i ∈ s.express := by simp [hexpress]
  have hclass : profile.express i = true := hprofile ▸ h.ordered.class_eq true i hi
  have hcourteous := h.courteous_next hcounts hlongest hi (hwork i (by simp [horder]))
  have hsnoc := expressServices_snoc (l := s.foreseen failures)
    (c := s.nextService arrival failures i) hclass
  have hspan : ∀ c ∈ s.foreseen failures ++ [s.nextService arrival failures i],
      c.finish = c.start + (failures c.job + 1) * profile.work c.job := by
    intro c hc
    rw [← hprofile]
    rcases List.mem_append.mp hc with hc | hc
    · exact (h.timed.foreseen_span hcounts hc).1
    · obtain rfl := List.mem_singleton.mp hc
      rfl
  have hprefix : (expressServices profile.express
      (s.foreseen failures ++ [s.nextService arrival failures i])).map Completed.job <+:
        s.classOrder true := by
    rw [hsnoc, horder]
    exact ⟨rest, by simp [nextService]⟩
  obtain ⟨-, hlt⟩ := hcourteous.near_in_jobs hpos hspan hprefix
    (c := s.nextService arrival failures i)
    (k := (expressServices profile.express (s.foreseen failures)).length) (by simp [hsnoc])
  exact (h.le_next_start hcounts hi).trans_lt hlt

/-- Every express job is completed, in service or waiting, at the times at which
a server of its own would have it so, or later by less than the longest regular
service. -/
theorem History.express_cases (hpos : 0 < longest)
    (hwork : ∀ j ∈ s.classOrder true, 0 ≤ (failures j + 1) * profile.work j) {k : ℕ} {j : J}
    (hj : (s.classOrder true)[k]? = some j) :
    let a := arrivalAt arrival (s.classOrder true)
    let d := durationAt profile.work failures (s.classOrder true)
    (∃ c ∈ s.completed, c.job = j ∧ fifoStart a d k ≤ c.start ∧
      c.start < fifoStart a d k + longest ∧ c.finish = c.start + d k) ∨
    (∃ b ∈ s.current, b.job = j ∧ fifoStart a d k ≤ b.start ∧
      b.start < fifoStart a d k + longest ∧ n ≤ b.start + d k) ∨
    (j ∈ s.express ∧ n < fifoStart a d k + longest) := by
  intro a d
  have hprofile := h.profile_eq
  have horder := classOrder_eq_foreseen failures s
  rw [hprofile] at horder
  have hduration : d k = (failures j + 1) * profile.work j := by
    simp only [d, durationAt, hj, Option.elim]
  have hspan : ∀ c ∈ s.foreseen failures,
      c.finish = c.start + (failures c.job + 1) * profile.work c.job := by
    intro c hc
    rw [← hprofile]
    exact (h.timed.foreseen_span hcounts hc).1
  rcases lt_or_ge k (expressServices profile.express (s.foreseen failures)).length with hk | hk
  · have hc : (expressServices profile.express (s.foreseen failures))[k]? = some _ :=
      List.getElem?_eq_getElem hk
    obtain ⟨hle, hlt⟩ := (h.courteous hcounts hlongest).near_in_jobs hpos hspan
      (horder ▸ List.prefix_append _ _) hc
    generalize (expressServices profile.express (s.foreseen failures))[k] = c at hc hle hlt
    obtain rfl : c.job = j := by
      rw [horder, List.getElem?_append_left (by simpa using hk), List.getElem?_map, hc] at hj
      exact Option.some.inj hj
    have hmem := (List.mem_filter.mp (List.mem_of_getElem? hc)).1
    rcases List.mem_append.mp hmem with hdone | hcur
    · exact Or.inl ⟨c, hdone, rfl, hle, hlt, hduration ▸ hspan c hmem⟩
    · obtain ⟨b, hb, rfl⟩ := List.mem_map.mp hcur
      rw [Option.mem_toList] at hb
      exact Or.inr (Or.inl ⟨b, hb, rfl, hle, hlt, hduration ▸ (h.le_lastFinish hcounts hb).2⟩)
  · obtain ⟨i, rest, hexpress⟩ : ∃ i rest, s.express = i :: rest := by
      rw [horder, List.getElem?_append_right (by simpa using hk)] at hj
      exact List.exists_cons_of_ne_nil (List.ne_nil_of_mem (List.mem_of_getElem? hj))
    have hfirst := h.first_waiting hcounts hlongest hpos hwork hexpress
    have hmono : fifoStart a d (expressServices profile.express (s.foreseen failures)).length ≤
        fifoStart a d k := fifoStart_mono (durationAt_nonneg hwork) hk
    rw [horder, List.getElem?_append_right (by simpa using hk)] at hj
    refine Or.inr (Or.inr ⟨List.mem_of_getElem? hj, ?_⟩)
    simp only [a, d] at hmono ⊢
    omega

end Delay

end Station

end AcaBSim.Stations
