import AcaBSim.StationOrder

/-!
Two runs of a station that agree on everything ahead of one job. The job has
the same fate in both, however the jobs admitted later differ, provided the
outcome of an attempt depends only on its job and on how often that job failed.
The stations need to treat alike only the jobs that are `known`.
-/
namespace AcaBSim.Stations

variable {J : Type}

/-- The profiles of two stations agree on the known jobs. -/
structure Agree (known : J → Prop) (p₁ p₂ : Profile J) : Prop where
  work : ∀ i, known i → p₁.work i = p₂.work i
  express : ∀ i, known i → p₁.express i = p₂.express i
  errorProb : p₁.errorProb = p₂.errorProb

namespace Station

/-- Stations in the same state, holding known jobs only. -/
structure Twin (known : J → Prop) (s₁ s₂ : Station J) : Prop where
  waiting : ∀ line, s₁.waiting line = s₂.waiting line
  current : s₁.current = s₂.current
  completed : s₁.completed = s₂.completed
  jobs_known : ∀ i ∈ s₁.jobs, known i
  agree : Agree known s₁.profile s₂.profile

/-- The two stations agree on the service in progress and on the jobs that one
of their lines holds ahead of `j`, or on the fate of `j` once it is started. -/
inductive Coupled (known : J → Prop) (j : J) (line : Bool) (s₁ s₂ : Station J) : Prop
  | waiting (ahead behind₁ behind₂ : List J)
      (h₁ : s₁.waiting line = ahead ++ j :: behind₁)
      (h₂ : s₂.waiting line = ahead ++ j :: behind₂) (hcur : s₁.current = s₂.current)
      (hahead : ∀ i ∈ ahead, known i) (hknown : ∀ a ∈ s₁.current, known a.job)
  | serving (a : Attempt J) (h₁ : s₁.current = some a) (h₂ : s₂.current = some a)
      (hjob : a.job = j)
  | done (c : Completed J) (h₁ : c ∈ s₁.completed) (h₂ : c ∈ s₂.completed) (hjob : c.job = j)

/-- The line is the one taken first: express, or regular with nobody express. -/
def TakenFirst (line : Bool) (s : Station J) : Prop := line = true ∨ s.express = []

variable {known : J → Prop} {j : J} {line : Bool} {s₁ s₂ : Station J} {t : ℤ}

theorem startNext_of_takenFirst {s : Station J} (h : TakenFirst line s) {i : J} {rest : List J}
    (hline : s.waiting line = i :: rest) : startNext t s = begin t i (s.setWaiting line rest) := by
  rcases startNext_cases t s with ⟨taken, k, tail, htaken, hreg, hnext⟩ | ⟨hex, hreg, -⟩
  · have hsame : taken = line := by
      cases taken with
      | true =>
        cases line with
        | true => rfl
        | false =>
          have hex : s.express = [] := by simpa [TakenFirst] using h
          simp [hex] at htaken
      | false =>
        have hex : s.express = [] := hreg rfl
        cases line with
        | true => simp [hex] at hline
        | false => rfl
    subst hsame
    rw [hline] at htaken
    obtain ⟨rfl, rfl⟩ := List.cons.inj htaken
    exact hnext
  · cases line <;> simp [hex, hreg] at hline

theorem takenFirst_countdown {s : Station J} (h : TakenFirst line s) :
    TakenFirst line s.countdown := by
  have hexpress : s.countdown.express = s.express := waiting_countdown s true
  rw [TakenFirst, hexpress]
  exact h

/-- Starting the next service from agreeing idle stations keeps them agreeing. -/
theorem coupled_startNext (hagree : Agree known s₁.profile s₂.profile) (hj : known j)
    (hfirst₁ : TakenFirst line s₁) (hfirst₂ : TakenFirst line s₂)
    {ahead behind₁ behind₂ : List J} (h₁ : s₁.waiting line = ahead ++ j :: behind₁)
    (h₂ : s₂.waiting line = ahead ++ j :: behind₂) (hahead : ∀ i ∈ ahead, known i) :
    Coupled known j line (startNext t s₁) (startNext t s₂) := by
  cases ahead with
  | nil =>
    rw [startNext_of_takenFirst hfirst₁ h₁, startNext_of_takenFirst hfirst₂ h₂]
    exact Coupled.serving ⟨j, t, 0, s₁.profile.work j⟩ (by simp [begin])
      (by simp [begin, hagree.work j hj]) rfl
  | cons i ahead =>
    have hi : known i := hahead i (by simp)
    rw [startNext_of_takenFirst hfirst₁ h₁, startNext_of_takenFirst hfirst₂ h₂]
    refine Coupled.waiting ahead behind₁ behind₂ ?_ ?_ (by simp [begin, hagree.work i hi])
      (fun k hk => hahead k (by simp [hk])) (by simpa [begin] using hi)
    · exact waiting_setWaiting s₁ line (ahead ++ j :: behind₁)
    · exact waiting_setWaiting s₂ line (ahead ++ j :: behind₂)

theorem waiting_receiveAll (incoming : Option J) (s : Station J) (line : Bool) :
    ∃ more, (s.receiveAll incoming).waiting line = s.waiting line ++ more := by
  cases incoming with
  | none => exact ⟨[], by simp [receiveAll]⟩
  | some i =>
    by_cases hline : line = s.profile.express i
    · subst hline
      exact ⟨[i], by simp [receiveAll, receive]⟩
    · refine ⟨[], ?_⟩
      simp [receiveAll, receive, waiting_setWaiting_of_ne _ _ hline]

theorem Coupled.receiveAll (h : Coupled known j line s₁ s₂) (incoming₁ incoming₂ : Option J) :
    Coupled known j line (s₁.receiveAll incoming₁) (s₂.receiveAll incoming₂) := by
  cases h with
  | waiting ahead behind₁ behind₂ h₁ h₂ hcur hahead hknown =>
    obtain ⟨more₁, hmore₁⟩ := waiting_receiveAll incoming₁ s₁ line
    obtain ⟨more₂, hmore₂⟩ := waiting_receiveAll incoming₂ s₂ line
    refine Coupled.waiting ahead (behind₁ ++ more₁) (behind₂ ++ more₂) ?_ ?_
      (by simpa using hcur) hahead (by simpa using hknown)
    · rw [hmore₁, h₁]
      simp
    · rw [hmore₂, h₂]
      simp
  | serving a h₁ h₂ hjob => exact Coupled.serving a (by simpa using h₁) (by simpa using h₂) hjob
  | done c h₁ h₂ hjob => exact Coupled.done c (by simpa using h₁) (by simpa using h₂) hjob

/-- Both stations serve the job: it is completed, tried again, or served on. -/
theorem tick_coupled_of_serving {a : Attempt J} (h₁ : s₁.current = some a)
    (h₂ : s₂.current = some a) (hjob : a.job = j) (hj : known j)
    (hagree : Agree known s₁.profile s₂.profile) (success : Bool) :
    Coupled known j line (s₁.tick t success) (s₂.tick t success) := by
  have ha : known a.job := hjob ▸ hj
  by_cases hrem : a.remaining = 1
  · cases success with
    | true =>
      rw [tick_of_success t h₁ hrem, tick_of_success t h₂ hrem]
      exact Coupled.done ⟨a.job, a.start, a.failures, t⟩ (by simp [complete])
        (by simp [complete]) hjob
    | false =>
      rw [tick_of_failure t h₁ hrem, tick_of_failure t h₂ hrem]
      exact Coupled.serving
        { a with failures := a.failures + 1, remaining := s₁.profile.work a.job }
        (by simp [retry]) (by simp [retry, hagree.work a.job ha]) hjob
  · rw [tick_of_running t h₁ hrem, tick_of_running t h₂ hrem]
    exact Coupled.serving { a with remaining := a.remaining - 1 }
      (by simp [countdown_of_some h₁]) (by simp [countdown_of_some h₂]) hjob

/-- Both stations serve the same job ahead of it, and the next one is taken
only when that service succeeds. -/
theorem tick_coupled_of_ahead {a : Attempt J} (hc₁ : s₁.current = some a)
    (hc₂ : s₂.current = some a) (ha : known a.job) (hj : known j)
    (hagree : Agree known s₁.profile s₂.profile) (hfirst₁ : TakenFirst line s₁)
    (hfirst₂ : TakenFirst line s₂) {ahead behind₁ behind₂ : List J}
    (h₁ : s₁.waiting line = ahead ++ j :: behind₁)
    (h₂ : s₂.waiting line = ahead ++ j :: behind₂) (hahead : ∀ i ∈ ahead, known i)
    (success : Bool) : Coupled known j line (s₁.tick t success) (s₂.tick t success) := by
  have hw₁ : s₁.countdown.waiting line = ahead ++ j :: behind₁ := by simpa using h₁
  have hw₂ : s₂.countdown.waiting line = ahead ++ j :: behind₂ := by simpa using h₂
  have hagree' : Agree known s₁.countdown.profile s₂.countdown.profile := by simpa using hagree
  by_cases hrem : a.remaining = 1
  · cases success with
    | true =>
      rw [tick_of_success t hc₁ hrem, tick_of_success t hc₂ hrem]
      exact coupled_startNext hagree' hj (takenFirst_countdown hfirst₁)
        (takenFirst_countdown hfirst₂) hw₁ hw₂ hahead
    | false =>
      rw [tick_of_failure t hc₁ hrem, tick_of_failure t hc₂ hrem]
      exact Coupled.waiting ahead behind₁ behind₂ hw₁ hw₂
        (by simp [retry, hagree.work a.job ha]) hahead (by simpa [retry] using ha)
  · rw [tick_of_running t hc₁ hrem, tick_of_running t hc₂ hrem]
    refine Coupled.waiting ahead behind₁ behind₂ hw₁ hw₂ ?_ hahead ?_
    · simp [countdown_of_some hc₁, countdown_of_some hc₂]
    · simpa [countdown_of_some hc₁] using ha

/-- One tick of two coupled stations whose attempts on the same job agree. -/
theorem Coupled.tick (h : Coupled known j line s₁ s₂)
    (hagree : Agree known s₁.profile s₂.profile) (hj : known j)
    (hfirst₁ : TakenFirst line s₁) (hfirst₂ : TakenFirst line s₂) {success₁ success₂ : Bool}
    (hsuccess : ∀ a, s₁.current = some a → s₂.current = some a → known a.job →
      success₁ = success₂) :
    Coupled known j line (s₁.tick t success₁) (s₂.tick t success₂) := by
  cases h with
  | done c h₁ h₂ hjob =>
    exact Coupled.done c (mem_completed_tick h₁ _ _) (mem_completed_tick h₂ _ _) hjob
  | serving a h₁ h₂ hjob =>
    obtain rfl := hsuccess a h₁ h₂ (hjob ▸ hj)
    exact tick_coupled_of_serving h₁ h₂ hjob hj hagree success₁
  | waiting ahead behind₁ behind₂ h₁ h₂ hcur hahead hknown =>
    cases hc₁ : s₁.current with
    | none =>
      have hc₂ : s₂.current = none := hcur.symm.trans hc₁
      rw [tick_of_idle t hc₁, tick_of_idle t hc₂]
      exact coupled_startNext (by simpa using hagree) hj (takenFirst_countdown hfirst₁)
        (takenFirst_countdown hfirst₂) (by simpa using h₁) (by simpa using h₂) hahead
    | some a =>
      have hc₂ : s₂.current = some a := hcur.symm.trans hc₁
      have ha : known a.job := hknown a hc₁
      obtain rfl := hsuccess a hc₁ hc₂ ha
      exact tick_coupled_of_ahead hc₁ hc₂ ha hj hagree hfirst₁ hfirst₂ h₁ h₂ hahead success₁

theorem Twin.express (h : Twin known s₁ s₂) : s₁.express = s₂.express := h.waiting true

theorem Twin.regular (h : Twin known s₁ s₂) : s₁.regular = s₂.regular := h.waiting false

theorem Twin.receive (h : Twin known s₁ s₂) {i : J} (hi : known i) :
    Twin known (s₁.receive i) (s₂.receive i) where
  waiting line := by
    have hclass := h.agree.express i hi
    by_cases hline : line = s₁.profile.express i
    · have hline' : line = s₂.profile.express i := hline.trans hclass
      have hw := h.waiting line
      simp only [Station.receive, ← hline, ← hline', waiting_setWaiting, hw]
    · have hline' : line ≠ s₂.profile.express i := hclass ▸ hline
      simp only [Station.receive, waiting_setWaiting_of_ne _ _ hline,
        waiting_setWaiting_of_ne _ _ hline', h.waiting line]
  current := by simpa using h.current
  completed := by simpa using h.completed
  jobs_known k hk := by
    rcases List.mem_cons.mp ((jobs_receive i s₁).mem_iff.mp hk) with rfl | hk
    · exact hi
    · exact h.jobs_known k hk
  agree := by simpa using h.agree

theorem Twin.receiveAll (h : Twin known s₁ s₂) {incoming : Option J}
    (hknown : ∀ j ∈ incoming, known j) :
    Twin known (s₁.receiveAll incoming) (s₂.receiveAll incoming) := by
  cases incoming with
  | none => exact h
  | some j => exact h.receive (hknown j rfl)

theorem Twin.startNext (h : Twin known s₁ s₂) :
    (∀ line, (startNext t s₁).waiting line = (startNext t s₂).waiting line) ∧
      (startNext t s₁).current = (startNext t s₂).current := by
  rcases startNext_cases t s₁ with ⟨line, i, rest, hline, hreg, hnext⟩ | ⟨hex, hreg, hnext⟩
  · have hi : known i := h.jobs_known i (mem_jobs_of_mem_waiting
      (show i ∈ s₁.waiting line by simp [hline]))
    have hfirst : TakenFirst line s₂ := by
      cases line with
      | true => exact Or.inl rfl
      | false => exact Or.inr (h.express ▸ hreg rfl)
    rw [hnext, startNext_of_takenFirst hfirst ((h.waiting line).symm.trans hline)]
    refine ⟨fun other => ?_, by simp [begin, h.agree.work i hi]⟩
    change (s₁.setWaiting line rest).waiting other = (s₂.setWaiting line rest).waiting other
    by_cases hother : other = line
    · subst hother
      simp
    · rw [waiting_setWaiting_of_ne _ _ hother, waiting_setWaiting_of_ne _ _ hother, h.waiting]
  · have hex₂ : s₂.express = [] := h.express ▸ hex
    have hreg₂ : s₂.regular = [] := h.regular ▸ hreg
    have hnext₂ : Station.startNext t s₂ = { s₂ with current := none } := by
      simp only [Station.startNext, hex₂, hreg₂]
    rw [hnext, hnext₂]
    exact ⟨fun line => h.waiting line, rfl⟩

/-- Stations that have kept their lines and agree on the rest are still twins. -/
theorem Twin.of_same (h : Twin known s₁ s₂) {r₁ r₂ : Station J}
    (hp₁ : r₁.profile = s₁.profile) (hp₂ : r₂.profile = s₂.profile)
    (hw₁ : ∀ line, r₁.waiting line = s₁.waiting line)
    (hw₂ : ∀ line, r₂.waiting line = s₂.waiting line) (hcur : r₁.current = r₂.current)
    (hdone : r₁.completed = r₂.completed) (hjobs : ∀ i ∈ r₁.jobs, known i) :
    Twin known r₁ r₂ where
  waiting line := by rw [hw₁, hw₂, h.waiting]
  current := hcur
  completed := hdone
  jobs_known := hjobs
  agree := by
    rw [hp₁, hp₂]
    exact h.agree

theorem Twin.countdown_idle (h : Twin known s₁ s₂) (hc₁ : s₁.current = none)
    (hc₂ : s₂.current = none) : Twin known s₁.countdown s₂.countdown := by
  refine h.of_same (by simp) (by simp) (by simp) (by simp) ?_ (by simpa using h.completed) ?_
  · simp [countdown_of_none hc₁, countdown_of_none hc₂, hc₁, hc₂]
  · rw [jobs_countdown]
    exact h.jobs_known

/-- The last tick of the same service completes it at both stations. -/
theorem Twin.complete (h : Twin known s₁ s₂) {a : Attempt J} (hc₁ : s₁.current = some a)
    (hrem : a.remaining = 1) :
    Twin known (Station.complete t { a with remaining := 0 } s₁.countdown)
      (Station.complete t { a with remaining := 0 } s₂.countdown) := by
  refine h.of_same (by simp [Station.complete]) (by simp [Station.complete])
    (fun line => waiting_countdown s₁ line) (fun line => waiting_countdown s₂ line) rfl
    (by simp [Station.complete, h.completed]) ?_
  intro i hi
  apply h.jobs_known i
  rw [jobs, started_complete (current_countdown_last hc₁ hrem) rfl] at hi
  rw [← jobs_countdown]
  exact hi

/-- Twins stay twins over a tick with the same outcome. -/
theorem Twin.tick (h : Twin known s₁ s₂) {success₁ success₂ : Bool}
    (hsuccess : ∀ a, s₁.current = some a → s₂.current = some a → known a.job →
      success₁ = success₂) :
    Twin known (s₁.tick t success₁) (s₂.tick t success₂) := by
  have hknown : ∀ i ∈ (s₁.tick t success₁).jobs, known i := fun i hi =>
    h.jobs_known i ((jobs_tick t success₁ s₁).mem_iff.mp hi)
  have hagree : Agree known (s₁.tick t success₁).profile (s₂.tick t success₂).profile := by
    simpa using h.agree
  cases hc₁ : s₁.current with
  | none =>
    have hc₂ : s₂.current = none := h.current.symm.trans hc₁
    rw [tick_of_idle t hc₁] at hknown hagree ⊢
    rw [tick_of_idle t hc₂] at hagree ⊢
    obtain ⟨hwaiting, hcurrent⟩ := (h.countdown_idle hc₁ hc₂).startNext (t := t)
    exact ⟨hwaiting, hcurrent, by simpa using h.completed, hknown, hagree⟩
  | some a =>
    have hc₂ : s₂.current = some a := h.current.symm.trans hc₁
    have ha : known a.job := h.jobs_known a.job (mem_jobs_of_current hc₁)
    obtain rfl := hsuccess a hc₁ hc₂ ha
    by_cases hrem : a.remaining = 1
    · cases success₁ with
      | true =>
        rw [tick_of_success t hc₁ hrem] at hknown hagree ⊢
        rw [tick_of_success t hc₂ hrem] at hagree ⊢
        obtain ⟨hwaiting, hcurrent⟩ := (h.complete hc₁ hrem).startNext (t := t)
        exact ⟨hwaiting, hcurrent, by simp [Station.complete, h.completed], hknown, hagree⟩
      | false =>
        rw [tick_of_failure t hc₁ hrem] at hknown hagree ⊢
        rw [tick_of_failure t hc₂ hrem] at hagree ⊢
        refine h.of_same (by simp [retry]) (by simp [retry])
          (fun line => waiting_countdown s₁ line) (fun line => waiting_countdown s₂ line) ?_
          (by simpa [retry] using h.completed) hknown
        simp [retry, h.agree.work a.job ha]
    · rw [tick_of_running t hc₁ hrem] at hknown hagree ⊢
      rw [tick_of_running t hc₂ hrem] at hagree ⊢
      refine h.of_same (by simp) (by simp) (by simp) (by simp) ?_ (by simpa using h.completed)
        hknown
      simp [countdown_of_some hc₁, countdown_of_some hc₂]

/-- Twins that have just admitted a job are coupled on it. -/
theorem Twin.coupled_receive (h : Twin known s₁ s₂) (hj : known j) :
    Coupled known j (s₁.profile.express j) (s₁.receive j) (s₂.receive j) := by
  have hclass := h.agree.express j hj
  refine Coupled.waiting (s₁.waiting (s₁.profile.express j)) [] [] ?_ ?_ ?_ ?_ ?_
  · simp [Station.receive]
  · simp [Station.receive, ← hclass, h.waiting]
  · simpa using h.current
  · exact fun i hi => h.jobs_known i (mem_jobs_of_mem_waiting hi)
  · intro a ha
    rw [current_receive] at ha
    exact h.jobs_known a.job (mem_jobs_of_current ha)

end Station

end AcaBSim.Stations
