import AcaBSim.NetworkTrace
import AcaBSim.StationCoupling

/-!
Two runs of a network whose doors agree up to and including one job. Until that
job is admitted the networks are twins; it is then admitted to the same station
in both, and from there on that station treats it alike in both, whatever is
admitted later, if it never takes a later job before it.
-/
namespace AcaBSim.Networks.Network

open Stations Station

variable {J : Type}

def AllTwin (known : J → Prop) (l₁ l₂ : List (Station J)) : Prop :=
  l₁.length = l₂.length ∧
    ∀ (i : ℕ) s₁ s₂, l₁[i]? = some s₁ → l₂[i]? = some s₂ → Twin known s₁ s₂

/-- Policies that treat the known jobs alike in twin networks; the outcome of
an attempt does not depend on the attempts decided before it. -/
structure Alike (known : J → Prop) (P₁ P₂ : Policy J) : Prop where
  arrival : ∀ j, known j → P₁.arrival j = P₂.arrival j
  route : ∀ j l₁ l₂, known j → AllTwin known l₁ l₂ → P₁.route j l₁ = P₂.route j l₂
  succeeds : ∀ k₁ k₂ p₁ p₂ a, known a.job → P₁.succeeds k₁ p₁ a = P₂.succeeds k₂ p₂ a

/-- Twin networks in which the jobs `ahead` and then `c` come next. -/
structure Together (known : J → Prop) (c : J) (ahead : List J) (N₁ N₂ : Network J) : Prop where
  door₁ : ∃ rest, N₁.door = ahead ++ c :: rest
  door₂ : ∃ rest, N₂.door = ahead ++ c :: rest
  ahead_known : ∀ j ∈ ahead, known j
  stations : AllTwin known N₁.stations N₂.stations

variable {known : J → Prop} {P₁ P₂ : Policy J} {N₁ N₂ : Network J} {c : J} {ahead : List J}
  {t : ℤ} {i n : ℕ} {s₁ s₂ : Station J}

/-- Empty stations whose profiles agree are twins. -/
theorem allTwin_empty {l₁ l₂ : List (Profile J)} (h : List.Forall₂ (Agree known) l₁ l₂) :
    AllTwin known (l₁.map Station.empty) (l₂.map Station.empty) := by
  refine ⟨by simpa using h.length_eq, fun i s₁ s₂ h₁ h₂ => ?_⟩
  rw [List.getElem?_map] at h₁ h₂
  obtain ⟨p₁, hp₁, rfl⟩ := Option.map_eq_some_iff.mp h₁
  obtain ⟨p₂, hp₂, rfl⟩ := Option.map_eq_some_iff.mp h₂
  obtain ⟨hlt₁, rfl⟩ := List.getElem?_eq_some_iff.mp hp₁
  obtain ⟨hlt₂, rfl⟩ := List.getElem?_eq_some_iff.mp hp₂
  exact ⟨fun line => by cases line <;> rfl, rfl, rfl,
    by simp [Station.empty, Station.jobs, Station.started], h.get hlt₁ hlt₂⟩

theorem outcome_eq (hP : Alike known P₁ P₂) (k₁ k₂ : ℕ) {a : Attempt J}
    (h₁ : s₁.current = some a) (h₂ : s₂.current = some a) (ha : known a.job) :
    outcome P₁ k₁ s₁.countdown = outcome P₂ k₂ s₂.countdown := by
  rw [outcome, outcome, countdown_of_some h₁, countdown_of_some h₂]
  exact hP.succeeds _ _ _ _ _ ha

theorem Together.head (h : Together known c ahead N₁ N₂) (hc : known c) :
    ∃ j, known j ∧ N₁.door.head? = some j ∧ N₂.door.head? = some j ∧ (ahead = [] → j = c) := by
  obtain ⟨rest₁, h₁⟩ := h.door₁
  obtain ⟨rest₂, h₂⟩ := h.door₂
  cases ahead with
  | nil => exact ⟨c, hc, by simp [h₁], by simp [h₂], fun _ => rfl⟩
  | cons j ahead =>
    exact ⟨j, h.ahead_known j (by simp), by simp [h₁], by simp [h₂], by simp⟩

theorem Together.arriving (h : Together known c ahead N₁ N₂) (hc : known c)
    (hP : Alike known P₁ P₂) :
    N₁.arriving P₁ t = N₂.arriving P₂ t ∧ ∀ j ∈ N₁.arriving P₁ t, known j := by
  obtain ⟨j, hj, h₁, h₂, -⟩ := h.head hc
  have harrival := hP.arrival j hj
  refine ⟨by simp only [Network.arriving, h₁, h₂, Option.filter_some, harrival], fun i hi => ?_⟩
  have hhead := (arriving_eq_some.mp (Option.mem_def.mp hi)).1
  obtain rfl := Option.some.inj (hhead.symm.trans h₁)
  exact hj

theorem Together.incoming (h : Together known c ahead N₁ N₂) (hc : known c)
    (hP : Alike known P₁ P₂) : N₁.incoming P₁ t i = N₂.incoming P₂ t i := by
  obtain ⟨hsame, hknown⟩ := h.arriving (t := t) hc hP
  rw [Network.incoming, Network.incoming, ← hsame]
  cases harr : N₁.arriving P₁ t with
  | none => rfl
  | some j =>
    have hroute := hP.route j _ _ (hknown j harr) h.stations
    simp only [Option.filter_some, hroute]

theorem Together.allTwin_tick (h : Together known c ahead N₁ N₂) (hc : known c)
    (hP : Alike known P₁ P₂) :
    AllTwin known (N₁.tick P₁ t).stations (N₂.tick P₂ t).stations := by
  refine ⟨by simpa using h.stations.1, fun i s₁' s₂' h₁' h₂' => ?_⟩
  obtain ⟨s₁, k₁, h₁, rfl⟩ := exists_before h₁'
  obtain ⟨s₂, k₂, h₂, rfl⟩ := exists_before h₂'
  have hinc := h.incoming (t := t) (i := i) hc hP
  have hknown : ∀ j ∈ N₁.incoming P₁ t i, known j := fun j hj =>
    (h.arriving hc hP).2 j (incoming_eq_some.mp (Option.mem_def.mp hj)).1
  rw [← hinc]
  exact ((h.stations.2 i s₁ s₂ h₁ h₂).receiveAll hknown).tick
    fun a ha₁ ha₂ ha => outcome_eq hP k₁ k₂ ha₁ ha₂ ha

/-- A tick that does not receive `c` leaves the networks together. -/
theorem Together.tick (h : Together known c ahead N₁ N₂) (hc : known c)
    (hP : Alike known P₁ P₂) :
    (∃ ahead', Together known c ahead' (N₁.tick P₁ t) (N₂.tick P₂ t)) ∨
      (N₁.arriving P₁ t = some c ∧ N₂.arriving P₂ t = some c) := by
  have hsame := (h.arriving (t := t) hc hP).1
  obtain ⟨rest₁, h₁⟩ := h.door₁
  obtain ⟨rest₂, h₂⟩ := h.door₂
  cases harr : N₁.arriving P₁ t with
  | none =>
    refine Or.inl ⟨ahead, ?_, ?_, h.ahead_known, h.allTwin_tick hc hP⟩
    · exact ⟨rest₁, by rw [door_tick, receive_of_none harr, h₁]⟩
    · exact ⟨rest₂, by rw [door_tick, receive_of_none (hsame ▸ harr), h₂]⟩
  | some j =>
    have hhead := (arriving_eq_some.mp harr).1
    cases ahead with
    | nil =>
      obtain rfl : c = j := by simpa [h₁] using hhead
      exact Or.inr ⟨rfl, hsame ▸ harr⟩
    | cons i ahead =>
      refine Or.inl ⟨ahead, ?_, ?_, fun k hk => h.ahead_known k (by simp [hk]),
        h.allTwin_tick hc hP⟩
      · exact ⟨rest₁, by rw [door_tick, receive_of_some harr, h₁]; rfl⟩
      · exact ⟨rest₂, by rw [door_tick, receive_of_some (hsame ▸ harr), h₂]; rfl⟩

/-- The station never takes a job before an earlier one of the class of `c`. -/
def FirstInLine (c : J) (s : Station J) : Prop :=
  s.profile.express c = true ∨ ∀ j, s.profile.express j = false

theorem takenFirst_receiveAll {arrival : J → ℤ} {profile : Profile J}
    (hs : History arrival profile n s₁) (hfirst : FirstInLine c s₁) (incoming : Option J) :
    TakenFirst (s₁.profile.express c) (s₁.receiveAll incoming) := by
  rcases hfirst with hexpress | hall
  · exact Or.inl hexpress
  · have hempty : s₁.express = [] := by
      cases hex : s₁.express with
      | nil => rfl
      | cons j rest =>
        have hclass := hs.ordered.class_eq true j (by simp [hex])
        simp [hall j] at hclass
    apply Or.inr
    cases incoming with
    | none => exact hempty
    | some j => simpa [Station.receiveAll, Station.receive, hall j, setWaiting] using hempty

/-- What holds of station `r` in both networks once `c` is admitted to it. -/
def Joined (known : J → Prop) (c : J) (r : ℕ) (N₁ N₂ : Network J) : Prop :=
  ∃ s₁ s₂, N₁.stations[r]? = some s₁ ∧ N₂.stations[r]? = some s₂ ∧ c ∈ s₁.jobs ∧ c ∈ s₂.jobs ∧
    Agree known s₁.profile s₂.profile ∧
    (FirstInLine c s₁ → FirstInLine c s₂ → Coupled known c (s₁.profile.express c) s₁ s₂)

theorem mem_jobs_tick {s : Station J} (hs : c ∈ s.jobs) (incoming : Option J) (success : Bool) :
    c ∈ ((s.receiveAll incoming).tick t success).jobs := by
  rw [(jobs_tick _ _ _).mem_iff]
  cases incoming with
  | none => exact hs
  | some j => exact (jobs_receive j s).mem_iff.mpr (List.mem_cons_of_mem j hs)

/-- One tick of a station whose two versions are coupled after admission. -/
theorem coupled_tick (hc : known c) (hP : Alike known P₁ P₂) {inc₁ inc₂ : Option J}
    (hist₁ : History P₁.arrival s₁.profile n s₁) (hist₂ : History P₂.arrival s₂.profile n s₂)
    (hagree : Agree known s₁.profile s₂.profile) (hfirst₁ : FirstInLine c s₁)
    (hfirst₂ : FirstInLine c s₂)
    (h : Coupled known c (s₁.profile.express c) (s₁.receiveAll inc₁) (s₂.receiveAll inc₂))
    (k₁ k₂ : ℕ) :
    Coupled known c (s₁.profile.express c)
      ((s₁.receiveAll inc₁).tick t (outcome P₁ k₁ (s₁.receiveAll inc₁).countdown))
      ((s₂.receiveAll inc₂).tick t (outcome P₂ k₂ (s₂.receiveAll inc₂).countdown)) := by
  have hclass : s₁.profile.express c = s₂.profile.express c := hagree.express c hc
  refine h.tick (by simpa using hagree) hc (takenFirst_receiveAll hist₁ hfirst₁ inc₁) ?_
    fun a ha₁ ha₂ ha => outcome_eq hP k₁ k₂ ha₁ ha₂ ha
  rw [hclass]
  exact takenFirst_receiveAll hist₂ hfirst₂ inc₂

theorem Joined.tick {r : ℕ} (h : Joined known c r N₁ N₂) (hc : known c)
    (hP : Alike known P₁ P₂) (hist₁ : Historic P₁ n N₁) (hist₂ : Historic P₂ n N₂) :
    Joined known c r (N₁.tick P₁ n) (N₂.tick P₂ n) := by
  obtain ⟨s₁, s₂, h₁, h₂, hmem₁, hmem₂, hagree, hcoupled⟩ := h
  obtain ⟨k₁, h₁'⟩ := tick_getElem? (P := P₁) (t := n) h₁
  obtain ⟨k₂, h₂'⟩ := tick_getElem? (P := P₂) (t := n) h₂
  refine ⟨_, _, h₁', h₂', mem_jobs_tick hmem₁ _ _, mem_jobs_tick hmem₂ _ _,
    by simpa using hagree, ?_⟩
  intro hfirst₁ hfirst₂
  simp only [FirstInLine, profile_tick, profile_receiveAll] at hfirst₁ hfirst₂ ⊢
  exact coupled_tick hc hP (hist₁ s₁ (List.mem_of_getElem? h₁))
    (hist₂ s₂ (List.mem_of_getElem? h₂)) hagree hfirst₁ hfirst₂
    ((hcoupled hfirst₁ hfirst₂).receiveAll _ _) k₁ k₂

/-- The tick that admits `c` joins its station in the two networks. -/
theorem Together.joined (h : Together known c ahead N₁ N₂) (hc : known c)
    (hP : Alike known P₁ P₂) (hist₁ : Historic P₁ n N₁) (hist₂ : Historic P₂ n N₂)
    (hne : N₁.stations ≠ []) (harr₁ : N₁.arriving P₁ n = some c)
    (harr₂ : N₂.arriving P₂ n = some c) :
    Joined known c (P₁.route c N₁.stations) (N₁.tick P₁ n) (N₂.tick P₂ n) := by
  have hroute := hP.route c _ _ hc h.stations
  have hlt₁ := P₁.route_lt c N₁.stations hne
  have hlt₂ : P₁.route c N₁.stations < N₂.stations.length := h.stations.1 ▸ hlt₁
  have h₁ := List.getElem?_eq_getElem hlt₁
  have h₂ := List.getElem?_eq_getElem hlt₂
  generalize N₁.stations[P₁.route c N₁.stations] = s₁ at h₁
  generalize N₂.stations[P₁.route c N₁.stations] = s₂ at h₂
  have htwin := h.stations.2 _ s₁ s₂ h₁ h₂
  obtain ⟨k₁, h₁'⟩ := tick_getElem? (P := P₁) (t := n) h₁
  obtain ⟨k₂, h₂'⟩ := tick_getElem? (P := P₂) (t := n) h₂
  have hinc₁ : N₁.incoming P₁ n (P₁.route c N₁.stations) = some c :=
    incoming_eq_some.mpr ⟨harr₁, rfl⟩
  have hinc₂ : N₂.incoming P₂ n (P₁.route c N₁.stations) = some c :=
    incoming_eq_some.mpr ⟨harr₂, hroute.symm⟩
  rw [hinc₁] at h₁'
  rw [hinc₂] at h₂'
  have hadmitted : ∀ (s : Station J) (success : Bool),
      c ∈ ((s.receiveAll (some c)).tick n success).jobs := by
    intro s success
    rw [(jobs_tick _ _ _).mem_iff]
    exact (jobs_receive c s).mem_iff.mpr List.mem_cons_self
  refine ⟨_, _, h₁', h₂', hadmitted s₁ _, hadmitted s₂ _, by simpa using htwin.agree, ?_⟩
  intro hfirst₁ hfirst₂
  simp only [FirstInLine, profile_tick, profile_receiveAll] at hfirst₁ hfirst₂ ⊢
  have hcoupled : Coupled known c (s₁.profile.express c) (s₁.receiveAll (some c))
      (s₂.receiveAll (some c)) := htwin.coupled_receive hc
  exact coupled_tick hc hP (hist₁ s₁ (List.mem_of_getElem? h₁))
    (hist₂ s₂ (List.mem_of_getElem? h₂)) htwin.agree hfirst₁ hfirst₂ hcoupled k₁ k₂

/-- Either `c` is still at the door of both networks, or both have admitted it
to one station over one tick, and that station is joined. -/
theorem together_run (hc : known c) (hP : Alike known P₁ P₂)
    (hist₁ : ∀ m, m ≤ n → Historic P₁ m (N₁.run P₁ m))
    (hist₂ : ∀ m, m ≤ n → Historic P₂ m (N₂.run P₂ m)) (hne : N₁.stations ≠ [])
    (h : Together known c ahead N₁ N₂) :
    (∃ ahead', Together known c ahead' (N₁.run P₁ n) (N₂.run P₂ n)) ∨
      ∃ r t, t < n ∧ AtDoor P₁ N₁ c t ∧ AtDoor P₂ N₂ c t ∧
        Joined known c r (N₁.run P₁ (t + 1)) (N₂.run P₂ (t + 1)) ∧
        Joined known c r (N₁.run P₁ n) (N₂.run P₂ n) := by
  induction n with
  | zero => exact Or.inl ⟨ahead, h⟩
  | succ n ih =>
    have hbefore := ih (fun m hm => hist₁ m (by omega)) (fun m hm => hist₂ m (by omega))
    have hn₁ := hist₁ n (Nat.le_succ n)
    have hn₂ := hist₂ n (Nat.le_succ n)
    rcases hbefore with ⟨ahead', htogether⟩ | ⟨r, t, ht, hdoor₁, hdoor₂, hfirst, hjoined⟩
    · rcases htogether.tick (t := n) hc hP with hstill | ⟨harr₁, harr₂⟩
      · exact Or.inl hstill
      · have hmem : ∀ {P : Policy J} {N : Network J}, N.arriving P n = some c → c ∈ N.door :=
          fun harr => List.mem_of_mem_head? (Option.mem_def.mpr (arriving_eq_some.mp harr).1)
        have hne' : (N₁.run P₁ n).stations ≠ [] := by
          rw [← List.length_pos_iff] at hne ⊢
          simpa using hne
        have hjoined := htogether.joined hc hP hn₁ hn₂ hne' harr₁ harr₂
        exact Or.inr ⟨_, n, Nat.lt_succ_self n, hmem harr₁, hmem harr₂, hjoined, hjoined⟩
    · exact Or.inr ⟨r, t, by omega, hdoor₁, hdoor₂, hfirst, hjoined.tick hc hP hn₁ hn₂⟩

end AcaBSim.Networks.Network
