import AcaBSim.Networks

/-!
No job of a network is lost or copied: those that have left the door are held
by the stations, once each, and they left it in order of arrival, at most one
at a tick. If the door is sorted by arrival, nobody is stuck there.
-/
namespace AcaBSim.Networks.Network

open Stations

variable {J : Type} {P : Policy J} {t : ℤ} {N : Network J} {n : ℕ} {door gone : List J}

/-- The state of admission after `n` ticks: `gone` have left the initial door. -/
structure Progress (P : Policy J) (door : List J) (n : ℕ) (gone : List J)
    (N : Network J) : Prop where
  split : gone ++ N.door = door
  held : (N.stations.flatMap Station.jobs).Perm gone
  arrived : ∀ j ∈ gone, 0 ≤ P.arrival j ∧ P.arrival j < n
  sorted : gone.Pairwise fun i j => P.arrival i < P.arrival j
  count : gone.length ≤ n

theorem flatMap_modify_perm {α β : Type} {f : α → List β} {g : α → α} {b : β}
    (hg : ∀ a, (f (g a)).Perm (b :: f a)) (l : List α) {i : ℕ} (hi : i < l.length) :
    ((l.modify i g).flatMap f).Perm (b :: l.flatMap f) := by
  induction l generalizing i with
  | nil => simp at hi
  | cons a rest ih =>
    cases i with
    | zero => simpa using (hg a).append_right (rest.flatMap f)
    | succ i =>
      have hrest := (ih (by simpa using hi)).append_left (f a)
      simpa using hrest.trans List.perm_middle

theorem jobs_serveAll (k : ℕ) (l : List (Station J)) :
    ((serveAll P t k (l.map Station.countdown)).2.flatMap Station.jobs).Perm
      (l.flatMap Station.jobs) := by
  induction l generalizing k with
  | nil => exact List.Perm.refl _
  | cons s rest ih =>
    simp only [List.map_cons, serveAll, List.flatMap_cons]
    exact (Station.jobs_tick t _ s).append (ih _)

theorem Progress.receive (h : Progress P door n gone N) (hne : N.stations ≠ []) :
    ∃ gone', gone' ++ (N.receive P n).door = door ∧
      ((N.receive P n).stations.flatMap Station.jobs).Perm gone' ∧
      (∀ j ∈ gone', 0 ≤ P.arrival j ∧ P.arrival j ≤ n) ∧
      (gone'.Pairwise fun i j => P.arrival i < P.arrival j) ∧ gone'.length ≤ n + 1 := by
  cases harr : N.arriving P n with
  | none =>
    rw [receive_of_none harr]
    exact ⟨gone, h.split, h.held, fun j hj => ⟨(h.arrived j hj).1, (h.arrived j hj).2.le⟩,
      h.sorted, h.count.trans (Nat.le_succ n)⟩
  | some j =>
    obtain ⟨hhead, hnow⟩ := arriving_eq_some.mp harr
    obtain ⟨rest, hrest⟩ : ∃ rest, N.door = j :: rest := by
      cases hdoor : N.door with
      | nil => simp [hdoor] at hhead
      | cons i rest =>
        obtain rfl : i = j := by simpa [hdoor] using hhead
        exact ⟨rest, rfl⟩
    rw [receive_of_some harr]
    refine ⟨gone ++ [j], ?_, ?_, ?_, ?_, ?_⟩
    · simp [hrest, ← h.split]
    · have hmove := flatMap_modify_perm (fun s => Station.jobs_receive j s) N.stations
        (P.route_lt j N.stations hne)
      exact hmove.trans ((h.held.cons j).trans (List.perm_append_singleton j gone).symm)
    · intro i hi
      rcases List.mem_append.mp hi with hi | hi
      · exact ⟨(h.arrived i hi).1, (h.arrived i hi).2.le⟩
      · obtain rfl := List.mem_singleton.mp hi
        omega
    · rw [List.pairwise_append]
      refine ⟨h.sorted, List.pairwise_singleton _ _, ?_⟩
      intro i hi k hk
      obtain rfl := List.mem_singleton.mp hk
      rw [hnow]
      exact (h.arrived i hi).2
    · simpa using h.count

theorem Progress.tick (h : Progress P door n gone N) (hne : N.stations ≠ []) :
    ∃ gone', Progress P door (n + 1) gone' (N.tick P n) := by
  obtain ⟨gone', hsplit, hheld, harrived, hsorted, hcount⟩ := h.receive hne
  refine ⟨gone', hsplit, (jobs_serveAll _ _).trans hheld, ?_, hsorted, hcount⟩
  intro j hj
  have hj' := harrived j hj
  omega

theorem progress_run (hne : N.stations ≠ []) (h : Progress P door 0 [] N) (n : ℕ) :
    ∃ gone, Progress P door n gone (N.run P n) := by
  induction n with
  | zero => exact ⟨[], h⟩
  | succ n ih =>
    obtain ⟨gone, hgone⟩ := ih
    apply hgone.tick
    rw [← List.length_pos_iff] at hne ⊢
    simpa using hne

/-- Where every job of the initial door is. -/
theorem Progress.places (h : Progress P door n gone N) :
    (N.door ++ N.stations.flatMap Station.jobs).Perm door := by
  rw [← h.split]
  exact List.perm_append_comm.trans (h.held.append_right N.door)

theorem Progress.nodup_places (h : Progress P door n gone N) (hdoor : door.Nodup) :
    (N.door ++ N.stations.flatMap Station.jobs).Nodup :=
  h.places.nodup_iff.mpr hdoor

theorem Progress.nodup_jobs (h : Progress P door n gone N) (hdoor : door.Nodup)
    {s : Station J} (hs : s ∈ N.stations) : s.jobs.Nodup := by
  have hall := (List.nodup_append.mp (h.nodup_places hdoor)).2.1
  exact hall.sublist (List.sublist_flatten_of_mem (List.mem_map_of_mem hs))

theorem Progress.length_jobs_le (h : Progress P door n gone N) {s : Station J}
    (hs : s ∈ N.stations) : s.jobs.length ≤ n := by
  have hsub : s.jobs.length ≤ (N.stations.flatMap Station.jobs).length :=
    (List.sublist_flatten_of_mem (List.mem_map_of_mem hs)).length_le
  exact hsub.trans (h.held.length_eq ▸ h.count)

/-- With the door sorted by arrival, those still there have yet to arrive. -/
theorem door_run (hsorted : N.door.Pairwise fun i j => P.arrival i < P.arrival j)
    (hstart : ∀ j ∈ N.door, 0 ≤ P.arrival j) (n : ℕ) :
    ((N.run P n).door.Pairwise fun i j => P.arrival i < P.arrival j) ∧
      ∀ j ∈ (N.run P n).door, (n : ℤ) ≤ P.arrival j := by
  induction n with
  | zero => exact ⟨hsorted, by simpa [run] using hstart⟩
  | succ n ih =>
    obtain ⟨hpair, hle⟩ := ih
    rw [run, door_tick]
    cases hdoor : (N.run P n).door with
    | nil =>
      have harr : (N.run P n).arriving P n = none := by simp [arriving, hdoor]
      rw [receive_of_none harr, hdoor]
      exact ⟨List.Pairwise.nil, by simp⟩
    | cons j rest =>
      rw [hdoor] at hpair hle
      obtain ⟨hfirst, hrest⟩ := List.pairwise_cons.mp hpair
      have hj := hle j (by simp)
      by_cases hnow : P.arrival j = n
      · have harr : (N.run P n).arriving P n = some j :=
          arriving_eq_some.mpr ⟨by simp [hdoor], hnow⟩
        rw [receive_of_some harr, hdoor]
        refine ⟨hrest, fun i hi => ?_⟩
        have hi' := hfirst i hi
        push_cast
        omega
      · have harr : (N.run P n).arriving P n = none := by simp [arriving, hdoor, hnow]
        rw [receive_of_none harr, hdoor]
        refine ⟨hpair, fun i hi => ?_⟩
        push_cast
        rcases List.mem_cons.mp hi with rfl | hi
        · omega
        · have hi' := hfirst i hi
          omega

/-- With the door sorted by arrival, each job leaves it at its own arrival. -/
theorem mem_door_iff (h : Progress P door n gone (N.run P n)) (hnodup : door.Nodup)
    (hdoor : N.door = door)
    (hsorted : door.Pairwise fun i j => P.arrival i < P.arrival j)
    (hstart : ∀ j ∈ door, 0 ≤ P.arrival j) {j : J} (hj : j ∈ door) :
    j ∈ (N.run P n).door ↔ (n : ℤ) ≤ P.arrival j := by
  subst hdoor
  constructor
  · exact (door_run hsorted hstart n).2 j
  · intro hle
    rw [← h.split, List.mem_append] at hj
    rcases hj with hj | hj
    · have hlt := (h.arrived j hj).2
      omega
    · exact hj

end AcaBSim.Networks.Network
