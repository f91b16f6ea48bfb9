import AcaBSim.StationTrace

/-!
A network of stations behind one door. Jobs wait at the door in a list; at each
tick its head is admitted if it arrives then, to the station a policy picks,
and afterwards every station makes its tick. The outcome of an attempt may
depend on how many attempts were decided before it.
-/
namespace AcaBSim.Networks

open Stations

/-- What the network does not decide itself; a route always names a station. -/
structure Policy (J : Type) where
  arrival : J → ℤ
  route : J → List (Station J) → ℕ
  succeeds : ℕ → Profile J → Attempt J → Bool
  route_lt : ∀ j l, l ≠ [] → route j l < l.length

structure Network (J : Type) where
  door : List J
  stations : List (Station J)
  draws : ℕ

variable {J : Type}

namespace Network

/-- The network before its first tick. -/
def start (door : List J) (profiles : List (Profile J)) (draws : ℕ) : Network J :=
  ⟨door, profiles.map Station.empty, draws⟩

/-- The job at the head of the door, if it arrives now. -/
def arriving (P : Policy J) (t : ℤ) (N : Network J) : Option J :=
  N.door.head?.filter fun j => P.arrival j == t

/-- What the `i`-th station is given at time `t`. -/
def incoming (P : Policy J) (t : ℤ) (N : Network J) (i : ℕ) : Option J :=
  (N.arriving P t).filter fun j => P.route j N.stations == i

def receive (P : Policy J) (t : ℤ) (N : Network J) : Network J :=
  match N.arriving P t with
  | none => N
  | some j =>
    { N with
      door := N.door.tail
      stations := N.stations.modify (P.route j N.stations) (Station.receive j) }

/-- The outcome of the attempt in progress, when `k` attempts are decided. -/
def outcome (P : Policy J) (k : ℕ) (s : Station J) : Bool :=
  s.current.elim false (P.succeeds k s.profile)

/-- Every station serves in turn, the tick being counted already. -/
def serveAll (P : Policy J) (t : ℤ) : ℕ → List (Station J) → ℕ × List (Station J)
  | k, [] => (k, [])
  | k, s :: rest =>
    let next := serveAll P t (if s.asks then k + 1 else k) rest
    (next.1, s.serve t (outcome P k s) :: next.2)

def tick (P : Policy J) (t : ℤ) (N : Network J) : Network J :=
  let admitted := N.receive P t
  let served := serveAll P t admitted.draws (admitted.stations.map Station.countdown)
  { admitted with stations := served.2, draws := served.1 }

/-- The network after `n` ticks, at times `0` to `n - 1`. -/
def run (P : Policy J) (N : Network J) : ℕ → Network J
  | 0 => N
  | n + 1 => (run P N n).tick P n

variable {P : Policy J} {t : ℤ} {N : Network J}

theorem arriving_eq_some {j : J} :
    N.arriving P t = some j ↔ N.door.head? = some j ∧ P.arrival j = t := by
  simp [arriving, Option.filter_eq_some_iff]

/-- With no repetitions, a job that arrives is in no station and no second time
at the door. -/
theorem arriving_separate {j : J} (harr : N.arriving P t = some j)
    (hnodup : (N.door ++ N.stations.flatMap Station.jobs).Nodup) :
    j ∈ N.door ∧ j ∉ N.door.tail ∧ ∀ s ∈ N.stations, j ∉ s.jobs := by
  obtain ⟨hhead, -⟩ := arriving_eq_some.mp harr
  obtain ⟨rest, hdoor⟩ : ∃ rest, N.door = j :: rest := List.head?_eq_some_iff.mp hhead
  obtain ⟨hnodup_door, -, hseparate⟩ := List.nodup_append.mp hnodup
  have hj : j ∈ N.door := by simp [hdoor]
  refine ⟨hj, ?_, fun s hs hmem => ?_⟩
  · rw [hdoor, List.tail_cons]
    rw [hdoor] at hnodup_door
    exact (List.nodup_cons.mp hnodup_door).1
  · exact hseparate j hj j (List.mem_flatMap.mpr ⟨s, hs, hmem⟩) rfl

theorem incoming_eq_some {i : ℕ} {j : J} :
    N.incoming P t i = some j ↔ N.arriving P t = some j ∧ P.route j N.stations = i := by
  simp [incoming, Option.filter_eq_some_iff]

theorem receive_of_none (h : N.arriving P t = none) : N.receive P t = N := by
  simp only [receive, h]

theorem receive_of_some {j : J} (h : N.arriving P t = some j) :
    N.receive P t = { N with
      door := N.door.tail
      stations := N.stations.modify (P.route j N.stations) (Station.receive j) } := by
  simp only [receive, h]

@[simp] theorem door_tick : (N.tick P t).door = (N.receive P t).door := rfl

theorem serveAll_append (k : ℕ) (l₁ l₂ : List (Station J)) :
    serveAll P t k (l₁ ++ l₂) =
      ((serveAll P t (serveAll P t k l₁).1 l₂).1,
        (serveAll P t k l₁).2 ++ (serveAll P t (serveAll P t k l₁).1 l₂).2) := by
  induction l₁ generalizing k with
  | nil => rfl
  | cons s rest ih => simp only [List.cons_append, serveAll, ih]

@[simp] theorem length_serveAll (k : ℕ) (l : List (Station J)) :
    (serveAll P t k l).2.length = l.length := by
  induction l generalizing k with
  | nil => rfl
  | cons s rest ih => simp only [serveAll, List.length_cons, ih]

theorem serveAll_getElem? (k : ℕ) (l : List (Station J)) {i : ℕ} {s : Station J}
    (hs : l[i]? = some s) :
    ∃ k', (serveAll P t k l).2[i]? = some (s.serve t (outcome P k' s)) := by
  induction l generalizing k i with
  | nil => simp at hs
  | cons r rest ih =>
    cases i with
    | zero =>
      obtain rfl : r = s := by simpa using hs
      exact ⟨k, rfl⟩
    | succ i => exact ih (if r.asks then k + 1 else k) (by simpa using hs)

theorem receive_getElem? {i : ℕ} {s : Station J} (hs : N.stations[i]? = some s) :
    (N.receive P t).stations[i]? = some (s.receiveAll (N.incoming P t i)) := by
  cases harr : N.arriving P t with
  | none =>
    have hinc : N.incoming P t i = none := by simp [incoming, harr]
    rw [receive_of_none harr, hinc, hs]
    rfl
  | some j =>
    rw [receive_of_some harr, List.getElem?_modify, hs]
    by_cases hroute : P.route j N.stations = i
    · have hinc : N.incoming P t i = some j := incoming_eq_some.mpr ⟨harr, hroute⟩
      rw [hinc]
      simp [hroute, Station.receiveAll]
    · have hinc : N.incoming P t i = none := by simp [incoming, harr, hroute]
      rw [hinc]
      simp [hroute, Station.receiveAll]

/-- One station's part of a tick of the network. -/
theorem tick_getElem? {i : ℕ} {s : Station J} (hs : N.stations[i]? = some s) :
    ∃ k, (N.tick P t).stations[i]? = some ((s.receiveAll (N.incoming P t i)).tick t
      (outcome P k (s.receiveAll (N.incoming P t i)).countdown)) := by
  have hcount : ((N.receive P t).stations.map Station.countdown)[i]? =
      some (s.receiveAll (N.incoming P t i)).countdown := by
    rw [List.getElem?_map, receive_getElem? hs]
    rfl
  obtain ⟨k, hk⟩ := serveAll_getElem? (P := P) (t := t) (N.receive P t).draws _ hcount
  exact ⟨k, hk⟩

@[simp] theorem length_receive : (N.receive P t).stations.length = N.stations.length := by
  cases harr : N.arriving P t with
  | none => rw [receive_of_none harr]
  | some j => simp [receive_of_some harr]

@[simp] theorem length_tick : (N.tick P t).stations.length = N.stations.length := by
  simp [tick]

@[simp] theorem length_run (n : ℕ) : (N.run P n).stations.length = N.stations.length := by
  induction n with
  | zero => rfl
  | succ n ih => rw [run, length_tick, ih]

/-- A station after a tick comes from the station of its index before it. -/
theorem exists_before {i : ℕ} {s' : Station J} (hs' : (N.tick P t).stations[i]? = some s') :
    ∃ s k, N.stations[i]? = some s ∧ s' = (s.receiveAll (N.incoming P t i)).tick t
      (outcome P k (s.receiveAll (N.incoming P t i)).countdown) := by
  have hlt : i < N.stations.length := by
    rw [← length_tick (P := P) (t := t)]
    exact (List.getElem?_eq_some_iff.mp hs').1
  have hs : N.stations[i]? = some N.stations[i] := List.getElem?_eq_getElem hlt
  obtain ⟨k, hk⟩ := tick_getElem? (P := P) (t := t) hs
  exact ⟨N.stations[i], k, hs, Option.some.inj (hs'.symm.trans hk)⟩

theorem mem_receive {s' : Station J} (hs' : s' ∈ (N.receive P t).stations) :
    ∃ (i : ℕ) (s : Station J), N.stations[i]? = some s ∧ s' = s.receiveAll (N.incoming P t i) := by
  obtain ⟨i, hi⟩ := List.mem_iff_getElem?.mp hs'
  have hlt : i < N.stations.length := by
    rw [← length_receive (P := P) (t := t)]
    exact (List.getElem?_eq_some_iff.mp hi).1
  have hs : N.stations[i]? = some N.stations[i] := List.getElem?_eq_getElem hlt
  exact ⟨i, N.stations[i], hs, Option.some.inj (hi.symm.trans (receive_getElem? hs))⟩

theorem profiles_tick :
    (N.tick P t).stations.map Station.profile = N.stations.map Station.profile := by
  apply List.ext_getElem?
  intro i
  cases hs : N.stations[i]? with
  | none =>
    have hlen : (N.tick P t).stations[i]? = none := by
      rw [List.getElem?_eq_none_iff] at hs ⊢
      simpa using hs
    simp [hs, hlen]
  | some s =>
    obtain ⟨k, hk⟩ := tick_getElem? (P := P) (t := t) hs
    simp [hs, hk]

@[simp] theorem profiles_run (n : ℕ) :
    (N.run P n).stations.map Station.profile = N.stations.map Station.profile := by
  induction n with
  | zero => rfl
  | succ n ih => rw [run, profiles_tick, ih]

/-- Every station has a history of `n` ticks. -/
def Historic (P : Policy J) (n : ℕ) (N : Network J) : Prop :=
  ∀ s ∈ N.stations, Station.History P.arrival s.profile n s

theorem historic_start (door : List J) (profiles : List (Profile J)) (draws : ℕ) :
    Historic P 0 (start door profiles draws) := by
  intro s hs
  obtain ⟨profile, -, rfl⟩ := List.mem_map.mp hs
  exact Station.History.start

theorem Historic.tick {n : ℕ} (h : Historic P n N)
    (hwork : ∀ s ∈ (N.tick P n).stations, ∀ a ∈ s.current, 1 ≤ s.profile.work a.job) :
    Historic P (n + 1) (N.tick P n) := by
  intro s' hs'
  obtain ⟨i, hi⟩ := List.mem_iff_getElem?.mp hs'
  obtain ⟨s, k, hs, rfl⟩ := exists_before hi
  have hpos := hwork _ hs'
  simp only [Station.profile_tick, Station.profile_receiveAll] at hpos ⊢
  refine Station.History.tick _ _ (h s (List.mem_of_getElem? hs)) ?_ hpos
  intro j hj
  exact (arriving_eq_some.mp (incoming_eq_some.mp (Option.mem_def.mp hj)).1).2

end Network

end AcaBSim.Networks
