import AcaBSim.Scenarios

/-!
Conservation of clients. After every tick each client of the initial queue is in
exactly one place: still in that queue, waiting at one server, in service at
one server, or among the clients one server has finished.
-/
namespace AcaBSim.Conservation

open Machine ArrayQueue Clients Servers Systems Outcome Stations Networks ServerStations
  Simulation Scenarios

variable {k : ServerType}

/-- The clients of a server, once for each place there. -/
def serverPlaces (s : Server k) : List ClientPtr :=
  waitingClients s ++ s.base.currentClient.toList ++ finishedClients s

/-- The number of clients in the waiting queues of a server. -/
def waitingSize : Server k → ℕ
  | .standard s => queueSize s.clientQueue
  | .robotic s => queueSize s.normalClientQueue + queueSize s.disableClientQueue

/-- The sizes of all queues of the system and its busy servers. -/
def clientCount (sys : System) : ℕ :=
  sys.systemClients.elim 0 queueSize + ((servers sys).map fun s => waitingSize s.2).sum +
    (servers sys).countP (fun s => serverIsActive s.2) +
    ((servers sys).map fun s => queueSize s.2.base.finishedClientsQueue).sum

variable {B : ℚ → Prop} {h₀ : Heap} {m : ℕ} {sys : System} {w : World}
  {N : Network ClientPtr} {s : Server k} {st : Station ClientPtr}

theorem serverPlaces_perm (h : Represents B h₀ s st) : (serverPlaces s).Perm st.jobs := by
  have hjobs : st.jobs = st.started ++ (st.express ++ st.regular) := List.append_assoc _ _ _
  rw [serverPlaces, waitingClients_eq h, finishedClients_eq h, h.current, Option.toList_map,
    hjobs, Station.started, List.append_assoc]
  exact List.perm_append_comm.trans (List.perm_append_comm.append_right _)

theorem places_perm (h : Refines B h₀ m sys w N) :
    (places sys).Perm (N.door ++ N.stations.flatMap Station.jobs) := by
  have hservers : ∀ (l : List AnyServer) (sts : List (Station ClientPtr)),
      List.Forall₂ (fun (s : AnyServer) st => Represents B h₀ s.2 st) l sts →
      (l.flatMap fun s => serverPlaces s.2).Perm (sts.flatMap Station.jobs) := by
    intro l sts hl
    induction hl with
    | nil => exact List.Perm.refl _
    | cons hst _ ih =>
      rw [List.flatMap_cons, List.flatMap_cons]
      exact (serverPlaces_perm hst).append ih
  rw [places, doorClients_eq h]
  exact (hservers _ _ (servers_represent h)).append_left N.door

theorem length_serverPlaces (h : Represents B h₀ s st) :
    (serverPlaces s).length = waitingSize s + (if serverIsActive s then 1 else 0) +
      queueSize s.base.finishedClientsQueue := by
  have hactive : s.base.currentClient.toList.length = if serverIsActive s then 1 else 0 := by
    rw [serverIsActive]
    cases s.base.currentClient <;> rfl
  have hwaiting : (waitingClients s).length = waitingSize s := by
    rw [waitingClients_eq h]
    cases s with
    | standard s =>
      obtain ⟨hex, hqueue⟩ := h.lines
      simp [waitingSize, hqueue.size, hex]
    | robotic s =>
      obtain ⟨hdisable, hnormal⟩ := h.lines
      simp [waitingSize, hdisable.size, hnormal.size, Nat.add_comm]
  rw [serverPlaces, List.length_append, List.length_append, hactive, hwaiting,
    finishedClients_eq h, h.finished.size]

theorem clientCount_eq (h : Refines B h₀ m sys w N) : clientCount sys = (places sys).length := by
  obtain ⟨q, hq, hdoor⟩ := h.door
  have hservers : ∀ (l : List AnyServer) (sts : List (Station ClientPtr)),
      List.Forall₂ (fun (s : AnyServer) st => Represents B h₀ s.2 st) l sts →
      (l.map fun s => waitingSize s.2).sum + l.countP (fun s => serverIsActive s.2) +
        (l.map fun s => queueSize s.2.base.finishedClientsQueue).sum =
      (l.flatMap fun s => serverPlaces s.2).length := by
    intro l sts hl
    induction hl with
    | nil => rfl
    | cons hst _ ih =>
      rw [List.flatMap_cons, List.length_append, ← ih, length_serverPlaces hst, List.map_cons,
        List.map_cons, List.sum_cons, List.sum_cons, List.countP_cons]
      omega
  have hall := hservers _ _ (servers_represent h)
  have hsize : queueSize q = (contents q).length := by rw [hdoor.size, hdoor.2]
  rw [clientCount, places, doorClients, hq, List.length_append]
  simp only [Option.elim]
  rw [hsize]
  unfold serverPlaces at hall
  omega

/-- After every tick each client is in exactly one place, and the places add up
to the total that `simulate` recorded before its loop. -/
theorem clients_conserved (S : Scenario) (n : ℕ) (h : S.Ordinary n)
    (htotal : (queueSize S.clients : ℤ) ≤ intMax) (stat : SimStat) :
    S.loop n = .ok (S.stateAt n) ∧ (places (S.systemAt n)).Perm (contents S.clients) ∧
      (places (S.systemAt n)).Nodup ∧
      (clientCount (S.systemAt n) : ℤ) = (stat.withTotalClients S.clients).totalClients := by
  obtain ⟨gone, hprogress⟩ := S.fresh.progress (P := S.policy) n
  have hperm : (places (S.systemAt n)).Perm (contents S.clients) :=
    (places_perm h.refines).trans hprogress.places
  refine ⟨h.follows.1, hperm, hperm.nodup_iff.mpr S.clients_nodup, ?_⟩
  have hcount : clientCount (S.systemAt n) = queueSize S.clients := by
    rw [clientCount_eq h.refines, hperm.length_eq, S.clients_valid.length_contents, queueSize]
  have hrecorded : (stat.withTotalClients S.clients).totalClients =
      wrapInt (queueSize S.clients) := by
    simp only [SimStat.withTotalClients]
  have hlow : intMin ≤ (queueSize S.clients : ℤ) := by unfold intMin; omega
  rw [hrecorded, wrapInt_of_range hlow htotal, hcount]

theorem clients_conserved_mixed :
    mixed.loop 10 = .ok (mixed.stateAt 10) ∧
      (places (mixed.systemAt 10)).Perm (contents mixed.clients) ∧
      (places (mixed.systemAt 10)).Nodup ∧
      (clientCount (mixed.systemAt 10) : ℤ) =
        (SimStat.withTotalClients ⟨0, 0, 0, 0, 0, 0, 0, 0, 0, 0, 0, 0⟩
          mixed.clients).totalClients :=
  clients_conserved mixed 10 mixed_ordinary (by decide +kernel)
    ⟨0, 0, 0, 0, 0, 0, 0, 0, 0, 0, 0, 0⟩

end AcaBSim.Conservation
