import AcaBSim.Systems
import AcaBSim.NetworkProgress

/-!
A server of server.c represents a station: its queues are the lines, its
countdown the work left, its counters those of the station, and the records of
its clients say where each of them stands. Each function of the server keeps
this relation, or stops for a reason the caller excuses.
-/
namespace AcaBSim.ServerStations

open Machine ArrayQueue Clients Servers Systems Outcome Stations

variable {k : ServerType}

/-- The entry of the service table for a client. -/
def tableTime (c : Client) : ℤ :=
  (hashmapGet initTable ⟨c.disabilityType, c.destination, 0⟩).elim 0 Service.serviceTime

/-- The exact service time of a client at a server. -/
def serviceTime (s : Server k) (c : Client) : ℤ :=
  match s with
  | .standard _ => tableTime c
  | .robotic r => truncate (tableTime c / r.boostRate)

def boostRate : Server k → Option ℚ
  | .standard _ => none
  | .robotic r => some r.boostRate

/-- The line a client joins: disabled clients are express at a robotic server. -/
def expressAt (s : Server k) (c : Client) : Bool :=
  match s with
  | .standard _ => false
  | .robotic _ => decide (c.disabilityType ≠ .noDisability)

/-- What a server is like as a station, for the clients of the heap `h₀`. -/
def profileOf (h₀ : Heap) (s : Server k) : Profile ClientPtr where
  work p := serviceTime s (h₀ p)
  express p := expressAt s (h₀ p)
  errorProb := s.base.errorProb

/-- A well-formed queue with these contents, oldest first. -/
def Holds (q : Queue ClientPtr) (l : List ClientPtr) : Prop := q.Valid ∧ contents q = l

theorem Holds.size {q : Queue ClientPtr} {l : List ClientPtr} (h : Holds q l) :
    queueSize q = l.length := by
  rw [queueSize, ← h.2, h.1.length_contents]

theorem Holds.top {q : Queue ClientPtr} {l : List ClientPtr} (h : Holds q l) :
    queueTop q = .ok l.head? := by
  rw [queueTop_valid h.1, h.2]

theorem Holds.pop {q : Queue ClientPtr} {p : ClientPtr} {rest : List ClientPtr}
    (h : Holds q (p :: rest)) (granted : Bool) :
    ∃ q', queuePop granted q = .ok (true, q') ∧ Holds q' rest := by
  obtain ⟨q', hq', hvalid, hcontents⟩ := queuePop_valid h.1 h.2 granted
  exact ⟨q', hq', hvalid, hcontents⟩

theorem Holds.push {q : Queue ClientPtr} {l : List ClientPtr} (h : Holds q l)
    (hlen : l.length < 2 ^ 31) (p : ClientPtr) :
    ∃ q', queuePush true q (some p) = .ok (true, q') ∧ Holds q' (l ++ [p]) := by
  have hsize : q.size < 2 ^ 31 := by
    rw [← h.1.length_contents, h.2]
    exact hlen
  obtain ⟨q', hq', hvalid, hcontents⟩ := queuePush_valid h.1 hsize (Or.inr rfl) p
  exact ⟨q', hq', hvalid, by rw [hcontents, h.2]⟩

def Lines (s : Server k) (st : Station ClientPtr) : Prop :=
  match s with
  | .standard s => st.express = [] ∧ Holds s.clientQueue st.regular
  | .robotic s => Holds s.disableClientQueue st.express ∧ Holds s.normalClientQueue st.regular

/-- The exact counters of a server are those of the station. -/
structure Counted (stat : ServerStat) (st : Station ClientPtr) : Prop where
  active : stat.activeTime = st.busy
  idle : stat.idleTime = st.idle
  served : stat.clientServed = st.completed.length
  failed : stat.failureCount = st.failed

/-- `B` is what is known of the boost rate of a robotic server. -/
structure Represents (B : ℚ → Prop) (h₀ : Heap) (s : Server k)
    (st : Station ClientPtr) : Prop where
  lines : Lines s st
  finished : Holds s.base.finishedClientsQueue (st.completed.map Completed.job)
  current : s.base.currentClient = st.current.map Attempt.job
  toServe : ∀ a ∈ st.current, s.base.toServe = a.remaining
  counted : Counted s.base.stat st
  table : s.base.serviceTimeTable = initTable
  boost : ∀ b ∈ boostRate s, B b
  profile : st.profile = profileOf h₀ s
  worked : ∀ a ∈ st.current, 1 ≤ st.profile.work a.job

def waitingRecord (c : Client) : Client := { c with serviceStat := .zero }

/-- Admission has set the arrival time to zero, so the wait is the start. -/
def servingRecord (c : Client) (start failures : ℤ) : Client :=
  { c with serviceStat := { ClientServiceStat.zero with
      waitTime := start
      startServiceTime := start
      failureCount := failures } }

def finishedRecord (c : Client) (start failures finish : ℤ) : Client :=
  { c with serviceStat := { ClientServiceStat.zero with
      waitTime := start
      startServiceTime := start
      failureCount := failures
      finishTime := finish
      totalTime := finish } }

/-- The records of the clients of a station, which were `h₀` before admission. -/
structure Recorded (h₀ h : Heap) (st : Station ClientPtr) : Prop where
  waiting : ∀ line, ∀ p ∈ st.waiting line, h p = waitingRecord (h₀ p)
  serving : ∀ a ∈ st.current, h a.job = servingRecord (h₀ a.job) a.start a.failures
  finished : ∀ c ∈ st.completed,
    h c.job = finishedRecord (h₀ c.job) c.start c.failures c.finish

@[simp] theorem base_withBase (b : BaseServer) (s : Server k) : (s.withBase b).base = b := by
  cases s <;> rfl

@[simp] theorem boostRate_withBase (b : BaseServer) (s : Server k) :
    boostRate (s.withBase b) = boostRate s := by
  cases s <;> rfl

@[simp] theorem serviceTime_withBase (b : BaseServer) (s : Server k) (c : Client) :
    serviceTime (s.withBase b) c = serviceTime s c := by
  cases s <;> rfl

@[simp] theorem lines_withBase (b : BaseServer) (s : Server k) (st : Station ClientPtr) :
    Lines (s.withBase b) st ↔ Lines s st := by
  cases s <;> rfl

theorem profileOf_withBase {b : BaseServer} {s : Server k} (h₀ : Heap)
    (hprob : b.errorProb = s.base.errorProb) : profileOf h₀ (s.withBase b) = profileOf h₀ s := by
  cases s <;> simp_all [profileOf, serviceTime, expressAt, Server.withBase, Server.base]

/-- The lines are unchanged by anything that leaves the two lists alone. -/
theorem lines_congr {s : Server k} {st st' : Station ClientPtr}
    (hwaiting : ∀ line, st'.waiting line = st.waiting line) : Lines s st' ↔ Lines s st := by
  have hex : st'.express = st.express := hwaiting true
  have hreg : st'.regular = st.regular := hwaiting false
  cases s <;> simp [Lines, hex, hreg]

/-- A record is looked up by type and destination only. -/
@[simp] theorem tableTime_record (c : Client) (stat : ClientServiceStat) :
    tableTime { c with serviceStat := stat } = tableTime c := rfl

@[simp] theorem serviceTime_record (s : Server k) (c : Client) (stat : ClientServiceStat) :
    serviceTime s { c with serviceStat := stat } = serviceTime s c := rfl

theorem tableTime_ge {c : Client} (hc : c.Valid) : 4 ≤ tableTime c := by
  obtain ⟨id, stat, d, dest⟩ := c
  obtain ⟨hd, hdest⟩ := hc
  rcases hd with rfl | rfl | rfl | rfl <;> rcases hdest with rfl | rfl <;>
    exact of_decide_eq_true rfl

theorem hashmapGet_initTable {c : Client} (hc : c.Valid) :
    ∃ value, hashmapGet initTable ⟨c.disabilityType, c.destination, 0⟩ = some value ∧
      value.serviceTime = tableTime c := by
  cases hget : hashmapGet initTable ⟨c.disabilityType, c.destination, 0⟩ with
  | none =>
    have hge := tableTime_ge hc
    simp [tableTime, hget] at hge
  | some value => exact ⟨value, rfl, by simp [tableTime, hget]⟩

/-- The service time of a valid client is found, and exact unless it does not
fit into an `int`. -/
theorem getServiceTime_valid {s : Server k} {c : Client} (hc : c.Valid)
    (htable : s.base.serviceTimeTable = initTable) (hboost : ∀ b ∈ boostRate s, b ≠ 0) :
    getServiceTime s c = .ok (serviceTime s c) ∨
      getServiceTime s c = .error .intOverflow ∧
        ¬ (intMin ≤ serviceTime s c ∧ serviceTime s c ≤ intMax) := by
  obtain ⟨value, hget, htime⟩ := hashmapGet_initTable hc
  cases s with
  | standard s =>
    simp only [getServiceTime, htable, hget]
    exact Or.inl (congrArg _ htime)
  | robotic r =>
    have hrate : r.boostRate ≠ 0 := hboost r.boostRate rfl
    simp only [getServiceTime, htable, hget, if_neg hrate, htime, checkInt]
    split
    · exact Or.inl rfl
    · rename_i hrange
      exact Or.inr ⟨rfl, hrange⟩

theorem serviceTime_nonneg {s : Server k} {c : Client} (hc : c.Valid)
    (hpos : ∀ b ∈ boostRate s, 0 < b) : 0 ≤ serviceTime s c := by
  have hge := tableTime_ge hc
  cases s with
  | standard s => exact (show 0 ≤ tableTime c by omega)
  | robotic s =>
    have hb : 0 < s.boostRate := hpos _ rfl
    have htime : (0 : ℚ) ≤ tableTime c := by exact_mod_cast (show 0 ≤ tableTime c by omega)
    exact truncate_nonneg (div_nonneg htime hb.le)

/-- A service takes time just as long as the boost rate is at most the table time. -/
theorem one_le_serviceTime_iff {s : Server k} {c : Client} (hc : c.Valid)
    (hpos : ∀ b ∈ boostRate s, 0 < b) :
    1 ≤ serviceTime s c ↔ ∀ b ∈ boostRate s, b ≤ tableTime c := by
  cases s with
  | standard s =>
    have hge := tableTime_ge hc
    exact iff_of_true (show 1 ≤ tableTime c by omega) (by simp [boostRate])
  | robotic s =>
    have hb : 0 < s.boostRate := hpos _ rfl
    simp only [serviceTime, le_truncate Int.one_pos, Int.cast_one, le_div_iff₀ hb, one_mul,
      boostRate, Option.mem_some_iff, forall_eq']

variable {B : ℚ → Prop} {h₀ : Heap} {s : Server k} {st : Station ClientPtr}

theorem Represents.currentClient_eq (h : Represents B h₀ s st) {a : Attempt ClientPtr}
    (hcur : st.current = some a) : s.base.currentClient = some a.job := by
  rw [h.current, hcur]
  rfl

/-- What may stop the service of a station: the assertion on the mean, and a
service time that is not an `int`. No other counter leaves its range. -/
structure Excuses (tol : Fault → Prop) : Prop where
  mean : tol (.assertionFailed .meanServerQueueLen)
  convert : tol .intOverflow

theorem Excuses.getServiceTime {tol : Fault → Prop} (htol : Excuses tol)
    (h : Represents B h₀ s st) (hB : ∀ b, B b → 0 < b) {c : Client} (hc : c.Valid) :
    getServiceTime s c = .ok (serviceTime s c) ∨
      getServiceTime s c = .error .intOverflow ∧ tol .intOverflow :=
  (getServiceTime_valid hc h.table fun b hb => (hB b (h.boost b hb)).ne').imp_right fun herror =>
    ⟨herror.1, htol.convert⟩

theorem Represents.update (h : Represents B h₀ s st) {b : BaseServer} {st' : Station ClientPtr}
    (hlines : ∀ line, st'.waiting line = st.waiting line) (hprofile : st'.profile = st.profile)
    (hfinished : Holds b.finishedClientsQueue (st'.completed.map Completed.job))
    (hcurrent : b.currentClient = st'.current.map Attempt.job)
    (htoServe : ∀ a ∈ st'.current, b.toServe = a.remaining) (hcounted : Counted b.stat st')
    (htable : b.serviceTimeTable = s.base.serviceTimeTable)
    (hprob : b.errorProb = s.base.errorProb)
    (hworked : ∀ a ∈ st'.current, 1 ≤ st.profile.work a.job) :
    Represents B h₀ (s.withBase b) st' where
  lines := by
    rw [lines_withBase, lines_congr hlines]
    exact h.lines
  finished := by simpa using hfinished
  current := by simpa using hcurrent
  toServe := by simpa using htoServe
  counted := by simpa using hcounted
  table := by rw [base_withBase, htable, h.table]
  boost := by simpa using h.boost
  profile := by rw [profileOf_withBase h₀ hprob, hprofile, h.profile]
  worked := by
    rw [hprofile]
    exact hworked

/-- Replacing a queue of the server replaces a line of the station. -/
theorem Represents.setWaiting (h : Represents B h₀ s st) {s₁ : Server k} {line : Bool}
    {l : List ClientPtr} (hlines : Lines s₁ (st.setWaiting line l)) (hbase : s₁.base = s.base)
    (hboost : boostRate s₁ = boostRate s) (hprofile : profileOf h₀ s₁ = profileOf h₀ s) :
    Represents B h₀ s₁ (st.setWaiting line l) where
  lines := hlines
  finished := by simpa [hbase] using h.finished
  current := by simpa [hbase] using h.current
  toServe := by simpa [hbase] using h.toServe
  counted := by
    rw [hbase]
    exact ⟨by simpa using h.counted.active, by simpa using h.counted.idle,
      by simpa using h.counted.served, by simpa using h.counted.failed⟩
  table := by rw [hbase, h.table]
  boost := by simpa [hboost] using h.boost
  profile := by rw [hprofile, Station.profile_setWaiting, h.profile]
  worked := by simpa using h.worked

section Records

variable {h : Heap}

/-- Records stay as they are where the heap does. -/
theorem Recorded.frame {h' : Heap} (hrec : Recorded h₀ h st) (hsame : ∀ p ∈ st.jobs, h' p = h p) :
    Recorded h₀ h' st where
  waiting line p hp := by
    rw [hsame p (Station.mem_jobs_of_mem_waiting hp)]
    exact hrec.waiting line p hp
  serving a ha := by
    rw [hsame a.job (Station.mem_jobs_of_current ha)]
    exact hrec.serving a ha
  finished c hc := by
    have hmem : c.job ∈ st.jobs := by
      simp only [Station.jobs, Station.started, List.mem_append, List.mem_map]
      exact Or.inl (Or.inl (Or.inl ⟨c, hc, rfl⟩))
    rw [hsame c.job hmem]
    exact hrec.finished c hc

theorem Recorded.countdown (hrec : Recorded h₀ h st) : Recorded h₀ h st.countdown where
  waiting := by simpa using hrec.waiting
  serving a ha := by
    cases hcur : st.current with
    | none => simp [Station.countdown_of_none hcur, hcur] at ha
    | some b =>
      obtain rfl : { b with remaining := b.remaining - 1 } = a := by
        simpa [Station.countdown_of_some hcur] using ha
      exact hrec.serving b hcur
  finished := by simpa using hrec.finished

/-- Writing the record of the client in service. -/
theorem recorded_serving {a : Attempt ClientPtr} (hcur : st.current = some a)
    (hnodup : st.jobs.Nodup)
    (hwaiting : ∀ line, ∀ p ∈ st.waiting line, h p = waitingRecord (h₀ p))
    (hfinished : ∀ c ∈ st.completed,
      h c.job = finishedRecord (h₀ c.job) c.start c.failures c.finish) :
    Recorded h₀ (Function.update h a.job (servingRecord (h₀ a.job) a.start a.failures)) st := by
  obtain ⟨hline, hdone⟩ := Station.current_separate hcur hnodup
  refine ⟨fun line p hp => ?_, fun b hb => ?_, fun c hc => ?_⟩
  · have hne : p ≠ a.job := fun heq => hline line (heq ▸ hp)
    rw [Function.update_of_ne hne]
    exact hwaiting line p hp
  · obtain rfl := Option.some.inj (hcur.symm.trans hb)
    rw [Function.update_self]
  · have hne : c.job ≠ a.job := fun heq => hdone (heq ▸ List.mem_map_of_mem hc)
    rw [Function.update_of_ne hne]
    exact hfinished c hc

/-- Writing the record of the client whose service is completed. -/
theorem Recorded.complete (hrec : Recorded h₀ h st) {a : Attempt ClientPtr} {t : ℤ}
    (hcur : st.current = some a) (hnodup : st.jobs.Nodup) :
    Recorded h₀ (Function.update h a.job (finishedRecord (h₀ a.job) a.start a.failures t))
      (Station.complete t a st) := by
  obtain ⟨hline, hdone⟩ := Station.current_separate hcur hnodup
  refine ⟨fun line p hp => ?_, by simp [Station.complete], fun c hc => ?_⟩
  · have hp' : p ∈ st.waiting line := hp
    have hne : p ≠ a.job := fun heq => hline line (heq ▸ hp')
    rw [Function.update_of_ne hne]
    exact hrec.waiting line p hp'
  · rcases List.mem_append.mp hc with hc | hc
    · have hne : c.job ≠ a.job := fun heq => hdone (heq ▸ List.mem_map_of_mem hc)
      rw [Function.update_of_ne hne]
      exact hrec.finished c hc
    · obtain rfl := List.mem_singleton.mp hc
      exact Function.update_self _ _ _

end Records

end AcaBSim.ServerStations
