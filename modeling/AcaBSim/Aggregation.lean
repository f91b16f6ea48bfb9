import AcaBSim.Scenarios
import AcaBSim.QueueIterators
import AcaBSim.Means

/-!
What `compute_stats` aggregates. Its loop counts the clients that the iterators
deliver. A server whose iterator finds no memory is skipped without a word,
where every constructor reports a refused request.
-/
namespace AcaBSim.Aggregation

open Machine ArrayQueue Clients Servers Systems Scenarios QueueIterators Means Outcome

/-- Both arrays, in the order of the combined index. -/
def bases (sys : System) : List BaseServer :=
  sys.standardServers.map Server.base ++ sys.roboticServers.map Server.base

theorem bases_eq (sys : System) : bases sys = (servers sys).map fun s => s.2.base := by
  rw [bases, servers, List.map_append, List.map_map, List.map_map]
  rfl

/-- The finished queues of a system that represents a network are well formed. -/
theorem bases_valid {B : ℚ → Prop} {h₀ : Heap} {m : ℕ} {sys : System} {w : World}
    {N : Networks.Network ClientPtr} (h : Simulation.Refines B h₀ m sys w N) :
    ∀ b ∈ bases sys, b.finishedClientsQueue.Valid := by
  rw [bases_eq, List.forall_mem_map]
  intro s hs
  obtain ⟨i, hi⟩ := List.mem_iff_getElem?.mp hs
  obtain ⟨st, -, hrep⟩ := exists_station h hi
  exact hrep.finished.1

/-- The clients in the finished queue, oldest first. -/
def finishedBy (heap : Heap) (b : BaseServer) : List Client :=
  (contents b.finishedClientsQueue).map heap

def finished (heap : Heap) (sys : System) : List Client := (bases sys).flatMap (finishedBy heap)

/-- The clients that the loop meets, if its first request has the number `k`. -/
def counted (env : Env) (heap : Heap) : ℕ → List BaseServer → List Client
  | _, [] => []
  | k, b :: rest =>
    (if env.granted k then (finishedBy heap b).reverse else []) ++ counted env heap (k + 1) rest

/-- The iterator of every queue that is not empty finds memory. -/
def IteratorsServed (env : Env) (k : ℕ) (bs : List BaseServer) : Prop :=
  ∀ i b, bs[i]? = some b → contents b.finishedClientsQueue ≠ [] → env.granted (k + i) = true

/-- The lengths can be added up in an `int`, one after the other. -/
def LengthsFit : ℤ → List BaseServer → Prop
  | _, [] => True
  | len, b :: rest =>
    (intMin ≤ len + b.stat.meanServerQueueLen ∧ len + b.stat.meanServerQueueLen ≤ intMax) ∧
      LengthsFit (len + b.stat.meanServerQueueLen) rest

instance : (len : ℤ) → (bs : List BaseServer) → Decidable (LengthsFit len bs)
  | _, [] => inferInstanceAs (Decidable True)
  | len, b :: rest =>
    have := instDecidableLengthsFit (len + b.stat.meanServerQueueLen) rest
    inferInstanceAs (Decidable (_ ∧ _))

theorem lengthsFit_cons {len : ℤ} {b : BaseServer}
    (hlen : intMin ≤ len + b.stat.meanServerQueueLen ∧
      len + b.stat.meanServerQueueLen ≤ intMax) (rest : List BaseServer) :
    LengthsFit len (b :: rest) ↔ LengthsFit (len + b.stat.meanServerQueueLen) rest :=
  and_iff_right hlen

def totalLength (bs : List BaseServer) : ℤ := (bs.map fun b => b.stat.meanServerQueueLen).sum

@[simp] theorem totalLength_nil : totalLength [] = 0 := rfl

@[simp] theorem totalLength_cons (b : BaseServer) (bs : List BaseServer) :
    totalLength (b :: bs) = b.stat.meanServerQueueLen + totalLength bs := by
  rw [totalLength, List.map_cons, List.sum_cons, totalLength]

def waits (l : List Client) : List ℤ := l.map fun c => c.serviceStat.waitTime

def serveTimes (l : List Client) : List ℤ := l.map fun c => c.serviceStat.totalTime

def ofType (d : DisabilityType) (l : List Client) : List Client :=
  l.filter fun c => c.disabilityType = d

def tally (l : List Client) : Totals := ⟨l.length, (waits l).sum, (serveTimes l).sum⟩

/-- The local variables after the clients of `l`. -/
def counters (len : ℤ) (l : List Client) : Counters where
  totalQueueLen := len
  nd := tally (ofType .noDisability l)
  t1 := tally (ofType .type1 l)
  t2 := tally (ofType .type2 l)
  t3 := tally (ofType .type3 l)
  all := tally l

/-- Clients of the four types whose times are not negative and sum up to an `int`. -/
structure Moderate (l : List Client) : Prop where
  valid : ∀ c ∈ l, c.disabilityType.Valid
  wait_nonneg : ∀ t ∈ waits l, 0 ≤ t
  serve_nonneg : ∀ t ∈ serveTimes l, 0 ≤ t
  wait_fits : (waits l).sum ≤ intMax
  serve_fits : (serveTimes l).sum ≤ intMax

section Counting

variable {env : Env} {heap : Heap} {k : ℕ} {b : BaseServer} {bs : List BaseServer}
  {l l' : List Client}

theorem iteratorsServed_cons : IteratorsServed env k (b :: bs) ↔
    (contents b.finishedClientsQueue ≠ [] → env.granted k = true) ∧
      IteratorsServed env (k + 1) bs := by
  constructor
  · intro h
    refine ⟨h 0 b rfl, fun i b' hb' => ?_⟩
    have hlater := h (i + 1) b' hb'
    rwa [show k + 1 + i = k + (i + 1) by omega]
  · intro h i b' hb'
    cases i with
    | zero =>
      cases hb'
      exact h.1
    | succ i =>
      have hlater := h.2 i b' hb'
      rwa [show k + (i + 1) = k + 1 + i by omega]

theorem counted_perm (h : IteratorsServed env k bs) :
    (counted env heap k bs).Perm (bs.flatMap (finishedBy heap)) := by
  induction bs generalizing k with
  | nil => exact .nil
  | cons b rest ih =>
    obtain ⟨hserved, hrest⟩ := iteratorsServed_cons.mp h
    rw [counted, List.flatMap_cons]
    refine List.Perm.append ?_ (ih hrest)
    split
    · exact List.reverse_perm _
    · rename_i hrefused
      have hempty : contents b.finishedClientsQueue = [] := by
        by_contra hne
        exact hrefused (hserved hne)
      rw [finishedBy, hempty]
      exact .nil

theorem counted_subperm (env : Env) (heap : Heap) (k : ℕ) (bs : List BaseServer) :
    (counted env heap k bs).Subperm (bs.flatMap (finishedBy heap)) := by
  induction bs generalizing k with
  | nil => exact List.Subperm.refl []
  | cons b rest ih =>
    rw [counted, List.flatMap_cons]
    refine List.Subperm.append ?_ (ih (k + 1))
    split
    · exact (List.reverse_perm _).subperm
    · exact List.nil_subperm

/-- If no client is missing, none has been skipped. -/
theorem iteratorsServed_of_length
    (h : (counted env heap k bs).length = (bs.flatMap (finishedBy heap)).length) :
    IteratorsServed env k bs := by
  induction bs generalizing k with
  | nil => exact fun i b hb => by simp at hb
  | cons b rest ih =>
    rw [counted, List.flatMap_cons, List.length_append, List.length_append] at h
    have hrest := (counted_subperm env heap (k + 1) rest).length_le
    rw [iteratorsServed_cons]
    split at h
    · rename_i hserved
      rw [List.length_reverse] at h
      exact ⟨fun _ => hserved, ih (by omega)⟩
    · rw [List.length_nil] at h
      refine ⟨fun hne => absurd ?_ hne, ih (by omega)⟩
      rw [← List.length_eq_zero_iff, ← List.length_map (f := heap)]
      change (finishedBy heap b).length = 0
      omega

theorem Moderate.of_perm (h : Moderate l) (hperm : l'.Perm l) : Moderate l' where
  valid c hc := h.valid c (hperm.subset hc)
  wait_nonneg t ht := h.wait_nonneg t ((hperm.map _).subset ht)
  serve_nonneg t ht := h.serve_nonneg t ((hperm.map _).subset ht)
  wait_fits := (hperm.map _).sum_eq.trans_le h.wait_fits
  serve_fits := (hperm.map _).sum_eq.trans_le h.serve_fits

theorem Moderate.of_sublist (h : Moderate l) (hsub : l'.Sublist l) : Moderate l' where
  valid c hc := h.valid c (hsub.subset hc)
  wait_nonneg t ht := h.wait_nonneg t ((hsub.map _).subset ht)
  serve_nonneg t ht := h.serve_nonneg t ((hsub.map _).subset ht)
  wait_fits := ((hsub.map _).sum_le_sum h.wait_nonneg).trans h.wait_fits
  serve_fits := ((hsub.map _).sum_le_sum h.serve_nonneg).trans h.serve_fits

theorem Moderate.of_subperm (h : Moderate l) (hsub : l'.Subperm l) : Moderate l' := by
  obtain ⟨l₁, hperm, hsublist⟩ := hsub
  exact (h.of_sublist hsublist).of_perm hperm.symm

end Counting

section Loops

variable {env : Env} {heap : Heap} {len : ℤ} {l rest : List Client} {c : Client} {w : World}

theorem waits_append (l l' : List Client) : waits (l ++ l') = waits l ++ waits l' :=
  List.map_append

theorem ofType_snoc_self (h : c.disabilityType = d) : ofType d (l ++ [c]) = ofType d l ++ [c] := by
  simp [ofType, List.filter_append, h]

theorem ofType_snoc_of_ne (h : c.disabilityType ≠ d) : ofType d (l ++ [c]) = ofType d l := by
  simp [ofType, List.filter_append, h]

theorem sum_nonneg_le {f : Client → ℤ} (h : ∀ t ∈ (l ++ [c]).map f, 0 ≤ t) :
    0 ≤ (l.map f).sum + f c ∧ (l.map f).sum + f c = ((l ++ [c]).map f).sum := by
  have hsum : ((l ++ [c]).map f).sum = (l.map f).sum + f c := by simp
  exact ⟨hsum ▸ List.sum_nonneg h, hsum.symm⟩

/-- The counters of one class of clients leave the range only by their number. -/
theorem computeClientStats_tally (h : Moderate (l ++ [c])) :
    computeClientStats c (tally l) =
      if ((l ++ [c]).length : ℤ) ≤ intMax then .ok (tally (l ++ [c])) else .error .intOverflow := by
  obtain ⟨hwait, hwaits⟩ := sum_nonneg_le h.wait_nonneg
  obtain ⟨hserve, hserves⟩ := sum_nonneg_le h.serve_nonneg
  have hwait_fits := h.wait_fits
  have hserve_fits := h.serve_fits
  simp only [waits, serveTimes] at hwait_fits hserve_fits
  have hmin : intMin ≤ 0 := by decide
  have hlength : ((l ++ [c]).length : ℤ) = l.length + 1 := by simp
  rw [hlength]
  simp only [computeClientStats, tally, waits, serveTimes]
  split
  · rename_i hfits
    rw [checkInt_ok ⟨by omega, hfits⟩, checkInt_ok ⟨by omega, by omega⟩,
      checkInt_ok ⟨by omega, by omega⟩]
    simp only [Bind.bind, Except.bind, hwaits, hserves, hlength]
  · rename_i hfits
    rw [checkInt, if_neg fun hrange => hfits hrange.2]
    rfl

theorem ofType_sublist (d : DisabilityType) (l : List Client) : (ofType d l).Sublist l :=
  List.filter_sublist

/-- A class and all clients are counted together: the class fits if all do. -/
theorem computeClientStats_both {d : DisabilityType} (h : Moderate (l ++ [c]))
    (hd : c.disabilityType = d) (f : Totals → Totals → Counters) :
    (computeClientStats c (tally (ofType d l)) >>= fun t =>
      computeClientStats c (tally l) >>= fun all => .ok (f t all)) =
      if ((l ++ [c]).length : ℤ) ≤ intMax then
        .ok (f (tally (ofType d (l ++ [c]))) (tally (l ++ [c])))
      else .error .intOverflow := by
  have hsub := ofType_sublist d (l ++ [c])
  have hclass := computeClientStats_tally (l := ofType d l) (c := c)
    (ofType_snoc_self hd ▸ h.of_sublist hsub)
  rw [← ofType_snoc_self hd] at hclass
  have hle := hsub.length_le
  rw [hclass, computeClientStats_tally h]
  by_cases hfits : ((l ++ [c]).length : ℤ) ≤ intMax
  · rw [if_pos (by omega), if_pos hfits, if_pos hfits]
    rfl
  · rw [if_neg hfits, if_neg hfits]
    split
    · rfl
    · rfl

/-- The `switch` with its four cases, for a client of the type of one. -/
theorem addClient_cases (before : Counters) (c : Client) (hvalid : c.disabilityType.Valid) :
    (c.disabilityType = .noDisability ∧ before.addClient c =
      (computeClientStats c before.nd >>= fun t =>
        computeClientStats c before.all >>= fun all => .ok { before with nd := t, all := all })) ∨
    (c.disabilityType = .type1 ∧ before.addClient c =
      (computeClientStats c before.t1 >>= fun t =>
        computeClientStats c before.all >>= fun all => .ok { before with t1 := t, all := all })) ∨
    (c.disabilityType = .type2 ∧ before.addClient c =
      (computeClientStats c before.t2 >>= fun t =>
        computeClientStats c before.all >>= fun all => .ok { before with t2 := t, all := all })) ∨
    (c.disabilityType = .type3 ∧ before.addClient c =
      (computeClientStats c before.t3 >>= fun t =>
        computeClientStats c before.all >>= fun all =>
          .ok { before with t3 := t, all := all })) := by
  unfold Counters.addClient
  rcases hvalid with hd | hd | hd | hd
  · refine .inl ⟨hd, ?_⟩
    rw [hd]
    rfl
  · refine .inr (.inl ⟨hd, ?_⟩)
    rw [hd]
    rfl
  · refine .inr (.inr (.inl ⟨hd, ?_⟩))
    rw [hd]
    rfl
  · refine .inr (.inr (.inr ⟨hd, ?_⟩))
    rw [hd]
    rfl

/-- The counters after one more client. -/
theorem addClient_counters (h : Moderate (l ++ [c])) :
    (counters len l).addClient c =
      if ((l ++ [c]).length : ℤ) ≤ intMax then .ok (counters len (l ++ [c]))
      else .error .intOverflow := by
  have hother : ∀ d, c.disabilityType ≠ d → ofType d (l ++ [c]) = ofType d l :=
    fun d hd => ofType_snoc_of_ne hd
  have hvalid := h.valid c (List.mem_append_right l (List.mem_singleton_self c))
  rcases addClient_cases (counters len l) c hvalid with
    ⟨hd, hadd⟩ | ⟨hd, hadd⟩ | ⟨hd, hadd⟩ | ⟨hd, hadd⟩
  · rw [hadd]
    refine (computeClientStats_both h hd _).trans ?_
    simp only [counters, ne_eq, hd, reduceCtorEq, not_false_eq_true, hother]
  · rw [hadd]
    refine (computeClientStats_both h hd _).trans ?_
    simp only [counters, ne_eq, hd, reduceCtorEq, not_false_eq_true, hother]
  · rw [hadd]
    refine (computeClientStats_both h hd _).trans ?_
    simp only [counters, ne_eq, hd, reduceCtorEq, not_false_eq_true, hother]
  · rw [hadd]
    refine (computeClientStats_both h hd _).trans ?_
    simp only [counters, ne_eq, hd, reduceCtorEq, not_false_eq_true, hother]

/-- The iterator loop counts what the iterator delivers, by induction on that. -/
theorem countFinished_iteration {iterator : Option (QueueIterator ClientPtr)}
    {ptrs : List ClientPtr} (hiteration : Iteration iterator (ptrs.map some)) {fuel : ℕ}
    (hfuel : ptrs.length ≤ fuel) (h : Moderate (l ++ ptrs.map heap))
    (hfits : (l.length : ℤ) ≤ intMax) :
    countFinished heap fuel iterator (counters len l) =
      if ((l ++ ptrs.map heap).length : ℤ) ≤ intMax then
        .ok (counters len (l ++ ptrs.map heap))
      else .error .intOverflow := by
  induction ptrs generalizing iterator fuel l with
  | nil =>
    rw [List.map_nil, List.append_nil, if_pos hfits]
    cases hiteration with
    | done hend => cases fuel <;> simp [countFinished, hend]
  | cons p ptrs ih =>
    obtain ⟨fuel, rfl⟩ := Nat.exists_eq_add_of_le' (Nat.one_le_of_lt (Nat.lt_of_lt_of_le
      (Nat.zero_lt_succ _) hfuel))
    rw [List.map_cons] at hiteration
    cases hiteration with
    | next hmore hitem hrest =>
      have hsplit : l ++ (p :: ptrs).map heap = (l ++ [heap p]) ++ ptrs.map heap := by simp
      rw [hsplit] at h ⊢
      have hfirst : Moderate (l ++ [heap p]) := h.of_sublist (List.sublist_append_left _ _)
      simp only [countFinished, hmore, if_true, hitem, Bind.bind, Except.bind,
        addClient_counters hfirst]
      by_cases hone : ((l ++ [heap p]).length : ℤ) ≤ intMax
      · rw [if_pos hone]
        exact ih hrest (Nat.le_of_succ_le_succ hfuel) h hone
      · rw [if_neg hone, if_neg]
        rw [List.length_append]
        push_cast
        omega

theorem countServers_cons (b : BaseServer) (bs : List BaseServer) (before : Counters) (w : World) :
    countServers env (b :: bs) before w =
      (checkInt (before.totalQueueLen + b.stat.meanServerQueueLen)).bind fun total =>
        (countFinished w.heap (queueSize b.finishedClientsQueue)
          (queueIteratorCreate (env.granted w.requests) b.finishedClientsQueue)
          { before with totalQueueLen := total }).bind fun counters =>
            countServers env bs counters { w with requests := w.requests + 1 } := by
  rw [countServers]
  cases checkInt (before.totalQueueLen + b.stat.meanServerQueueLen) with
  | error e => rfl
  | ok total =>
    have hstep : ∀ x : Except Fault Counters,
        ((liftM x : Prog Counters) >>= fun counters => countServers env bs counters)
            { w with requests := w.requests + 1 } =
          x.bind fun counters => countServers env bs counters
            { w with requests := w.requests + 1 } := by
      intro x
      cases x with
      | error e => rfl
      | ok counters => rfl
    exact hstep _

/-- The iterator delivers the clients counted, whether it finds memory or not. -/
theorem iteration_counted {q : Queue ClientPtr} (h : q.Valid) (granted : Bool) :
    Iteration (queueIteratorCreate granted q)
      ((if granted then (contents q).reverse else []).map some) := by
  cases granted with
  | true => exact iteration_contents h
  | false =>
    have hrefused : queueIteratorCreate false q = none := by simp [queueIteratorCreate]
    rw [hrefused]
    exact .done rfl

/-- The fuel of the iterator loop is enough for all that the iterator delivers. -/
theorem length_delivered {b : BaseServer} (hvalid : b.finishedClientsQueue.Valid)
    (granted : Bool) :
    (if granted then (contents b.finishedClientsQueue).reverse else []).length ≤
      queueSize b.finishedClientsQueue := by
  split
  · rw [List.length_reverse, hvalid.length_contents, queueSize]
  · exact Nat.zero_le _

theorem map_delivered (heap : Heap) (b : BaseServer) (granted : Bool) :
    (if granted then (contents b.finishedClientsQueue).reverse else []).map heap =
      if granted then (finishedBy heap b).reverse else [] := by
  split
  · rw [finishedBy, List.map_reverse]
  · rfl

/-- The whole loop of `compute_stats`, from any clients counted already. -/
theorem countServers_eq {bs : List BaseServer} (hvalid : ∀ b ∈ bs, b.finishedClientsQueue.Valid)
    (h : Moderate (l ++ counted env w.heap w.requests bs)) (hfits : (l.length : ℤ) ≤ intMax) :
    countServers env bs (counters len l) w =
      if LengthsFit len bs ∧ ((l ++ counted env w.heap w.requests bs).length : ℤ) ≤ intMax then
        .ok (counters (len + totalLength bs) (l ++ counted env w.heap w.requests bs),
          { w with requests := w.requests + bs.length })
      else .error .intOverflow := by
  induction bs generalizing len l w with
  | nil =>
    rw [counted, List.append_nil, if_pos ⟨trivial, hfits⟩]
    rw [totalLength_nil, add_zero]
    rfl
  | cons b rest ih =>
    have hfinished := hvalid b List.mem_cons_self
    have hiteration := iteration_counted hfinished (env.granted w.requests)
    have hfuel := length_delivered hfinished (env.granted w.requests)
    rw [counted, ← map_delivered, ← List.append_assoc] at h ⊢
    have hfirst := h.of_sublist (List.sublist_append_left _ _)
    rw [countServers_cons]
    by_cases hlen : intMin ≤ len + b.stat.meanServerQueueLen ∧
        len + b.stat.meanServerQueueLen ≤ intMax
    · have hcheck : checkInt ((counters len l).totalQueueLen + b.stat.meanServerQueueLen) =
          .ok (len + b.stat.meanServerQueueLen) := checkInt_ok hlen
      rw [hcheck]
      change (countFinished _ _ _ (counters (len + b.stat.meanServerQueueLen) l)).bind _ = _
      rw [countFinished_iteration hiteration hfuel hfirst hfits]
      by_cases hcount : ((l ++ (if env.granted w.requests then
          (contents b.finishedClientsQueue).reverse else []).map w.heap).length : ℤ) ≤ intMax
      · rw [if_pos hcount]
        refine (ih (w := { w with requests := w.requests + 1 })
          (fun b hb => hvalid b (List.mem_cons_of_mem _ hb)) h hcount).trans ?_
        have hrequests : w.requests + 1 + rest.length = w.requests + (b :: rest).length := by
          rw [List.length_cons]
          omega
        simp only [lengthsFit_cons hlen, totalLength_cons, ← add_assoc, hrequests]
      · rw [if_neg hcount, if_neg]
        · rfl
        · intro hboth
          have hle := hboth.2
          rw [List.length_append] at hle
          omega
    · have hcheck : checkInt ((counters len l).totalQueueLen + b.stat.meanServerQueueLen) =
          .error .intOverflow := if_neg hlen
      rw [hcheck, if_neg fun hboth => hlen hboth.1.1]
      rfl

end Loops

/-- The mean waiting time that `stat` reports for a type. -/
def waitMean (stat : SimStat) : DisabilityType → ℤ
  | .noDisability => stat.ndMeanWaitTime
  | .type1 => stat.t1MeanWaitTime
  | .type2 => stat.t2MeanWaitTime
  | .type3 => stat.t3MeanWaitTime
  | .other _ => 0

def serveMean (stat : SimStat) : DisabilityType → ℤ
  | .noDisability => stat.ndMeanServeTime
  | .type1 => stat.t1MeanServeTime
  | .type2 => stat.t2MeanServeTime
  | .type3 => stat.t3MeanServeTime
  | .other _ => 0

/-- Every mean of `stat` is that of the clients it speaks of. -/
structure MeansExact (l : List Client) (stat : SimStat) : Prop where
  wait : ∀ d : DisabilityType, d.Valid → waitMean stat d = truncatedMean (waits (ofType d l))
  serve : ∀ d : DisabilityType, d.Valid → serveMean stat d = truncatedMean (serveTimes (ofType d l))
  overall_wait : stat.meanWaitTime = truncatedMean (waits l)
  overall_serve : stat.meanServeTime = truncatedMean (serveTimes l)

/-- Every client is counted once among all and once among those of its type. -/
structure CountedOnce (l : List Client) (counters : Counters) : Prop where
  nd : counters.nd.total = (ofType .noDisability l).length
  t1 : counters.t1.total = (ofType .type1 l).length
  t2 : counters.t2.total = (ofType .type2 l).length
  t3 : counters.t3.total = (ofType .type3 l).length
  all : counters.all.total = l.length

/-- `compute_stats` returns the exact means of the finished clients. -/
def Aggregates (env : Env) (sys : System) (stat : SimStat) (w : World) : Prop :=
  ∃ counters stat' w', countServers env (bases sys) .zero w = .ok (counters, w') ∧
    computeStats env sys stat w = .ok (stat', w') ∧
    CountedOnce (finished w.heap sys) counters ∧ MeansExact (finished w.heap sys) stat'

/-- No iterator is refused, and neither the number of clients nor a sum of
queue lengths leaves the range of `int`. -/
structure Countable (env : Env) (sys : System) (w : World) : Prop where
  served : IteratorsServed env w.requests (bases sys)
  number : ((finished w.heap sys).length : ℤ) ≤ intMax
  lengths : LengthsFit 0 (bases sys)

/-- The overall mean lies between means of types that have a client. -/
def Between (l : List Client) (mean : DisabilityType → ℤ) (overall : ℤ) : Prop :=
  (∃ d : DisabilityType, d.Valid ∧ ofType d l ≠ [] ∧ mean d ≤ overall) ∧
    ∃ d : DisabilityType, d.Valid ∧ ofType d l ≠ [] ∧ overall ≤ mean d

section Statistics

variable {env : Env} {sys : System} {stat : SimStat} {w w' : World} {l l' : List Client}

theorem meanOrZero_tally (l : List Client) (f : Client → ℤ) :
    meanOrZero (l.map f).sum l.length = truncatedMean (l.map f) := by
  simp only [meanOrZero, truncatedMean, List.length_map, gt_iff_lt, Int.natCast_pos]

theorem tally_perm (h : l.Perm l') : tally l = tally l' := by
  simp only [tally, waits, serveTimes, h.length_eq, (h.map _).sum_eq]

theorem counters_perm (len : ℤ) (h : l.Perm l') : counters len l = counters len l' := by
  simp only [counters, ofType, tally_perm h, tally_perm (h.filter _)]

/-- The divisions at the end of `compute_stats`. -/
theorem computeStats_counters {len : ℤ}
    (h : countServers env (bases sys) .zero w = .ok (counters len l, w')) :
    ∃ stat', computeStats env sys stat w = .ok (stat', w') ∧ MeansExact l stat' ∧
      stat'.totalClients = stat.totalClients ∧
      stat'.meanQueueSize = if (bases sys).length > 0 then
        wrapInt ((len % 2 ^ 64) / (bases sys).length) else 0 := by
  have hensures : Ensures (fun _ => False) (computeStats env sys stat) w fun stat' w₁ =>
      w₁ = w' ∧ MeansExact l stat' ∧ stat'.totalClients = stat.totalClients ∧
        stat'.meanQueueSize = if (bases sys).length > 0 then
          wrapInt ((len % 2 ^ 64) / (bases sys).length) else 0 := by
    unfold computeStats
    rw [ensures_bind]
    refine (ensures_of_ok h).mpr ⟨rfl, ⟨?_, ?_, ?_, ?_⟩, rfl, rfl⟩
    · rintro d (rfl | rfl | rfl | rfl) <;> exact meanOrZero_tally _ _
    · rintro d (rfl | rfl | rfl | rfl) <;> exact meanOrZero_tally _ _
    · exact meanOrZero_tally _ _
    · exact meanOrZero_tally _ _
  obtain ⟨stat', w₁, hrun, rfl, hstat⟩ := hensures.returns fun _ _ hfalse => hfalse
  exact ⟨stat', hrun, hstat⟩

theorem countedOnce_counters (len : ℤ) (l : List Client) : CountedOnce l (counters len l) :=
  ⟨rfl, rfl, rfl, rfl, rfl⟩

variable (hvalid : ∀ b ∈ bases sys, b.finishedClientsQueue.Valid)
  (hmoderate : Moderate (finished w.heap sys))

include hvalid hmoderate

theorem countServers_bases :
    countServers env (bases sys) .zero w =
      if LengthsFit 0 (bases sys) ∧
          ((counted env w.heap w.requests (bases sys)).length : ℤ) ≤ intMax then
        .ok (counters (totalLength (bases sys)) (counted env w.heap w.requests (bases sys)),
          { w with requests := w.requests + (bases sys).length })
      else .error .intOverflow := by
  have hloop : countServers env (bases sys) (counters 0 []) w = _ := countServers_eq hvalid
    (hmoderate.of_subperm (counted_subperm env w.heap w.requests (bases sys))) (by decide)
  rw [zero_add, List.nil_append] at hloop
  exact hloop

/-- The statistics that `compute_stats` returns when nothing is skipped. -/
theorem computeStats_of_countable (stat : SimStat) (h : Countable env sys w) :
    ∃ counters stat' w', countServers env (bases sys) .zero w = .ok (counters, w') ∧
      computeStats env sys stat w = .ok (stat', w') ∧
      CountedOnce (finished w.heap sys) counters ∧ MeansExact (finished w.heap sys) stat' ∧
      stat'.totalClients = stat.totalClients ∧
      stat'.meanQueueSize = if (bases sys).length > 0 then
        wrapInt ((totalLength (bases sys) % 2 ^ 64) / (bases sys).length) else 0 := by
  have hperm : (counted env w.heap w.requests (bases sys)).Perm (finished w.heap sys) :=
    counted_perm h.served
  have hcount : countServers env (bases sys) .zero w = _ := countServers_bases hvalid hmoderate
  rw [if_pos ⟨h.lengths, hperm.length_eq ▸ h.number⟩, counters_perm _ hperm] at hcount
  obtain ⟨stat', hrun, hstat⟩ := computeStats_counters hcount
  exact ⟨_, stat', _, hcount, hrun, countedOnce_counters _ _, hstat⟩

/-- A client that is missing is missing in the number of all clients. -/
theorem countable_of_aggregates (h : Aggregates env sys stat w) : Countable env sys w := by
  obtain ⟨before, stat', w', hcount, -, honce, -⟩ := h
  rw [countServers_bases hvalid hmoderate] at hcount
  split at hcount
  · rename_i hfits
    cases hcount
    have hall : ((counted env w.heap w.requests (bases sys)).length : ℤ) =
        (finished w.heap sys).length := honce.all
    have hlength : (counted env w.heap w.requests (bases sys)).length =
        (finished w.heap sys).length := by exact_mod_cast hall
    exact ⟨iteratorsServed_of_length hlength, hlength ▸ hfits.2, hfits.1⟩
  · cases hcount

omit hvalid hmoderate in
/-- The means are those of the clients, in whatever order and wherever they are kept. -/
theorem MeansExact.perm {stat' : SimStat} (h : MeansExact l stat) (h' : MeansExact l' stat')
    (hperm : l'.Perm l) :
    (∀ d : DisabilityType, d.Valid →
      waitMean stat' d = waitMean stat d ∧ serveMean stat' d = serveMean stat d) ∧
    stat'.meanWaitTime = stat.meanWaitTime ∧ stat'.meanServeTime = stat.meanServeTime := by
  refine ⟨fun d hd => ⟨?_, ?_⟩, ?_, ?_⟩
  · rw [h'.wait d hd, h.wait d hd]
    exact truncatedMean_perm ((hperm.filter _).map _)
  · rw [h'.serve d hd, h.serve d hd]
    exact truncatedMean_perm ((hperm.filter _).map _)
  · rw [h'.overall_wait, h.overall_wait]
    exact truncatedMean_perm (hperm.map _)
  · rw [h'.overall_serve, h.overall_serve]
    exact truncatedMean_perm (hperm.map _)

omit hvalid in
theorem between_means {f : Client → ℤ} {mean : DisabilityType → ℤ} {overall : ℤ}
    (hnonneg : ∀ c ∈ finished w.heap sys, 0 ≤ f c)
    (hmean : ∀ d : DisabilityType, d.Valid →
      mean d = truncatedMean ((ofType d (finished w.heap sys)).map f))
    (hoverall : overall = truncatedMean ((finished w.heap sys).map f))
    (hne : finished w.heap sys ≠ []) : Between (finished w.heap sys) mean overall := by
  have htype : ∀ d ∈ (finished w.heap sys).map Client.disabilityType, d.Valid ∧
      ofType d (finished w.heap sys) ≠ [] := by
    intro d hd
    refine ⟨?_, filter_ne_nil hd⟩
    obtain ⟨c, hc, rfl⟩ := List.mem_map.mp hd
    exact hmoderate.valid c hc
  obtain ⟨low, hlow, hle⟩ := exists_group_le Client.disabilityType hne hnonneg
  obtain ⟨high, hhigh, hge⟩ := exists_le_group Client.disabilityType hne hnonneg
  refine ⟨⟨low, (htype low hlow).1, (htype low hlow).2, ?_⟩,
    ⟨high, (htype high hhigh).1, (htype high hhigh).2, ?_⟩⟩
  · rw [hmean low (htype low hlow).1, hoverall]
    exact hle
  · rw [hmean high (htype high hhigh).1, hoverall]
    exact hge

end Statistics

/-- `compute_stats` counts every finished client once and reports the exact means
just if no iterator that has something to deliver is refused, and no counter
overflows. Then the means do not depend on who finished which client when, and
the overall ones lie between those of the types. -/
theorem aggregates_iff (env : Env) (sys : System) (stat : SimStat) (w : World)
    (hvalid : ∀ b ∈ bases sys, b.finishedClientsQueue.Valid)
    (hmoderate : Moderate (finished w.heap sys)) :
    (Aggregates env sys stat w ↔ Countable env sys w) ∧
    (Countable env sys w → ∃ stat₁ w₁, computeStats env sys stat w = .ok (stat₁, w₁) ∧
      (∀ (env' : Env) (sys' : System) (stat' : SimStat) (w' : World),
        (∀ b ∈ bases sys', b.finishedClientsQueue.Valid) →
        (finished w'.heap sys').Perm (finished w.heap sys) → Countable env' sys' w' →
        ∃ stat₂ w₂, computeStats env' sys' stat' w' = .ok (stat₂, w₂) ∧
          (∀ d : DisabilityType, d.Valid →
            waitMean stat₂ d = waitMean stat₁ d ∧ serveMean stat₂ d = serveMean stat₁ d) ∧
          stat₂.meanWaitTime = stat₁.meanWaitTime ∧
          stat₂.meanServeTime = stat₁.meanServeTime) ∧
      (finished w.heap sys ≠ [] →
        Between (finished w.heap sys) (waitMean stat₁) stat₁.meanWaitTime ∧
        Between (finished w.heap sys) (serveMean stat₁) stat₁.meanServeTime)) := by
  refine ⟨⟨countable_of_aggregates hvalid hmoderate, fun h => ?_⟩, fun h => ?_⟩
  · obtain ⟨before, stat', w', hcount, hrun, honce, hmeans, -⟩ :=
      computeStats_of_countable hvalid hmoderate stat h
    exact ⟨before, stat', w', hcount, hrun, honce, hmeans⟩
  · obtain ⟨-, stat₁, w₁, -, hrun, -, hmeans, -⟩ :=
      computeStats_of_countable hvalid hmoderate stat h
    refine ⟨stat₁, w₁, hrun, fun env' sys' stat' w' hvalid' hperm h' => ?_, fun hne => ⟨?_, ?_⟩⟩
    · obtain ⟨-, stat₂, w₂, -, hrun', -, hmeans', -⟩ :=
        computeStats_of_countable hvalid' (hmoderate.of_perm hperm) stat' h'
      exact ⟨stat₂, w₂, hrun', hmeans.perm hmeans' hperm⟩
    · exact between_means hmoderate (List.forall_mem_map.mp hmoderate.wait_nonneg) hmeans.wait
        hmeans.overall_wait hne
    · exact between_means hmoderate (List.forall_mem_map.mp hmoderate.serve_nonneg) hmeans.serve
        hmeans.overall_serve hne

def noStat : SimStat := ⟨0, 0, 0, 0, 0, 0, 0, 0, 0, 0, 0, 0⟩

/-- The two servers have finished seven clients, regular and disabled ones. -/
theorem aggregates_iff_contended :
    let sys := contended.systemAt 26
    let w := (contended.stateAt 26).2
    (finished w.heap sys).length = 7 ∧
    (Aggregates contended.env sys noStat w ↔ Countable contended.env sys w) ∧
    ∃ stat₁ w₁, computeStats contended.env sys noStat w = .ok (stat₁, w₁) ∧
      Between (finished w.heap sys) (waitMean stat₁) stat₁.meanWaitTime ∧
      Between (finished w.heap sys) (serveMean stat₁) stat₁.meanServeTime := by
  intro sys w
  have hord : contended.Ordinary 26 := contended_ordinary.mono (by omega)
  have hvalid : ∀ b ∈ bases sys, b.finishedClientsQueue.Valid := bases_valid hord.refines
  have hmoderate : Moderate (finished w.heap sys) :=
    ⟨by decide +kernel, by decide +kernel, by decide +kernel, by decide +kernel,
      by decide +kernel⟩
  have hseven : (finished w.heap sys).length = 7 := by decide +kernel
  have hcountable : Countable contended.env sys w :=
    ⟨fun _ _ _ _ => rfl, hseven ▸ by decide, by decide +kernel⟩
  obtain ⟨hiff, hmeans⟩ := aggregates_iff contended.env sys noStat w hvalid hmoderate
  obtain ⟨stat₁, w₁, hrun, -, hbetween⟩ := hmeans hcountable
  exact ⟨hseven, hiff, stat₁, w₁, hrun, hbetween fun hnil => by rw [hnil] at hseven; cases hseven⟩

/-- The first `n` requests for memory are served. -/
def servedBelow (n : ℕ) : Env where
  rand _ := ⟨0, Nat.succ_pos randMax⟩
  exponential _ := 1
  outcomes := .drawn
  granted k := k < n

/-- One standard server that has finished client 0. -/
def oneFinished : System where
  systemClients := some emptyQueue
  standardServers := [.standard
    { base := { freshBase 0 with
        stat := { ServerStat.zero with clientServed := 1 }
        finishedClientsQueue := { items := [some 0], size := 1, capacity := 1 } }
      clientQueue := emptyQueue }]
  roboticServers := []

/-- The client has waited for 3 ticks, and 100 requests have been made. -/
def finishedWorld : World where
  heap _ := { newcomer 0 0 .noDisability with
    serviceStat := { ClientServiceStat.zero with waitTime := 3, totalTime := 5 } }
  draws := 0
  requests := 100

/-- The one server is skipped and a mean of 0 is reported where it is 3. -/
theorem server_skipped :
    truncatedMean (waits (finished finishedWorld.heap oneFinished)) = 3 ∧
    (∃ stat' w', computeStats (servedBelow 100) oneFinished noStat finishedWorld =
      .ok (stat', w') ∧ stat'.meanWaitTime = 0) ∧
    ¬ Aggregates (servedBelow 100) oneFinished noStat finishedWorld := by
  refine ⟨by decide, ⟨_, _, rfl, rfl⟩, fun haggregates => ?_⟩
  obtain ⟨-, stat', w', -, hrun, -, hmeans⟩ := haggregates
  have hmean := hmeans.overall_wait
  cases hrun
  exact absurd hmean (by decide)

end AcaBSim.Aggregation
