import AcaBSim.HashMaps
import AcaBSim.RobinHood
import AcaBSim.KeyedLists

/-!
The buckets of a hash map as a Robin Hood table: an entry is a clipped hash and
an item, its home is the hash modulo the number of buckets, and the `dib` of a
bucket is its probe distance. Each loop of the source walks this table, and its
rule says what the table holds afterwards.
-/
namespace AcaBSim.HashMaps

open RobinHood KeyedLists IndexLoops

variable {α : Type} {n mask : ℕ}

abbrev Entry (α : Type) := ℕ × α

def home (e : Entry α) : ZMod n := (e.1 : ZMod n)

/-- The bucket of an entry that lies in cell `i`. -/
def Entry.bucketAt (e : Entry α) (i : ZMod n) : Bucket α := ⟨e.1, distance home e i, e.2⟩

/-- The bucket of cell `i` is free, or it has the hash, the distance and the item of the entry. -/
def Stored (buckets : List (Bucket α)) (T : Table n (Entry α)) (i : ZMod n) : Prop :=
  match T i with
  | none => ∃ b, buckets[i.val]? = some b ∧ b.dib = 0
  | some e => buckets[i.val]? = some (e.bucketAt i)

def Stores (buckets : List (Bucket α)) (T : Table n (Entry α)) : Prop :=
  ∀ i, Stored buckets T i

/-- The first `n` buckets are an ordered table that holds `l`, in some order. -/
def Lays (n : ℕ) (buckets : List (Bucket α)) (l : List (Entry α)) : Prop :=
  ∃ T : Table n (Entry α), Stores buckets T ∧ Ordered home T ∧ (held T).Perm l

/-- The mask takes an index round the buckets. -/
def Masks (n mask : ℕ) : Prop := ∀ m, m &&& mask = m % n

theorem masks_two_pow (k : ℕ) : Masks (2 ^ k) (2 ^ k - 1) := fun m =>
  Nat.and_two_pow_sub_one_eq_mod m k

variable {buckets : List (Bucket α)} {T : Table n (Entry α)} {i : ZMod n} {e b : Entry α}

theorem Masks.home (h : Masks n mask) (e : Entry α) :
    e.1 &&& mask = (HashMaps.home e : ZMod n).val := by
  rw [h, HashMaps.home, ZMod.val_natCast]

theorem Stores.free (h : Stores buckets T) (hi : T i = none) :
    ∃ b, bucketAt buckets i.val = .ok b ∧ b.dib = 0 := by
  have hcell := h i
  rw [Stored, hi] at hcell
  obtain ⟨b, hb, hdib⟩ := hcell
  exact ⟨b, by rw [HashMaps.bucketAt, readAt, hb], hdib⟩

theorem Stored.read (h : Stored buckets T i) (hi : T i = some e) :
    bucketAt buckets i.val = .ok (e.bucketAt i) := by
  rw [Stored, hi] at h
  rw [HashMaps.bucketAt, readAt, h]

theorem Entry.dib_bucketAt (e : Entry α) (i : ZMod n) :
    (e.bucketAt i).dib = distance home e i := rfl

theorem Entry.bucketAt_dib_ne_zero (e : Entry α) (i : ZMod n) : (e.bucketAt i).dib ≠ 0 := by
  have hpos := distance_pos home e i
  change distance home e i ≠ 0
  omega

theorem Stored.lt_length (h : Stored buckets T i) : i.val < buckets.length := by
  rw [Stored] at h
  split at h
  · obtain ⟨b, hb, -⟩ := h
    exact (List.getElem?_eq_some_iff.mp hb).1
  · exact (List.getElem?_eq_some_iff.mp h).1

theorem Stored.set_self (h : i.val < buckets.length) (e : Entry α) :
    Stored (buckets.set i.val (e.bucketAt i)) (Function.update T i (some e)) i := by
  rw [Stored, Function.update_self]
  exact List.getElem?_set_self h

theorem ok_bind {ε β γ : Type} (a : β) (f : β → Except ε γ) : (Except.ok a >>= f) = f a := rfl

variable [NeZero n]

theorem Masks.next (h : Masks n mask) (i : ZMod n) : (i.val + 1) &&& mask = (i + 1).val := by
  rw [h, ← ZMod.val_natCast, Nat.cast_succ, ZMod.natCast_zmod_val]

/-- A change of bucket `i` alone leaves the other cells as they are. -/
theorem Stored.of_ne {buckets' : List (Bucket α)} {x : Option (Entry α)} {j : ZMod n}
    (h : Stored buckets T j) (hj : j ≠ i)
    (hother : ∀ m, m ≠ i.val → buckets'[m]? = buckets[m]?) :
    Stored buckets' (Function.update T i x) j := by
  have hval : j.val ≠ i.val := fun h => hj (ZMod.val_injective n h)
  rwa [Stored, Function.update_of_ne hj, hother _ hval]

theorem Stores.set (h : Stores buckets T) (i : ZMod n) (e : Entry α) :
    Stores (buckets.set i.val (e.bucketAt i)) (Function.update T i (some e)) := by
  intro j
  by_cases hj : j = i
  · subst hj
    exact Stored.set_self (h j).lt_length e
  · exact (h j).of_ne hj fun m hm => List.getElem?_set_ne (Ne.symm hm)

theorem Entry.farther_bucketAt (h : distance home e i < n) (hdib : distance home e i < 65535) :
    (e.bucketAt i).farther = e.bucketAt (i + 1) := by
  have hmod : (distance home e i + 1) % 2 ^ 16 = distance home e i + 1 :=
    Nat.mod_eq_of_lt (by omega)
  rw [Bucket.farther, Entry.bucketAt, Entry.bucketAt, distance_next h, hmod]

theorem cell_unique {key : Entry α → Entry α → Bool}
    (heqv : Equivalence fun a b => key a b = true) (h : Distinct key (held T)) {j : ZMod n}
    (hi : T i = some e) (hj : T j = some b) (hkey : key e b = true) : i = j := by
  by_contra hne
  have hcells := List.pairwise_filterMap.mp h
  have hsymm : Std.Symm fun i j => ∀ a, T i = some a → ∀ b, T j = some b → key a b = false :=
    ⟨fun i j hij b hb a ha => by rw [same_comm heqv]; exact hij a ha b hb⟩
  have hdiff := List.Pairwise.forall hcells (mem_cells i) (mem_cells j) hne e hi b hj
  rw [hkey] at hdiff
  cases hdiff

section Insertion

variable {same : Bucket α → Bucket α → Bool} {key : Entry α → Entry α → Bool}

/-- An entry whose key the table lacks is placed, and so is each entry it moves on. -/
theorem setLoop_fresh (hmask : Masks n mask) (hsymm : ∀ a b, key a b = key b a)
    (hsame : ∀ (a b : Entry α) (i : ZMod n), same (a.bucketAt i) (b.bucketAt i) = key a b)
    {fuel : ℕ} (hst : Stores buckets T) (hord : Ordered home T)
    (hfree : ∃ k < fuel, T (i + (k : ℕ)) = none)
    (hbefore : distance home e i ≤ probe home T (i - 1) + 1) (hnew : Distinct key (e :: held T))
    (hlen : (held T).length < 65535) :
    ∃ buckets', setLoop same mask fuel buckets (e.bucketAt i) i.val = .ok (buckets', none) ∧
      Lays n buckets' (e :: held T) := by
  induction fuel generalizing buckets T e i with
  | zero =>
    obtain ⟨k, hk, -⟩ := hfree
    exact absurd hk (Nat.not_lt_zero k)
  | succ fuel ih =>
    have hput := held_update_some T i e
    have hold := hord.update_some (e := e) (i := i)
    cases hi : T i with
    | none =>
      obtain ⟨b, hread, hdib⟩ := hst.free hi
      refine ⟨buckets.set i.val (e.bucketAt i), ?_, Function.update T i (some e), hst.set i e,
        hold (by rw [probe_of_none hi]; exact Nat.zero_le _) hbefore, ?_⟩
      · rw [setLoop, hread, ok_bind, if_pos hdib]
        rfl
      · rwa [show Function.update T i none = T by rw [← hi, Function.update_eq_self]] at hput
    | some b =>
      have hread := (hst i).read hi
      have hfull : T i ≠ none := by rw [hi]; exact Option.some_ne_none b
      obtain ⟨k, hk, hfreek⟩ := free_ahead hfull hfree
      have hkey : key e b = false :=
        (List.pairwise_cons.mp hnew).1 b (mem_held.mpr ⟨i, hi⟩)
      have hprobe := hord.probe_le_held i
      rw [probe_of_some hi] at hprobe
      have hdist := hord.distance_lt ⟨_, hfreek⟩ hfull hbefore
      rw [setLoop, hread, ok_bind, if_neg (Entry.bucketAt_dib_ne_zero b i), hsame, hkey,
        if_neg Bool.false_ne_true, hmask.next, Entry.dib_bucketAt, Entry.dib_bucketAt]
      by_cases hlt : distance home b i < distance home e i
      · have hperm : (b :: held (Function.update T i (some e))).Perm (e :: held T) :=
          (hput.cons b).trans ((List.Perm.swap ..).trans ((held_of_some hi).symm.cons e))
        have hcount : (held (Function.update T i (some e))).length = (held T).length :=
          Nat.succ.inj hperm.length_eq
        obtain ⟨buckets', hrun, T', hst', hord', hheld'⟩ := ih (e := b) (i := i + 1) (hst.set i e)
          (hold (by rw [probe_of_some hi]; omega) hbefore)
          ⟨k, hk, update_free hfull hfreek⟩
          (by
            rw [add_sub_cancel_right, probe_of_some (Function.update_self ..),
              distance_next (by omega)]
            omega)
          (hnew.perm hsymm hperm.symm) (by omega)
        refine ⟨buckets', ?_, T', hst', hord', hheld'.trans hperm⟩
        rw [if_pos hlt, Entry.farther_bucketAt (by omega) (by omega)]
        exact hrun
      · obtain ⟨buckets', hrun, hlays⟩ := ih (e := e) (i := i + 1) hst hord ⟨k, hk, hfreek⟩
          (by
            rw [add_sub_cancel_right, probe_of_some hi, distance_next hdist]
            omega)
          hnew hlen
        refine ⟨buckets', ?_, hlays⟩
        rw [if_neg hlt, Entry.farther_bucketAt hdist (by omega)]
        exact hrun

/-- On the way from its home to the entry `b` an entry with the same home meets
only entries that are no closer to theirs. -/
theorem on_the_way (hord : Ordered home T) {j : ZMod n} (hj : T j = some b)
    (hhome : (home b : ZMod n) = home e) (hi : distance home e i ≤ distance home b j) :
    ∃ c, T i = some c ∧ distance home e i ≤ distance home c i := by
  obtain ⟨s, hcell, hs, -⟩ := eq_home_add home e i
  have hpass := hord.lt_probe hj (s := s) (by omega)
  rw [hhome, ← hcell] at hpass
  obtain ⟨c, hc⟩ : ∃ c, T i = some c := by
    refine Option.ne_none_iff_exists'.mp fun hnone => ?_
    rw [probe_of_none hnone] at hpass
    omega
  rw [probe_of_some hc] at hpass
  exact ⟨c, hc, by omega⟩

theorem eq_of_distance {j : ZMod n} (hhome : (home b : ZMod n) = home e)
    (h : distance home e i = distance home b j) : i = j := by
  obtain ⟨s, hi, hs, -⟩ := eq_home_add home e i
  obtain ⟨d, hj, hd, -⟩ := eq_home_add home b j
  rw [hi, hj, hhome, show s = d by omega]

/-- An entry whose key the table has takes the place of the one with that key. -/
theorem setLoop_replace (hmask : Masks n mask) (heqv : Equivalence fun a b => key a b = true)
    (hhash : ∀ a b, key a b = true → a.1 = b.1)
    (hsame : ∀ (a b : Entry α) (i : ZMod n), same (a.bucketAt i) (b.bucketAt i) = key a b)
    {fuel : ℕ} {j : ZMod n} (hst : Stores buckets T) (hord : Ordered home T)
    (hdistinct : Distinct key (held T)) (hj : T j = some b) (hkey : key e b = true)
    (hi : distance home e i ≤ distance home b j)
    (hfuel : distance home b j < distance home e i + fuel) (hlen : (held T).length ≤ 65535) :
    ∃ buckets', setLoop same mask fuel buckets (e.bucketAt i) i.val = .ok (buckets', some b.2) ∧
      Lays n buckets' (insert key e (held T)) := by
  have hhome : (home b : ZMod n) = home e := by rw [home, home, hhash e b hkey]
  have hjn := distance_le home b j
  have hprobe := hord.probe_le_held j
  rw [probe_of_some hj] at hprobe
  induction fuel generalizing i with
  | zero => omega
  | succ fuel ih =>
    obtain ⟨c, hc, hpass⟩ := on_the_way hord hj hhome hi
    rw [setLoop, (hst i).read hc, ok_bind, if_neg (Entry.bucketAt_dib_ne_zero c i), hsame]
    by_cases hec : key e c = true
    · -- only the cell of `b` has the key
      obtain rfl : i = j := cell_unique heqv hdistinct hc hj (heqv.trans (heqv.symm hec) hkey)
      obtain rfl : c = b := Option.some.inj (hc.symm.trans hj)
      have hput : ({ c.bucketAt i with item := (e.bucketAt i).item } : Bucket α) =
          e.bucketAt i := by
        rw [Entry.bucketAt, Entry.bucketAt, distance, distance, hhome, hhash e c hkey]
      have hstay : distance home e i = probe home T i := by
        rw [probe_of_some hj, distance, distance, hhome]
      rw [if_pos hec, hput]
      refine ⟨_, rfl, Function.update T i (some e), hst.set i e, ?_, ?_⟩
      · refine hord.update_some hstay.ge ?_
        rw [hstay]
        simpa only [sub_add_cancel] using hord (i - 1)
      · have hlookup := hdistinct.lookup_eq heqv (mem_held.mpr ⟨i, hj⟩) hkey
        have hrest := (held_of_some hj).symm.trans (perm_of_lookup heqv hdistinct hlookup)
        exact (held_update_some T i e).trans (hrest.cons_inv.cons e)
    · have hlast : distance home e i ≠ distance home b j := by
        intro heq
        obtain rfl := eq_of_distance hhome heq
        exact hec (Option.some.inj (hc.symm.trans hj) ▸ hkey)
      have hnext : distance home e (i + 1) = distance home e i + 1 := distance_next (by omega)
      obtain ⟨buckets', hrun, hlays⟩ := ih (i := i + 1) (by omega) (by omega)
      refine ⟨buckets', ?_, hlays⟩
      rw [if_neg hec, Entry.dib_bucketAt, Entry.dib_bucketAt, if_neg (by omega), hmask.next,
        Entry.farther_bucketAt (by omega) (by omega)]
      exact hrun

/-- `setLoop` from the home of an entry sets it in the finite map. -/
theorem setLoop_spec (hmask : Masks n mask) (heqv : Equivalence fun a b => key a b = true)
    (hhash : ∀ a b, key a b = true → a.1 = b.1)
    (hsame : ∀ (a b : Entry α) (i : ZMod n), same (a.bucketAt i) (b.bucketAt i) = key a b)
    {l : List (Entry α)} (hlays : Lays n buckets l) (hdistinct : Distinct key l)
    (hlt : l.length < n) (hlen : l.length < 65535) :
    ∃ buckets', setLoop same mask n buckets ⟨e.1, 1, e.2⟩ (e.1 &&& mask) =
        .ok (buckets', (lookup key e l).map Prod.snd) ∧
      Lays n buckets' (insert key e l) := by
  obtain ⟨T, hst, hord, hheld⟩ := hlays
  have hdistinct' := hdistinct.perm (same_comm heqv) hheld.symm
  have hstart : (⟨e.1, 1, e.2⟩ : Bucket α) = e.bucketAt (home e : ZMod n) := by
    rw [Entry.bucketAt, distance_home]
  have hcount := hheld.length_eq
  rw [← lookup_perm heqv hdistinct' hheld, hstart, hmask.home]
  cases hget : lookup key e (held T) with
  | none =>
    have hfresh := lookup_eq_none.mp hget
    obtain ⟨j, hj⟩ := exists_free (T := T) (by omega)
    obtain ⟨k, hk, hij⟩ := exists_steps (home e) j
    obtain ⟨buckets', hrun, T', hst', hord', hheld'⟩ := setLoop_fresh (i := home e) (e := e)
      hmask (same_comm heqv) hsame hst hord ⟨k, hk, hij ▸ hj⟩
      (by rw [distance_home]; omega) (List.pairwise_cons.mpr ⟨hfresh, hdistinct'⟩) (by omega)
    refine ⟨buckets', hrun, T', hst', hord', hheld'.trans ?_⟩
    rw [← erase_of_lookup_none hget]
    exact insert_perm hheld
  | some b =>
    obtain ⟨j, hj⟩ := mem_held.mp (mem_of_lookup hget)
    have hpos := distance_pos home b j
    have hle := distance_le home b j
    have hone := distance_home (home (n := n)) e
    have hfuel : distance home b j < distance home e (home e : ZMod n) + n := by omega
    obtain ⟨buckets', hrun, T', hst', hord', hheld'⟩ := setLoop_replace
      hmask heqv hhash hsame hst hord hdistinct' hj (same_of_lookup hget) (by omega) hfuel
      (by omega)
    exact ⟨buckets', hrun, T', hst', hord', hheld'.trans (insert_perm hheld)⟩

end Insertion

end AcaBSim.HashMaps
