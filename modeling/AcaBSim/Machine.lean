import AcaBSim.Outcome
import Mathlib.Data.Rat.Floor
import Mathlib.Tactic.Positivity

/-!
The C machine the simulator runs on: 32-bit `int` and `unsigned`, the ways a
run can stop early, the `rand ()` stream and the allocator. Signed overflow is
undefined in C and stops the model; an integer converted to `int` wraps, as gcc
defines it. `double` values are exact rationals; the conversion to `int` of one
that is out of range is undefined too, and stops the model.
-/
namespace AcaBSim.Machine

/-- `INT_MAX`, which is also `INT32_MAX`. -/
def intMax : ℤ := 2147483647

def intMin : ℤ := -2147483648

/-- `RAND_MAX` of glibc. -/
def randMax : ℕ := 2147483647

abbrev ClientPtr := ℕ

abbrev Rand := Fin (randMax + 1)

inductive Assertion
  | lowLoadServer
  | tickToServe
  | startToServe
  | nextClient
  | meanServerQueueLen
deriving DecidableEq, Repr

/-- Everything that can end a run before its last statement. -/
inductive Fault
  | intOverflow
  | outOfBounds
  | nullDereference
  | assertionFailed (a : Assertion)
  | exitFailure
deriving DecidableEq, Repr

/-- An `int` counter has left its range. `sum_queue_lens` is converted from
`size_t` and wraps silently, so its overflow shows only in the assertion on
its mean (`standardServerUpdateStat_fits`). -/
def Fault.CounterOverflow (e : Fault) : Prop :=
  e = .intOverflow ∨ e = .assertionFailed .meanServerQueueLen

instance : DecidablePred Fault.CounterOverflow :=
  fun e => inferInstanceAs (Decidable (e = _ ∨ e = _))

/-- The result of a signed `int` operation whose exact value is `x`. -/
def checkInt (x : ℤ) : Except Fault ℤ :=
  if intMin ≤ x ∧ x ≤ intMax then .ok x else .error .intOverflow

/-- Conversion to `int` from a wider or unsigned type. -/
def wrapInt (x : ℤ) : ℤ := Int.bmod x (2 ^ 32)

/-- Arithmetic on `unsigned int`. -/
def wrapUnsigned (n : ℕ) : ℕ := n % 2 ^ 32

/-- The value of `(int) q` before the range of `int` is considered. -/
def truncate (q : ℚ) : ℤ := if 0 ≤ q then q.floor else q.ceil

/-- `(double) rand () / RAND_MAX`. -/
def unitDraw (r : Rand) : ℚ := (r.val : ℚ) / randMax

/-- Where the outcome of a service attempt comes from: the shared `rand ()`
stream, as in the code, or a table indexed by client and number of earlier
failed attempts, which two runs can share. -/
inductive Outcomes
  | drawn
  | perAttempt (succeeds : ClientPtr → ℤ → Bool)

/-- What the program does not decide itself. `rand k` is the `k`-th value of
`rand ()`, `exponential r` the integer that `exponential_sample` computes from
the draw `r` with `log`, and `granted k` whether the `k`-th request for memory
is served. -/
structure Env where
  rand : ℕ → Rand
  exponential : Rand → ℤ
  outcomes : Outcomes
  granted : ℕ → Bool

/-- Every request for memory is served. -/
def Env.AllocationsSucceed (env : Env) : Prop := ∀ k, env.granted k = true

theorem checkInt_ok {x : ℤ} (h : intMin ≤ x ∧ x ≤ intMax) : checkInt x = .ok x :=
  if_pos h

theorem eq_of_checkInt {x y : ℤ} (h : checkInt x = .ok y) : y = x := by
  unfold checkInt at h
  split at h
  · exact (Except.ok.inj h).symm
  · cases h

theorem checkInt_error {x : ℤ} {e : Fault} (h : checkInt x = .error e) : e = .intOverflow := by
  unfold checkInt at h
  split at h
  · cases h
  · exact (Except.error.inj h).symm

theorem wrapInt_of_range {x : ℤ} (hlow : intMin ≤ x) (hhigh : x ≤ intMax) :
    wrapInt x = x := by
  unfold intMin at hlow
  unfold intMax at hhigh
  simp only [wrapInt]
  rw [Int.bmod_def]
  omega

/-- The number of ticks of a `simulation_time` is an `int` too. -/
theorem toNat_le_intMax {time : ℤ} (h : time ≤ intMax) : ((time.toNat : ℕ) : ℤ) ≤ intMax := by
  unfold intMax at h ⊢
  omega

theorem wrapUnsigned_of_lt {n : ℕ} (h : n < 2 ^ 32) : wrapUnsigned n = n :=
  Nat.mod_eq_of_lt h

theorem le_truncate {q : ℚ} {z : ℤ} (hz : 0 < z) : z ≤ truncate q ↔ (z : ℚ) ≤ q := by
  unfold truncate
  split
  · exact Rat.le_floor_iff
  · rename_i hneg
    have hq : q < 0 := not_le.mp hneg
    constructor
    · intro h
      have hceil : q.ceil ≤ 0 := Rat.ceil_le_iff.mpr (by simpa using hq.le)
      omega
    · intro h
      have hpos : (0 : ℚ) < z := by exact_mod_cast hz
      exact absurd (hpos.trans_le h) (not_lt.mpr hq.le)

theorem truncate_nonneg {q : ℚ} (hq : 0 ≤ q) : 0 ≤ truncate q := by
  rw [truncate, if_pos hq]
  exact Rat.le_floor_iff.mpr (by simpa using hq)

theorem unitDraw_nonneg (r : Rand) : 0 ≤ unitDraw r := by
  unfold unitDraw
  positivity

theorem unitDraw_le_one (r : Rand) : unitDraw r ≤ 1 := by
  have hle : (r.val : ℚ) ≤ randMax := by exact_mod_cast Nat.lt_succ_iff.mp r.isLt
  exact (div_le_one (by norm_num [randMax])).mpr hle

theorem one_le_unitDraw (r : Rand) : 1 ≤ unitDraw r ↔ r.val = randMax := by
  rw [unitDraw, one_le_div (by norm_num [randMax])]
  have hlt := r.isLt
  constructor
  · intro hle
    have hle' : randMax ≤ r.val := by exact_mod_cast hle
    omega
  · intro heq
    rw [heq]

end AcaBSim.Machine
