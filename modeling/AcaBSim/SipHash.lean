import Mathlib.Data.UInt
import Mathlib.Data.List.GetD
import Mathlib.Tactic.Common

/-!
`hashmap_sip` of hashmap.c, which goes through the bytes of its input by
pointers, and the keyed hash it computes, which is defined on the words of the
padded input. Machine words are little endian, so a seed read back from its
bytes is the seed itself.
-/
namespace AcaBSim.SipHash

@[ext] structure SipState where
  v0 : UInt64
  v1 : UInt64
  v2 : UInt64
  v3 : UInt64
deriving DecidableEq, Repr

def rotl (x b : UInt64) : UInt64 := x <<< b ||| x >>> (64 - b)

def sipRound (s : SipState) : SipState :=
  let v0 := s.v0 + s.v1
  let v1 := rotl s.v1 13 ^^^ v0
  let v0 := rotl v0 32
  let v2 := s.v2 + s.v3
  let v3 := rotl s.v3 16 ^^^ v2
  let v0 := v0 + v3
  let v3 := rotl v3 21 ^^^ v0
  let v2 := v2 + v1
  let v1 := rotl v1 17 ^^^ v2
  let v2 := rotl v2 32
  ⟨v0, v1, v2, v3⟩

def sipKey (k0 k1 : UInt64) : SipState where
  v3 := 0x7465646279746573 ^^^ k1
  v2 := 0x6c7967656e657261 ^^^ k0
  v1 := 0x646f72616e646f6d ^^^ k1
  v0 := 0x736f6d6570736575 ^^^ k0

/-- Byte `i` of the input. -/
def byteAt (p : List UInt8) (i : ℕ) : UInt64 := (p.getD i 0).toUInt64

def u8to64le (p : List UInt8) : UInt64 :=
  byteAt p 0 ||| byteAt p 1 <<< 8 ||| byteAt p 2 <<< 16 ||| byteAt p 3 <<< 24 |||
    byteAt p 4 <<< 32 ||| byteAt p 5 <<< 40 ||| byteAt p 6 <<< 48 ||| byteAt p 7 <<< 56

/-- `for (; in != end; in += 8)`, and where it leaves `in`. -/
def sipBlocks : ℕ → List UInt8 → SipState → SipState × List UInt8
  | 0, inp, s => (s, inp)
  | blocks + 1, inp, s =>
    let m := u8to64le inp
    let s := { s with v3 := s.v3 ^^^ m }
    let s := sipRound (sipRound s)
    sipBlocks blocks (inp.drop 8) { s with v0 := s.v0 ^^^ m }

/-- The `switch` on what is left of the input, which falls through from each case to the next. -/
def sipLeft (inlen : ℕ) (inp : List UInt8) : UInt64 :=
  let left := inlen % 8
  let b := UInt64.ofNat inlen <<< 56
  let b := if 7 ≤ left then b ||| byteAt inp 6 <<< 48 else b
  let b := if 6 ≤ left then b ||| byteAt inp 5 <<< 40 else b
  let b := if 5 ≤ left then b ||| byteAt inp 4 <<< 32 else b
  let b := if 4 ≤ left then b ||| byteAt inp 3 <<< 24 else b
  let b := if 3 ≤ left then b ||| byteAt inp 2 <<< 16 else b
  let b := if 2 ≤ left then b ||| byteAt inp 1 <<< 8 else b
  if 1 ≤ left then b ||| byteAt inp 0 else b

def sip64 (inp : List UInt8) (seed0 seed1 : UInt64) : UInt64 :=
  let (s, rest) := sipBlocks (inp.length / 8) inp (sipKey seed0 seed1)
  let b := sipLeft inp.length rest
  let s := { s with v3 := s.v3 ^^^ b }
  let s := sipRound (sipRound s)
  let s := { s with v0 := s.v0 ^^^ b, v2 := s.v2 ^^^ 0xff }
  let s := sipRound (sipRound (sipRound (sipRound s)))
  s.v0 ^^^ s.v1 ^^^ s.v2 ^^^ s.v3

def hashmapSip (data : List UInt8) (seed0 seed1 : UInt64) : UInt64 := sip64 data seed0 seed1

/-- The input filled with zeros up to the last byte of a word, which is its length. -/
def padded (total : ℕ) (m : List UInt8) : List UInt8 :=
  m ++ List.replicate (7 - m.length % 8) 0 ++ [UInt8.ofNat total]

def words : List UInt8 → List UInt64
  | a :: b :: c :: d :: e :: f :: g :: h :: rest =>
    u8to64le [a, b, c, d, e, f, g, h] :: words rest
  | _ => []

/-- A word goes into the state with `c` rounds. -/
def absorb (c : ℕ) (s : SipState) (m : UInt64) : SipState :=
  let s := sipRound^[c] { s with v3 := s.v3 ^^^ m }
  { s with v0 := s.v0 ^^^ m }

/-- The hash with `c` rounds for each word of the padded input and `d` rounds at the end. -/
def sipHash (c d : ℕ) (k0 k1 : UInt64) (inp : List UInt8) : UInt64 :=
  let s := (words (padded inp.length inp)).foldl (absorb c) (sipKey k0 k1)
  let s := sipRound^[d] { s with v2 := s.v2 ^^^ 0xff }
  s.v0 ^^^ s.v1 ^^^ s.v2 ^^^ s.v3

theorem top_byte (total : ℕ) :
    (UInt8.ofNat total).toUInt64 <<< 56 = UInt64.ofNat total <<< 56 := by
  rw [← UInt64.toNat_inj, UInt64.toNat_shiftLeft, UInt64.toNat_shiftLeft, UInt8.toNat_toUInt64,
    UInt8.toNat_ofNat', UInt64.toNat_ofNat', Nat.shiftLeft_eq, Nat.shiftLeft_eq]
  change _ % 2 ^ 8 * 2 ^ 56 % 2 ^ 64 = _ % 2 ^ 64 * 2 ^ 56 % 2 ^ 64
  omega

theorem words_of_length {l : List UInt8} (h : l.length = 8) : words l = [u8to64le l] := by
  match l, h with
  | [_, _, _, _, _, _, _, _], _ => rfl

/-- A byte past the end counts as zero. -/
theorem or_byteAt {m : List UInt8} (i : ℕ) (b k : UInt64) :
    (if i + 1 ≤ m.length then b ||| byteAt m i <<< k else b) = b ||| byteAt m i <<< k := by
  split_ifs with h
  · rfl
  · rw [byteAt, List.getD_eq_default _ _ (by omega)]
    simp

theorem byteAt_padded (total : ℕ) {m : List UInt8} (hm : m.length < 8) {i : ℕ} (hi : i < 7) :
    byteAt (padded total m) i = byteAt m i := by
  rw [byteAt, byteAt, padded, List.append_assoc]
  by_cases him : i < m.length
  · rw [List.getD_append _ _ _ _ him]
  · rw [List.getD_append_right _ _ _ _ (by omega),
      List.getD_append _ _ _ _ (by rw [List.length_replicate]; omega), List.getD_replicate,
      List.getD_eq_default _ _ (by omega)]
    omega

theorem or_reverse (a b c d e f g h : UInt64) :
    a ||| b ||| c ||| d ||| e ||| f ||| g ||| h = h ||| g ||| f ||| e ||| d ||| c ||| b ||| a := by
  ac_rfl

/-- The last word of the padded input is what the `switch` puts together. -/
theorem words_padded_left (total : ℕ) {m : List UInt8} (hm : m.length < 8)
    (htotal : total % 8 = m.length) : words (padded total m) = [sipLeft total m] := by
  have hlen : (padded total m).length = 8 := by
    simp only [padded, List.length_append, List.length_replicate, List.length_singleton]
    omega
  have hlast : byteAt (padded total m) 7 = (UInt8.ofNat total).toUInt64 := by
    rw [byteAt, padded, List.getD_append_right _ _ _ _ (by
      simp only [List.length_append, List.length_replicate]
      omega)]
    simp only [List.length_append, List.length_replicate]
    rw [show 7 - (m.length + (7 - m.length % 8)) = 0 by omega]
    rfl
  have hfirst : ∀ b : UInt64, (if 1 ≤ m.length then b ||| byteAt m 0 else b) =
      b ||| byteAt m 0 := by
    intro b
    simpa using or_byteAt (m := m) 0 b 0
  have hbyte : ∀ i < 7, byteAt (padded total m) i = byteAt m i := fun i => byteAt_padded total hm
  rw [words_of_length hlen, u8to64le, hlast, top_byte, hbyte 0 (by decide), hbyte 1 (by decide),
    hbyte 2 (by decide), hbyte 3 (by decide), hbyte 4 (by decide), hbyte 5 (by decide),
    hbyte 6 (by decide), sipLeft, htotal]
  rw [or_byteAt 6, or_byteAt 5, or_byteAt 4, or_byteAt 3, or_byteAt 2, or_byteAt 1, hfirst]
  exact congrArg (fun b => [b]) (or_reverse ..)

theorem words_append {block : List UInt8} (hblock : block.length = 8) (l m : List UInt8) :
    words (block ++ l) = u8to64le (block ++ m) :: words l := by
  match block, hblock with
  | [_, _, _, _, _, _, _, _], _ => rfl

theorem padded_append (total : ℕ) {block : List UInt8} (hblock : block.length = 8)
    (m : List UInt8) : padded total (block ++ m) = block ++ padded total m := by
  rw [padded, padded, List.length_append, hblock, Nat.add_mod_left]
  simp only [List.append_assoc]

/-- The loop over the words goes through all words of the padded input but the last,
which it leaves to the `switch`. -/
theorem sipBlocks_spec (total : ℕ) {blocks : ℕ} {inp : List UInt8} (s : SipState)
    (hblocks : inp.length / 8 = blocks) (htotal : total % 8 = inp.length % 8) :
    (words (padded total inp)).foldl (absorb 2) s =
      absorb 2 (sipBlocks blocks inp s).1 (sipLeft total (sipBlocks blocks inp s).2) := by
  induction blocks generalizing inp s with
  | zero =>
    have hlen : inp.length < 8 := by omega
    rw [words_padded_left total hlen (by omega)]
    rfl
  | succ blocks ih =>
    have hblock : (inp.take 8).length = 8 := by
      rw [List.length_take]
      omega
    have hrest := List.length_drop (i := 8) (l := inp)
    have hlater := ih (absorb 2 s (u8to64le inp))
      (show (inp.drop 8).length / 8 = blocks by omega) (by omega)
    have hwords := words_append hblock (padded total (inp.drop 8)) (inp.drop 8)
    rw [← padded_append total hblock, List.take_append_drop] at hwords
    rw [hwords, List.foldl_cons]
    exact hlater

/-- The hash of the bytes is the keyed hash of the words, with two and four rounds. -/
theorem hashmapSip_eq (data : List UInt8) (seed0 seed1 : UInt64) :
    hashmapSip data seed0 seed1 = sipHash 2 4 seed0 seed1 data := by
  rw [sipHash, sipBlocks_spec data.length (sipKey seed0 seed1) rfl rfl]
  rfl

example : hashmapSip [104, 101, 108, 108, 111] 1 2 = 2957200328589801622 := by decide

end AcaBSim.SipHash
