import AcaBSim.Flags

/-!
The usage text of cflag.c. `findent` breaks a help text into indented lines and
calls itself for the rest of the text at each break, so a word that does not fit
into a line of its own keeps it going for ever.
-/
namespace AcaBSim.UsageText

open Flags

/-- The first word with the space behind it, or all of a text without a space. -/
def firstLength (text : Text) : ℕ :=
  match text.findIdx? (· == ' ') with
  | some i => i + 1
  | none => text.length

mutual

/-- What is written, and the result; there is none if `fuel` calls are not enough. -/
def findent (rcol : ℕ) : ℕ → Text → Option (Bool × Text)
  | 0, _ => none
  | fuel + 1, text =>
    if rcol < 20 then some (false, [])
    else if text = [] then some (true, [])
    else do
      let (result, out) ← findentLoop rcol fuel 3 text
      return (result, "   ".toList ++ out)

/-- The loop of `findent` from column `col` on. -/
def findentLoop (rcol : ℕ) : ℕ → ℕ → Text → Option (Bool × Text)
  | 0, _, _ => none
  | fuel + 1, col, text =>
    if text = [] then some (true, [])
    else if col + firstLength text > rcol then do
      let (result, out) ← findent rcol fuel text
      return (result, '\n' :: out)
    else do
      let (result, out) ←
        findentLoop rcol fuel (col + firstLength text) (text.drop (firstLength text))
      return (result, text.take (firstLength text) ++ out)

end

/-- The words of a text, each with the space behind it. -/
def words : Text → List Text
  | [] => []
  | c :: text =>
    if c = ' ' then [c] :: words text
    else
      match words text with
      | [] => [[c]]
      | w :: ws => (c :: w) :: ws

/-- Lines of words: none is empty or too long, and none has room for the next word. -/
structure Wrapped (rcol : ℕ) (text : Text) (lines : List (List Text)) : Prop where
  words : lines.flatten = words text
  fits : ∀ line ∈ lines, line ≠ [] ∧ 3 + line.flatten.length ≤ rcol
  full : lines.IsChain fun line next =>
    ∀ w ∈ next.head?, rcol < 3 + line.flatten.length + w.length

def indented (line : List Text) : Text := "   ".toList ++ line.flatten

def layout : List (List Text) → Text
  | [] => []
  | line :: lines => indented line ++ lines.flatMap fun line => '\n' :: indented line

variable {rcol col fuel : ℕ} {text : Text}

theorem firstLength_cons_space (text : Text) : firstLength (' ' :: text) = 1 := by
  simp [firstLength, List.findIdx?_cons]

theorem firstLength_cons {c : Char} (hc : c ≠ ' ') (text : Text) :
    firstLength (c :: text) = firstLength text + 1 := by
  have hspace : (c == ' ') = false := by simpa using hc
  rw [firstLength, firstLength, List.findIdx?_cons, hspace]
  cases text.findIdx? (· == ' ') <;> simp

theorem firstLength_pos (h : text ≠ []) : 0 < firstLength text := by
  cases text with
  | nil => exact absurd rfl h
  | cons c text =>
    by_cases hc : c = ' '
    · rw [hc, firstLength_cons_space]
      exact Nat.one_pos
    · rw [firstLength_cons hc]
      exact Nat.succ_pos _

theorem words_cons (h : text ≠ []) :
    words text = text.take (firstLength text) :: words (text.drop (firstLength text)) := by
  induction text with
  | nil => exact absurd rfl h
  | cons c text ih =>
    by_cases hc : c = ' '
    · subst hc
      rw [firstLength_cons_space]
      rfl
    · rw [firstLength_cons hc, List.take_succ_cons, List.drop_succ_cons, words, if_neg hc]
      cases text with
      | nil => rfl
      | cons d text => rw [ih (List.cons_ne_nil _ _)]

theorem length_take_firstLength (text : Text) :
    (text.take (firstLength text)).length = firstLength text := by
  induction text with
  | nil => rfl
  | cons c text ih =>
    by_cases hc : c = ' '
    · rw [hc, firstLength_cons_space]
      rfl
    · rw [firstLength_cons hc, List.take_succ_cons, List.length_cons, ih]

/-- The words make up the text. -/
theorem flatten_words (text : Text) : (words text).flatten = text := by
  induction hlen : text.length using Nat.strong_induction_on generalizing text with
  | _ n ih =>
    by_cases h : text = []
    · rw [h]
      rfl
    · have hpos := firstLength_pos h
      have hne := List.length_pos_iff.mpr h
      rw [words_cons h, List.flatten_cons, ih _ (by rw [List.length_drop]; omega) _ rfl,
        List.take_append_drop]

section Loop

theorem findentLoop_nil (rcol fuel col : ℕ) :
    findentLoop rcol (fuel + 1) col [] = some (true, []) := by
  rw [findentLoop, if_pos rfl]

theorem findentLoop_fits (h : text ≠ []) (hfits : col + firstLength text ≤ rcol) :
    findentLoop rcol (fuel + 1) col text =
      (findentLoop rcol fuel (col + firstLength text) (text.drop (firstLength text))).map
        fun r => (r.1, text.take (firstLength text) ++ r.2) := by
  rw [findentLoop, if_neg h, if_neg (by omega)]
  cases findentLoop rcol fuel (col + firstLength text) (text.drop (firstLength text)) <;> rfl

theorem findentLoop_breaks (h : text ≠ []) (hlong : rcol < col + firstLength text) :
    findentLoop rcol (fuel + 1) col text =
      (findent rcol fuel text).map fun r => (r.1, '\n' :: r.2) := by
  rw [findentLoop, if_neg h, if_pos hlong]
  cases findent rcol fuel text <;> rfl

theorem findent_succ (hrcol : 20 ≤ rcol) (h : text ≠ []) :
    findent rcol (fuel + 1) text =
      (findentLoop rcol fuel 3 text).map fun r => (r.1, "   ".toList ++ r.2) := by
  rw [findent, if_neg (by omega), if_neg h]
  cases findentLoop rcol fuel 3 text <;> rfl

/-- What the loop makes of a text from a column on: the rest of a line and more lines. -/
structure Breaks (rcol col : ℕ) (text : Text) (first : List Text)
    (lines : List (List Text)) : Prop where
  words : first ++ lines.flatten = words text
  first_fits : first ≠ [] → col + first.flatten.length ≤ rcol
  first_full : ∀ line ∈ lines.head?, ∀ w ∈ line.head?, rcol < col + first.flatten.length + w.length
  fits : ∀ line ∈ lines, line ≠ [] ∧ 3 + line.flatten.length ≤ rcol
  full : lines.IsChain fun line next =>
    ∀ w ∈ next.head?, rcol < 3 + line.flatten.length + w.length

/-- A word that fits goes in front of the rest of the line. -/
theorem Breaks.cons {first : List Text} {lines : List (List Text)} (h : text ≠ [])
    (hfits : col + firstLength text ≤ rcol)
    (hrest : Breaks rcol (col + firstLength text) (text.drop (firstLength text)) first lines) :
    Breaks rcol col text (text.take (firstLength text) :: first) lines where
  words := by rw [words_cons h, List.cons_append, hrest.words]
  first_fits _ := by
    rw [List.flatten_cons, List.length_append, length_take_firstLength, ← add_assoc]
    by_cases hfirst : first = []
    · rw [hfirst]
      exact hfits
    · exact hrest.first_fits hfirst
  first_full line hline w hw := by
    rw [List.flatten_cons, List.length_append, length_take_firstLength, ← add_assoc]
    exact hrest.first_full line hline w hw
  fits := hrest.fits
  full := hrest.full

/-- A line that has no room for the next word ends, and the words go on in a line below. -/
theorem Breaks.newline {first : List Text} {lines : List (List Text)}
    (hlong : rcol < col + firstLength text)
    (hrest : Breaks rcol 3 text (text.take (firstLength text) :: first) lines) :
    Breaks rcol col text [] ((text.take (firstLength text) :: first) :: lines) where
  words := hrest.words
  first_fits hnil := absurd rfl hnil
  first_full line hline w hw := by
    obtain rfl := Option.some.inj hline
    obtain rfl := Option.some.inj hw
    rw [length_take_firstLength]
    exact hlong
  fits := List.forall_mem_cons.mpr
    ⟨⟨List.cons_ne_nil _ _, hrest.first_fits (List.cons_ne_nil _ _)⟩, hrest.fits⟩
  full := by
    cases lines with
    | nil => exact List.isChain_singleton _
    | cons line lines => exact List.IsChain.cons_cons (hrest.first_full line rfl) hrest.full

/-- The loop ends if every word fits into a line, by induction on the length of the text. -/
theorem findentLoop_wraps (hrcol : 20 ≤ rcol) (text : Text) (col : ℕ)
    (hwords : ∀ w ∈ words text, 3 + w.length ≤ rcol) :
    ∃ first lines, Breaks rcol col text first lines ∧
      ∀ fuel, 3 * text.length < fuel → findentLoop rcol fuel col text =
        some (true, first.flatten ++ lines.flatMap fun line => '\n' :: indented line) := by
  induction hlen : text.length using Nat.strong_induction_on generalizing text col with
  | _ n ih =>
    by_cases h : text = []
    · subst h
      refine ⟨[], [], ⟨rfl, by simp, by simp, by simp, List.isChain_nil⟩, fun fuel hfuel => ?_⟩
      obtain ⟨fuel, rfl⟩ := Nat.exists_eq_succ_of_ne_zero (Nat.ne_zero_of_lt hfuel)
      exact findentLoop_nil rcol fuel col
    · have hpos := firstLength_pos h
      have hne := List.length_pos_iff.mpr h
      have hshort : (text.drop (firstLength text)).length < n := by
        rw [List.length_drop]
        omega
      rw [words_cons h] at hwords
      obtain ⟨hfirst, hrest⟩ := List.forall_mem_cons.mp hwords
      rw [length_take_firstLength] at hfirst
      -- a step that takes a word, from a column where it fits
      have htake : ∀ col, col + firstLength text ≤ rcol → ∃ first lines,
          Breaks rcol col text (text.take (firstLength text) :: first) lines ∧
          ∀ fuel, 3 * n < fuel + 2 → findentLoop rcol fuel col text = some (true,
            (text.take (firstLength text) :: first).flatten ++
              lines.flatMap fun line => '\n' :: indented line) := by
        intro col hfits
        obtain ⟨first, lines, hbreaks, hrun⟩ :=
          ih _ hshort (text.drop (firstLength text)) (col + firstLength text) hrest rfl
        refine ⟨first, lines, hbreaks.cons h hfits, fun fuel hfuel => ?_⟩
        rw [List.length_drop] at hshort hrun
        obtain ⟨fuel, rfl⟩ := Nat.exists_eq_succ_of_ne_zero (show fuel ≠ 0 by omega)
        rw [findentLoop_fits h hfits, hrun fuel (by omega), List.flatten_cons, List.append_assoc]
        rfl
      by_cases hfits : col + firstLength text ≤ rcol
      · obtain ⟨first, lines, hbreaks, hrun⟩ := htake col hfits
        exact ⟨_, lines, hbreaks, fun fuel hfuel => hrun fuel (by omega)⟩
      · obtain ⟨first, lines, hbreaks, hrun⟩ := htake 3 hfirst
        refine ⟨[], _, hbreaks.newline (by omega), fun fuel hfuel => ?_⟩
        obtain ⟨fuel, rfl⟩ : ∃ m, fuel = m + 2 := ⟨fuel - 2, by omega⟩
        rw [findentLoop_breaks h (by omega), findent_succ hrcol h, hrun fuel (by omega)]
        simp [indented]

end Loop

/-- A text with a word that is longer than a line is never done with. -/
theorem findent_endless (hrcol : 20 ≤ rcol) (fuel : ℕ) :
    (∀ text, (∃ w ∈ words text, rcol < 3 + w.length) → findent rcol fuel text = none) ∧
      ∀ text col, 3 ≤ col → (∃ w ∈ words text, rcol < 3 + w.length) →
        findentLoop rcol fuel col text = none := by
  induction fuel with
  | zero => exact ⟨fun _ _ => by rw [findent], fun _ _ _ _ => by rw [findentLoop]⟩
  | succ fuel ih =>
    have hne : ∀ {text}, (∃ w ∈ words text, rcol < 3 + w.length) → text ≠ [] := by
      rintro _ ⟨w, hw, -⟩ rfl
      exact absurd hw List.not_mem_nil
    refine ⟨fun text hlong => ?_, fun text col hcol hlong => ?_⟩
    · rw [findent_succ hrcol (hne hlong), ih.2 text 3 le_rfl hlong]
      rfl
    · have h := hne hlong
      by_cases hfits : col + firstLength text ≤ rcol
      · obtain ⟨w, hw, hw'⟩ := hlong
        rw [words_cons h] at hw
        have hrest : w ∈ words (text.drop (firstLength text)) := by
          obtain rfl | hw := List.mem_cons.mp hw
          · rw [length_take_firstLength] at hw'
            omega
          · exact hw
        rw [findentLoop_fits h hfits, ih.2 _ _ (by omega) ⟨w, hrest, hw'⟩]
        rfl
      · rw [findentLoop_breaks h (by omega), ih.1 text hlong]
        rfl

/-- More fuel changes nothing. -/
theorem findent_mono (fuel : ℕ) :
    (∀ text r, findent rcol fuel text = some r → findent rcol (fuel + 1) text = some r) ∧
      ∀ col text r, findentLoop rcol fuel col text = some r →
        findentLoop rcol (fuel + 1) col text = some r := by
  induction fuel with
  | zero =>
    refine ⟨fun text r h => ?_, fun col text r h => ?_⟩
    · rw [findent] at h
      cases h
    · rw [findentLoop] at h
      cases h
  | succ fuel ih =>
    refine ⟨fun text r h => ?_, fun col text r h => ?_⟩
    · rw [findent] at h ⊢
      split at h
      · rename_i hrcol
        rw [if_pos hrcol]
        exact h
      · rename_i hrcol
        rw [if_neg hrcol]
        split at h
        · rename_i htext
          rw [if_pos htext]
          exact h
        · rename_i htext
          obtain ⟨r', hr', h⟩ := Option.bind_eq_some_iff.mp h
          rw [if_neg htext, ih.2 3 text r' hr']
          exact h
    · by_cases htext : text = []
      · subst htext
        rw [findentLoop_nil] at h ⊢
        exact h
      · by_cases hfits : col + firstLength text ≤ rcol
        · rw [findentLoop_fits htext hfits] at h ⊢
          obtain ⟨r', hr', rfl⟩ := Option.map_eq_some_iff.mp h
          rw [ih.2 _ _ r' hr']
          rfl
        · rw [findentLoop_breaks htext (by omega)] at h ⊢
          obtain ⟨r', hr', rfl⟩ := Option.map_eq_some_iff.mp h
          rw [ih.1 _ r' hr']
          rfl

theorem findent_fuel {m : ℕ} {r : Bool × Text} (h : findent rcol fuel text = some r)
    (hm : fuel ≤ m) : findent rcol m text = some r := by
  induction m, hm using Nat.le_induction with
  | base => exact h
  | succ m _ ih => exact (findent_mono m).1 text r ih

/-- A line cannot be longer than another one that starts with the same words and is full. -/
theorem full_line_prefix {a b c : List Text} {lines rest : List (List Text)}
    (hb : b = a ++ c) (hrest : lines.flatten = c ++ rest.flatten)
    (hfits : 3 + b.flatten.length ≤ rcol) (hne : ∀ line ∈ lines, line ≠ [])
    (hfull : (a :: lines).IsChain fun line next =>
      ∀ w ∈ next.head?, rcol < 3 + line.flatten.length + w.length) : c = [] := by
  cases c with
  | nil => rfl
  | cons w c =>
    cases lines with
    | nil => exact absurd hrest (by simp)
    | cons line lines =>
      obtain ⟨w', line', rfl⟩ := List.exists_cons_of_ne_nil (hne line (List.mem_cons_self ..))
      obtain rfl : w' = w := by
        rw [List.flatten_cons, List.cons_append, List.cons_append] at hrest
        exact (List.cons.inj hrest).1
      have hlong := (List.isChain_cons_cons.mp hfull).1 w' rfl
      rw [hb, List.flatten_append, List.length_append, List.flatten_cons, List.length_append]
        at hfits
      omega

/-- There is one way to break a text into full lines, by induction on the lines. -/
theorem wrapped_unique {lines lines' : List (List Text)} (h : Wrapped rcol text lines)
    (h' : Wrapped rcol text lines') : lines = lines' := by
  obtain ⟨hwords, hfits, hfull⟩ := h
  obtain ⟨hwords', hfits', hfull'⟩ := h'
  have hflatten := hwords.trans hwords'.symm
  clear hwords hwords'
  induction lines generalizing lines' with
  | nil =>
    cases lines' with
    | nil => rfl
    | cons b lines' =>
      rw [List.flatten_nil, List.flatten_cons, eq_comm, List.append_eq_nil_iff] at hflatten
      exact absurd hflatten.1 (hfits' b (List.mem_cons_self ..)).1
  | cons a lines ih =>
    obtain ⟨ha, hlines⟩ := List.forall_mem_cons.mp hfits
    cases lines' with
    | nil =>
      rw [List.flatten_nil, List.flatten_cons, List.append_eq_nil_iff] at hflatten
      exact absurd hflatten.1 ha.1
    | cons b lines' =>
      obtain ⟨hb, hlines'⟩ := List.forall_mem_cons.mp hfits'
      rw [List.flatten_cons, List.flatten_cons] at hflatten
      have hsame : a = b ∧ lines.flatten = lines'.flatten := by
        obtain ⟨c, hc, hrest⟩ | ⟨c, hc, hrest⟩ := List.append_eq_append_iff.mp hflatten
        · have hnonempty : ∀ line ∈ lines, line ≠ [] := fun line hline => (hlines line hline).1
          have hnil := full_line_prefix hc hrest hb.2 hnonempty hfull
          rw [hnil, List.append_nil] at hc
          rw [hnil, List.nil_append] at hrest
          exact ⟨hc.symm, hrest⟩
        · have hnil := full_line_prefix hc hrest ha.2
            (fun line hline => (hlines' line hline).1) hfull'
          rw [hnil, List.append_nil] at hc
          rw [hnil, List.nil_append] at hrest
          exact ⟨hc, hrest.symm⟩
      obtain ⟨rfl, hrest⟩ := hsame
      rw [ih hlines hfull.tail hlines' hfull'.tail hrest]

/-- With enough fuel `findent` breaks a text of short words into lines. -/
theorem findent_wraps (hrcol : 20 ≤ rcol) (hwords : ∀ w ∈ words text, 3 + w.length ≤ rcol) :
    ∃ lines, Wrapped rcol text lines ∧
      findent rcol (3 * text.length + 2) text = some (true, layout lines) := by
  by_cases h : text = []
  · subst h
    refine ⟨[], ⟨rfl, by simp, List.isChain_nil⟩, ?_⟩
    rw [findent, if_neg (by omega), if_pos rfl]
    rfl
  · obtain ⟨first, lines, hbreaks, hrun⟩ := findentLoop_wraps hrcol text 3 hwords
    have hfirst : first ≠ [] := by
      rintro rfl
      cases lines with
      | nil => exact h (by rw [← flatten_words text, ← hbreaks.words]; rfl)
      | cons line lines =>
        obtain ⟨w, line', rfl⟩ :=
          List.exists_cons_of_ne_nil (hbreaks.fits line (List.mem_cons_self ..)).1
        have hlong := hbreaks.first_full _ rfl w rfl
        have hmem : w ∈ words text := by
          rw [← hbreaks.words]
          simp
        have hshort := hwords w hmem
        rw [List.flatten_nil, List.length_nil] at hlong
        omega
    refine ⟨first :: lines, ⟨hbreaks.words, List.forall_mem_cons.mpr
      ⟨⟨hfirst, hbreaks.first_fits hfirst⟩, hbreaks.fits⟩, ?_⟩, ?_⟩
    · cases lines with
      | nil => exact List.isChain_singleton _
      | cons line lines => exact List.IsChain.cons_cons (hbreaks.first_full line rfl) hbreaks.full
    · rw [findent_succ hrcol h, hrun _ (Nat.lt_succ_self _)]
      simp [layout, indented]

/-- `findent` ends just when every word fits into a line, and has then broken the text into
lines of whole words that are as long as possible. -/
theorem findent_iff (hrcol : 20 ≤ rcol) (text : Text) (result : Bool) (out : Text) :
    (∃ fuel, findent rcol fuel text = some (result, out)) ↔
      (∀ w ∈ words text, 3 + w.length ≤ rcol) ∧ result = true ∧
        ∃ lines, Wrapped rcol text lines ∧ out = layout lines := by
  constructor
  · rintro ⟨fuel, hrun⟩
    have hwords : ∀ w ∈ words text, 3 + w.length ≤ rcol := by
      by_contra hlong
      push Not at hlong
      rw [(findent_endless hrcol fuel).1 text hlong] at hrun
      cases hrun
    obtain ⟨lines, hwrapped, henough⟩ := findent_wraps hrcol hwords
    have hsame := (findent_fuel hrun (Nat.le_add_right fuel _)).symm.trans
      (findent_fuel henough (Nat.le_add_left _ fuel))
    cases hsame
    exact ⟨hwords, rfl, lines, hwrapped, rfl⟩
  · rintro ⟨hwords, rfl, lines, hwrapped, rfl⟩
    obtain ⟨lines', hwrapped', henough⟩ := findent_wraps hrcol hwords
    rw [wrapped_unique hwrapped hwrapped']
    exact ⟨_, henough⟩

theorem findent_iff_total_time :
    ∃ lines, Wrapped 20 "Total simulation time".toList lines ∧
      "   Total simulation \n   time".toList = layout lines := by
  have hrun : ∃ fuel, findent 20 fuel "Total simulation time".toList =
      some (true, "   Total simulation \n   time".toList) := ⟨10, by decide⟩
  exact ((findent_iff (le_refl 20) _ true _).mp hrun).2.2

section Usage

variable {δ : Type}

/-- The names of a flag in front of its help text. -/
def heading (spec : Cflag δ) : Text :=
  let named := match spec.letter, spec.name with
    | some letter, some name => ['-', letter] ++ ", --".toList ++ name
    | none, some name => "--".toList ++ name
    | some letter, none => ['-', letter]
    | none, none => []
  named ++ if needsArg spec then " <ARG>".toList else []

def flagUsage (rcol fuel : ℕ) (spec : Cflag δ) : Option Text := do
  let (result, text) ← findent rcol fuel spec.help
  let help := if result then text else text ++ "   ".toList ++ spec.help
  return heading spec ++ '\n' :: help ++ "\n\n".toList

/-- `term_columns (out) - 3` on `unsigned`; a terminal can have no columns. -/
def lastColumn (columns : ℕ) : ℕ := (columns + (2 ^ 32 - 3)) % 2 ^ 32

/-- What `cflag_usage` prints on a terminal of these columns. -/
def cflagUsage (columns fuel : ℕ) (specs : List (Cflag δ)) (progname usage : Text) :
    Option Text := do
  let flags ← specs.mapM (flagUsage (lastColumn columns) fuel)
  return "Usage: ".toList ++ baseName progname ++ ' ' :: usage ++
    "\nCommand line options:\n\n".toList ++ flags.flatten

theorem flagUsage_isSome_iff (fuel : ℕ) (spec : Cflag δ) :
    (flagUsage rcol fuel spec).isSome = (findent rcol fuel spec.help).isSome := by
  rw [flagUsage]
  cases findent rcol fuel spec.help <;> rfl

theorem findent_isSome (hwords : rcol < 20 ∨ ∀ w ∈ words text, 3 + w.length ≤ rcol) :
    (findent rcol (3 * text.length + 2) text).isSome := by
  by_cases hrcol : rcol < 20
  · rw [findent, if_pos hrcol]
    rfl
  · obtain ⟨lines, -, hrun⟩ :=
      findent_wraps (not_lt.mp hrcol) (hwords.resolve_left hrcol)
    rw [hrun]
    rfl

theorem mapM_isSome_iff {α β : Type} {f : α → Option β} {l : List α} :
    (l.mapM f).isSome ↔ ∀ a ∈ l, (f a).isSome := by
  induction l with
  | nil => simp
  | cons a l ih =>
    rw [List.forall_mem_cons, ← ih, List.mapM_cons]
    cases f a <;> cases l.mapM f <;> simp

theorem cflagUsage_isSome (columns fuel : ℕ) (specs : List (Cflag δ)) (progname usage : Text) :
    (cflagUsage columns fuel specs progname usage).isSome ↔
      ∀ spec ∈ specs, (findent (lastColumn columns) fuel spec.help).isSome := by
  simp only [← flagUsage_isSome_iff, ← mapM_isSome_iff]
  rw [cflagUsage]
  cases specs.mapM (flagUsage (lastColumn columns) fuel) <;> simp

/-- Words that fit into a line are enough for the whole usage text. -/
theorem cflagUsage_returns {columns : ℕ} {specs : List (Cflag δ)}
    (hwords : lastColumn columns < 20 ∨
      ∀ spec ∈ specs, ∀ w ∈ words spec.help, 3 + w.length ≤ lastColumn columns)
    (progname usage : Text) :
    ∃ fuel out, cflagUsage columns fuel specs progname usage = some out := by
  refine ⟨(specs.map fun spec => 3 * spec.help.length + 2).sum, Option.isSome_iff_exists.mp
    ((cflagUsage_isSome ..).mpr fun spec hspec => ?_)⟩
  have henough : 3 * spec.help.length + 2 ≤
      (specs.map fun spec => 3 * spec.help.length + 2).sum :=
    List.le_sum_of_mem (List.mem_map_of_mem hspec)
  obtain ⟨r, hr⟩ := Option.isSome_iff_exists.mp
    (findent_isSome (hwords.imp_right fun hall => hall spec hspec))
  rw [findent_fuel hr henough]
  rfl

/-- The usage text is printed to its end on narrow terminals, where no text is broken, and
just where every word of every help text fits into a line. -/
theorem cflagUsage_returns_iff (columns : ℕ) (specs : List (Cflag δ)) (progname usage : Text) :
    (∃ fuel out, cflagUsage columns fuel specs progname usage = some out) ↔
      lastColumn columns < 20 ∨
        ∀ spec ∈ specs, ∀ w ∈ words spec.help, 3 + w.length ≤ lastColumn columns := by
  constructor
  · rintro ⟨fuel, out, hout⟩
    by_contra hlong
    push Not at hlong
    obtain ⟨hrcol, spec, hspec, hlong⟩ := hlong
    have hsome := (cflagUsage_isSome ..).mp (Option.isSome_of_eq_some hout) spec hspec
    rw [(findent_endless hrcol fuel).1 spec.help hlong] at hsome
    cases hsome
  · exact fun hwords => cflagUsage_returns hwords progname usage

end Usage

end AcaBSim.UsageText
