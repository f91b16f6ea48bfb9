import AcaBSim.Flags

/-!
What `cflag_parse` makes of a command line. A line is a sequence of settings,
each a word that names a flag and the argument of the flag if it takes one, and
then a rest on which the parser ends in one of nine ways. The parser takes the
settings one after another and its result is that of the rest.
-/
namespace AcaBSim.Flags

open Machine

variable {δ F : Type} {specs : List (Cflag δ)} {spec : Cflag δ} {negated : Bool} {word : Text}

/-- The words that name a flag, by its letter, by its name, or by its name with `no-`. -/
inductive Spells (specs : List (Cflag δ)) : Text → Cflag δ → Bool → Prop
  | short {c : Char} {spec : Cflag δ} (hc : c ≠ '-') (h : findShort specs c = some spec) :
    Spells specs ['-', c] spec false
  | long {name : Text} {spec : Cflag δ} (hname : name ≠ [])
    (h : findLong specs name = some spec) : Spells specs ('-' :: '-' :: name) spec false
  | negated {name : Text} {spec : Cflag δ} (hno : findLong specs ("no-".toList ++ name) = none)
    (h : findLong specs name = some spec) (hbool : spec.func = .bool) :
    Spells specs ("--no-".toList ++ name) spec true

structure Setting (δ : Type) where
  word : Text
  spec : Cflag δ
  negated : Bool
  arg : Option Text

def Setting.words (s : Setting δ) : List Text := s.word :: s.arg.toList

/-- Neither `-` and a letter nor `--` and a name. -/
def Plain (arg : Text) : Prop := isShortFlag arg = false ∧ isLongFlag arg = false

/-- The parser takes no more flags from here on. -/
def Halts (rest : List Text) : Prop :=
  rest = [] ∨ ∃ arg later, rest = arg :: later ∧ (arg = ['-', '-'] ∨ Plain arg)

def Setting.Fits (specs : List (Cflag δ)) (s : Setting δ) : Prop :=
  Spells specs s.word s.spec s.negated ∧ s.arg.isSome = needsArg s.spec

theorem Spells.isFlag (h : Spells specs word spec negated) :
    word ≠ ['-', '-'] ∧ ¬ Plain word := by
  cases h with
  | short hc => exact ⟨by simpa using hc, fun h => Bool.noConfusion h.1⟩
  | @long name _ hname =>
    obtain ⟨c, rest, rfl⟩ := List.exists_cons_of_ne_nil hname
    exact ⟨by simp, fun h => Bool.noConfusion h.2⟩
  | negated => exact ⟨by simp, fun h => Bool.noConfusion h.2⟩

/-- A name behind `--no-` that no flag has together with `no-`. -/
theorem findFlag_no {name : Text} (hno : findLong specs ("no-".toList ++ name) = none) :
    findFlag specs ("--no-".toList ++ name) =
      match findLong specs name with
      | none => .error .nullDereference
      | some spec => if spec.func = .bool then .ok (some spec, true) else .ok (none, false) := by
  have hlong : findLong specs (("--no-".toList ++ name).drop 2) = none := hno
  have hdrop : ("--no-".toList ++ name).drop 5 = name := rfl
  have hprefix : isNegated ("--no-".toList ++ name) = true := by
    rw [isNegated, List.isPrefixOf_iff_prefix]
    exact List.prefix_append _ _
  rw [findFlag, if_neg (by simp [isShortFlag]), hlong]
  dsimp only
  rw [if_pos hprefix, hdrop]
  rfl

theorem Spells.findFlag (h : Spells specs word spec negated) :
    findFlag specs word = .ok (some spec, negated) := by
  cases h with
  | @short c _ hc h =>
    rw [Flags.findFlag, if_pos (show isShortFlag ['-', c] = true from rfl),
      show ['-', c].getD 1 ' ' = c from rfl, h]
    rfl
  | @long name _ hname h =>
    obtain ⟨c, rest, rfl⟩ := List.exists_cons_of_ne_nil hname
    have hlong : findLong specs (('-' :: '-' :: c :: rest).drop 2) = some spec := h
    rw [Flags.findFlag, if_neg (by simp [isShortFlag]), hlong]
    rfl
  | negated hno h hbool =>
    rw [findFlag_no hno, h]
    exact if_pos hbool

theorem isShortFlag_iff : isShortFlag word = true ↔ ∃ c, word = ['-', c] := by
  constructor
  · intro h
    unfold isShortFlag at h
    split at h
    · exact ⟨_, rfl⟩
    · cases h
  · rintro ⟨c, rfl⟩
    rfl

theorem isLongFlag_iff :
    isLongFlag word = true ↔ ∃ name, name ≠ [] ∧ word = '-' :: '-' :: name := by
  constructor
  · intro h
    unfold isLongFlag at h
    split at h
    · exact ⟨_, List.cons_ne_nil _ _, rfl⟩
    · cases h
  · rintro ⟨name, hname, rfl⟩
    obtain ⟨c, rest, rfl⟩ := List.exists_cons_of_ne_nil hname
    rfl

/-- The parser reads the flag of a name behind `no-` even if there is none. -/
theorem findFlag_crash {name : Text} (hno : findLong specs ("no-".toList ++ name) = none)
    (h : findLong specs name = none) :
    findFlag specs ("--no-".toList ++ name) = .error .nullDereference := by
  rw [findFlag_no hno, h]

/-- The search for the flag of a word finds one that it spells, finds none, or crashes. -/
theorem findFlag_cases (specs : List (Cflag δ)) (hdashes : word ≠ ['-', '-'])
    (hflag : ¬ Plain word) :
    (∃ spec negated, Spells specs word spec negated) ∨ findFlag specs word = .ok (none, false) ∨
      ∃ name, word = "--no-".toList ++ name ∧ findLong specs ("no-".toList ++ name) = none ∧
        findLong specs name = none := by
  cases hshort : isShortFlag word with
  | true =>
    obtain ⟨c, rfl⟩ := isShortFlag_iff.mp hshort
    cases h : findShort specs c with
    | none =>
      refine .inr (.inl ?_)
      rw [Flags.findFlag, if_pos hshort, show ['-', c].getD 1 ' ' = c from rfl, h]
      rfl
    | some spec => exact .inl ⟨spec, false, .short (fun hc => hdashes (by rw [hc])) h⟩
  | false =>
    have hlong : isLongFlag word = true := by
      by_contra hlong
      exact hflag ⟨hshort, by simpa using hlong⟩
    obtain ⟨name, hname, rfl⟩ := isLongFlag_iff.mp hlong
    have hdrop : ('-' :: '-' :: name).drop 2 = name := rfl
    cases h : findLong specs name with
    | some spec => exact .inl ⟨spec, false, .long hname h⟩
    | none =>
      cases hneg : isNegated ('-' :: '-' :: name) with
      | false =>
        refine .inr (.inl ?_)
        rw [Flags.findFlag, if_neg (by simp [hshort]), hdrop, h]
        dsimp only
        rw [if_neg (by simp [hneg])]
        rfl
      | true =>
        rw [isNegated, List.isPrefixOf_iff_prefix] at hneg
        obtain ⟨base, hbase⟩ := hneg
        have hnobase : name = "no-".toList ++ base := by
          simpa using hbase.symm
        subst hnobase
        cases hneg : findLong specs base with
        | none => exact .inr (.inr ⟨base, rfl, h, hneg⟩)
        | some spec =>
          by_cases hbool : spec.func = .bool
          · exact .inl ⟨spec, true, .negated h hneg hbool⟩
          · refine .inr (.inl ((findFlag_no h).trans ?_))
            rw [hneg]
            exact if_neg hbool

def lineOf (settings : List (Setting δ)) : List Text := settings.flatMap Setting.words

theorem lineOf_cons (s : Setting δ) (settings : List (Setting δ)) (rest : List Text) :
    lineOf (s :: settings) ++ rest = s.words ++ (lineOf settings ++ rest) := by
  rw [lineOf, List.flatMap_cons, List.append_assoc]
  rfl

variable [DecidableEq δ] {strtod : Text → Conversion F} {st st' st'' : FlagState δ F}

/-- The functions of the flags accept the settings one after another. -/
inductive Stored (strtod : Text → Conversion F) :
    FlagState δ F → List (Setting δ) → FlagState δ F → Prop
  | nil {st : FlagState δ F} : Stored strtod st [] st
  | cons {st st' st'' : FlagState δ F} {s : Setting δ} {rest : List (Setting δ)}
    (h : applyFlag strtod s.spec s.negated s.arg st = .ok (.ok, st'))
    (hrest : Stored strtod st' rest st'') : Stored strtod st (s :: rest) st''

/-- The ends of a parse on a rest of the line. -/
inductive Ends (strtod : Text → Conversion F) (specs : List (Cflag δ)) :
    List Text → FlagState δ F → Except Fault (CflagStatus × List Text × FlagState δ F) → Prop
  | exhausted {st : FlagState δ F} : Ends strtod specs [] st (.ok (.ok, [], st))
  | dashes {rest : List Text} {st : FlagState δ F} :
    Ends strtod specs (['-', '-'] :: rest) st (.ok (.ok, ['-', '-'] :: rest, st))
  | plain {arg : Text} {rest : List Text} {st : FlagState δ F} (h : Plain arg) :
    Ends strtod specs (arg :: rest) st (.ok (.ok, arg :: rest, st))
  | unknown {arg : Text} {rest : List Text} {st : FlagState δ F} (hdashes : arg ≠ ['-', '-'])
    (hflag : ¬ Plain arg) (hnone : ∀ spec negated, ¬ Spells specs arg spec negated)
    (hsafe : ∀ name, arg = "--no-".toList ++ name → findLong specs name ≠ none) :
    Ends strtod specs (arg :: rest) st (.ok (.undefined, arg :: rest, st))
  | crash {name : Text} {rest : List Text} {st : FlagState δ F}
    (hno : findLong specs ("no-".toList ++ name) = none) (h : findLong specs name = none) :
    Ends strtod specs (("--no-".toList ++ name) :: rest) st (.error .nullDereference)
  | lonely {arg : Text} {spec : Cflag δ} {negated : Bool} {st : FlagState δ F}
    (hspec : Spells specs arg spec negated) (harg : needsArg spec = true) :
    Ends strtod specs [arg] st (.ok (.needsArg, [arg], st))
  | rejectedArg {arg value : Text} {rest : List Text} {spec : Cflag δ} {negated : Bool}
    {st st' : FlagState δ F} {status : CflagStatus} (hspec : Spells specs arg spec negated)
    (harg : needsArg spec = true)
    (h : applyFlag strtod spec negated (some value) st = .ok (status, st'))
    (hstatus : status ≠ .ok) :
    Ends strtod specs (arg :: value :: rest) st (.ok (status, value :: rest, st'))
  | rejected {arg : Text} {rest : List Text} {spec : Cflag δ} {negated : Bool}
    {st st' : FlagState δ F} {status : CflagStatus} (hspec : Spells specs arg spec negated)
    (harg : needsArg spec = false) (h : applyFlag strtod spec negated none st = .ok (status, st'))
    (hstatus : status ≠ .ok) :
    Ends strtod specs (arg :: rest) st (.ok (status, arg :: rest, st'))
  | fault {s : Setting δ} {rest : List Text} {st : FlagState δ F} {e : Fault}
    (hfits : s.Fits specs) (h : applyFlag strtod s.spec s.negated s.arg st = .error e) :
    Ends strtod specs (s.words ++ rest) st (.error e)

/-- The guards of the parser let a flag word through. -/
theorem parse_guard (hflag : ¬ Plain word) : (!isShortFlag word && !isLongFlag word) ≠ true := by
  intro hplain
  simp only [Bool.and_eq_true, Bool.not_eq_true'] at hplain
  exact hflag hplain

theorem cflagParse_noArg (hspells : Spells specs word spec negated) (harg : needsArg spec = false)
    (rest : List Text) :
    cflagParse strtod specs (word :: rest) st =
      (applyFlag strtod spec negated none st >>= fun p =>
        if p.1 ≠ .ok then .ok (p.1, word :: rest, p.2) else cflagParse strtod specs rest p.2) := by
  obtain ⟨hdashes, hflag⟩ := hspells.isFlag
  rw [cflagParse, if_neg hdashes, if_neg (parse_guard hflag), hspells.findFlag]
  change (if needsArg spec = true then _ else _) = _
  rw [harg, if_neg Bool.false_ne_true]
  rfl

theorem cflagParse_arg (hspells : Spells specs word spec negated) (harg : needsArg spec = true)
    (value : Text) (rest : List Text) :
    cflagParse strtod specs (word :: value :: rest) st =
      (applyFlag strtod spec negated (some value) st >>= fun p =>
        if p.1 ≠ .ok then .ok (p.1, value :: rest, p.2) else cflagParse strtod specs rest p.2) := by
  obtain ⟨hdashes, hflag⟩ := hspells.isFlag
  rw [cflagParse, if_neg hdashes, if_neg (parse_guard hflag), hspells.findFlag]
  change (if needsArg spec = true then _ else _) = _
  rw [harg, if_pos rfl]
  rfl

theorem cflagParse_lonely (hspells : Spells specs word spec negated)
    (harg : needsArg spec = true) :
    cflagParse strtod specs [word] st = .ok (.needsArg, [word], st) := by
  obtain ⟨hdashes, hflag⟩ := hspells.isFlag
  rw [cflagParse, if_neg hdashes, if_neg (parse_guard hflag), hspells.findFlag]
  change (if needsArg spec = true then _ else _) = _
  rw [harg, if_pos rfl]
  rfl

/-- One setting in front of a line is taken, and the parse goes on behind it. -/
theorem cflagParse_setting {s : Setting δ} (hfits : s.Fits specs) (rest : List Text) :
    cflagParse strtod specs (s.words ++ rest) st =
      (applyFlag strtod s.spec s.negated s.arg st >>= fun p =>
        if p.1 ≠ .ok then .ok (p.1, (s.words ++ rest).drop s.arg.toList.length, p.2)
        else cflagParse strtod specs rest p.2) := by
  obtain ⟨word, spec, negated, arg⟩ := s
  obtain ⟨hspells, harg⟩ := hfits
  cases arg with
  | none => exact cflagParse_noArg hspells harg.symm rest
  | some value => exact cflagParse_arg hspells harg.symm value rest

/-- The settings in front of a line are taken one after another. -/
theorem cflagParse_append {settings : List (Setting δ)}
    (hfits : ∀ s ∈ settings, s.Fits specs) (h : Stored strtod st settings st')
    (rest : List Text) :
    cflagParse strtod specs (lineOf settings ++ rest) st = cflagParse strtod specs rest st' := by
  induction h with
  | nil => rfl
  | @cons st st' st'' s settings h _ ih =>
    rw [lineOf_cons, cflagParse_setting (hfits s (List.mem_cons_self ..)), h]
    exact ih fun s' hs' => hfits s' (List.mem_cons_of_mem s hs')

/-- On a rest of one of the nine kinds the parser ends as that kind says. -/
theorem Ends.cflagParse {rest : List Text}
    {result : Except Fault (CflagStatus × List Text × FlagState δ F)}
    (h : Ends strtod specs rest st result) : cflagParse strtod specs rest st = result := by
  cases h with
  | exhausted => rfl
  | dashes =>
    rw [Flags.cflagParse, if_pos rfl]
    rfl
  | plain h =>
    rw [Flags.cflagParse, if_neg, if_pos]
    · rfl
    · rw [h.1, h.2]
      rfl
    · rintro rfl
      exact absurd h.1 (by decide)
  | unknown hdashes hflag hnone hsafe =>
    obtain ⟨spec, negated, hspells⟩ | hfind | ⟨name, hname, -, hbase⟩ :=
      findFlag_cases specs hdashes hflag
    · exact absurd hspells (hnone spec negated)
    · rw [Flags.cflagParse, if_neg hdashes, if_neg (parse_guard hflag), hfind]
      rfl
    · exact absurd hbase (hsafe name hname)
  | crash hno h =>
    rw [Flags.cflagParse, if_neg (by simp), if_neg (by simp [isLongFlag]), findFlag_crash hno h]
    rfl
  | lonely hspec harg => exact cflagParse_lonely hspec harg
  | rejectedArg hspec harg h hstatus =>
    rw [cflagParse_arg hspec harg, h]
    exact if_pos hstatus
  | rejected hspec harg h hstatus =>
    rw [cflagParse_noArg hspec harg, h]
    exact if_pos hstatus
  | fault hfits h =>
    rw [cflagParse_setting hfits, h]
    rfl

/-- A flag that is found ends the parse, or it is the flag of a setting that is taken. -/
theorem spelled_ends_or_setting (hspells : Spells specs word spec negated) (rest : List Text)
    (st : FlagState δ F) :
    (∃ result, Ends strtod specs (word :: rest) st result) ∨
      ∃ s rest' st', word :: rest = Setting.words s ++ rest' ∧ s.Fits specs ∧
        applyFlag strtod s.spec s.negated s.arg st = .ok (.ok, st') := by
  cases harg : needsArg spec with
  | false =>
    have hfits : Setting.Fits specs ⟨word, spec, negated, none⟩ := ⟨hspells, harg.symm⟩
    cases h : applyFlag strtod spec negated none st with
    | error e => exact .inl ⟨_, .fault hfits h⟩
    | ok p =>
      by_cases hstatus : p.1 = .ok
      · exact .inr ⟨_, rest, p.2, rfl, hfits, h.trans (by rw [← hstatus])⟩
      · exact .inl ⟨_, .rejected hspells harg h hstatus⟩
  | true =>
    cases rest with
    | nil => exact .inl ⟨_, .lonely hspells harg⟩
    | cons value rest =>
      have hfits : Setting.Fits specs ⟨word, spec, negated, some value⟩ := ⟨hspells, harg.symm⟩
      cases h : applyFlag strtod spec negated (some value) st with
      | error e => exact .inl ⟨_, .fault hfits h⟩
      | ok p =>
        by_cases hstatus : p.1 = .ok
        · exact .inr ⟨_, rest, p.2, rfl, hfits, h.trans (by rw [← hstatus])⟩
        · exact .inl ⟨_, .rejectedArg hspells harg h hstatus⟩

theorem unknown_ends (hdashes : word ≠ ['-', '-']) (hflag : ¬ Plain word)
    (hnone : findFlag specs word = .ok (none, false)) (rest : List Text) (st : FlagState δ F) :
    Ends strtod specs (word :: rest) st (.ok (.undefined, word :: rest, st)) := by
  have hunspelled : ∀ spec negated, ¬ Spells specs word spec negated := by
    intro spec negated hspells
    rw [hspells.findFlag] at hnone
    cases hnone
  refine .unknown hdashes hflag hunspelled fun name hname hbase => ?_
  subst hname
  cases hno : findLong specs ("no-".toList ++ name) with
  | none =>
    rw [findFlag_crash hno hbase] at hnone
    cases hnone
  | some spec => exact hunspelled spec false (.long (by simp) hno)

/-- A line is one on which the parser ends, or it begins with a setting that is taken. -/
theorem ends_or_setting (strtod : Text → Conversion F) (specs : List (Cflag δ))
    (argv : List Text) (st : FlagState δ F) :
    (∃ result, Ends strtod specs argv st result) ∨
      ∃ s rest st', argv = Setting.words s ++ rest ∧ s.Fits specs ∧
        applyFlag strtod s.spec s.negated s.arg st = .ok (.ok, st') := by
  cases argv with
  | nil => exact .inl ⟨_, .exhausted⟩
  | cons word rest =>
    by_cases hdashes : word = ['-', '-']
    · subst hdashes
      exact .inl ⟨_, .dashes⟩
    by_cases hflag : Plain word
    · exact .inl ⟨_, .plain hflag⟩
    obtain ⟨spec, negated, hspells⟩ | hnone | ⟨name, rfl, hno, hname⟩ :=
      findFlag_cases specs hdashes hflag
    · exact spelled_ends_or_setting hspells rest st
    · exact .inl ⟨_, unknown_ends hdashes hflag hnone rest st⟩
    · exact .inl ⟨_, .crash hno hname⟩

/-- Every line is settings that are taken and a rest on which the parser ends. -/
theorem line_split (strtod : Text → Conversion F) (specs : List (Cflag δ)) (argv : List Text)
    (st : FlagState δ F) :
    ∃ settings rest st' result, argv = lineOf settings ++ rest ∧
      (∀ s ∈ settings, s.Fits specs) ∧ Stored strtod st settings st' ∧
      Ends strtod specs rest st' result := by
  induction hlen : argv.length using Nat.strong_induction_on generalizing argv st with
  | _ n ih =>
    obtain ⟨result, hends⟩ | ⟨s, rest, st', hargv, hfits, hstored⟩ :=
      ends_or_setting strtod specs argv st
    · exact ⟨[], argv, st, result, rfl, fun _ h => absurd h List.not_mem_nil, .nil, hends⟩
    · -- the line behind the setting is shorter
      have hshort : rest.length < n := by
        rw [← hlen, hargv, List.length_append, Setting.words, List.length_cons]
        omega
      obtain ⟨settings, rest', st'', result, hrest, hall, hlater, hends⟩ :=
        ih rest.length hshort rest st' rfl
      refine ⟨s :: settings, rest', st'', result, ?_, ?_, .cons hstored hlater, hends⟩
      · rw [hargv, hrest, lineOf_cons]
      · exact List.forall_mem_cons.mpr ⟨hfits, hall⟩

/-- The parser ends on a line as it does on the rest of it. -/
theorem parse_splits (strtod : Text → Conversion F) (specs : List (Cflag δ)) (argv : List Text)
    (st : FlagState δ F) :
    ∃ settings rest st', argv = lineOf settings ++ rest ∧ (∀ s ∈ settings, s.Fits specs) ∧
      Stored strtod st settings st' ∧
      Ends strtod specs rest st' (cflagParse strtod specs argv st) := by
  obtain ⟨settings, rest, st', result, hargv, hfits, hstored, hends⟩ :=
    line_split strtod specs argv st
  refine ⟨settings, rest, st', hargv, hfits, hstored, ?_⟩
  rwa [hargv, cflagParse_append hfits hstored, hends.cflagParse]

/-- The result of a parse, for every line: that of the rest after the settings that are taken. -/
theorem cflagParse_eq_iff (argv : List Text) (st : FlagState δ F)
    (result : Except Fault (CflagStatus × List Text × FlagState δ F)) :
    cflagParse strtod specs argv st = result ↔
      ∃ settings rest st', argv = lineOf settings ++ rest ∧ (∀ s ∈ settings, s.Fits specs) ∧
        Stored strtod st settings st' ∧ Ends strtod specs rest st' result := by
  constructor
  · rintro rfl
    exact parse_splits strtod specs argv st
  · rintro ⟨settings, rest, st', rfl, hfits, hstored, hends⟩
    rw [cflagParse_append hfits hstored, hends.cflagParse]

/-- The program goes on with the arguments from the first one on that is no flag. -/
theorem ends_ok_iff {rest rest' : List Text} :
    Ends strtod specs rest st (.ok (.ok, rest', st')) ↔ Halts rest ∧ rest' = rest ∧ st' = st := by
  constructor
  · intro h
    generalize hresult : Except.ok (CflagStatus.ok, rest', st') = result at h
    cases h with
    | exhausted =>
      cases hresult
      exact ⟨.inl rfl, rfl, rfl⟩
    | dashes =>
      cases hresult
      exact ⟨.inr ⟨_, _, rfl, .inl rfl⟩, rfl, rfl⟩
    | plain h =>
      cases hresult
      exact ⟨.inr ⟨_, _, rfl, .inr h⟩, rfl, rfl⟩
    | unknown => cases hresult
    | crash => cases hresult
    | lonely => cases hresult
    | rejectedArg _ _ _ hstatus =>
      cases hresult
      exact absurd rfl hstatus
    | rejected _ _ _ hstatus =>
      cases hresult
      exact absurd rfl hstatus
    | fault => cases hresult
  · rintro ⟨rfl | ⟨arg, later, rfl, rfl | hplain⟩, rfl, rfl⟩
    · exact .exhausted
    · exact .dashes
    · exact .plain hplain

theorem cflagParse_ok_iff {argv rest : List Text} :
    cflagParse strtod specs argv st = .ok (.ok, rest, st') ↔
      ∃ settings, argv = lineOf settings ++ rest ∧ (∀ s ∈ settings, s.Fits specs) ∧
        Stored strtod st settings st' ∧ Halts rest := by
  constructor
  · intro h
    obtain ⟨settings, rest', st₁, hargv, hfits, hstored, hends⟩ :=
      parse_splits strtod specs argv st
    rw [h] at hends
    obtain ⟨hhalts, rfl, rfl⟩ := ends_ok_iff.mp hends
    exact ⟨settings, hargv, hfits, hstored, hhalts⟩
  · rintro ⟨settings, rfl, hfits, hstored, hhalts⟩
    rw [cflagParse_append hfits hstored]
    exact (ends_ok_iff.mpr ⟨hhalts, rfl, rfl⟩).cflagParse

/-- The lines on which the parser stops with a fault: a setting whose function has one, or a
name behind `no-` of which there is no flag. -/
theorem cflagParse_error_iff {argv : List Text} {e : Fault} :
    cflagParse strtod specs argv st = .error e ↔
      ∃ settings rest st', argv = lineOf settings ++ rest ∧ (∀ s ∈ settings, s.Fits specs) ∧
        Stored strtod st settings st' ∧
        ((∃ name later, rest = ("--no-".toList ++ name) :: later ∧
            findLong specs ("no-".toList ++ name) = none ∧ findLong specs name = none ∧
            e = .nullDereference) ∨
          ∃ s later, rest = Setting.words s ++ later ∧ s.Fits specs ∧
            applyFlag strtod s.spec s.negated s.arg st' = .error e) := by
  constructor
  · intro h
    obtain ⟨settings, rest, st', hargv, hfits, hstored, hends⟩ :=
      parse_splits strtod specs argv st
    refine ⟨settings, rest, st', hargv, hfits, hstored, ?_⟩
    rw [h] at hends
    generalize herror : Except.error e = result at hends
    cases hends with
    | exhausted => cases herror
    | dashes => cases herror
    | plain => cases herror
    | unknown => cases herror
    | lonely => cases herror
    | rejectedArg => cases herror
    | rejected => cases herror
    | @crash name later _ hno hname =>
      cases herror
      exact .inl ⟨name, later, rfl, hno, hname, rfl⟩
    | @fault s later _ _ hs hfault =>
      cases herror
      exact .inr ⟨s, later, rfl, hs, hfault⟩
  · rintro ⟨settings, rest, st', rfl, hfits, hstored, ⟨name, later, rfl, hno, hname, rfl⟩ |
      ⟨s, later, rfl, hs, hfault⟩⟩
    · rw [cflagParse_append hfits hstored]
      exact Ends.cflagParse (.crash hno hname)
    · rw [cflagParse_append hfits hstored]
      exact Ends.cflagParse (.fault hs hfault)

theorem cflagApply_returned_iff {argv0 name : Text} {argv rest : List Text} :
    cflagApply strtod specs (argv0 :: argv) st = .ok (.returned name rest st') ↔
      name = baseName argv0 ∧ cflagParse strtod specs argv st = .ok (.ok, rest, st') := by
  simp only [cflagApply]
  cases cflagParse strtod specs argv st with
  | error e => simp [Bind.bind, Except.bind]
  | ok p =>
    obtain ⟨status, rest₁, st₁⟩ := p
    cases status <;> simp [Bind.bind, Except.bind, Pure.pure, Except.pure, eq_comm]

/-- The lines on which the function of a flag asks for the usage text. -/
theorem cflagParse_showHelp_iff {argv : List Text} :
    (∃ rest st', cflagParse strtod specs argv st = .ok (.showHelp, rest, st')) ↔
      ∃ settings s later st' st'', argv = lineOf settings ++ (Setting.words s ++ later) ∧
        (∀ s ∈ settings, s.Fits specs) ∧ Stored strtod st settings st' ∧ s.Fits specs ∧
        applyFlag strtod s.spec s.negated s.arg st' = .ok (.showHelp, st'') := by
  constructor
  · rintro ⟨rest', st₁, h⟩
    obtain ⟨settings, rest, st', hargv, hfits, hstored, hends⟩ :=
      parse_splits strtod specs argv st
    rw [h] at hends
    generalize hresult : Except.ok (CflagStatus.showHelp, rest', st₁) = result at hends
    cases hends with
    | exhausted => cases hresult
    | dashes => cases hresult
    | plain => cases hresult
    | unknown => cases hresult
    | crash => cases hresult
    | lonely => cases hresult
    | @rejectedArg word value later spec negated _ _ _ hspec harg happly _ =>
      cases hresult
      exact ⟨settings, ⟨word, spec, negated, some value⟩, later, st', _, hargv, hfits, hstored,
        ⟨hspec, harg.symm⟩, happly⟩
    | @rejected word later spec negated _ _ _ hspec harg happly _ =>
      cases hresult
      exact ⟨settings, ⟨word, spec, negated, none⟩, later, st', _, hargv, hfits, hstored,
        ⟨hspec, harg.symm⟩, happly⟩
    | fault => cases hresult
  · rintro ⟨settings, s, later, st', st'', rfl, hfits, hstored, hs, happly⟩
    rw [cflagParse_append hfits hstored, cflagParse_setting hs, happly]
    exact ⟨_, st'', rfl⟩

theorem cflagApply_usage_iff {argv0 name : Text} {argv : List Text} :
    cflagApply strtod specs (argv0 :: argv) st = .ok (.usage name) ↔
      name = baseName argv0 ∧
        ∃ rest st', cflagParse strtod specs argv st = .ok (.showHelp, rest, st') := by
  simp only [cflagApply]
  cases cflagParse strtod specs argv st with
  | error e => simp [Bind.bind, Except.bind]
  | ok p =>
    obtain ⟨status, rest₁, st₁⟩ := p
    cases status <;> simp [Bind.bind, Except.bind, Pure.pure, Except.pure, eq_comm]

theorem cflagApply_error_iff {argv0 : Text} {argv : List Text} {e : Fault} :
    cflagApply strtod specs (argv0 :: argv) st = .error e ↔
      cflagParse strtod specs argv st = .error e := by
  simp only [cflagApply]
  cases cflagParse strtod specs argv st with
  | error e => simp [Bind.bind, Except.bind]
  | ok p =>
    obtain ⟨status, rest₁, st₁⟩ := p
    cases status <;> simp [Bind.bind, Except.bind, Pure.pure, Except.pure]

end AcaBSim.Flags
