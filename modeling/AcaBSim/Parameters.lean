import AcaBSim.FlagLines
import AcaBSim.UsageText

/-!
The options of `initialize_parameters` and what a command line makes of the
parameters. The program gives none of them a value of its own, so a parameter
has the value of the last option for it, or none.
-/
namespace AcaBSim.Parameters

open Machine Flags

/-- The members of `sim_param_t`. -/
inductive Param
  | simulationTime
  | disabilityProb
  | robotBoostCoff
  | p1DestProb
  | errorPerActProb
deriving DecidableEq, Repr

def Param.letter : Param → Char
  | .simulationTime => 'T'
  | .disabilityProb => 'X'
  | .robotBoostCoff => 'A'
  | .p1DestProb => 'P'
  | .errorPerActProb => 'E'

def Param.name : Param → Text
  | .simulationTime => "simulation-time".toList
  | .disabilityProb => "disability-prob".toList
  | .robotBoostCoff => "robot-boost".toList
  | .p1DestProb => "p1-prob".toList
  | .errorPerActProb => "error-prob".toList

def Param.func : Param → CflagFunc
  | .simulationTime => .int
  | .disabilityProb => .double
  | .robotBoostCoff => .double
  | .p1DestProb => .double
  | .errorPerActProb => .double

/-- The help of the last option is that of the one before it. -/
def Param.help : Param → Text
  | .simulationTime => "Total simulation time of the system".toList
  | .disabilityProb => "Probability of client having disability".toList
  | .robotBoostCoff => "Robot server boost over standard system".toList
  | .p1DestProb => "Client P1 destination probability".toList
  | .errorPerActProb => "Client P1 destination probability".toList

def Param.option (p : Param) : Cflag Param where
  func := p.func
  name := some p.name
  letter := some p.letter
  data := some p
  help := p.help

/-- `CFLAG_HELP`. -/
def cflagHelp : Cflag Param where
  func := .help
  name := some "help".toList
  letter := some 'h'
  data := none
  help := "Prints command line usage help.".toList

def options : List (Cflag Param) :=
  [Param.simulationTime.option, Param.disabilityProb.option, Param.robotBoostCoff.option,
    Param.p1DestProb.option, Param.errorPerActProb.option, cflagHelp]

variable {F : Type} (strtod : Text → Conversion F)

/-- The parameters of `main` before the call, on its stack. -/
def noParams : FlagState Param F where
  data _ := none
  erange := false

def initializeParameters (argv : List Text) : Except Fault (Applied Param F) :=
  cflagApply strtod options argv noParams

/-- The value that the function of a flag stores for an argument, if it accepts that. -/
def readArg (func : CflagFunc) (arg : Text) : Option (Value F) :=
  match func with
  | .int => (scanInt arg).bind fun z => if intMin ≤ z ∧ z ≤ intMax then some (.int z) else none
  | .double =>
    let v := strtod arg
    if v.erange || v.endptr != [] then none else some (.double v.value)
  | .string => some (.string arg)
  | _ => none

/-- An option of the command line with its argument. -/
structure Given (F : Type) where
  param : Param
  word : Text
  arg : Text
  value : Value F

structure Given.Valid (g : Given F) : Prop where
  word : g.word = ['-', g.param.letter] ∨ g.word = '-' :: '-' :: g.param.name
  value : readArg strtod g.param.func g.arg = some g.value

def Given.words (g : Given F) : List Text := [g.word, g.arg]

/-- The value of the last option for a parameter. -/
def lastGiven (given : List (Given F)) (p : Param) : Option (Value F) :=
  (given.reverse.find? fun g => g.param = p).map Given.value

variable {strtod} {spec : Cflag Param} {negated : Bool} {word arg : Text} {p : Param}
  {st st' : FlagState Param F} {g : Given F} {given : List (Given F)}

section Options

theorem mem_options (h : spec ∈ options) : (∃ p : Param, spec = p.option) ∨ spec = cflagHelp := by
  simp only [options, List.mem_cons, List.not_mem_nil, or_false] at h
  obtain rfl | rfl | rfl | rfl | rfl | rfl := h
  · exact .inl ⟨.simulationTime, rfl⟩
  · exact .inl ⟨.disabilityProb, rfl⟩
  · exact .inl ⟨.robotBoostCoff, rfl⟩
  · exact .inl ⟨.p1DestProb, rfl⟩
  · exact .inl ⟨.errorPerActProb, rfl⟩
  · exact .inr rfl

theorem findShort_option (p : Param) : findShort options p.letter = some p.option := by
  cases p <;> rfl

theorem findLong_option (p : Param) : findLong options p.name = some p.option := by
  cases p <;> rfl

theorem option_func (p : Param) : p.option.func ≠ .bool ∧ needsArg p.option = true := by
  cases p <;> exact ⟨by decide, rfl⟩

/-- No option of the program can be negated. -/
theorem options_func (h : spec ∈ options) : spec.func ≠ .bool := by
  obtain ⟨p, rfl⟩ | rfl := mem_options h
  · exact (option_func p).1
  · decide

theorem Spells.mem (h : Spells options word spec negated) : spec ∈ options := by
  cases h with
  | short _ h => exact List.mem_of_find?_eq_some h
  | long _ h => exact List.mem_of_find?_eq_some h
  | negated _ h _ => exact List.mem_of_find?_eq_some h

/-- The words for an option: its letter and its name. -/
theorem spells_iff {c : Char} {name : Text} (hletter : spec.letter = some c)
    (hname : spec.name = some name) (hc : c ≠ '-') (hne : name ≠ [])
    (hshort : findShort options c = some spec) (hlong : findLong options name = some spec) :
    Spells options word spec negated ↔
      negated = false ∧ (word = ['-', c] ∨ word = '-' :: '-' :: name) := by
  constructor
  · intro h
    cases h with
    | short _ h =>
      have hfound := List.find?_some h
      rw [beq_iff_eq, hletter] at hfound
      exact ⟨rfl, .inl (by rw [Option.some.inj hfound])⟩
    | long _ h =>
      have hfound := List.find?_some h
      rw [beq_iff_eq, hname] at hfound
      exact ⟨rfl, .inr (by rw [Option.some.inj hfound])⟩
    | negated _ h hbool => exact absurd hbool (options_func (List.mem_of_find?_eq_some h))
  · rintro ⟨rfl, rfl | rfl⟩
    · exact .short hc hshort
    · exact .long hne hlong

theorem spells_option_iff : Spells options word p.option negated ↔
    negated = false ∧ (word = ['-', p.letter] ∨ word = '-' :: '-' :: p.name) :=
  spells_iff rfl rfl (by cases p <;> decide) (by cases p <;> decide) (findShort_option p)
    (findLong_option p)

theorem spells_help_iff : Spells options word cflagHelp negated ↔
    negated = false ∧ (word = "-h".toList ∨ word = "--help".toList) :=
  spells_iff rfl rfl (by decide) (by decide) rfl rfl

theorem applyFlag_int (hfunc : spec.func = .int) (hdata : spec.data = some p) :
    applyFlag strtod spec false (some arg) st =
      match scanInt arg with
      | none => .ok (.badFormat, st)
      | some z =>
        if intMin ≤ z ∧ z ≤ intMax then
          .ok (.ok, { st with data := Function.update st.data p (some (.int z)) })
        else .error .intOverflow := by
  simp only [applyFlag, callFunc, hfunc]
  cases scanInt arg with
  | none => rfl
  | some z =>
    by_cases hrange : intMin ≤ z ∧ z ≤ intMax
    · simp only [checkInt_ok hrange, if_pos hrange, assign, hdata]
      rfl
    · simp only [checkInt, if_neg hrange]
      rfl

theorem applyFlag_double (strtod : Text → Conversion F) (arg : Text)
    (hfunc : spec.func = .double) (hdata : spec.data = some p) (hst : st.erange = false) :
    applyFlag strtod spec false (some arg) st =
      if (strtod arg).erange || (strtod arg).endptr != [] then
        .ok (.badFormat, { st with erange := (strtod arg).erange })
      else .ok (.ok, { st with
        data := Function.update st.data p (some (.double (strtod arg).value)) }) := by
  obtain ⟨data, erange⟩ := st
  change erange = false at hst
  subst hst
  simp only [applyFlag, callFunc, hfunc, Bool.false_or]
  by_cases hbad : ((strtod arg).erange || (strtod arg).endptr != []) = true
  · rw [if_pos hbad, if_pos hbad]
    rfl
  · have herange : (strtod arg).erange = false := by
      cases h : (strtod arg).erange with
      | false => rfl
      | true => simp [h] at hbad
    rw [if_neg hbad, if_neg hbad]
    simp only [assign, hdata, herange]
    rfl

/-- The function of an option stores what it reads. -/
theorem applyFlag_option (strtod : Text → Conversion F) (p : Param) (arg : Text)
    (hst : st.erange = false) :
    (∃ v, readArg strtod p.func arg = some v ∧ applyFlag strtod p.option false (some arg) st =
        .ok (.ok, { st with data := Function.update st.data p (some v) })) ∨
      (readArg strtod p.func arg = none ∧
        ((∃ st', applyFlag strtod p.option false (some arg) st = .ok (.badFormat, st')) ∨
          p = .simulationTime ∧ (∃ z, scanInt arg = some z ∧ ¬ (intMin ≤ z ∧ z ≤ intMax)) ∧
            applyFlag strtod p.option false (some arg) st = .error .intOverflow)) := by
  have hdouble : p.option.func = .double → _ := fun h => applyFlag_double strtod arg h rfl hst
  by_cases hp : p = .simulationTime
  · subst hp
    rw [applyFlag_int rfl rfl]
    dsimp only [Param.func, readArg]
    cases hscan : scanInt arg with
    | none => exact .inr ⟨rfl, .inl ⟨st, rfl⟩⟩
    | some z =>
      by_cases hrange : intMin ≤ z ∧ z ≤ intMax
      · dsimp only [Option.bind_some]
        rw [if_pos hrange, if_pos hrange]
        exact .inl ⟨_, rfl, rfl⟩
      · dsimp only [Option.bind_some]
        rw [if_neg hrange, if_neg hrange]
        exact .inr ⟨rfl, .inr ⟨rfl, ⟨z, rfl, hrange⟩, rfl⟩⟩
  · have hfunc : p.func = .double := by
      cases p with
      | simulationTime => exact absurd rfl hp
      | _ => rfl
    rw [hdouble hfunc, hfunc]
    simp only [readArg]
    by_cases hbad : ((strtod arg).erange || (strtod arg).endptr != []) = true
    · rw [if_pos hbad, if_pos hbad]
      exact .inr ⟨rfl, .inl ⟨_, rfl⟩⟩
    · rw [if_neg hbad, if_neg hbad]
      exact .inl ⟨_, rfl, rfl⟩

end Options

section Lines

def Given.setting (g : Given F) : Setting Param := ⟨g.word, g.param.option, false, some g.arg⟩

/-- The memory with the values that are given, one after another. -/
def stored (st : FlagState Param F) (given : List (Given F)) : FlagState Param F :=
  given.foldl (fun st g => { st with data := Function.update st.data g.param (some g.value) }) st

theorem stored_erange (st : FlagState Param F) (given : List (Given F)) :
    (stored st given).erange = st.erange := by
  induction given generalizing st with
  | nil => rfl
  | cons g given ih => exact ih _

theorem mem_of_lastGiven {v : Value F} (h : lastGiven given p = some v) :
    ∃ g ∈ given, g.param = p ∧ g.value = v := by
  obtain ⟨g, hg, rfl⟩ := Option.map_eq_some_iff.mp h
  have hparam := List.find?_some hg
  exact ⟨g, List.mem_reverse.mp (List.mem_of_find?_eq_some hg), of_decide_eq_true hparam, rfl⟩

/-- The last option for a parameter counts. -/
theorem stored_data (st : FlagState Param F) (given : List (Given F)) (p : Param) :
    (stored st given).data p = (lastGiven given p).or (st.data p) := by
  induction given using List.reverseRecOn with
  | nil => rfl
  | append_singleton given g ih =>
    have hstored : (stored st (given ++ [g])).data p =
        Function.update (stored st given).data g.param (some g.value) p := by
      rw [stored, List.foldl_append]
      rfl
    rw [hstored, lastGiven, List.reverse_append, List.reverse_singleton, List.singleton_append,
      List.find?_cons]
    by_cases hp : g.param = p
    · subst hp
      rw [Function.update_self, decide_eq_true rfl]
      rfl
    · rw [Function.update_of_ne (Ne.symm hp), ih, decide_eq_false hp]
      rfl

theorem stored_noParams (given : List (Given F)) :
    stored noParams given = ⟨lastGiven given, false⟩ := by
  have hdata : (stored noParams given).data = lastGiven given := by
    funext p
    rw [stored_data]
    exact Option.or_none
  rw [← hdata, ← show (stored noParams given).erange = false from stored_erange noParams given]

theorem Given.Valid.fits (h : g.Valid strtod) : g.setting.Fits options :=
  ⟨spells_option_iff.mpr ⟨rfl, h.word⟩, (option_func g.param).2.symm⟩

theorem stored_of_valid (hst : st.erange = false) (hvalid : ∀ g ∈ given, g.Valid strtod) :
    Stored strtod st (given.map Given.setting) (stored st given) := by
  induction given generalizing st with
  | nil => exact .nil
  | cons g given ih =>
    obtain ⟨hg, hgiven⟩ := List.forall_mem_cons.mp hvalid
    obtain ⟨v, hv, happly⟩ | ⟨hv, -⟩ :=
      applyFlag_option strtod g.param g.arg hst
    · obtain rfl : v = g.value := Option.some.inj (hv.symm.trans hg.value)
      exact .cons happly (ih hst hgiven)
    · rw [hg.value] at hv
      cases hv

/-- Settings that are stored are options with arguments that their functions accept. -/
theorem exists_given {settings : List (Setting Param)} (hst : st.erange = false)
    (hfits : ∀ s ∈ settings, s.Fits options) (h : Stored strtod st settings st') :
    ∃ given : List (Given F), settings = given.map Given.setting ∧
      (∀ g ∈ given, g.Valid strtod) ∧ st' = stored st given := by
  induction h with
  | nil => exact ⟨[], rfl, fun _ h => absurd h List.not_mem_nil, rfl⟩
  | @cons st st₁ st₂ s settings happly _ ih =>
    obtain ⟨⟨hspells, harg⟩, hrest⟩ := List.forall_mem_cons.mp hfits
    obtain ⟨word, spec, negated, arg⟩ := s
    obtain ⟨p, rfl⟩ | rfl := mem_options (Spells.mem hspells)
    · obtain ⟨rfl, hword⟩ := spells_option_iff.mp hspells
      obtain ⟨arg, rfl⟩ := Option.isSome_iff_exists.mp (harg.trans (option_func p).2)
      obtain ⟨v, hv, hstored⟩ | ⟨-, ⟨st', hbad⟩ | ⟨-, -, hfault⟩⟩ :=
        applyFlag_option strtod p arg hst
      · rw [hstored] at happly
        cases happly
        obtain ⟨given, rfl, hgiven, rfl⟩ := ih hst hrest
        exact ⟨⟨p, word, arg, v⟩ :: given, rfl, List.forall_mem_cons.mpr ⟨⟨hword, hv⟩, hgiven⟩,
          rfl⟩
      · rw [hbad] at happly
        cases happly
      · rw [hfault] at happly
        cases happly
    · cases happly

theorem lineOf_settings (given : List (Given F)) :
    lineOf (given.map Given.setting) = given.flatMap Given.words := by
  rw [lineOf, List.flatMap_map]
  rfl

theorem initializeParameters_given (argv0 : Text) {rest : List Text}
    (hvalid : ∀ g ∈ given, g.Valid strtod) (hhalts : Halts rest) :
    initializeParameters strtod (argv0 :: (given.flatMap Given.words ++ rest)) =
      .ok (.returned (baseName argv0) rest ⟨lastGiven given, false⟩) := by
  rw [initializeParameters, cflagApply_returned_iff, cflagParse_ok_iff]
  refine ⟨rfl, given.map Given.setting, by rw [lineOf_settings], ?_, ?_, hhalts⟩
  · exact List.forall_mem_map.mpr fun g hg => (hvalid g hg).fits
  · rw [← stored_noParams]
    exact stored_of_valid rfl hvalid

/-- `initialize_parameters` returns on the lines of valid options that end or go on with an
argument that is no flag, and each parameter then has the value of the last option for it. -/
theorem initializeParameters_returned_iff {argv0 name : Text} {argv rest : List Text} :
    initializeParameters strtod (argv0 :: argv) = .ok (.returned name rest st) ↔
      name = baseName argv0 ∧ ∃ given : List (Given F), argv = given.flatMap Given.words ++ rest ∧
        (∀ g ∈ given, g.Valid strtod) ∧ Halts rest ∧ st.erange = false ∧
        ∀ p, st.data p = lastGiven given p := by
  constructor
  · intro h
    rw [initializeParameters, cflagApply_returned_iff, cflagParse_ok_iff] at h
    obtain ⟨hname, settings, rfl, hfits, hstored, hhalts⟩ := h
    obtain ⟨given, rfl, hvalid, rfl⟩ := exists_given rfl hfits hstored
    rw [stored_noParams]
    exact ⟨hname, given, by rw [lineOf_settings], hvalid, hhalts, rfl, fun _ => rfl⟩
  · rintro ⟨rfl, given, rfl, hvalid, hhalts, herange, hdata⟩
    obtain rfl : st = ⟨lastGiven given, false⟩ := by rw [← funext hdata, ← herange]
    exact initializeParameters_given argv0 hvalid hhalts

/-- No option of the program starts with `no-`. -/
theorem findLong_no (name : Text) : findLong options ("no-".toList ++ name) = none := by
  have hhead : ∀ spec ∈ options, (spec.name.getD []).head? ≠ some 'n' := by decide
  refine List.find?_eq_none.mpr fun spec hspec hname => hhead spec hspec ?_
  rw [beq_iff_eq] at hname
  rw [hname]
  rfl

theorem findLong_eq_none_iff {name : Text} :
    findLong options name = none ↔ (∀ p : Param, name ≠ p.name) ∧ name ≠ "help".toList := by
  constructor
  · intro h
    refine ⟨?_, ?_⟩
    · rintro p rfl
      rw [findLong_option] at h
      cases h
    · rintro rfl
      cases h
  · rintro ⟨hparam, hhelp⟩
    refine List.find?_eq_none.mpr fun spec hspec hname => ?_
    rw [beq_iff_eq] at hname
    obtain ⟨p, rfl⟩ | rfl := mem_options hspec
    · exact hparam p (Option.some.inj hname).symm
    · exact hhelp (Option.some.inj hname).symm

/-- `initialize_parameters` runs into a fault on two kinds of lines: behind valid options there
is `--no-` and the name of no option, or a simulation time that is no `int`. -/
theorem initializeParameters_error_iff {argv0 : Text} {argv : List Text} {e : Fault} :
    initializeParameters strtod (argv0 :: argv) = .error e ↔
      ∃ given : List (Given F), (∀ g ∈ given, g.Valid strtod) ∧
        ((∃ name later, argv = given.flatMap Given.words ++ ("--no-".toList ++ name) :: later ∧
            (∀ p : Param, name ≠ p.name) ∧ name ≠ "help".toList ∧ e = .nullDereference) ∨
          ∃ word arg z later, argv = given.flatMap Given.words ++ word :: arg :: later ∧
            (word = "-T".toList ∨ word = "--simulation-time".toList) ∧ scanInt arg = some z ∧
            ¬ (intMin ≤ z ∧ z ≤ intMax) ∧ e = .intOverflow) := by
  rw [initializeParameters, cflagApply_error_iff, cflagParse_error_iff]
  constructor
  · rintro ⟨settings, rest, st', rfl, hfits, hstored, h⟩
    obtain ⟨given, rfl, hvalid, rfl⟩ := exists_given rfl hfits hstored
    refine ⟨given, hvalid, ?_⟩
    rw [lineOf_settings]
    obtain ⟨name, later, rfl, -, hname, rfl⟩ | ⟨s, later, rfl, ⟨hspells, harg⟩, hfault⟩ := h
    · obtain ⟨hparam, hhelp⟩ := findLong_eq_none_iff.mp hname
      exact .inl ⟨name, later, rfl, hparam, hhelp, rfl⟩
    · obtain ⟨word, spec, negated, arg⟩ := s
      obtain ⟨p, rfl⟩ | rfl := mem_options (Spells.mem hspells)
      · obtain ⟨rfl, hword⟩ := spells_option_iff.mp hspells
        obtain ⟨arg, rfl⟩ := Option.isSome_iff_exists.mp (harg.trans (option_func p).2)
        obtain ⟨v, -, happly⟩ | ⟨-, ⟨st'', hbad⟩ | ⟨rfl, ⟨z, hscan, hrange⟩, happly⟩⟩ :=
          applyFlag_option strtod p arg (stored_erange noParams given)
        · rw [happly] at hfault
          cases hfault
        · rw [hbad] at hfault
          cases hfault
        · rw [happly] at hfault
          cases hfault
          exact .inr ⟨word, arg, z, later, rfl, hword, hscan, hrange, rfl⟩
      · cases hfault
  · rintro ⟨given, hvalid, ⟨name, later, rfl, hparam, hhelp, rfl⟩ |
      ⟨word, arg, z, later, rfl, hword, hscan, hrange, rfl⟩⟩
    · refine ⟨given.map Given.setting, _, _, by rw [lineOf_settings], ?_,
        stored_of_valid rfl hvalid, .inl ⟨name, later, rfl, findLong_no name,
          findLong_eq_none_iff.mpr ⟨hparam, hhelp⟩, rfl⟩⟩
      exact List.forall_mem_map.mpr fun g hg => (hvalid g hg).fits
    · refine ⟨given.map Given.setting, _, _, by rw [lineOf_settings]; rfl, ?_,
        stored_of_valid rfl hvalid, .inr ⟨⟨word, Param.simulationTime.option, false, some arg⟩,
          later, rfl, ⟨spells_option_iff.mpr ⟨rfl, hword⟩, rfl⟩, ?_⟩⟩
      · exact List.forall_mem_map.mpr fun g hg => (hvalid g hg).fits
      · dsimp only
        rw [applyFlag_int rfl rfl, hscan]
        exact if_neg hrange

/-- The words of the help texts are short enough for every terminal. -/
theorem options_usage (columns : ℕ) (progname usage : Text) :
    ∃ fuel out, UsageText.cflagUsage columns fuel options progname usage = some out := by
  have hshort : ∀ spec ∈ options, ∀ w ∈ UsageText.words spec.help, 3 + w.length ≤ 20 := by decide
  refine UsageText.cflagUsage_returns ?_ progname usage
  by_cases hnarrow : UsageText.lastColumn columns < 20
  · exact .inl hnarrow
  · exact .inr fun spec hspec w hw => (hshort spec hspec w hw).trans (not_lt.mp hnarrow)

/-- The usage text is asked for behind valid options, with `-h` or `--help`, and is then
printed to its end on every terminal. -/
theorem initializeParameters_usage_iff {argv0 name : Text} {argv : List Text} :
    (initializeParameters strtod (argv0 :: argv) = .ok (.usage name) ↔
      name = baseName argv0 ∧ ∃ (given : List (Given F)) (word : Text) (later : List Text),
        argv = given.flatMap Given.words ++ word :: later ∧ (∀ g ∈ given, g.Valid strtod) ∧
        (word = "-h".toList ∨ word = "--help".toList)) ∧
      ∀ columns, ∃ fuel out,
        UsageText.cflagUsage columns fuel options name "[options]".toList = some out := by
  refine ⟨?_, fun columns => options_usage columns name "[options]".toList⟩
  rw [initializeParameters, cflagApply_usage_iff, cflagParse_showHelp_iff]
  refine and_congr_right fun _ => ?_
  constructor
  · rintro ⟨settings, s, later, st', st'', rfl, hfits, hstored, ⟨hspells, harg⟩, happly⟩
    obtain ⟨given, rfl, hvalid, rfl⟩ := exists_given rfl hfits hstored
    obtain ⟨word, spec, negated, arg⟩ := s
    obtain ⟨p, rfl⟩ | rfl := mem_options (Spells.mem hspells)
    · obtain ⟨rfl, -⟩ := spells_option_iff.mp hspells
      obtain ⟨arg, rfl⟩ := Option.isSome_iff_exists.mp (harg.trans (option_func p).2)
      obtain ⟨v, -, hv⟩ | ⟨-, ⟨st₁, hbad⟩ | ⟨-, -, hfault⟩⟩ :=
        applyFlag_option strtod p arg (stored_erange noParams given)
      · rw [hv] at happly
        cases happly
      · rw [hbad] at happly
        cases happly
      · rw [hfault] at happly
        cases happly
    · obtain rfl : arg = none := Option.isNone_iff_eq_none.mp (Option.isSome_eq_false_iff.mp harg)
      exact ⟨given, word, later, by rw [lineOf_settings]; rfl, hvalid,
        (spells_help_iff.mp hspells).2⟩
  · rintro ⟨given, word, later, rfl, hvalid, hword⟩
    refine ⟨given.map Given.setting, ⟨word, cflagHelp, false, none⟩, later, stored noParams given,
      stored noParams given, by rw [lineOf_settings]; rfl, ?_, stored_of_valid rfl hvalid,
      ⟨spells_help_iff.mpr ⟨rfl, hword⟩, rfl⟩, rfl⟩
    exact List.forall_mem_map.mpr fun g hg => (hvalid g hg).fits

end Lines

end AcaBSim.Parameters
