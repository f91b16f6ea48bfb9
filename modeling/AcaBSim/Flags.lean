import AcaBSim.Machine

/-!
The command line parser of cflag.c, for flags with the functions `cflag_bool`,
`cflag_int`, `cflag_double`, `cflag_string` and `cflag_help`; the program needs no
more. A string is its characters up to the final zero. What a flag points to is
a name of type `δ`, and a memory maps the names to values; the floating-point type
`F` and its `strtod` are parameters.
-/
namespace AcaBSim.Flags

open Machine

abbrev Text := List Char

inductive CflagStatus
  | ok
  | showHelp
  | undefined
  | badFormat
  | needsArg
deriving DecidableEq, Repr

/-- The functions `cflag_bool` to `cflag_help`, without `cflag_uint`, `cflag_float`,
`cflag_bytes` and `cflag_timei`. -/
inductive CflagFunc
  | bool
  | int
  | double
  | string
  | help
deriving DecidableEq, Repr

/-- A flag has no name if it is null, and no letter if it is zero; a flag with
neither ends the array. -/
structure Cflag (δ : Type) where
  func : CflagFunc
  name : Option Text
  letter : Option Char
  data : Option δ
  help : Text

inductive Value (F : Type)
  | bool (b : Bool)
  | int (z : ℤ)
  | double (x : F)
  | string (s : Text)
deriving DecidableEq, Repr

/-- `strtod`: the number, where it ends, and whether it has set `errno` to `ERANGE`. -/
structure Conversion (F : Type) where
  value : F
  endptr : Text
  erange : Bool

/-- The memory behind the `data` pointers, and whether `errno` is `ERANGE`. -/
structure FlagState (δ F : Type) where
  data : δ → Option (Value F)
  erange : Bool

variable {δ F : Type} [DecidableEq δ] (strtod : Text → Conversion F)

def isLongFlag : Text → Bool
  | '-' :: '-' :: _ :: _ => true
  | _ => false

def isShortFlag : Text → Bool
  | ['-', _] => true
  | _ => false

def isNegated (s : Text) : Bool := "--no-".toList.isPrefixOf s

def findShort (specs : List (Cflag δ)) (letter : Char) : Option (Cflag δ) :=
  specs.find? fun spec => spec.letter == some letter

def findLong (specs : List (Cflag δ)) (name : Text) : Option (Cflag δ) :=
  specs.find? fun spec => spec.name == some name

/-- `(*spec->func) (NULL, NULL) == CFLAG_NEEDS_ARG`. -/
def needsArg (spec : Cflag δ) : Bool :=
  match spec.func with
  | .bool => false
  | .int => true
  | .double => true
  | .string => true
  | .help => false

def isSpace (c : Char) : Bool := " \t\n\x0b\x0c\r".toList.contains c

def digitsValue (digits : Text) : ℕ :=
  digits.foldl (fun n c => 10 * n + (c.toNat - '0'.toNat)) 0

/-- `sscanf (arg, "%d", …)`: white space, a sign, and as many digits as there are,
with no regard to what follows them. -/
def scanInt (arg : Text) : Option ℤ :=
  let text := arg.dropWhile isSpace
  let (negative, text) := match text with
    | '-' :: rest => (true, rest)
    | '+' :: rest => (false, rest)
    | rest => (false, rest)
  let digits := text.takeWhile Char.isDigit
  if digits.isEmpty then none
  else some (if negative then -(digitsValue digits : ℤ) else digitsValue digits)

/-- `*((T *)spec->data) = v`. -/
def assign (spec : Cflag δ) (v : Value F) (st : FlagState δ F) : Except Fault (FlagState δ F) :=
  match spec.data with
  | none => .error .nullDereference
  | some place => .ok { st with data := Function.update st.data place (some v) }

/-- The functions, called with a flag. One that needs an argument reads it at once, so
there is no result without one; a number that is no `int` has an undefined conversion. -/
def callFunc (spec : Cflag δ) (arg : Option Text) (st : FlagState δ F) :
    Except Fault (CflagStatus × FlagState δ F) :=
  match spec.func, arg with
  | .bool, _ => do
    let st ← assign spec (.bool true) st
    return (.ok, st)
  | .int, none => .error .nullDereference
  | .int, some arg =>
    match scanInt arg with
    | none => return (.badFormat, st)
    | some z => do
      let z ← checkInt z
      let st ← assign spec (.int z) st
      return (.ok, st)
  | .double, none => .error .nullDereference
  | .double, some arg =>
    let v := strtod arg
    let st := { st with erange := st.erange || v.erange }
    if st.erange || v.endptr != [] then return (.badFormat, st)
    else do
      let st ← assign spec (.double v.value) st
      return (.ok, st)
  | .string, none => .error .nullDereference
  | .string, some arg => do
    let st ← assign spec (.string arg) st
    return (.ok, st)
  | .help, _ => return (.showHelp, st)

/-- The flag that an argument names, and whether it is negated. A name that no flag
has is looked up without `no-` in front, and that flag is read even if there is none. -/
def findFlag (specs : List (Cflag δ)) (arg : Text) : Except Fault (Option (Cflag δ) × Bool) :=
  if isShortFlag arg then return (findShort specs (arg.getD 1 ' '), false)
  else
    match findLong specs (arg.drop 2) with
    | some spec => return (some spec, false)
    | none =>
      if isNegated arg then
        match findLong specs (arg.drop 5) with
        | none => .error .nullDereference
        | some negspec =>
          if negspec.func = .bool then return (some negspec, true) else return (none, false)
      else return (none, false)

/-- The call of the function of a flag, and the fixup for a negated one. -/
def applyFlag (spec : Cflag δ) (negated : Bool) (arg : Option Text) (st : FlagState δ F) :
    Except Fault (CflagStatus × FlagState δ F) := do
  let (status, st) ← callFunc strtod spec arg st
  if status ≠ .ok then return (status, st)
  else if spec.func = .bool && negated then
    let st ← assign spec (.bool false) st
    return (.ok, st)
  else return (.ok, st)

/-- Yields the status, the arguments from where it has stopped, and the memory. -/
def cflagParse (specs : List (Cflag δ)) :
    List Text → FlagState δ F → Except Fault (CflagStatus × List Text × FlagState δ F)
  | [], st => return (.ok, [], st)
  | arg :: rest, st =>
    if arg = ['-', '-'] then return (.ok, arg :: rest, st)
    else if !isShortFlag arg && !isLongFlag arg then return (.ok, arg :: rest, st)
    else do
      let (spec, negated) ← findFlag specs arg
      match spec with
      | none => return (.undefined, arg :: rest, st)
      | some spec =>
        if needsArg spec then
          match rest with
          | [] => return (.needsArg, [arg], st)
          | value :: rest =>
            let (status, st) ← applyFlag strtod spec negated (some value) st
            if status ≠ .ok then return (status, value :: rest, st)
            else cflagParse specs rest st
        else
          let (status, st) ← applyFlag strtod spec negated none st
          if status ≠ .ok then return (status, arg :: rest, st)
          else cflagParse specs rest st

def cflagStatusName : CflagStatus → Text
  | .ok => "success".toList
  | .showHelp => "help requested".toList
  | .undefined => "no such option".toList
  | .badFormat => "argument has invalid format".toList
  | .needsArg => "missing argument".toList

/-- What follows the last `/`, or all of it. -/
def baseName (path : Text) : Text := (path.splitOn '/').getLastD path

/-- How `cflag_apply` ends: with the program's name and the remaining arguments, with
the usage text on standard output and success, or with a message and failure. -/
inductive Applied (δ F : Type)
  | returned (name : Text) (rest : List Text) (st : FlagState δ F)
  | usage (name : Text)
  | failed (message : Text)

def cflagApply (specs : List (Cflag δ)) (argv : List Text) (st : FlagState δ F) :
    Except Fault (Applied δ F) :=
  match argv with
  | [] => .error .nullDereference
  | argv0 :: argv => do
    let name := baseName argv0
    let (status, rest, st) ← cflagParse strtod specs argv st
    match status with
    | .showHelp => return .usage name
    | .ok => return .returned name rest st
    | status => return .failed (name ++ ": ".toList ++ cflagStatusName status ++ ": '".toList ++
        rest.headD [] ++ "'\n".toList)

end AcaBSim.Flags
