import Beacon.Text.Numeral

/-!
# Command lines

A command line is read from left to right by a list of options: `--name value`, `--name=value`,
`-n value`, `-nvalue` or `-n=value`, flags without a value, and operands. The values of an option
are looked at when the option is complete: at once if a value is attached to it, else when something
that is not its value comes, or at the end. What no option or operand accounts for is refused
before the values of an option that stands before it.
-/

namespace Beacon.Arguments

/-- Why a command line is refused; a question for help ends the reading as well. -/
inductive UsageError
  | unknownArgument | missingValue | badValue | repeated | unwantedValue | missingOperand | help
  deriving DecidableEq, Repr

/-- How many values an option takes. -/
inductive Arity
  | flag | single | many
  deriving DecidableEq, Repr

/-- What a value must look like. A path must not be empty, and an empty one counts as none at all.
-/
inductive Form
  | anything | path | port
  deriving DecidableEq, Repr

/-- A port: a decimal number of 16 bits, with a sign if need be. -/
def port? (text : String) : Option UInt16 :=
  (Text.integerWithin? 0 65535 text.toList).map fun n => UInt16.ofNat n.toNat

/-- Checks the form of a value. -/
def Form.check (form : Form) (text : String) : Except UsageError Unit :=
  match form with
  | anything => .ok ()
  | path => if text = "" then .error .missingValue else .ok ()
  | port => if (port? text).isSome then .ok () else .error .badValue

/-- A parameter: its long name, its short one, and its values. -/
structure Parameter where
  name : String
  short : Option Char
  arity : Arity
  form : Form
  deriving DecidableEq, Repr

/-- What a command line may consist of. -/
structure Grammar where
  options : List Parameter
  operands : Bool
  deriving DecidableEq, Repr

/-- The option that asks for help; every command line may have it. -/
def helpOption : Parameter := ⟨"help", some 'h', .flag, .anything⟩

/-- An option whose values are still being collected. -/
structure Pending where
  option : Parameter
  values : List String
  /-- Whether the next word can be another value. -/
  hungry : Bool
  deriving DecidableEq, Repr

/-- What has been read: the completed options with their values, the operands, the option that is
not complete yet, and whether options have ended. -/
structure Reading where
  found : List (String × List String)
  operands : List String
  pending : Option Pending
  ended : Bool
  deriving DecidableEq, Repr

namespace Reading

/-- Nothing has been read. -/
def start : Reading := ⟨[], [], none, false⟩

/-- Takes up an option with its values. An option with values needs at least one; only an option
that takes many values may be repeated. -/
def accept (r : Reading) (o : Parameter) (values : List String) : Except UsageError Reading := do
  if o.name = helpOption.name then throw .help
  if o.arity ≠ .flag ∧ values = [] then throw .missingValue
  if o.arity ≠ .many ∧ (r.found.lookup o.name).isSome then throw .repeated
  values.forM o.form.check
  let before := (r.found.lookup o.name).getD []
  return { r with found := (o.name, before ++ values) :: r.found.filter (·.1 ≠ o.name) }

/-- Completes the option that is pending. -/
def settle (r : Reading) : Except UsageError Reading :=
  match r.pending with
  | none => .ok r
  | some p => { r with pending := none }.accept p.option p.values

/-- Takes up an option together with the value attached to it, if there is one; an option that still
needs its value becomes pending. -/
def takeOption (r : Reading) (o : Parameter) (attached : Option String) :
    Except UsageError Reading := do
  let r ← r.settle
  match attached, o.arity with
  | some value, _ => r.accept o [value]
  | none, .flag => r.accept o []
  | none, _ => return { r with pending := some ⟨o, [], true⟩ }

/-- The word `--name` or `--name=value`. -/
def long (g : Grammar) (r : Reading) (word : List Char) : Except UsageError Reading :=
  let name := String.ofList (word.takeWhile (· ≠ '='))
  let attached := match word.dropWhile (· ≠ '=') with
    | [] => none
    | _ :: value => some (String.ofList value)
  match (helpOption :: g.options).find? (·.name = name) with
  | none => .error .unknownArgument
  | some o =>
    if o.arity = .flag ∧ attached.isSome then .error .unwantedValue
    else r.takeOption o attached

/-- The letters behind a single dash: flags, up to an option whose value is the rest of the word,
with or without a `=` before it. -/
def letters (g : Grammar) (r : Reading) : List Char → Except UsageError Reading
  | [] => .ok r
  | c :: rest =>
    match (helpOption :: g.options).find? (·.short = some c) with
    | none => .error .unknownArgument
    | some o =>
      if o.arity = .flag then do letters g (← r.takeOption o none) rest
      else match rest with
        | [] => r.takeOption o none
        | '=' :: value => r.takeOption o (some (String.ofList value))
        | value => r.takeOption o (some (String.ofList value))

/-- A word that is no option: a value of the pending option, or an operand. -/
def plain (g : Grammar) (r : Reading) (word : String) : Except UsageError Reading :=
  match r.pending, r.ended with
  | some ⟨o, values, true⟩, false =>
    .ok { r with pending := some ⟨o, values ++ [word], o.arity = .many⟩ }
  | _, _ =>
    if g.operands then do
      let r ← r.settle
      return { r with operands := r.operands ++ [word] }
    else .error .unknownArgument

/-- The next word. -/
def word (g : Grammar) (r : Reading) (word : String) : Except UsageError Reading :=
  if r.ended then r.plain g word
  else match word.toList with
    | ['-', '-'] => .ok { r with ended := true }
    | '-' :: '-' :: rest => r.long g rest
    | '-' :: c :: rest => r.letters g (c :: rest)
    | _ => r.plain g word

/-- The values of an option. -/
def values (r : Reading) (name : String) : List String := (r.found.lookup name).getD []

/-- The value of an option that takes one. -/
def value? (r : Reading) (name : String) : Option String := (r.values name).head?

/-- Whether an option was given. -/
def given (r : Reading) (name : String) : Bool := (r.found.lookup name).isSome

end Reading

/-- Reads a command line. Where operands are allowed, there must be one. -/
def read (g : Grammar) (words : List String) : Except UsageError Reading := do
  let r ← words.foldlM (Reading.word g) Reading.start
  let r ← r.settle
  if g.operands ∧ r.operands = [] then throw .missingOperand
  return r

end Beacon.Arguments
