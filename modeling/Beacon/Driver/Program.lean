import Beacon.Text.Field
import Beacon.Text.Numeral
import Beacon.Text.Utf8

/-!
# Driver programs

A light is driven by a program that reads frame lines until its input ends. What such a program does
with them is a function of its arguments and its input: the bytes it prints and the files it writes.
This module knows the filters that stand in for a light while none is attached: `cat`, `tee`, `tr`
and `sort`, and a shell that runs a pipeline of them.
-/

namespace Beacon.Driver

/-- What a program leaves behind. -/
structure Output where
  printed : List UInt8
  files : List (String × List UInt8)
  deriving DecidableEq, Repr

/-- A program that has been found and has got its arguments. -/
abbrev Program := List UInt8 → Output

namespace Program

/-- Prints its input, changed by a function. -/
def filter (f : List UInt8 → List UInt8) : Program := fun input => ⟨f input, []⟩

/-- The program that passes the output of one on to another. -/
def pipe (p q : Program) : Program := fun input =>
  let first := p input
  let second := q first.printed
  ⟨second.printed, first.files ++ second.files⟩

/-- The program that writes what it would print into a file. -/
def into (path : String) (p : Program) : Program := fun input =>
  let out := p input
  ⟨[], out.files ++ [(path, out.printed)]⟩

/-- Replaces the bytes of one list by those at the same places of another. -/
def translate (old new : List UInt8) (input : List UInt8) : List UInt8 :=
  input.map fun b => ((old.zip new).lookup b).getD b

/-- The number at the start of a line, blanks before it aside. -/
def leading (line : List UInt8) : Nat :=
  let digits := (line.dropWhile (· = 0x20)).takeWhile fun b => 0x30 ≤ b ∧ b ≤ 0x39
  digits.foldl (fun n b => 10 * n + (b.toNat - 0x30)) 0

/-- Sorts lines by their bytes, or first by the numbers that they start with. -/
def sortLines (numeric reverse : Bool) (input : List UInt8) : List UInt8 :=
  let before (a b : List UInt8) : Bool :=
    if numeric ∧ leading a ≠ leading b then leading a < leading b else decide (a ≤ b)
  let sorted := (Text.lines 0x0A input).mergeSort before
  (if reverse then sorted.reverse else sorted).flatMap (· ++ [0x0A])

/-- The programs that need no shell. -/
def find? : List String → Option Program
  | ["cat"] | ["cat", "-"] => some (filter id)
  | ["tee"] => some (filter id)
  | ["tee", path] => some fun input => ⟨input, [(path, input)]⟩
  | ["tr", old, new] =>
    some (filter (translate (Text.encode old.toList) (Text.encode new.toList)))
  | "sort" :: flags =>
    if flags.all (["-n", "-r", "-nr", "-rn"].contains ·) then
      let has (c : Char) := flags.any (·.toList.contains c)
      some (filter (sortLines (has 'n') (has 'r')))
    else none
  | ["true"] => some (filter fun _ => [])
  | _ => none

end Program

/-! ## The shell -/

/-- A piece of a shell script. -/
inductive Lexeme
  | word (text : String)
  | pipe
  | into
  deriving DecidableEq, Repr

/-- How the characters of a script are read. -/
inductive Quoting
  | bare | single | double
  deriving DecidableEq, Repr

/-- The word that has been collected so far, as a list of lexemes. -/
def finishWord : Option (List Char) → List Lexeme
  | none => []
  | some cs => [.word (String.ofList cs.reverse)]

/-- The lexemes of a script, in which `$0`, `$1`, … stand for parameters. -/
def lexemes (parameters : List String) :
    Quoting → Option (List Char) → List Char → List Lexeme
  | _, current, [] => finishWord current
  | .single, current, c :: rest =>
    if c = '\'' then lexemes parameters .bare (some (current.getD [])) rest
    else lexemes parameters .single (some (c :: current.getD [])) rest
  | quoting, current, c :: rest =>
    let more (cs : List Char) := some (cs.reverse ++ current.getD [])
    if c = '"' then
      lexemes parameters (if quoting = .bare then .double else .bare) (more []) rest
    else if c = '$' then
      match rest with
      | d :: rest =>
        if d.isDigit then
          lexemes parameters quoting
            (more ((parameters.getD (d.toNat - '0'.toNat) "").toList)) rest
        else lexemes parameters quoting (more ['$', d]) rest
      | [] => finishWord (more ['$'])
    else if quoting = .double then lexemes parameters .double (more [c]) rest
    else if c = '\'' then lexemes parameters .single (more []) rest
    else if c = ' ' then finishWord current ++ lexemes parameters .bare none rest
    else if c = '|' then finishWord current ++ .pipe :: lexemes parameters .bare none rest
    else if c = '>' then finishWord current ++ .into :: lexemes parameters .bare none rest
    else lexemes parameters .bare (more [c]) rest

/-- One command of a pipeline, with the file that it writes into, if there is one. -/
def command? (parts : List Lexeme) : Option Program :=
  let texts (parts : List Lexeme) : List String := parts.filterMap fun
    | .word text => some text
    | _ => none
  match Text.fields .into parts with
  | [words] => Program.find? (texts words)
  | [words, [.word path]] => (Program.find? (texts words)).map (Program.into path)
  | _ => none

/-- A pipeline of commands. -/
def pipeline? : List (List Lexeme) → Option Program
  | [] => none
  | [parts] => command? parts
  | parts :: rest => do
    let first ← command? parts
    let others ← pipeline? rest
    return first.pipe others

/-- A program by its command line. The shell can always be started; a script that it can not run
prints nothing. -/
def program? : List String → Option Program
  | "sh" :: "-c" :: script :: parameters =>
    let pieces := lexemes parameters .bare none script.toList
    some ((pipeline? (Text.fields .pipe pieces)).getD (Program.filter fun _ => []))
  | words => Program.find? words

end Beacon.Driver
