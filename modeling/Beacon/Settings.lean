import Beacon.Settings.Value
import Beacon.Text.Utf8

/-!
# Settings

Where the server listens, how it treats connections, and the program that drives the light. Settings
come from a file in TOML, from the command line, or both; what nobody sets keeps its default.
-/

namespace Beacon

/-- The settings of a server. -/
structure Settings where
  host : String
  port : UInt16
  /-- Whether connections are handled beside each other instead of one after the other. -/
  concurrent : Bool
  /-- Whether a new effect stops the running one, if connections are handled beside each other. -/
  preempt : Bool
  /-- The program that drives the light, and its arguments. -/
  driver : List String
  deriving DecidableEq, Repr

/-- Why a settings file can not be used. -/
inductive SettingsError
  | fileAccess | toml | unsupportedFormat
  deriving DecidableEq, Repr

/-- What is said about a settings file that can not be used. -/
def SettingsError.message : SettingsError → String
  | fileAccess => "couldn't read config file"
  | toml => "couldn't parse TOML file"
  | unsupportedFormat => "don't know how to parse file"

namespace Settings

/-- What holds where nothing is set. -/
def default : Settings := ⟨"localhost", 3333, false, false, ["catlight", "cat"]⟩

/-- The address to listen on. -/
def listenAddress (s : Settings) : String := s.host ++ ":" ++ toString s.port.toNat

/-- The settings with one entry of a file added. An unknown key and a value of the wrong type are
refused. -/
def set? (s : Settings) (key : String) (value : Value) : Option Settings :=
  match value with
  | .text host => if key = "host" then some { s with host } else none
  | .integer n =>
    if key = "port" ∧ 0 ≤ n ∧ n < 65536 then some { s with port := UInt16.ofNat n.toNat } else none
  | .truth b =>
    if key = "async" then some { s with concurrent := b }
    else if key = "preempt" then some { s with preempt := b }
    else none
  | .texts driver => if key = "driver" then some { s with driver } else none

/-- The settings of a file. No key may occur twice. -/
def ofChars? (cs : List Char) : Option Settings := do
  let entries ← entries? cs
  if (entries.map Prod.fst).Nodup then
    entries.foldlM (fun s (key, value) => s.set? key value) default
  else none

/-- The settings of a file from its bytes, if it can be read at all. -/
def ofBytes (bytes : Option (List UInt8)) : Except SettingsError Settings :=
  match bytes.bind Text.decode? with
  | none => .error .fileAccess
  | some cs =>
    match ofChars? cs with
    | none => .error .toml
    | some s => .ok s

/-- The extension of a file name: what stands behind its last point, if something stands before it.
-/
def extension? (name : List Char) : Option (List Char) :=
  match (Text.fields '.' name).reverse with
  | extension :: rest@(_ :: _) =>
    if rest = [[]] then none else some extension
  | _ => none

/-- The last part of a path that names something. -/
def fileName (path : List Char) : List Char :=
  ((Text.fields '/' path).filter fun part => part ≠ [] ∧ part ≠ ['.']).getLastD []

/-- Whether the name of a file says that it is in TOML. -/
def isToml (path : String) : Bool :=
  (extension? (fileName path.toList)).any fun e => e.map Char.toLower = "toml".toList

/-- The settings of the file at a path, of which `read` gives the bytes. The name of the file
decides first. -/
def load (read : String → Option (List UInt8)) (path : String) : Except SettingsError Settings :=
  if isToml path then ofBytes (read path) else .error .unsupportedFormat

end Settings

end Beacon
