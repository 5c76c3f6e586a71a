/-
SettingProfiles.CommandLine.Arguments — reading the arguments of a call.

A call names a subcommand, with options before and behind it. An option is
`--name value` or `--name=value`; a value that begins with a dash can only
be given in the second form, or behind `--`, from where on everything is an
operand. The options for the configuration and the data directory may stand
on either side of the subcommand, once on each: the one behind it counts
more, and what the environment says counts least. Arguments are read from
left to right, and the first one that is an error, or asks for help or the
version, decides.

  §1 Requests
  §2 Scanning — options and operands.
  §3 Calls
-/
import SettingProfiles.Config

namespace SettingProfiles

/-! ## §1 Requests -/

/-- What a call asks for. -/
inductive Request where
  | list
  /-- Shows a profile without making it current. -/
  | describe (name : String)
  /-- Saves a profile with settings written `KEY=VALUE`. -/
  | save (name : String) (pairs : List String)
  | load (name : String)
  | delete (name : String)
  | makeCurrent (name : String)
  | current
  | contains (name : String)
  | bindMode (mode id : String)
  | modeBinding (mode : String)
  | exportDocument
  | importFile (path : String)
  | reset
  deriving DecidableEq

namespace Request

/-- The names of the subcommands. -/
def names : List String :=
  ["list", "show", "save", "load", "delete", "use", "current", "exists", "bind", "binding",
    "export", "import", "reset"]

/-- The request of a subcommand with these operands and pairs, if they are the right
number. -/
def of? (name : String) (operands pairs : List String) : Option Request :=
  match name, operands with
  | "list", [] => some .list
  | "show", [name] => some (.describe name)
  | "save", [name] => some (.save name pairs)
  | "load", [name] => some (.load name)
  | "delete", [name] => some (.delete name)
  | "use", [name] => some (.makeCurrent name)
  | "current", [] => some .current
  | "exists", [name] => some (.contains name)
  | "bind", [mode, id] => some (.bindMode mode id)
  | "binding", [mode] => some (.modeBinding mode)
  | "export", [] => some .exportDocument
  | "import", [path] => some (.importFile path)
  | "reset", [] => some .reset
  | _, _ => none

/-- How many operands a subcommand takes. -/
def operandCount (name : String) : Nat :=
  if name ∈ ["list", "current", "export", "reset"] then 0
  else if name = "bind" then 2
  else 1

end Request

/-! ## §2 Scanning -/

/-- Why a call does not get to its request. -/
inductive Halt where
  | help
  | version
  | invalid
  deriving DecidableEq

/-- What may stand on one side of the subcommand. -/
structure Side where
  /-- Before the subcommand, whose name the first operand is. -/
  isFirst : Bool
  takesPairs : Bool
  /-- How many operands may follow. -/
  room : Nat
  /-- The operands are paths, and a path is not empty. -/
  takesPaths : Bool
  deriving DecidableEq

/-- The two sides of the subcommand. -/
def Side.first : Side := ⟨true, false, 0, false⟩

def Side.behind (subcommand : String) : Side :=
  ⟨false, subcommand = "save", Request.operandCount subcommand, subcommand = "import"⟩

/-- What stands on one side of the subcommand. -/
structure Scanned where
  config : Option String
  dataDirectory : Option String
  pairs : List String
  operands : List String
  deriving DecidableEq

namespace Scanned

def empty : Scanned := ⟨none, none, [], []⟩

/-- Takes in the value of an option; each but `--set` may be given only once. -/
def addOption? (s : Scanned) (name value : String) : Option Scanned :=
  match name with
  | "config" =>
    if s.config.isSome || value = "" then none else some { s with config := some value }
  | "data-dir" =>
    if s.dataDirectory.isSome || value = "" then none
    else some { s with dataDirectory := some value }
  | "set" => some { s with pairs := s.pairs ++ [value] }
  | _ => none

/-- Takes in an operand, if there is room for it. -/
def addOperand? (s : Scanned) (side : Side) (operand : String) : Option Scanned :=
  if side.room ≤ s.operands.length || (side.takesPaths && operand = "") then none
  else some { s with operands := s.operands ++ [operand] }

end Scanned

/-- What an argument is by its form. -/
inductive ArgumentForm where
  /-- The argument `--`. -/
  | escape
  | long (name : String) (value : Option String)
  /-- A single dash and a letter. -/
  | short (letter : Char)
  | operand
  deriving DecidableEq

def ArgumentForm.of (argument : String) : ArgumentForm :=
  match argument.toList with
  | ['-', '-'] => .escape
  | '-' :: '-' :: rest =>
    let value :=
      match rest.dropWhile (· ≠ '=') with
      | _ :: value => some (String.ofList value)
      | [] => none
    .long (String.ofList (rest.takeWhile (· ≠ '='))) value
  | '-' :: c :: _ => .short c
  | _ => .operand

/-- The options that take a value. -/
def Side.hasOption (side : Side) (name : String) : Bool :=
  name = "config" || name = "data-dir" || (side.takesPairs && name = "set")

/-- Operands only. -/
def scanOperands (side : Side) : List String → Scanned → Except Halt Scanned
  | [], s => .ok s
  | operand :: rest, s =>
    match s.addOperand? side operand with
    | some s => scanOperands side rest s
    | none => .error .invalid

/-- Scans one side of the subcommand. On the first side the scan ends at the first
operand, which is given back with what follows it. -/
def scan (side : Side) : List String → Scanned → Except Halt (Scanned × List String)
  | [], s => .ok (s, [])
  | argument :: rest, s =>
    match ArgumentForm.of argument with
    | .escape => (scanOperands side rest s).map fun s => (s, [])
    | .long name (some value) =>
      if side.hasOption name then
        match s.addOption? name value with
        | some s => scan side rest s
        | none => .error .invalid
      else .error .invalid
    | .long name none =>
      if name = "help" then .error .help
      else if name = "version" && side.isFirst then .error .version
      else if side.hasOption name then
        match rest with
        | value :: rest =>
          if ArgumentForm.of value = .operand then
            match s.addOption? name value with
            | some s => scan side rest s
            | none => .error .invalid
          else .error .invalid
        | [] => .error .invalid
      else .error .invalid
    | .short letter =>
      if letter = 'h' then .error .help
      else if letter = 'V' && side.isFirst then .error .version
      else .error .invalid
    | .operand =>
      if side.isFirst then .ok (s, argument :: rest)
      else
        match s.addOperand? side argument with
        | some s => scan side rest s
        | none => .error .invalid

/-! ## §3 Calls -/

/-- The variables of the environment that a call looks at, as far as they are set. -/
structure Variables where
  environment : Environment
  config : Option String
  dataDirectory : Option String
  deriving DecidableEq

/-- A call whose arguments are in order. -/
structure Invocation where
  config : Option String
  dataDirectory : Option String
  request : Request
  deriving DecidableEq

/-- The value of an option that may be given on either side or by the environment.
What the environment says must not be empty, unless both sides give a value. -/
def chosen (first behind environment : Option String) : Except Halt (Option String) :=
  match first, behind with
  | some _, some value => .ok (some value)
  | _, _ => if environment = some "" then .error .invalid
    else .ok (behind <|> first <|> environment)

/-- The answer to the subcommand `help`, which may name one subcommand. -/
def helpFor : List String → Halt
  | [] => .help
  | [topic] => if topic ∈ "help" :: Request.names then .help else .invalid
  | _ => .invalid

/-- The call that the arguments describe. -/
def Invocation.read (vars : Variables) (arguments : List String) :
    Except Halt Invocation := do
  match ← scan .first arguments .empty with
  | (_, []) => throw .invalid
  | (first, name :: rest) =>
    if name = "help" then throw (helpFor rest)
    else if name ∈ Request.names then
      let (behind, _) ← scan (.behind name) rest .empty
      let config ← chosen first.config behind.config vars.config
      let dataDirectory ← chosen first.dataDirectory behind.dataDirectory vars.dataDirectory
      match Request.of? name behind.operands behind.pairs with
      | some request => return ⟨config, dataDirectory, request⟩
      | none => throw .invalid
    else throw .invalid

end SettingProfiles
