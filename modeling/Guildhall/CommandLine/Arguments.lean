-- SUMMARY: The arguments of the command, what they ask for, and which ones make no sense.
import Guildhall.Decimal.Reading
import Guildhall.Id

/-!
# Arguments

The command takes options and then, if any, the name of a subcommand with arguments of its own.
Arguments are read from left to right. An option with a value is only settled when the next
argument of the same command is read, so what is wrong with it comes to light before a request
for help that follows it.
-/

namespace Guildhall.CommandLine

/-- What the command is to do. -/
inductive Command where
  | serve
  /-- Print a token for a user, with a lifetime in seconds if one is given. -/
  | token (user : Id) (lifetime : Option Nat)
  deriving DecidableEq

structure Invocation where
  /-- Whether to keep the records in memory though there is a database. -/
  memory : Bool
  /-- The file with the records to start with. -/
  seed : Option String
  command : Command
  deriving DecidableEq

/-- Why the arguments are not carried out. -/
inductive Ending where
  | help
  | version
  | misuse
  deriving DecidableEq, Repr

/-! ## Grammars -/

/-- The arguments that a command or a subcommand takes. -/
structure Grammar where
  /-- The options without a value. -/
  flags : List String
  /-- The options with a value. -/
  options : List String
  /-- The argument that is not an option, if it takes one. -/
  operand : Option String
  subcommands : List String
  /-- Whether it can tell its version. -/
  versioned : Bool

def Grammar.main : Grammar := ⟨["memory"], ["seed"], none, ["serve", "token", "help"], true⟩

def Grammar.serve : Grammar := ⟨[], [], none, [], false⟩

def Grammar.token : Grammar := ⟨[], ["ttl"], some "user", [], false⟩

/-- The greatest lifetime that can be asked for. -/
def longest : Nat := UInt64.size - 1

/-- Whether a value will do for an option or an operand. -/
def fits (name value : String) : Bool :=
  if name = "seed" then value ≠ ""
  else if name = "ttl" then (natural? longest value.toList).isSome
  else if name = "user" then (Id.ofString? value).isSome
  else true

/-! ## Reading -/

/-- What has been read of the arguments. -/
structure Progress where
  /-- The flags, and the options and operands with their values. -/
  settled : List (String × String)
  /-- The option or operand that was read last, with its value if it has one yet. -/
  pending : Option (String × Option String)
  /-- Whether no more options can follow. -/
  trailing : Bool
  deriving DecidableEq, Repr

namespace Progress

def start : Progress := ⟨[], none, false⟩

def find? (p : Progress) (name : String) : Option String :=
  (p.settled.find? fun v => v.1 == name).map (·.2)

/-- Settles a flag or a value; each can be given once. -/
def settle (p : Progress) (name value : String) : Except Ending Progress :=
  if (p.find? name).isSome ∨ fits name value = false then .error .misuse
  else .ok { p with settled := p.settled ++ [(name, value)] }

/-- Settles what is pending. -/
def finish (p : Progress) : Except Ending Progress :=
  match p.pending with
  | none => .ok p
  | some (_, none) => .error .misuse
  | some (name, some value) => { p with pending := none }.settle name value

/-- Whether an option waits for its value. -/
def awaiting (p : Progress) : Bool :=
  match p.pending with
  | some (_, none) => true
  | _ => false

/-- Reads an option by its long name, with the value behind its equals sign. -/
def option (g : Grammar) (p : Progress) (name : String) (value : Option String) :
    Except Ending Progress := do
  if g.options.contains name then
    let p ← p.finish
    match value with
    | some v => p.settle name v
    | none => return { p with pending := some (name, none) }
  else
    let known := name = "help" ∨ (name = "version" ∧ g.versioned) ∨ g.flags.contains name
    if ¬ known ∨ value.isSome then throw .misuse
    let p ← p.finish
    if name = "help" then throw .help
    else if name = "version" then throw .version
    else p.settle name ""

/-- Reads options of one letter. None has a value. -/
def letters (g : Grammar) (p : Progress) : List Char → Except Ending Progress
  | [] => .ok p
  | c :: _ => do
    if ¬ (c = 'h' ∨ (c = 'V' ∧ g.versioned)) then throw .misuse
    let _ ← p.finish
    throw (if c = 'h' then .help else .version)

/-- Reads an argument that is neither an option nor the value of one. -/
def operand (g : Grammar) (p : Progress) (arg : String) : Except Ending Progress :=
  match g.operand with
  | none => .error .misuse
  | some name =>
    if (p.find? name).isSome ∨ p.pending.map (·.1) = some name then .error .misuse
    else do
      let p ← p.finish
      return { p with pending := some (name, some arg) }

/-- Cuts the text of a long option at its first equals sign. -/
def splitOption (cs : List Char) : String × Option String :=
  let name := String.ofList (cs.takeWhile (· != '='))
  match cs.dropWhile (· != '=') with
  | _ :: value => (name, some (String.ofList value))
  | [] => (name, none)

/-- Reads one argument that is no subcommand. -/
def read (g : Grammar) (p : Progress) (arg : String) : Except Ending Progress :=
  if p.trailing then p.operand g arg
  else
    match arg.toList with
    | ['-', '-'] => .ok { p with trailing := true }
    | '-' :: '-' :: cs => let (name, value) := splitOption cs; p.option g name value
    | '-' :: c :: cs => p.letters g (c :: cs)
    | _ =>
      match p.pending with
      | some (name, none) => .ok { p with pending := some (name, some arg) }
      | _ => p.operand g arg

/-- Whether an argument is the name of a subcommand. -/
def isSubcommand (g : Grammar) (p : Progress) (arg : String) : Bool :=
  !p.trailing && !p.awaiting && g.subcommands.contains arg

/-- Reads arguments up to the name of a subcommand; that name and what follows is returned. -/
def readAll (g : Grammar) (p : Progress) : List String → Except Ending (Progress × List String)
  | [] => .ok (p, [])
  | arg :: args =>
    if p.isSubcommand g arg then .ok (p, arg :: args)
    else do readAll g (← p.read g arg) args

end Progress

/-! ## Invocations -/

/-- Reads the arguments of a subcommand. -/
def readSubcommand (g : Grammar) (args : List String) : Except Ending Progress := do
  let (p, _) ← Progress.start.readAll g args
  p.finish

/-- Whether help can be asked for about these names. -/
def helpTopics (names : List String) : Bool :=
  match names with
  | [] => true
  | [name] => Grammar.main.subcommands.contains name
  | _ => false

/-- Reads a subcommand, by its name. -/
def readCommand (name : String) (args : List String) : Except Ending Command := do
  if name = "help" then
    throw (if helpTopics args then .help else .misuse)
  else if name = "token" then
    let p ← readSubcommand .token args
    match (p.find? "user").bind Id.ofString? with
    | none => throw .misuse
    | some user =>
      return .token user ((p.find? "ttl").bind fun text => natural? longest text.toList)
  else
    let _ ← readSubcommand .serve args
    return .serve

/-- Whether to keep the records in memory: as the flag says, and without it as the variable
`HEARTH_MEMORY` says. -/
def readMemory (p : Progress) (given : Option String) : Except Ending Bool :=
  if (p.find? "memory").isSome then .ok true
  else if given = none ∨ given = some "false" then .ok false
  else if given = some "true" then .ok true
  else .error .misuse

/-- Reads all arguments. -/
def readArguments (args : List String) (memoryVariable : Option String) :
    Except Ending Invocation := do
  let (p, rest) ← Progress.start.readAll .main args
  let command ←
    match rest with
    | [] => pure .serve
    | name :: args => readCommand name args
  let p ← p.finish
  let memory ← readMemory p memoryVariable
  return { memory, seed := p.find? "seed", command }

end Guildhall.CommandLine
