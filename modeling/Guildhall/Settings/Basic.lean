-- SUMMARY: The settings of the service, what can be wrong with them, and how they are gathered from their sources.
import Guildhall.Limits
import Guildhall.Settings.Environment
import Guildhall.Settings.Toml.Text

/-!
# Settings

`Settings.load` gathers the settings: the defaults, then the configuration file, then the
environment. Each section is read by the names of its settings; a section that is given as a
list is read in their order.
-/

namespace Guildhall

structure ServerSettings where
  /-- The address to listen on. -/
  host : String
  port : Nat
  deriving DecidableEq

structure DatabaseSettings where
  /-- Where the database is; without one the records are kept in memory. -/
  url : Option String
  maxConnections : Nat
  minConnections : Nat
  deriving DecidableEq

structure AuthSettings where
  /-- The secret that signs the tokens. -/
  secret : String
  /-- How long tokens are valid, in seconds. -/
  lifetime : Nat
  deriving DecidableEq

structure Settings where
  server : ServerSettings
  database : DatabaseSettings
  auth : AuthSettings
  limits : Limits
  deriving DecidableEq

namespace Settings

/-- What a setting needs to be. -/
inductive Wanted where
  | text
  /-- A natural number of 64 bits. -/
  | count
  /-- A natural number of so many bits. -/
  | word (bits : Nat)
  deriving DecidableEq, Repr

/-- A group of settings. -/
structure Section where
  key : String
  /-- What the section is called where something else stands in its place. -/
  title : String
  fields : List String
  deriving DecidableEq, Repr

/-- What can be wrong with the settings. -/
inductive Error where
  /-- The configuration file goes wrong at a line and a column. -/
  | malformedFile (line column : Nat)
  /-- A setting has a value that cannot be read as what it needs. -/
  | mistyped (key : String) (found : Value) (wanted : Wanted)
  /-- A setting has a number that is too large for it. -/
  | tooLarge (key : String) (found bits : Nat)
  /-- A section lacks a setting. -/
  | missing (group : Section) (field : String)
  /-- A section is neither a table nor a list. -/
  | notSection (group : Section) (found : Value)
  /-- A section is a list with too few items. -/
  | tooShort (group : Section) (count : Nat)

/-! ## Messages -/

/-- A text in quotes. -/
def quoted (s : String) : String :=
  "\"" ++ String.join (s.toList.map fun c =>
    if c = '"' then "\\\"" else if c = '\\' then "\\\\" else if c = '\n' then "\\n"
    else if c = '\r' then "\\r" else if c = '\t' then "\\t" else c.toString) ++ "\""

def ticked (s : String) : String := "`" ++ s ++ "`"

/-- A value, as messages about one setting show it. -/
def describe : Value → String
  | .gap => "unit value"
  | .scalar (.flag b) _ => "boolean " ++ ticked (Scalar.flag b).asText
  | .scalar (.integer n) _ => "64-bit integer " ++ ticked (Scalar.integer n).asText
  | .scalar (.real x) _ => "floating point " ++ ticked x.text
  | .scalar (.text s) _ => "string " ++ quoted s
  | .list _ => "sequence"
  | .table _ => "map"

/-- A value, as messages about a whole section show it. -/
def describeSection : Value → String
  | .scalar (.integer n) _ => "integer " ++ ticked (Scalar.integer n).asText
  | v => describe v

/-- Where a value was given, as messages show it. -/
def origin : Value → String
  | .scalar _ (some source) => " in " ++ source.name
  | _ => ""

def Wanted.name (found : Value) : Wanted → String
  | text => "a string"
  | count | word _ =>
    match found with
    | .scalar (.integer _) _ => "an unsigned 64 bit or less integer"
    | _ => "an integer"

def Error.message : Error → String
  | malformedFile line column =>
    "TOML parse error at line " ++ toString line ++ ", column " ++ toString column
  | mistyped key found wanted =>
    "invalid type: " ++ describe found ++ ", expected " ++ wanted.name found
      ++ " for key " ++ ticked key ++ origin found
  | tooLarge key found bits =>
    "invalid type: 64-bit unsigned integer " ++ ticked (toString found)
      ++ ", expected an unsigned " ++ toString bits ++ " bit integer for key " ++ ticked key
  | missing s field => "missing field " ++ ticked field ++ " for key " ++ ticked s.key
  | notSection s found =>
    "invalid type: " ++ describeSection found ++ ", expected struct " ++ s.title
      ++ " for key " ++ ticked s.key
  | tooShort s count =>
    "invalid length " ++ toString count ++ ", expected struct " ++ s.title ++ " with "
      ++ toString s.fields.length ++ " elements for key " ++ ticked s.key

/-! ## Sections -/

/-- The value of a setting in a section that was given, with the key that messages show. -/
def Section.value? (s : Section) (given : Value) (field : String) :
    Except Error (String × Option Value) :=
  match given with
  | .table es => .ok (s.key ++ "." ++ field, es.get? field)
  | .list items =>
    let n := s.fields.idxOf field
    match items[n]? with
    | some v => .ok (s.key ++ "[" ++ toString n ++ "]", some v)
    | none => .error (.tooShort s n)
  | v => .error (.notSection s v)

/-- The value that a section is given. -/
def Section.given (s : Section) (root : Value) : Value := (root.entries.get? s.key).getD .gap

def readText (key : String) (v : Value) : Except Error String :=
  match v with
  | .scalar x _ => .ok x.asText
  | _ => .error (.mistyped key v .text)

/-- Reads a natural number of at most 64 bits. -/
def readWord (bits : Nat) (key : String) (v : Value) : Except Error Nat :=
  match v with
  | .scalar x _ =>
    match x.asCount? with
    | some n => if n < Nat.pow 2 bits then .ok n else .error (.tooLarge key n bits)
    | none => .error (.mistyped key v (.word bits))
  | _ => .error (.mistyped key v (.word bits))

/-- Reads a setting that must be there. -/
def Section.read (s : Section) (root : Value) (field : String)
    (reader : String → Value → Except Error α) : Except Error α := do
  match ← s.value? (s.given root) field with
  | (key, some v) => reader key v
  | (_, none) => throw (.missing s field)

/-- Reads a setting that need not be there. -/
def Section.read? (s : Section) (root : Value) (field : String)
    (reader : String → Value → Except Error α) : Except Error (Option α) := do
  match ← s.value? (s.given root) field with
  | (_, none) | (_, some .gap) => return none
  | (key, some v) => return some (← reader key v)

def serverSection : Section := ⟨"server", "ServerConfig", ["host", "port"]⟩

def databaseSection : Section :=
  ⟨"database", "DatabaseConfig", ["url", "max_connections", "min_connections"]⟩

def authSection : Section := ⟨"auth", "AuthConfig", ["jwt_secret", "access_token_ttl_secs"]⟩

def limitsSection : Section :=
  ⟨"limits", "LimitsConfig", ["max_roles_per_server", "max_overrides_per_channel"]⟩

/-- Reads the settings from the values that they were given. -/
def ofValue (root : Value) : Except Error Settings := do
  let host ← serverSection.read root "host" readText
  let port ← serverSection.read root "port" (readWord 16)
  let url ← databaseSection.read? root "url" readText
  let maxConnections ← databaseSection.read root "max_connections" (readWord 32)
  let minConnections ← databaseSection.read root "min_connections" (readWord 32)
  let secret ← authSection.read root "jwt_secret" readText
  let lifetime ← authSection.read root "access_token_ttl_secs" (readWord 64)
  let rolesPerServer ← limitsSection.read root "max_roles_per_server" (readWord 32)
  let overridesPerChannel ← limitsSection.read root "max_overrides_per_channel" (readWord 32)
  return {
    server := { host, port }
    database := { url, maxConnections, minConnections }
    auth := { secret, lifetime }
    limits := { rolesPerServer, overridesPerChannel } }

/-! ## Sources -/

/-- What the settings are where no source says otherwise. -/
def defaults : List (String × Value) :=
  [("server.host", text "0.0.0.0"), ("server.port", number 8080),
   ("database.max_connections", number 20), ("database.min_connections", number 2),
   ("auth.jwt_secret", text ""), ("auth.access_token_ttl_secs", number 900),
   ("limits.max_roles_per_server", number Limits.standard.rolesPerServer),
   ("limits.max_overrides_per_channel", number Limits.standard.overridesPerChannel)]
where
  text (s : String) : Value := .scalar (.text s) none
  number (n : Nat) : Value := .scalar (.integer n) none

/-- The values that a configuration file gives. A byte order mark in front is skipped. -/
def ofFile (text : String) : Except Error (List (String × Value)) :=
  match Toml.read (String.ofList (text.toList.dropWhile (· == '\ufeff'))) with
  | .ok es => .ok (Environment.byName es.toList)
  | .error (line, column) => .error (.malformedFile line column)

/-- Gathers the settings from a configuration file, if there is one, and the environment. -/
def load (file : Option String) (env : Environment) : Except Error Settings := do
  let fromFile ←
    match file with
    | none => pure []
    | some text => ofFile text
  ofValue (assign env.settings (assign fromFile (assign defaults (.table .nil))))

end Settings

end Guildhall
