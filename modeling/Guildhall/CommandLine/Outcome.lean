-- SUMMARY: What the command does with its arguments, its environment and its files.
import Guildhall.CommandLine.Arguments
import Guildhall.Fixture
import Guildhall.Http.Address
import Guildhall.Service.Respond
import Guildhall.Settings.Basic
import Guildhall.Token

/-!
# Outcomes

`CommandLine.run` decides what the command does. It only looks at its world: the arguments, the
environment variables, the files and the clock. The one thing that it leaves to do is to print a
text or to serve.
-/

namespace Guildhall.CommandLine

/-- What the command can look at. -/
structure World where
  args : List String
  environment : Settings.Environment
  /-- The text of a file, if it can be read. -/
  file? : String → Option String
  /-- The time, in seconds. -/
  now : Int

/-- What can keep the command from its work. -/
inductive Failure where
  | settings (why : Settings.Error)
  | secretUnset
  | fixtureUnreadable (path : String)
  | fixture (why : FixtureError)
  | invalidHost (host : String)
  deriving Inhabited

def Failure.message : Failure → String
  | settings why => why.message
  | secretUnset => "auth.jwt_secret is not set (HEARTH__AUTH__JWT_SECRET)"
  | fixtureUnreadable path => "failed to read fixture " ++ path
  | fixture why => why.message
  | invalidHost host => "invalid server.host '" ++ host ++ "'"

/-- Where the service finds its records. -/
inductive Records where
  | inMemory (store : Store)
  | inDatabase (database : DatabaseSettings)

inductive Outcome where
  | print (text : String)
  | fail (why : Failure)
  /-- The arguments make no sense. -/
  | misuse
  /-- The lifetime of a token is out of bounds. -/
  | crash
  | serve (service : Service) (records : Records) (address : Http.Address) (port : Nat)

namespace Outcome

/-- The exit code; a service that was started has none. -/
def exitCode? : Outcome → Option Nat
  | print _ => some 0
  | fail _ => some 1
  | misuse => some 2
  | crash => some 101
  | serve .. => none

end Outcome

/-- What the command answers when it is asked for its version. -/
def versionText : String := "hearth " ++ version

/-- What the command answers when it is asked for help. -/
def helpText : String :=
  "Permission resolution service for Hearth\n\n" ++
  "Usage: hearth [OPTIONS] [COMMAND]\n\n" ++
  "Commands:\n" ++
  "  serve  Serve the HTTP API (default)\n" ++
  "  token  Print an access token for a user, signed with the configured secret\n" ++
  "  help   Print this message or the help of the given subcommand(s)\n\n" ++
  "Options:\n" ++
  "      --memory       Use the in-memory store even if a database URL is configured " ++
  "[env: HEARTH_MEMORY=]\n" ++
  "      --seed <PATH>  JSON fixture to load into the in-memory store\n" ++
  "  -h, --help         Print help\n" ++
  "  -V, --version      Print version"

/-- Where the records come from: a seed file before a database, and a database before an empty
store. -/
def findRecords (w : World) (i : Invocation) (s : Settings) : Except Failure Records :=
  match i.seed with
  | some path =>
    match w.file? path with
    | none => .error (.fixtureUnreadable path)
    | some text =>
      match Fixture.ofText text with
      | .ok f => .ok (.inMemory f.store)
      | .error why => .error (.fixture why)
  | none =>
    if s.database.url.isSome ∧ i.memory = false then .ok (.inDatabase s.database)
    else .ok (.inMemory (.ofLists [] [] []))

/-- Prepares the service. -/
def serve (w : World) (i : Invocation) (s : Settings) : Outcome :=
  match findRecords w i s with
  | .error why => .fail why
  | .ok records =>
    match Http.Address.ofString? s.server.host with
    | none => .fail (.invalidHost s.server.host)
    | some address => .serve ⟨s.auth.secret, s.limits⟩ records address s.server.port

/-- Makes a token, with the lifetime of the settings unless one is asked for. -/
def issue (now : Int) (s : Settings) (user : Id) (lifetime : Option Nat) : Outcome :=
  match Token.issue user s.auth.secret now (lifetime.getD s.auth.lifetime) with
  | some token => .print token
  | none => .crash

/-- The settings in a world. -/
def World.settings (w : World) : Except Settings.Error Settings :=
  let environment :=
    match w.file? ".env" with
    | none => w.environment
    | some text => w.environment.addFile text
  Settings.load (w.file? "config.toml") environment

/-- Carries out arguments that make sense. -/
def carryOut (w : World) (i : Invocation) : Outcome :=
  match w.settings with
  | .error why => .fail (.settings why)
  | .ok s =>
    if s.auth.secret = "" then .fail .secretUnset
    else
      match i.command with
      | .serve => serve w i s
      | .token user lifetime => issue w.now s user lifetime

/-- What the arguments ask for. -/
def World.asked (w : World) : Except Ending Invocation :=
  readArguments w.args (w.environment.get? "HEARTH_MEMORY")

def run (w : World) : Outcome :=
  match w.asked with
  | .error .help => .print helpText
  | .error .version => .print versionText
  | .error .misuse => .misuse
  | .ok i => carryOut w i

/-! ## Files -/

/-- The files that the command looks at. -/
def World.paths (w : World) : List String :=
  ".env" :: "config.toml" ::
    match w.asked with
    | .ok i => i.seed.toList
    | .error _ => []

/-- No other file makes a difference. -/
theorem run_of_paths (w : World) {file? : String → Option String}
    (h : ∀ path ∈ w.paths, file? path = w.file? path) : run { w with file? } = run w := by
  have hAsked : World.asked { w with file? } = w.asked := rfl
  have hSettings : World.settings { w with file? } = w.settings := by
    simp only [World.settings, h _ (.head _), h _ (.tail _ (.head _))]
  unfold run
  rw [hAsked]
  cases hi : w.asked with
  | error e => cases e <;> rfl
  | ok i =>
    have hSeed {path : String} (hp : i.seed = some path) : file? path = w.file? path :=
      h path (by simp [World.paths, hi, hp])
    have hServe (s : Settings) : serve { w with file? } i s = serve w i s := by
      have hRecords : findRecords { w with file? } i s = findRecords w i s := by
        unfold findRecords
        split
        · rename_i hp
          simp only [hSeed hp]
        · rfl
      simp only [serve, hRecords]
    simp only [carryOut, hSettings, hServe]

end Guildhall.CommandLine
