import ObjectStorage.CommandLine.Directory
import ObjectStorage.CommandLine.Help
import ObjectStorage.Config.Loading
import ObjectStorage.Config.Writing
import ObjectStorage.S3.Store
import ObjectStorage.Text.Quoted

/-! # Commands at work

What a command reads, asks the store for, prints and writes, and how it ends.
-/
namespace ObjectStorage.CommandLine

/-- What went wrong: while what was done, and why. -/
structure Complaint where
  context : String
  cause : String
deriving DecidableEq, Repr

def Complaint.text (c : Complaint) : String :=
  "Error: " ++ c.context ++ "\n\nCaused by:\n    " ++ c.cause ++ "\n"

inductive Ending where
  | success
  | failure (c : Complaint)
  | misuse
deriving DecidableEq, Repr

def Ending.code : Ending → Nat
  | success => 0
  | failure _ => 1
  | misuse => 2

structure Outcome where
  ending : Ending := .success
  output : List UInt8 := []
  directory : Directory
  /-- The metrics that are printed, if they are asked for. -/
  metrics : Option Metrics := none

namespace Outcome

def printed (directory : Directory) (text : String) : Outcome :=
  { directory := directory, output := text.toUTF8.toList }

def failed (directory : Directory) (context cause : String) : Outcome :=
  { directory := directory, ending := .failure ⟨context, cause⟩ }

end Outcome

/-- The lines of a listing: the prefixes first. -/
def listingLines (l : Listing) : List String :=
  l.commonPrefixes.map ("PRE " ++ ·) ++ l.objects.map fun o =>
    (o.modified.map (·.offsetText)).getD "-" ++ " " ++ padded (toString o.size) ++ " " ++ o.key
where
  padded (digits : String) : String := String.ofList (List.replicate (12 - digits.length) ' ') ++ digits

def noFile : String := "No such file or directory (os error 2)"

variable {σ : Type}

/-- A store at hand: how it is reached, and the day of signatures. -/
structure Access (σ : Type) where
  transport : Http.Executor σ
  day : String

def conclude {α : Type} (d : Directory) (context : String) (result : Except StorageError α)
    (f : α → Outcome) : Outcome :=
  match result with
  | .ok a => f a
  | .error e => .failed d context e.message

def ended {α : Type} (result : Option (Except StorageError α)) : Except StorageError α :=
  result.getD (.error (.aborted none))

def Command.perform (c : Client σ) (config : Config) (d : Directory) (s : Session σ) :
    Command → Outcome × Session σ
  | .showConfig => (.printed d config.render, s)
  | .get key output =>
    let (r, s) := s.get c key
    (conclude d ("getting " ++ key) (ended r) fun found =>
      match output with
      | none => { directory := d, output := found.data }
      | some path =>
        match d.write? path found.data with
        | some d => { directory := d }
        | none => .failed d ("writing " ++ path) noFile, s)
  | .put key file =>
    match d.read? file with
    | none => (.failed d ("reading " ++ file) noFile, s)
    | some data =>
      let (r, s) := s.perform (c.put key data)
      (conclude d ("putting " ++ key) r fun _ => { directory := d }, s)
  | .delete key =>
    let (r, s) := s.perform (c.delete key)
    (conclude d ("deleting " ++ key) r fun _ => { directory := d }, s)
  | .list first delimiter =>
    let (r, s) := s.perform (c.list first delimiter)
    (conclude d ("listing " ++ Text.quoted first) (ended r) fun l =>
      .printed d (String.join ((listingLines l).map (· ++ "\n"))), s)

def Invocation.perform (i : Invocation) (access : Access σ) (d : Directory) (state : σ) : Outcome × σ :=
  match Config.load (d.read? i.config) with
  | .error fault =>
    (.failed d ("loading configuration from " ++ i.config) (fault.message?.getD "no configuration"), state)
  | .ok config =>
    let client := S3.client config.storage {} access.day access.transport
    let start : Session σ :=
      { shared := { world := { store := state }, limiter := .ofPolicy config.storage.hedging } }
    let (outcome, s) := i.command.perform client config d start
    let metrics := if i.printMetrics && outcome.ending = .success then some s.shared.world.metrics else none
    ({ outcome with metrics := metrics }, s.shared.world.store)

def run (args : List String) (access : Access σ) (d : Directory) (state : σ) : Outcome × σ :=
  match Invocation.ofArguments args with
  | .misuse => ({ directory := d, ending := .misuse }, state)
  | .help topic => (.printed d topic.helpText, state)
  | .version => (.printed d versionText, state)
  | .run i => i.perform access d state

end ObjectStorage.CommandLine
