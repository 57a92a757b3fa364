import ObjectStorage.CommandLine.Arguments

/-! # Invocations

The commands of the program and what their arguments mean.
-/
namespace ObjectStorage.CommandLine

inductive Command where
  | get (key : String) (output : Option String)
  | put (key file : String)
  | delete (key : String)
  | list (first delimiter : String)
  | showConfig
deriving DecidableEq, Repr

structure Invocation where
  config : String
  printMetrics : Bool
  command : Command
deriving DecidableEq, Repr

inductive Topic where
  | program
  | help
  | get
  | put
  | delete
  | list
  | showConfig
deriving DecidableEq, Repr

inductive Request where
  | run (i : Invocation)
  | help (topic : Topic)
  | version
  | misuse
deriving DecidableEq, Repr

namespace Topic

def commands : List Topic := [.get, .put, .delete, .list, .showConfig, .help]

def name : Topic → String
  | program => "bucketline"
  | help => "help"
  | get => "get"
  | put => "put"
  | delete => "delete"
  | list => "list"
  | showConfig => "show-config"

def ofName? (name : String) : Option Topic := commands.find? (·.name = name)

def helpOption : OptionSpec := ⟨"help", some 'h', .help⟩

def grammar : Topic → Grammar
  | program =>
    { options := [⟨"config", some 'c', .value false⟩, ⟨"print-metrics", none, .switch⟩, helpOption,
        ⟨"version", some 'V', .version⟩]
      subcommands := commands.map name }
  | get => { options := [⟨"output", some 'o', .value false⟩, helpOption], words := [⟨"key", true⟩] }
  | put => { options := [helpOption], words := [⟨"key", true⟩, ⟨"file", false⟩] }
  | delete => { options := [helpOption], words := [⟨"key", true⟩] }
  | list =>
    { options := [⟨"prefix", some 'p', .value true⟩, ⟨"delimiter", some 'd', .value true⟩, helpOption] }
  | showConfig | help => { options := [helpOption] }

end Topic

namespace Command

def ofReading? (topic : Topic) (r : Reading) : Option Command :=
  match topic with
  | .get => do return .get (← r.value? "key") (r.value? "output")
  | .put => do return .put (← r.value? "key") (← r.value? "file")
  | .delete => do return .delete (← r.value? "key")
  | .list => some (.list ((r.value? "prefix").getD "") ((r.value? "delimiter").getD ""))
  | .showConfig => some .showConfig
  | .program | .help => none

end Command

namespace Invocation

def defaultConfig : String := "bucketline.yaml"

def ofStop (topic : Topic) : Stop → Request
  | .misuse => .misuse
  | .help => .help topic
  | .version => .version

/-- The help that the words after `help` ask for. -/
def helpFor : List String → Request
  | [] => .help .program
  | [name] =>
    match Topic.ofName? name with
    | some topic => .help topic
    | none => .misuse
  | _ => .misuse

/-- Reads arguments. Those of the subcommand come before the end of those before it. -/
def ofArguments (args : List String) : Request :=
  match Topic.program.grammar.read args {} with
  | .error stop => ofStop .program stop
  | .ok (_, none) => .misuse
  | .ok (outer, some (name, rest)) =>
    match Topic.ofName? name with
    | none => .misuse
    | some .help => helpFor rest
    | some topic =>
      match topic.grammar.readAll rest with
      | .error stop => ofStop topic stop
      | .ok inner =>
        match Topic.program.grammar.finish outer, Command.ofReading? topic inner with
        | .ok outer, some command =>
          .run
            { config := (outer.value? "config").getD defaultConfig
              printMetrics := outer.hasSwitch "print-metrics", command := command }
        | _, _ => .misuse

end Invocation
end ObjectStorage.CommandLine
