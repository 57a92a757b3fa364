/-! # Arguments

Reading the arguments of a command: options with values, switches, and words in order. Options are named
by two hyphens and a name or by a hyphen and a letter; letters can stand together. After two hyphens alone
there are only words.
-/
namespace ObjectStorage.CommandLine

/-- Something that is given a value: an option or a word. -/
structure Slot where
  name : String
  mayBeEmpty : Bool := true
deriving DecidableEq, Repr

inductive Effect where
  | value (mayBeEmpty : Bool)
  | switch
  | help
  | version
deriving DecidableEq, Repr

structure OptionSpec where
  name : String
  letter : Option Char := none
  effect : Effect
deriving DecidableEq, Repr

structure Grammar where
  options : List OptionSpec := []
  words : List Slot := []
  subcommands : List String := []
deriving Repr

inductive Stop where
  | misuse
  | help
  | version
deriving DecidableEq, Repr

structure Reading where
  values : List (String × String) := []
  switches : List String := []
  /-- What waits for its value, or for its value to count. -/
  pending : Option (Slot × Option String) := none
  wordCount : Nat := 0
  onlyWords : Bool := false
deriving Repr

namespace Reading

/-- Makes a value count. Nothing has two values, and not all values can be empty. -/
def give (slot : Slot) (value : String) (r : Reading) : Except Stop Reading :=
  if (value.isEmpty && !slot.mayBeEmpty) || (r.values.lookup slot.name).isSome then .error .misuse
  else .ok { r with values := r.values ++ [(slot.name, value)] }

def settle (r : Reading) : Except Stop Reading :=
  match r.pending with
  | none => .ok r
  | some (_, none) => .error .misuse
  | some (slot, some value) => give slot value { r with pending := none }

def waits (r : Reading) : Bool :=
  match r.pending with
  | some (_, none) => true
  | _ => false

def apply (o : OptionSpec) (attached : Option String) (r : Reading) : Except Stop Reading :=
  match o.effect, attached with
  | .value mayBeEmpty, some value => do give ⟨o.name, mayBeEmpty⟩ value (← r.settle)
  | .value mayBeEmpty, none => do return { ← r.settle with pending := some (⟨o.name, mayBeEmpty⟩, none) }
  | _, some _ => .error .misuse
  | .switch, none => do
    let r ← r.settle
    if r.switches.contains o.name then .error .misuse
    else .ok { r with switches := r.switches ++ [o.name] }
  | .help, none => do
    let _ ← r.settle
    .error .help
  | .version, none => do
    let _ ← r.settle
    .error .version

def value? (name : String) (r : Reading) : Option String := r.values.lookup name

def hasSwitch (name : String) (r : Reading) : Bool := r.switches.contains name

end Reading

namespace Grammar

variable (g : Grammar)

def long (s : List Char) (r : Reading) : Except Stop Reading :=
  let name := s.takeWhile (· != '=')
  let attached := (s.drop name.length).tail?
  match g.options.find? fun o => o.name.toList = name with
  | some o => r.apply o (attached.map String.ofList)
  | none => .error .misuse

/-- Options by their letters. What follows the letter of an option with a value is its value. -/
def short : List Char → Reading → Except Stop Reading
  | [], r => .ok r
  | c :: rest, r =>
    match g.options.find? fun o => o.letter = some c with
    | none => .error .misuse
    | some o =>
      match o.effect, rest with
      | .value _, [] => r.apply o none
      | .value _, '=' :: value => r.apply o (some (String.ofList value))
      | .value _, value => r.apply o (some (String.ofList value))
      | _, _ => do short rest (← r.apply o none)

def word (s : String) (r : Reading) : Except Stop Reading :=
  match g.words[r.wordCount]? with
  | none => .error .misuse
  | some slot => do
    return { ← r.settle with pending := some (slot, some s), wordCount := r.wordCount + 1 }

def namesOptions (s : List Char) : Bool := s.head? = some '-' && s != ['-']

def read : List String → Reading → Except Stop (Reading × Option (String × List String))
  | [], r => .ok (r, none)
  | a :: rest, r =>
    if r.onlyWords then do read rest (← g.word a r)
    else if !r.waits && g.subcommands.contains a then .ok (r, some (a, rest))
    else if a = "--" then read rest { r with onlyWords := true }
    else match a.toList with
      | '-' :: '-' :: s => do read rest (← g.long s r)
      | s =>
        if namesOptions s then do read rest (← g.short s.tail r)
        else match r.pending with
          | some (slot, none) => read rest { r with pending := some (slot, some a) }
          | _ => do read rest (← g.word a r)

/-- Ends the reading; no word is missing then. -/
def finish (r : Reading) : Except Stop Reading := do
  let r ← r.settle
  if r.wordCount < g.words.length then .error .misuse else .ok r

def readAll (args : List String) : Except Stop Reading := do
  let (r, _) ← g.read args {}
  g.finish r

end Grammar
end ObjectStorage.CommandLine
