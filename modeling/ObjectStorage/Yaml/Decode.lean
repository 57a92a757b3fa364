import ObjectStorage.Duration
import ObjectStorage.Yaml.Value

/-! # Reading typed values

A reader looks at a place of a document and gives a value or the reason why there is none. A record
is read by a table of its fields: each entry of the mapping updates the default record, and names
that are not in the table are skipped.
-/
namespace ObjectStorage.Yaml

inductive Segment where
  | field (name : String)
  | item (index : Nat)
  | unknown
deriving DecidableEq, Repr

abbrev Path := List Segment

def Path.text : Path → String
  | [] => ""
  | .field name :: outer => dotted outer ++ name
  | .unknown :: outer => dotted outer ++ "?"
  | .item index :: outer => (if outer.isEmpty then "." else Path.text outer) ++ "[" ++ toString index ++ "]"
where
  dotted (outer : Path) : String := if outer.isEmpty then "" else Path.text outer ++ "."

inductive Found where
  | resolved (r : Resolved)
  | sequence
  | mapping
deriving Repr

def Found.text : Found → String
  | .resolved .null => "unit value"
  | .resolved (.bool b) => "boolean `" ++ toString b ++ "`"
  | .resolved (.int i) => "integer `" ++ toString i ++ "`"
  | .resolved (.float x) => "floating point `" ++ x.text ++ "`"
  | .resolved (.text s) => "string " ++ Text.quoted s
  | .sequence => "sequence"
  | .mapping => "map"

inductive Reason where
  | wrongType (found : Found) (expected : String)
  | outOfRange (value : Nat) (expected : String)
  | badTag (mismatch : TagMismatch)
  | unknownVariant (name : String) (expected : List String)
  | noVariant (name : String)
  | localTag
  | repeatedField (name : String)
  | duration (fault : Duration.Fault)
  | missing
deriving Repr

def Reason.message : Reason → String
  | .wrongType found expected => "invalid type: " ++ found.text ++ ", expected " ++ expected
  | .outOfRange value expected => "invalid value: integer `" ++ toString value ++ "`, expected " ++ expected
  | .badTag m => "invalid value: string " ++ Text.quoted m.text ++ ", expected " ++ m.wanted
  | .unknownVariant name expected =>
    "unknown variant `" ++ name ++ "`, expected one of " ++
      ", ".intercalate (expected.map fun e => "`" ++ e ++ "`")
  | .noVariant name => "data did not match any variant of untagged enum " ++ name
  | .localTag => "untagged and internally tagged enums do not support enum input"
  | .repeatedField name => "duplicate field `" ++ name ++ "`"
  | .duration fault => fault.message
  | .missing => "EOF while parsing a value"

/-- A failed reading. One that has no path yet gets that of the record it happens in. -/
structure Fault where
  path : Option Path
  reason : Reason
deriving Repr

namespace Fault

def within (path : Path) (f : Fault) : Fault := { f with path := f.path.orElse fun _ => some path }

def message (f : Fault) : String :=
  match f.path with
  | none | some [] => f.reason.message
  | some path => path.text ++ ": " ++ f.reason.message

end Fault

/-- A node to be read and where it stands; there is none in an empty text. -/
structure Place where
  document : Document
  path : Path
  node : Option Node

abbrev Read (α : Type) := Place → Except Fault α

namespace Place

def ofDocument (d : Document) : Place := ⟨d, [], d.root⟩

def fail {α : Type} (p : Place) (reason : Reason) : Except Fault α := .error ⟨some p.path, reason⟩

def target (p : Place) : Option Node := p.node.bind p.document.follow

def mistyped {α : Type} (p : Place) (expected : String) : Except Fault α :=
  match p.target with
  | some (.scalar tag style text) =>
    match resolve tag style text with
    | .ok r => p.fail (.wrongType (.resolved r) expected)
    | .error m => p.fail (.badTag m)
  | some (.sequence ..) => p.fail (.wrongType .sequence expected)
  | some (.mapping ..) => p.fail (.wrongType .mapping expected)
  | _ => p.fail .missing

def string : Read String := fun p =>
  match p.target with
  | some (.scalar _ _ text) => .ok text
  | _ => p.mistyped "a string"

/-- Whether a scalar may stand for a number or a boolean: it is plain, or it is a literal block with
the tag of what is wanted. -/
def isBare (wanted : String) (tag : Option String) (style : Style) : Bool :=
  style = .plain || (style = .literal && tag = some (coreTag wanted))

def boolean : Read Bool := fun p =>
  match p.target with
  | some (.scalar tag style text) =>
    if isBare "bool" tag style then
      match boolOfText? text with
      | some b => .ok b
      | none => p.mistyped "a boolean"
    else p.mistyped "a boolean"
  | _ => p.mistyped "a boolean"

def natural (expected : String) (largest : Nat) : Read Nat := fun p =>
  match p.target with
  | some (.scalar tag style text) =>
    if isBare "int" tag style then
      match natural? (Nat.pow 2 64) text.toList with
      | some n => if n ≤ largest then .ok n else p.fail (.outOfRange n expected)
      | none => p.mistyped expected
    else p.mistyped expected
  | _ => p.mistyped expected

def natural32 : Read Nat := natural "u32" (Nat.pow 2 32 - 1)
def natural64 : Read Nat := natural "usize" (Nat.pow 2 64 - 1)

def isNull (p : Place) : Bool :=
  match p.target with
  | none => true
  | some (.scalar none .plain text) => text.isEmpty || isNullText text
  | some (.scalar (some tag) .plain text) => tag = coreTag "null" && isNullText text
  | some _ => false

def optional {α : Type} (read : Read α) : Read (Option α) := fun p =>
  if p.isNull then .ok none else (read p).map some

def keySegment : Node → Segment
  | .scalar _ _ text => .field text
  | _ => .unknown

def part (p : Place) (segment : Segment) (node : Node) : Place := ⟨p.document, segment :: p.path, some node⟩

/-- The first local tag in a node, in reading order: where it stands. -/
def localTag? : Nat → Place → Option Path
  | 0, _ => none
  | depth + 1, p =>
    match p.target with
    | some (.scalar (some tag) ..) => if isLocalTag tag then some p.path else none
    | some (.sequence tag items) =>
      if tag.any isLocalTag then some p.path
      else items.zipIdx.findSome? fun (item, i) => localTag? depth (p.part (.item i) item)
    | some (.mapping tag entries) =>
      if tag.any isLocalTag then some p.path
      else entries.findSome? fun (k, v) =>
        (localTag? depth { p with node := some k }).orElse fun _ => localTag? depth (p.part (keySegment k) v)
    | _ => none

/-- What a scalar means; a tag that does not fit its text is a fault. -/
def meaning? (p : Place) : Except Fault (Option Resolved) :=
  match p.target with
  | some (.scalar tag style text) =>
    match resolve tag style text with
    | .ok r => .ok (some r)
    | .error m => p.fail (.badTag m)
  | _ => .ok none

/-- Reads one of several shapes: the first that fits. Local tags are no part of any shape. -/
def shaped {α : Type} (name : String) (shape : Place → Except Fault (Option α)) : Read α := fun p =>
  match localTag? depthLimit p with
  | some path => .error ⟨some path, .localTag⟩
  | none => do
    match ← shape p with
    | some a => .ok a
    | none => .error ⟨none, .noVariant name⟩

/-- Reads a duration: a number of milliseconds or a duration text. -/
def duration : Read Duration := fun p => do
  let text ← shaped "Raw" (fun p => return (← p.meaning?).bind fun
    | .int i => if 0 ≤ i && i.toNat < Nat.pow 2 64 then some (Sum.inl i.toNat) else none
    | .text s => some (Sum.inr s)
    | _ => none) p
  match text with
  | .inl ms => .ok (.ofMillis ms)
  | .inr s => (Duration.parse s).mapError fun f => ⟨none, .duration f⟩

/-- The items of a sequence or the text of a scalar, if it is one of these and all items are texts. -/
def textOrTexts (p : Place) : Except Fault (Option (List String ⊕ String)) := do
  let asText (q : Place) : Except Fault (Option String) :=
    return (← q.meaning?).bind fun
      | .text s => some s
      | _ => none
  match p.target with
  | some (.sequence _ items) =>
    let texts ← items.zipIdx.mapM fun (item, i) => asText (p.part (.item i) item)
    return (texts.mapM id).map .inl
  | _ => return (← asText p).map .inr

/-- Reads one of some names. A local tag gives the name instead of the text. -/
def variant {α : Type} (names : List (String × α)) : Read α := fun p =>
  let known := names.map (·.1)
  let tagged (tag : String) : Except Fault α :=
    let name := (tag.drop 1).toString
    match names.lookup name with
    | none => .error ⟨none, .unknownVariant name known⟩
    | some a =>
      match p.target with
      | some (.scalar _ .plain text) => if text.isEmpty || isNullText text then .ok a else p.mistyped "unit"
      | _ => p.mistyped "unit"
  match p.target with
  | some (.scalar tag _ text) =>
    match tag.filter isLocalTag with
    | some tag => tagged tag
    | none => match names.lookup text with
      | some a => .ok a
      | none => p.fail (.unknownVariant text known)
  | some (.sequence tag _) =>
    match tag.filter isLocalTag with
    | some tag => tagged tag
    | none => p.fail (.wrongType .sequence "a YAML tag starting with '!'")
  | some (.mapping tag _) =>
    match tag.filter isLocalTag with
    | some tag => tagged tag
    | none => p.fail (.wrongType .mapping "a YAML tag starting with '!'")
  | _ => p.fail .missing

/-- A field of a record: its name, and how a place updates the record. -/
structure RecordField (σ : Type) where
  name : String
  update : Place → σ → Except Fault σ

def field {σ α : Type} (name : String) (read : Read α) (put : α → σ → σ) : RecordField σ :=
  ⟨name, fun p s => (read p).map fun a => put a s⟩

def entries {σ : Type} (fields : List (RecordField σ)) (p : Place) :
    List String → List (Node × Node) → σ → Except Fault σ
  | _, [], s => .ok s
  | seen, (k, v) :: rest, s =>
    match p.document.follow k with
    | some (.scalar _ _ name) =>
      match fields.find? (·.name = name) with
      | none => entries fields p seen rest s
      | some f =>
        if seen.contains name then .error ⟨none, .repeatedField name⟩
        else do entries fields p (name :: seen) rest (← f.update (p.part (keySegment k) v) s)
    | some (.sequence ..) => p.fail (.wrongType .sequence "field identifier")
    | some (.mapping ..) => p.fail (.wrongType .mapping "field identifier")
    | _ => p.fail .missing

/-- Reads a record over its default. Nothing at all stands for an empty mapping. -/
def record {σ : Type} (name : String) (fields : List (RecordField σ)) (default : σ) : Read σ := fun p =>
  let result : Except Fault σ :=
    match p.target with
    | none => .ok default
    | some (.mapping _ es) => entries fields p [] es default
    | some (.scalar _ .plain "") => .ok default
    | some _ => p.mistyped ("struct " ++ name)
  result.mapError (·.within p.path)

end Place

/-- Why a text is not read: it is no well-formed document, or its content does not fit. -/
inductive TextFault where
  | malformed
  | unfit (fault : Fault)
deriving Repr

/-- Reads a text. What does not fit is only told of a text that has a value at all. -/
def readText {α : Type} (read : Read α) (text : String) : Except TextFault α :=
  match Document.ofText? text with
  | none => .error .malformed
  | some d =>
    match read (.ofDocument d) with
    | .ok a => .ok a
    | .error f => .error (if d.value?.isSome then .unfit f else .malformed)

def TextFault.message? : TextFault → Option String
  | .malformed => none
  | .unfit f => some f.message

end ObjectStorage.Yaml
