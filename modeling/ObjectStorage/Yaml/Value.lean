import ObjectStorage.Yaml.Node
import ObjectStorage.Yaml.Resolved

/-! # Values

What a document means whatever it is read for. A text has a value if every scalar is what its tag
says, integers fit 64 bits, no mapping repeats a key, collections are not nested too deeply and
aliases do not repeat too much.
-/
namespace ObjectStorage.Yaml

inductive Value where
  | null
  | bool (b : Bool)
  | int (i : Int)
  | float (x : Number)
  | text (s : String)
  | sequence (items : List Value)
  | mapping (entries : List (Value × Value))
  | tagged (tag : String) (value : Value)
deriving Inhabited

def Number.same : Number → Number → Bool
  | .finite x, .finite y => x.sameValue y
  | x, y => x == y

mutual

def Value.same : Value → Value → Bool
  | .null, .null => true
  | .bool a, .bool b => a == b
  | .int a, .int b => a == b
  | .float a, .float b => a.same b
  | .text a, .text b => a == b
  | .sequence a, .sequence b => Value.sameItems a b
  | .mapping a, .mapping b => Value.sameEntries a b
  | .tagged s a, .tagged t b => s == t && a.same b
  | _, _ => false

def Value.sameItems : List Value → List Value → Bool
  | [], [] => true
  | a :: as, b :: bs => a.same b && Value.sameItems as bs
  | _, _ => false

def Value.sameEntries : List (Value × Value) → List (Value × Value) → Bool
  | [], [] => true
  | (k, v) :: as, (l, w) :: bs => k.same l && v.same w && Value.sameEntries as bs
  | _, _ => false

end

def repeatsKey : List (Value × Value) → Bool
  | [] => false
  | (k, _) :: rest => rest.any (k.same ·.1) || repeatsKey rest

def depthLimit : Nat := 128

def repetitionLimit : Nat := 100

def fits64 (i : Int) : Bool := -Int.ofNat (Nat.pow 2 63) ≤ i && i < Int.ofNat (Nat.pow 2 64)

namespace Document

def anchor? (d : Document) (target : Nat) : Option Node := d.anchors.lookup target

def follow (d : Document) : Node → Option Node
  | .aliasTo target => d.anchor? target
  | node => some node

def spend (d : Document) : Node → StateT Nat Option Node
  | .aliasTo target => do
    let left ← get
    guard (left > 0)
    set (left - 1)
    d.anchor? target
  | node => return node

/-- The value of a scalar. A tag of the document's own wraps the value of the text. -/
def scalarValue (tag : Option String) (style : Style) (text : String) : Option Value :=
  let value (r : Resolved) : Option Value :=
    match r with
    | .null => some .null
    | .bool b => some (.bool b)
    | .int i => if fits64 i then some (.int i) else none
    | .float x => some (.float x)
    | .text s => some (.text s)
  match tag.filter isLocalTag with
  | some t => (value (if style = .plain then resolvePlain text else .text text)).map (.tagged t)
  | none => match resolve tag style text with
    | .ok r => value r
    | .error _ => none

def wrapLocal (tag : Option String) (v : Value) : Value :=
  match tag.filter isLocalTag with
  | some t => .tagged t v
  | none => v

/-- The value of a node with so many collections allowed inside each other. -/
def load (d : Document) : Nat → Node → StateT Nat Option Value
  | 0, node => do
    match ← d.spend node with
    | .scalar tag style text => scalarValue tag style text
    | _ => failure
  | depth + 1, node => do
    match ← d.spend node with
    | .scalar tag style text => scalarValue tag style text
    | .sequence tag items => return wrapLocal tag (.sequence (← items.mapM (d.load depth)))
    | .mapping tag entries =>
      let entries ← entries.mapM fun (k, v) => return (← d.load depth k, ← d.load depth v)
      guard !repeatsKey entries
      return wrapLocal tag (.mapping entries)
    | .aliasTo _ => failure

/-- The value of a document; none if it breaks one of the rules above. -/
def value? (d : Document) : Option Value :=
  match d.root with
  | none => some .null
  | some root => ((d.load depthLimit root).run (d.size * repetitionLimit)).map (·.1)

end Document
end ObjectStorage.Yaml
