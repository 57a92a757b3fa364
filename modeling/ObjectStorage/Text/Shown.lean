/-! # Shown values

Values as a developer sees them: on one line, or with every part on a line of its own.
-/
namespace ObjectStorage.Text

/-- What is shown: a text as it is, a list, or a record with its name. -/
inductive Shown where
  | atom (text : String)
  | list (items : List Shown)
  | record (name : String) (fields : List (String × Shown))
deriving Inhabited

namespace Shown

mutual

def line : Shown → String
  | .atom text => text
  | .list items => "[" ++ ", ".intercalate (itemLines items) ++ "]"
  | .record name [] => name
  | .record name fields => name ++ " \x7b " ++ ", ".intercalate (fieldLines fields) ++ " \x7d"

def itemLines : List Shown → List String
  | [] => []
  | item :: rest => line item :: itemLines rest

def fieldLines : List (String × Shown) → List String
  | [] => []
  | (name, value) :: rest => (name ++ ": " ++ line value) :: fieldLines rest

end

theorem line_field (name field text : String) :
    (record name [(field, .atom text)]).line = name ++ " \x7b " ++ (field ++ ": " ++ text) ++ " \x7d" := by
  rw [line, fieldLines, fieldLines, line, String.intercalate_singleton]
  nofun

def margin (indent : Nat) : String := String.ofList (List.replicate indent ' ')

mutual

/-- Every item and every field on a line of its own, with a comma after it. -/
def block (indent : Nat) : Shown → String
  | .atom text => text
  | .list [] => "[]"
  | .list items => "[\n" ++ itemBlocks (indent + 4) items ++ margin indent ++ "]"
  | .record name [] => name
  | .record name fields => name ++ " \x7b\n" ++ fieldBlocks (indent + 4) fields ++ margin indent ++ "\x7d"

def itemBlocks (indent : Nat) : List Shown → String
  | [] => ""
  | item :: rest => margin indent ++ block indent item ++ ",\n" ++ itemBlocks indent rest

def fieldBlocks (indent : Nat) : List (String × Shown) → String
  | [] => ""
  | (name, value) :: rest => margin indent ++ name ++ ": " ++ block indent value ++ ",\n" ++ fieldBlocks indent rest

end

end Shown
end ObjectStorage.Text
