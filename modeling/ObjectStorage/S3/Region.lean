import ObjectStorage.Text.Blank
import ObjectStorage.Text.Digits
import ObjectStorage.Text.Search

/-! # Regions

The domain in which a region has its stores. Regions come in groups: a group has a first part that all
its regions share, and a name of its own for all of them together.
-/
namespace ObjectStorage.S3.Region

structure Group where
  /-- What the names of its regions start with. -/
  first : String
  domain : String
  /-- A name for the whole group. -/
  whole : Option String := none
deriving DecidableEq, Repr

def groups : List Group :=
  [⟨"cn-", "amazonaws.com.cn", "aws-cn-global"⟩, ⟨"us-iso-", "c2s.ic.gov", "aws-iso-global"⟩,
   ⟨"us-isob-", "sc2s.sgov.gov", "aws-iso-b-global"⟩, ⟨"eu-isoe-", "cloud.adc-e.uk", "aws-iso-e-global"⟩,
   ⟨"us-isof-", "csp.hci.ic.gov", "aws-iso-f-global"⟩, ⟨"eusc-de-", "amazonaws.eu", none⟩]

def commonDomain : String := "amazonaws.com"

def everywhere : String := "aws-global"

def home : String := "us-east-1"

def isWordChar (c : Char) : Bool := c.isAlpha || c.isDigit || c == '_'

def isPlace (s : List Char) : Bool :=
  match Text.pieces '-' s with
  | [word, number] =>
    !word.isEmpty && word.all isWordChar && !number.isEmpty && number.all Text.isDecimalDigit
  | _ => false

namespace Group

def has (g : Group) (region : String) : Bool :=
  g.whole = some region || (Text.dropPrefix? g.first.toList region.toList).any isPlace

end Group

def domain (region : String) : String :=
  ((groups.find? (·.has region)).map (·.domain)).getD commonDomain

def longestLabel : Nat := 63

def isLabel (region : String) : Bool :=
  let s := region.toList
  !s.isEmpty && s.length ≤ longestLabel && s.head? != some '-' &&
  s.all fun c => c.isAlpha || c.isDigit || c == '-'

def host (region : String) : String :=
  if region = everywhere then "s3." ++ commonDomain else "s3." ++ region ++ "." ++ domain region

def signing (region : String) : String := if region = everywhere then home else region

end ObjectStorage.S3.Region
