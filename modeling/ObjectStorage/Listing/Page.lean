import ObjectStorage.Time.Timestamp

/-! # Pages

What a store says of its objects, one page at a time, and what a whole listing says.
-/
namespace ObjectStorage

structure ObjectMeta where
  key : String
  size : Nat
  modified : Option Timestamp
deriving DecidableEq, Repr

/-- A part of a listing: keys, and prefixes that stand for several keys. -/
structure Page where
  objects : List ObjectMeta := []
  commonPrefixes : List String := []
  /-- Where the next page starts. -/
  next : Option String := none
  /-- Whether there is more. -/
  truncated : Bool := false
deriving DecidableEq, Repr

structure Listing where
  objects : List ObjectMeta := []
  commonPrefixes : List String := []
deriving DecidableEq, Repr

structure Fetched where
  data : List UInt8
  size : Nat
deriving DecidableEq, Repr

end ObjectStorage
