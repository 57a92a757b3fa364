import ObjectStorage.Config.Basic

/-! # Valid configurations

A configuration is valid if it names a bucket, all names are names that buckets can have, and the
longest pause is no shorter than the first one.
-/
namespace ObjectStorage

/-- What is wrong with a configuration; a name is told by its position. -/
inductive Problem where
  | periodsInverted
  | noBuckets
  | nameTooShort (index : Nat)
  | nameTooLong (index : Nat)
  | nameMalformed (index : Nat)
deriving DecidableEq, Repr

namespace BucketName

def shortest : Nat := 3
def longest : Nat := 63

def isLetterOrDigit (c : Char) : Bool := ('a' ≤ c && c ≤ 'z') || ('0' ≤ c && c ≤ '9')

def isInner (c : Char) : Bool := isLetterOrDigit c || c == '.' || c == '-'

/-- Whether a name has the right characters: two letters or digits at the ends, and in between dots and
hyphens as well. -/
def isWellFormed (name : List Char) : Bool :=
  2 ≤ name.length && name.all isInner && name.head?.any isLetterOrDigit && name.getLast?.any isLetterOrDigit

def problems (index : Nat) (name : String) : List Problem :=
  (if name.utf8ByteSize < shortest then [.nameTooShort index]
    else if longest < name.utf8ByteSize then [.nameTooLong index] else []) ++
  (if isWellFormed name.toList then [] else [.nameMalformed index])

end BucketName

def Problem.line : Problem → String
  | .periodsInverted => "backoff_config.max_period: max_period must not be below min_period"
  | .noBuckets => "bucket_names: length is lower than 1"
  | .nameTooShort i => named i ("length is lower than " ++ toString BucketName.shortest)
  | .nameTooLong i => named i ("length is greater than " ++ toString BucketName.longest)
  | .nameMalformed i => named i "does not match pattern /^[a-z0-9][a-z0-9.\\-]*[a-z0-9]$/"
where
  named (i : Nat) (text : String) : String := "bucket_names[" ++ toString i ++ "]: " ++ text

namespace StorageConfig

def problems (c : StorageConfig) : List Problem :=
  (if c.retry.maxPeriod.nanos < c.retry.minPeriod.nanos then [.periodsInverted] else []) ++
  (if c.bucketNames.isEmpty then [.noBuckets] else []) ++
  c.bucketNames.zipIdx.flatMap fun (name, i) => BucketName.problems i name

def isValid (c : StorageConfig) : Bool := c.problems.isEmpty

end StorageConfig

def report (problems : List Problem) : String :=
  String.join (problems.map fun p => p.line ++ "\n")

namespace StorageConfig

def forBackend (c : StorageConfig) : Except StorageError Unit :=
  if c.bucketNames.isEmpty then .error (.config "no bucket names configured") else .ok ()

/-- What a client needs: all that is asked of a configuration. -/
def forClient (c : StorageConfig) : Except StorageError Unit :=
  if c.isValid then c.forBackend else .error (.config (report c.problems))

end StorageConfig

end ObjectStorage
