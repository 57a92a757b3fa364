import ObjectStorage.Config.Basic
import ObjectStorage.Yaml.Decode

/-! # Reading configurations

Each record is a table of its fields. What is not given keeps its default.
-/
namespace ObjectStorage

open Yaml Yaml.Place

/-- The names in a text with commas between them. Blank ones do not count. -/
def namesOfText (text : String) : List String :=
  ((Text.pieces ',' text.toList).map Text.trimBlanks).filterMap fun name =>
    if name.isEmpty then none else some (String.ofList name)

def readNames : Read (List String) := fun p =>
  return match ← optional (shaped "BucketNames" textOrTexts) p with
    | none => []
    | some (.inl names) => names
    | some (.inr text) => namesOfText text

/-- Reads a secret; none at all is an unset one. -/
def readSecret : Read Secret := fun p => return ⟨(← optional string p).getD ""⟩

def readWritePolicy : Read WritePolicy := variant (WritePolicy.all.map fun w => (w.name, w))

namespace RetryPolicy

def fields : List (RecordField RetryPolicy) :=
  [field "max_retries" natural32 fun n p => { p with maxRetries := n },
    field "min_period" duration fun d p => { p with minPeriod := d },
    field "max_period" duration fun d p => { p with maxPeriod := d },
    field "write_policy" readWritePolicy fun w p => { p with writePolicy := w }]

def read : Read RetryPolicy := record "RetryConfig" fields {}

end RetryPolicy

namespace HedgePolicy

def fields : List (RecordField HedgePolicy) :=
  [field "at" duration fun d p => { p with after := d },
    field "up_to" natural32 fun n p => { p with upTo := n },
    field "max_per_second" natural32 fun n p => { p with maxPerSecond := n }]

def read : Read HedgePolicy := record "HedgingConfig" fields {}

end HedgePolicy

namespace LoggingConfig

def fields : List (RecordField LoggingConfig) :=
  [field "level" string fun s c => { c with level := s },
    field "format" string fun s c => { c with format := s }]

def read : Read LoggingConfig := record "LoggingConfig" fields {}

end LoggingConfig

namespace StorageConfig

def fields : List (RecordField StorageConfig) :=
  [field "bucket_names" readNames fun names c => { c with bucketNames := names },
    field "endpoint" string fun s c => { c with endpoint := s },
    field "region" string fun s c => { c with region := s },
    field "s3_force_path_style" boolean fun b c => { c with forcePathStyle := b },
    field "insecure" boolean fun b c => { c with insecure := b },
    field "access_key_id" string fun s c => { c with accessKeyId := s },
    field "secret_access_key" readSecret fun s c => { c with secretAccessKey := s },
    field "session_token" readSecret fun s c => { c with sessionToken := s },
    field "backoff_config" RetryPolicy.read fun p c => { c with retry := p },
    field "hedging" HedgePolicy.read fun p c => { c with hedging := p },
    field "list_max_pages" natural64 fun n c => { c with listMaxPages := n }]

def read : Read StorageConfig := record "StorageConfig" fields {}

end StorageConfig

namespace Config

def fields : List (RecordField Config) :=
  [field "logging" LoggingConfig.read fun l c => { c with logging := l },
    field "storage" StorageConfig.read fun s c => { c with storage := s }]

def read : Read Config := record "Config" fields {}

end Config
end ObjectStorage
