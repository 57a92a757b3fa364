import ObjectStorage.Hedging.Policy
import ObjectStorage.Retry.Policy
import ObjectStorage.Secret

/-! # Configurations -/
namespace ObjectStorage

structure LoggingConfig where
  level : String := "info"
  format : String := "text"
deriving DecidableEq, Inhabited

structure StorageConfig where
  /-- The buckets in the order they are read from; the first one takes the writes. -/
  bucketNames : List String := []
  /-- Where the store is; if empty, it is the one that the region names. -/
  endpoint : String := ""
  region : String := "us-east-1"
  /-- Whether the bucket is named in the path rather than in the host. -/
  forcePathStyle : Bool := false
  insecure : Bool := false
  accessKeyId : String := ""
  secretAccessKey : Secret := .unset
  sessionToken : Secret := .unset
  retry : RetryPolicy := {}
  hedging : HedgePolicy := {}
  /-- Pages of one listing; zero is no limit. -/
  listMaxPages : Nat := 10000
deriving DecidableEq, Inhabited

structure Config where
  logging : LoggingConfig := {}
  storage : StorageConfig := {}
deriving DecidableEq, Inhabited

def StorageConfig.primaryBucket? (c : StorageConfig) : Option String := c.bucketNames.head?

end ObjectStorage
