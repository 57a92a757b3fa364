import ObjectStorage.Config.Basic
import ObjectStorage.Yaml.Written

/-! # Writing configurations

All fields are written, and secrets are masked.
-/
namespace ObjectStorage

open Yaml

def Secret.written (s : Secret) : Written := .text s.rendered

def RetryPolicy.written (p : RetryPolicy) : Written :=
  .record
    [("max_retries", .number p.maxRetries),
      ("min_period", .text p.minPeriod.format),
      ("max_period", .text p.maxPeriod.format),
      ("write_policy", .text p.writePolicy.name)]

def HedgePolicy.written (p : HedgePolicy) : Written :=
  .record
    [("at", .text p.after.format), ("up_to", .number p.upTo), ("max_per_second", .number p.maxPerSecond)]

def LoggingConfig.written (c : LoggingConfig) : Written :=
  .record [("level", .text c.level), ("format", .text c.format)]

def StorageConfig.written (c : StorageConfig) : Written :=
  .record
    [("bucket_names", .texts c.bucketNames),
      ("endpoint", .text c.endpoint),
      ("region", .text c.region),
      ("s3_force_path_style", .flag c.forcePathStyle),
      ("insecure", .flag c.insecure),
      ("access_key_id", .text c.accessKeyId),
      ("secret_access_key", c.secretAccessKey.written),
      ("session_token", c.sessionToken.written),
      ("backoff_config", c.retry.written),
      ("hedging", c.hedging.written),
      ("list_max_pages", .number c.listMaxPages)]

def Config.written (c : Config) : Written :=
  .record [("logging", c.logging.written), ("storage", c.storage.written)]

def Config.render (c : Config) : String := c.written.render

end ObjectStorage
