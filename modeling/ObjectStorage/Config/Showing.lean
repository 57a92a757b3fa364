import ObjectStorage.Config.Basic
import ObjectStorage.Http.Transport
import ObjectStorage.Text.Shown

/-! # Showing configurations

A configuration as a developer sees it, with the decorators of its store by number. Secrets are masked, whether
they are set or not.
-/
namespace ObjectStorage

open Text

namespace Duration

/-- The digits behind the point of a number in so many places, as few as are needed. -/
def fraction (places part : Nat) : List Char :=
  let digits := ((Nat.toDigits 10 (part + Nat.pow 10 places)).drop 1).reverse.dropWhile (· == '0')
  if digits.isEmpty then [] else '.' :: digits.reverse

/-- The units that durations are shown in, and how many places each has behind the point. -/
def shownUnits : List (String × Nat) := [("s", 9), ("ms", 6), ("µs", 3), ("ns", 0)]

def shown (d : Duration) : Shown :=
  match shownUnits.find? fun u => Nat.pow 10 u.2 ≤ d.nanos with
  | some (name, places) =>
    let scale := Nat.pow 10 places
    .atom (toString (d.nanos / scale) ++ String.ofList (fraction places (d.nanos % scale)) ++ name)
  | none => .atom "0ns"

end Duration

def Secret.shown (_ : Secret) : Shown := .atom Secret.mask

def WritePolicy.shown : WritePolicy → Shown
  | .never => .record "Never" []
  | .unambiguous => .record "Unambiguous" []
  | .always => .record "Always" []

def RetryPolicy.shown (p : RetryPolicy) : Shown :=
  .record "RetryConfig"
    [("max_retries", .atom (toString p.maxRetries)),
      ("min_period", p.minPeriod.shown),
      ("max_period", p.maxPeriod.shown),
      ("write_policy", p.writePolicy.shown)]

def HedgePolicy.shown (p : HedgePolicy) : Shown :=
  .record "HedgingConfig"
    [("at", p.after.shown), ("up_to", .atom (toString p.upTo)), ("max_per_second", .atom (toString p.maxPerSecond))]

def Http.Chain.shown {σ : Type} (c : Http.Chain σ) : Shown :=
  .record "MiddlewareChain" [("decorators", .atom (toString c.size))]

theorem Http.Chain.line_shown {σ : Type} (c : Http.Chain σ) : c.shown.line = c.description := by
  have hstart : "MiddlewareChain \x7b decorators: " = "MiddlewareChain" ++ " \x7b " ++ ("decorators" ++ ": ") := by
    decide
  unfold shown description
  rw [Shown.line_field, hstart]
  simp only [String.append_assoc]

def LoggingConfig.shown (c : LoggingConfig) : Shown :=
  .record "LoggingConfig" [("level", .atom (quoted c.level)), ("format", .atom (quoted c.format))]

variable {σ : Type}

def StorageConfig.shown (middleware : Http.Chain σ) (c : StorageConfig) : Shown :=
  .record "StorageConfig"
    [("bucket_names", .list (c.bucketNames.map fun name => .atom (quoted name))),
      ("endpoint", .atom (quoted c.endpoint)),
      ("region", .atom (quoted c.region)),
      ("s3_force_path_style", .atom (toString c.forcePathStyle)),
      ("insecure", .atom (toString c.insecure)),
      ("access_key_id", .atom (quoted c.accessKeyId)),
      ("secret_access_key", c.secretAccessKey.shown),
      ("session_token", c.sessionToken.shown),
      ("backoff_config", c.retry.shown),
      ("hedging", c.hedging.shown),
      ("list_max_pages", .atom (toString c.listMaxPages)),
      ("middleware", middleware.shown)]

def Config.shown (middleware : Http.Chain σ) (c : Config) : Shown :=
  .record "Config" [("logging", c.logging.shown), ("storage", c.storage.shown middleware)]

end ObjectStorage
