/-! # Failures of storage operations

Every failure has a class that decides whether it is worth another attempt.
-/
namespace ObjectStorage

inductive ErrorClass where
  | notFound
  | transient
  | permanent
deriving DecidableEq, Repr, Inhabited

def ErrorClass.label : ErrorClass → String
  | .notFound => "not_found"
  | .transient => "transient"
  | .permanent => "permanent"

inductive StorageError where
  /-- The store answered with an error; the message is missing if the answer held none. -/
  | service (code : String) (message : Option String) (status : Option Nat)
  | timeout (reason : String)
  | network (reason : String)
  | invalidResponse (reason : String)
  | construction (reason : String)
  | config (reason : String)
  | tooManyPages (pages : Nat)
  /-- An attempt did not come to its end; one that panicked gives no reason. -/
  | aborted (reason : Option String)
deriving DecidableEq, Repr, Inhabited

namespace StorageError

def noSuchKey (key : String) : StorageError :=
  .service "NoSuchKey" (some ("The specified key does not exist: " ++ key)) (some 404)

def message : StorageError → String
  | .service code message _ => code ++ ": " ++ message.getD ""
  | .timeout reason => "request timed out: " ++ reason
  | .network reason => "network error: " ++ reason
  | .invalidResponse reason => "invalid response: " ++ reason
  | .construction reason => "request construction failed: " ++ reason
  | .config reason => "configuration error: " ++ reason
  | .tooManyPages pages => "listing did not finish within " ++ toString pages ++ " pages"
  | .aborted reason => "attempt aborted: " ++ reason.getD "panicked"

def code? : StorageError → Option String
  | .service code _ _ => some code
  | _ => none

def status? : StorageError → Option Nat
  | .service _ _ status => status
  | _ => none

def notFoundCodes : List String := ["NoSuchKey", "NotFound"]

def transientCodes : List String :=
  ["InternalError", "ServiceUnavailable", "SlowDown", "Throttling", "ThrottlingException",
   "ThrottledException", "RequestThrottled", "RequestThrottledException", "TooManyRequests",
   "RequestLimitExceeded", "RequestTimeout", "RequestTimeoutException", "BandwidthLimitExceeded"]

def isTransientStatus (status : Nat) : Bool := status = 429 || (500 ≤ status && status ≤ 599)

/-- The class of an answer with an error code: the code decides if it is known, else the status. -/
def serviceClass (code : String) (status : Option Nat) : ErrorClass :=
  if notFoundCodes.contains code then .notFound
  else if transientCodes.contains code then .transient
  else match status with
    | some s =>
      if isTransientStatus s then .transient
      else if s = 404 && code.isEmpty then .notFound
      else .permanent
    | none => .permanent

def errorClass : StorageError → ErrorClass
  | .service code _ status => serviceClass code status
  | .timeout _ | .network _ | .invalidResponse _ => .transient
  | .construction _ | .config _ | .tooManyPages _ | .aborted _ => .permanent

/-- Whether the store may have carried out the request although no answer to it was understood. -/
def isAmbiguous : StorageError → Bool
  | .timeout _ | .network _ | .invalidResponse _ => true
  | _ => false

/-- Whether an outcome says that the key does not exist; no failure never does. -/
def saysNotFound : Option StorageError → Bool
  | none => false
  | some e => e.errorClass = .notFound

end StorageError
end ObjectStorage
