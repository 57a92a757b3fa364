import ObjectStorage.Http.Message
import ObjectStorage.Timed

/-! # Transport

What carries requests out, and the chain of decorators around it. The first decorator of a chain is the
outermost: it sees a request first and its answer last.
-/
namespace ObjectStorage.Http

inductive TransportError where
  | timeout (reason : String)
  | connect (reason : String)
  | invalidRequest (reason : String)
  | other (reason : String)
deriving DecidableEq, Repr

def TransportError.message : TransportError → String
  | .timeout reason => "transport timeout: " ++ reason
  | .connect reason => "connection failed: " ++ reason
  | .invalidRequest reason => "invalid request: " ++ reason
  | .other reason => reason

abbrev Outcome := Except TransportError Response

abbrev Executor (σ : Type) := Request → Timed σ Outcome

abbrev Decorator (σ : Type) := Executor σ → Executor σ

structure Chain (σ : Type) where
  decorators : List (Decorator σ) := []

namespace Chain

variable {σ : Type}

def push (d : Decorator σ) (c : Chain σ) : Chain σ := ⟨c.decorators ++ [d]⟩

def size (c : Chain σ) : Nat := c.decorators.length

def isEmpty (c : Chain σ) : Bool := c.decorators.isEmpty

def wrap (c : Chain σ) (base : Executor σ) : Executor σ := c.decorators.foldr (fun d next => d next) base

def description (c : Chain σ) : String :=
  "MiddlewareChain \x7b decorators: " ++ toString c.size ++ " \x7d"

end Chain

namespace Decorator

variable {σ : Type}

def onRequest (f : Request → Request) : Decorator σ := fun next r => next (f r)

def onResponse (f : Response → Response) : Decorator σ := fun next r => do
  match ← next r with
  | .ok response => return .ok (f response)
  | .error e => return .error e

def twice : Decorator σ := fun next r => do
  let _ ← next r
  next r

def replace (outcome : Outcome) : Decorator σ := fun _ _ => return outcome

def setHeader (h : Header) : Decorator σ := onRequest fun r => { r with headers := r.headers.set h }

def appendHeader (h : Header) : Decorator σ := onRequest fun r => { r with headers := r.headers.append h }

def appendResponseHeader (h : Header) : Decorator σ :=
  onResponse fun r => { r with headers := r.headers.append h }

def appendBody (data : List UInt8) : Decorator σ := onRequest fun r => { r with body := r.body ++ data }

end Decorator
end ObjectStorage.Http
