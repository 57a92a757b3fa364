import ObjectStorage.Http.Transport

/-! # Scripted transport

An executor that gives the answers of a script one after the other, and a record of what it and the
decorators around it have seen.
-/
namespace ObjectStorage.Http

inductive Event where
  | note (text : String)
  | request (r : Request)
deriving DecidableEq, Repr

structure Script where
  answers : List Outcome := []
  events : List Event := []

namespace Script

def exhausted : TransportError := .other "script exhausted"

def record (e : Event) (s : Script) : Script := { s with events := e :: s.events }

def next (s : Script) : Outcome × Script :=
  match s.answers with
  | [] => (.error exhausted, s)
  | answer :: rest => (answer, { s with answers := rest })

def executor : Executor Script := fun r => .modifyGet fun s => (s.record (.request r)).next

def trace (name : String) : Decorator Script := fun next r => do
  Timed.modify (record (.note (name ++ "-out")))
  let outcome ← next r
  Timed.modify (record (.note (name ++ "-in")))
  return outcome

end Script
end ObjectStorage.Http
