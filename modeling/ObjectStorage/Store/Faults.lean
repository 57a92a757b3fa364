import ObjectStorage.Store.Memory

/-! # Faults

A store whose calls can be made to wait and to fail. The faults are used up in the order of the calls.
-/
namespace ObjectStorage

/-- What happens to a call: it waits, and then fails or gives a page of its own. A write can be carried
out before the wait. -/
structure Fault where
  delay : Duration := ⟨0⟩
  error : Option StorageError := none
  page : Option Page := none
  applied : Bool := false

/-- A store, the faults of the calls to come, and the calls so far, the last one first. -/
structure FaultyMemory where
  memory : Memory := {}
  faults : List Fault := []
  calls : List Request := []

namespace FaultyMemory

/-- A call arrives: its fault is taken, and carried out as far as it comes first. -/
def receive (r : Request) (m : FaultyMemory) : Fault × FaultyMemory :=
  let fault := m.faults.headD {}
  let memory := match r with
    | .put .. => if fault.applied then (m.memory.answer r).2 else m.memory
    | _ => m.memory
  (fault, { memory := memory, faults := m.faults.tail, calls := r :: m.calls })

def respond (fault : Fault) (r : Request) (m : FaultyMemory) : Answer r × FaultyMemory :=
  match fault.error with
  | some e => (.error e, m)
  | none =>
    match r, fault.page with
    | .page .., some page => (.ok page, m)
    | r, _ =>
      let (answer, memory) := m.memory.answer r
      (answer, { m with memory := memory })

def backend : Backend FaultyMemory where
  call r := do
    let fault ← .modifyGet (receive r)
    if fault.delay.nanos ≠ 0 then .pause fault.delay
    .modifyGet (respond fault r)
  steps := 3

end FaultyMemory
end ObjectStorage
