import ObjectStorage.Backend
import ObjectStorage.Store.Paging

/-! # A store in memory as a backend -/
namespace ObjectStorage

/-- A store that answers requests, and the time it gives to what is written. -/
structure Memory where
  store : Store := .empty
  pageSize : Nat := 1000
  time : Timestamp := ⟨0, 0⟩

namespace Memory

def answer (m : Memory) : (r : Request) → Answer r × Memory
  | .get key =>
    match m.store.get? key with
    | some o => (.ok ⟨o.data, o.data.length⟩, m)
    | none => (.error (.noSuchKey key), m)
  | .put key data => (.ok (), { m with store := m.store.put key ⟨data, m.time⟩ })
  | .delete key => (.ok (), { m with store := m.store.erase key })
  | .page first delimiter token => (.ok (m.store.page m.pageSize first delimiter token), m)

def backend : Backend Memory where
  call r := .modifyGet fun m => m.answer r
  steps := 1

end Memory
end ObjectStorage
