/-! # Secrets

A credential that is written as a fixed mask wherever it could be seen.
-/
namespace ObjectStorage

structure Secret where
  value : String
deriving DecidableEq, Inhabited

namespace Secret

def mask : String := "********"

def unset : Secret := ⟨""⟩

def reveal (s : Secret) : String := s.value

def isEmpty (s : Secret) : Bool := s.value.isEmpty

def revealed? (s : Secret) : Option String := if s.isEmpty then none else some s.value

def display (_ : Secret) : String := mask

/-- What is written to a configuration text: an unset secret stays unset. -/
def rendered (s : Secret) : String := if s.isEmpty then "" else mask

end Secret
end ObjectStorage
