import ObjectStorage.Config.Reading
import ObjectStorage.Config.Validation

/-! # Loading configurations -/
namespace ObjectStorage

inductive LoadFault where
  | noFile
  | notText
  | unread (fault : Yaml.TextFault)
  | invalid (problems : List Problem)
deriving Repr

def LoadFault.message? : LoadFault → Option String
  | .noFile => some "No such file or directory (os error 2)"
  | .notText => some "stream did not contain valid UTF-8"
  | .unread fault => fault.message?
  | .invalid problems => some (report problems)

namespace Config

def ofText (text : String) : Except LoadFault Config :=
  match Yaml.readText Config.read text with
  | .error fault => .error (.unread fault)
  | .ok c => if c.storage.isValid then .ok c else .error (.invalid c.storage.problems)

def load (file : Option (List UInt8)) : Except LoadFault Config :=
  match file with
  | none => .error .noFile
  | some bytes =>
    match String.fromUTF8? (ByteArray.mk bytes.toArray) with
    | none => .error .notText
    | some text => ofText text

end Config
end ObjectStorage
