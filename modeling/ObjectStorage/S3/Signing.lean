import ObjectStorage.Config.Basic
import ObjectStorage.Http.Message
import ObjectStorage.S3.Region
import ObjectStorage.Text.Search

/-! # Signed requests

A request is signed if there are credentials. What it shows of them is the scope: the access key, the
day, the region and the service; and the token of a session.
-/
namespace ObjectStorage.S3

structure CredentialScope where
  accessKey : String
  day : String
  region : String
  service : String := "s3"
deriving DecidableEq, Repr

namespace CredentialScope

def ending : String := "aws4_request"

def text (s : CredentialScope) : String :=
  s.accessKey ++ "/" ++ s.day ++ "/" ++ s.region ++ "/" ++ s.service ++ "/" ++ ending

def parse? (text : String) : Option CredentialScope :=
  match (text.splitOn "/").reverse with
  | last :: service :: region :: day :: accessKey =>
    if last = ending && !accessKey.isEmpty then
      some ⟨"/".intercalate accessKey.reverse, day, region, service⟩
    else none
  | _ => none

end CredentialScope

namespace Signing

def scopeHeader : String := "authorization"

def sessionHeader : String := "x-amz-security-token"

def scheme : String := "AWS4-HMAC-SHA256 Credential="

def shownScope? (hs : Http.Headers) : Option CredentialScope := do
  let h ← hs.first? scopeHeader
  let text ← Text.dropPrefix? scheme.toList h.text.toList
  CredentialScope.parse? (String.ofList (text.takeWhile (· != ',')))

def shownSession? (hs : Http.Headers) : Option String := (hs.first? sessionHeader).map (·.text)

/-- Whether a configuration has credentials: either part of them will do. -/
def hasCredentials (c : StorageConfig) : Bool := !c.accessKeyId.isEmpty || !c.secretAccessKey.isEmpty

def scope (c : StorageConfig) (day : String) : CredentialScope :=
  { accessKey := c.accessKeyId, day := day, region := Region.signing c.region }

/-- The headers that are added to a request: none without credentials. They cannot be made of
credentials with characters that headers do not hold. -/
def headers? (c : StorageConfig) (day : String) : Option Http.Headers :=
  if hasCredentials c then
    let session := match c.sessionToken.revealed? with
      | some token => [Http.Header.ofText sessionHeader token]
      | none => []
    let all := Http.Header.ofText scopeHeader (scheme ++ (scope c day).text) :: session
    if all.all fun h => h.value.all Http.Header.isLegalByte then some all else none
  else some []

end Signing
end ObjectStorage.S3
