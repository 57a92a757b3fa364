import ObjectStorage.Config.Basic
import ObjectStorage.Http.Host
import ObjectStorage.Http.Path
import ObjectStorage.S3.Region

/-! # Sites

Where a bucket is: at the endpoint of a configuration, or without one at the host of its region. The
bucket is named in the host, or else in the path: the latter if the configuration says so, if the name
has dots, and if the host is an address.
-/
namespace ObjectStorage.S3

structure Site where
  scheme : String
  authority : String
  /-- What comes before the keys in a path. -/
  base : String
deriving DecidableEq, Repr

namespace Site

/-- An endpoint: a scheme, an authority, a path, and whether its host is an address. -/
structure Endpoint where
  scheme : String
  authority : String
  path : String
  isAddress : Bool
deriving DecidableEq, Repr

def Endpoint.parse? (text : String) : Option Endpoint := do
  let uri ← Http.Uri.parse? text
  let scheme ← uri.scheme
  let authority ← uri.authority
  guard (Http.Uri.commonSchemes.contains scheme && uri.query.isNone)
  let kind ← Http.Host.ofAuthority? authority
  return ⟨scheme, authority, uri.path, kind = .address⟩

def endpoint? (c : StorageConfig) : Option Endpoint :=
  Endpoint.parse? (if c.endpoint.isEmpty then "https://" ++ Region.host c.region else c.endpoint)

def withoutLastSlash (path : String) : String :=
  if path.toList.getLast? = some '/' then String.ofList path.toList.dropLast else path

def withLastSlash (path : String) : String :=
  if path.toList.getLast? = some '/' then path else path ++ "/"

def inPath (e : Endpoint) (bucket : String) : Site :=
  { scheme := e.scheme, authority := e.authority
    base := withLastSlash (Http.Path.normal e.path) ++ Text.encodeComponent bucket }

def inHost (e : Endpoint) (bucket : String) : Site :=
  { scheme := e.scheme, authority := bucket ++ "." ++ e.authority, base := withoutLastSlash e.path }

def of? (c : StorageConfig) (bucket : String) : Option Site := do
  let e ← endpoint? c
  if c.forcePathStyle || bucket.toList.contains '.' || e.isAddress then return inPath e bucket
  else do
    guard (Region.isLabel c.region)
    return inHost e bucket

/-- Names and values of a query; only the values are encoded. -/
def queryText (query : List (String × String)) : String :=
  "&".intercalate (query.map fun (name, value) => name ++ "=" ++ Text.encodeComponent value)

/-- The URI of a key with a query. The empty key stands for the bucket itself. -/
def uri (s : Site) (key : String) (query : List (String × String)) : Http.Uri :=
  { scheme := some s.scheme, authority := some s.authority
    path := s.base ++ "/" ++ Text.encodePath key, query := some (queryText query) }

end Site
end ObjectStorage.S3
