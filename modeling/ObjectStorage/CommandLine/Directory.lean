/-! # Directories

The files that a command can read, and the folders it can write into. Files are found by their paths,
in which empty parts and single dots do not count.
-/
namespace ObjectStorage.CommandLine

structure Directory where
  files : List (String × List UInt8) := []
  /-- The folders there are; the directory itself is the empty path. -/
  folders : List String := [""]
deriving Repr

namespace Directory

def parts (path : String) : List String :=
  (path.splitOn "/").filter fun p => !p.isEmpty && p != "."

/-- A path from its parts; one that starts with a slash still does. -/
def ofParts (path : String) (parts : List String) : String :=
  (if path.startsWith "/" then "/" else "") ++ "/".intercalate parts

/-- Whether a path can only be that of a folder. -/
def endsInFolder (path : String) : Bool :=
  let last := (path.splitOn "/").getLastD ""
  last.isEmpty || last = "."

def filePath? (path : String) : Option String :=
  if endsInFolder path then none else some (ofParts path (parts path))

def folderOf (path : String) : String := ofParts path (parts path).dropLast

def ofFiles (files : List (String × List UInt8)) : Directory :=
  { files := files.filterMap fun (path, data) => (filePath? path).map (·, data)
    folders := "" :: files.flatMap fun (path, _) =>
      (List.range (parts path).length).map fun n => ofParts path ((parts path).take n) }

def read? (path : String) (d : Directory) : Option (List UInt8) :=
  (filePath? path).bind fun file => d.files.lookup file

def write? (path : String) (data : List UInt8) (d : Directory) : Option Directory := do
  let file ← filePath? path
  guard (d.folders.contains (folderOf path) && !d.folders.contains file)
  return { d with files := (file, data) :: d.files.filter (·.1 ≠ file) }

def newFiles (d old : Directory) : List (String × List UInt8) :=
  d.files.filter fun (path, _) => (old.files.lookup path).isNone

end Directory
end ObjectStorage.CommandLine
