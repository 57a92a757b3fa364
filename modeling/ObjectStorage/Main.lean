import ObjectStorage.CommandLine.Run

/-! # The program

Reads the files that the arguments name, carries out the command, and prints and writes what it leaves.
There is no network here: a command that needs the store ends as if no connection could be made.
-/
namespace ObjectStorage.Program

open CommandLine

def contentOf (path : String) : IO (List (String × List UInt8)) := do
  try
    return [(path, (← IO.FS.readBinFile path).toList)]
  catch _ => return []

def inputs (i : Invocation) : List String :=
  i.config :: match i.command with
    | .put _ file => [file]
    | _ => []

def outputFolders (i : Invocation) : List String :=
  match i.command with
  | .get _ (some path) => [Directory.folderOf path]
  | _ => []

def directoryFor (args : List String) : IO Directory := do
  match Invocation.ofArguments args with
  | .run i =>
    let found ← (inputs i).mapM contentOf
    let d := Directory.ofFiles found.flatten
    return { d with folders := outputFolders i ++ d.folders }
  | _ => return {}

def offline : Http.Executor Unit := fun _ => return .error (.connect "no network")

/-- Prints what a command leaves and writes its files; the code that it ends with. -/
def conclude (before : Directory) (o : Outcome) : IO UInt32 := do
  let output ← IO.getStdout
  output.write (ByteArray.mk o.output.toArray)
  output.flush
  for (path, data) in o.directory.newFiles before do
    IO.FS.writeBinFile path (ByteArray.mk data.toArray)
  match o.ending with
  | .failure c => IO.eprint c.text
  | .misuse => IO.eprintln ("error: cannot read the arguments\n\nUsage: " ++ Topic.program.usage)
  | .success => pure ()
  if let some m := o.metrics then
    for line in m.fullLines true do
      IO.eprintln line
  return UInt32.ofNat o.ending.code

def start (args : List String) : IO UInt32 := do
  let directory ← directoryFor args
  let (outcome, ()) := CommandLine.run args ⟨offline, ""⟩ directory ()
  conclude directory outcome

end ObjectStorage.Program

def main (args : List String) : IO UInt32 := ObjectStorage.Program.start args
