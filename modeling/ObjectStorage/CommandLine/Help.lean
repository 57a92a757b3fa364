import ObjectStorage.CommandLine.Invocation

/-! # Help texts -/
namespace ObjectStorage.CommandLine

def versionText : String := "bucketline 0.1.0\n"

namespace Topic

def about : Topic → String
  | program => "Resilient client for S3-compatible object storage"
  | help => "Print this message or the help of the given subcommand(s)"
  | get => "Download an object"
  | put => "Upload a file to the primary bucket"
  | delete => "Delete an object from the primary bucket"
  | list => "List objects and common prefixes"
  | showConfig => "Print the effective configuration with secrets masked"

def usage : Topic → String
  | program => "bucketline [OPTIONS] <COMMAND>"
  | help => "bucketline help [COMMAND]..."
  | get => "bucketline get [OPTIONS] <KEY>"
  | put => "bucketline put <KEY> <FILE>"
  | delete => "bucketline delete <KEY>"
  | list => "bucketline list [OPTIONS]"
  | showConfig => "bucketline show-config"

def wordRows : Topic → List (String × String)
  | get | delete => [("<KEY>", "Object key")]
  | put => [("<KEY>", "Object key"), ("<FILE>", "File to upload")]
  | help => [("[COMMAND]...", "Print help for the subcommand(s)")]
  | _ => []

def helpRow : String × String := ("-h, --help", "Print help")

def optionRows : Topic → List (String × String)
  | program =>
    [("-c, --config <CONFIG>", "Path to the YAML configuration file [default: bucketline.yaml]"),
      ("    --print-metrics", "Print Prometheus metrics to stderr after the command finishes"),
      helpRow, ("-V, --version", "Print version")]
  | get => [("-o, --output <OUTPUT>", "Write the object here instead of stdout"), helpRow]
  | list =>
    [("-p, --prefix <PREFIX>", "Only keys starting with this prefix [default: ]"),
      ("-d, --delimiter <DELIMITER>", "Group keys on this delimiter (empty = flat listing) [default: ]"),
      helpRow]
  | put | delete | showConfig => [helpRow]
  | help => []

def table (title : String) (rows : List (String × String)) : String :=
  if rows.isEmpty then ""
  else
    let width := (rows.map (·.1.length)).foldl max 0
    let line (row : String × String) : String :=
      "  " ++ row.1 ++ String.ofList (List.replicate (width - row.1.length) ' ') ++ "  " ++ row.2 ++ "\n"
    "\n" ++ title ++ ":\n" ++ String.join (rows.map line)

def helpText (t : Topic) : String :=
  t.about ++ "\n\nUsage: " ++ t.usage ++ "\n" ++
  (if t = program then table "Commands" (commands.map fun c => (c.name, c.about)) else "") ++
  table "Arguments" t.wordRows ++ table "Options" t.optionRows

end Topic
end ObjectStorage.CommandLine
