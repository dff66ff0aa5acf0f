import SkeletonWeave.Command.Line

/-!
# Help

The texts that tell how the program is used.
-/

set_option autoImplicit false

namespace SkeletonWeave

def programName : String := "bridgegen"

def programVersion : String := "0.3.0"

namespace HelpTopic

def row (width : Nat) (name purpose : String) : String :=
  "  " ++ name ++ "".pushn ' ' (width - name.length) ++ "  " ++ purpose

def jobRows (width : Nat) : List String :=
  [row width "    --library-root <DIR>" "OpenZWave source tree [aliases: --ozwroot]",
    row width "    --thrift-root <DIR>" "Thrift C++ include directory [aliases: --thriftroot]",
    row width "-c, --config <CONFIG>"
      "Path to bridge.toml (defaults to ./bridge.toml when present)"]

def sharedRows (width : Nat) : List String :=
  [row width "-v, --verbose..." "Increase log verbosity (-v info, -vv debug, -vvv trace)",
    row width "-h, --help" "Print help"]

def commandRows : List String :=
  [row 8 "generate" "Write the server source with every handler method bridged",
    row 8 "check" "Report coverage and bridging problems without writing anything",
    row 8 "help" "Print this message or the help of the given subcommand(s)"]

def optionWidth : Nat := 24

def lines : HelpTopic → List String
  | program =>
    ["Bridge a Thrift server skeleton to the OpenZWave Manager", "",
      "Usage: " ++ programName ++ " [OPTIONS] <COMMAND>", "", "Commands:"] ++ commandRows ++
    ["", "Options:"] ++ sharedRows 15 ++ [row 15 "-V, --version" "Print version"]
  | generate =>
    ["Write the server source with every handler method bridged", "",
      "Usage: " ++ programName ++
        " generate [OPTIONS] --library-root <DIR> --thrift-root <DIR>",
      "", "Options:"] ++ jobRows optionWidth ++
    [row optionWidth "    --dry-run" "Print the generated server instead of writing it",
      row optionWidth "    --visualize"
        "Write a JSON snapshot of each pipeline phase to .bridgegen/debug"] ++
    sharedRows optionWidth
  | check =>
    ["Report coverage and bridging problems without writing anything", "",
      "Usage: " ++ programName ++ " check [OPTIONS] --library-root <DIR> --thrift-root <DIR>",
      "", "Options:"] ++ jobRows optionWidth ++ sharedRows optionWidth
  | help =>
    ["Print this message or the help of the given subcommand(s)", "",
      "Usage: " ++ programName ++ " help [COMMAND]...", "", "Arguments:",
      row 12 "[COMMAND]..." "Print help for the subcommand(s)"]

end HelpTopic

end SkeletonWeave
