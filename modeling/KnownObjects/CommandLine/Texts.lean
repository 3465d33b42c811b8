/-!
# What the program says about itself

The help texts, short and long, and the version.
-/

namespace KnownObjects.CommandLine

private def purpose : List String :=
  ["Known object table for JIT compilers, with split-process synchronization", "",
    "Usage: knot [OPTIONS]", "", "Options:"]

private def lines (texts : List String) : String := String.join (texts.map (· ++ "\n"))

def shortHelpText : String := lines <| purpose ++
  ["      --mode <MODE>     Table topology to resolve the sample objects through [default: local] [possible values: local, split]",
    "      --graph           Print the <knownObjectGraph> block",
    "      --mutable-fields  Include mutable reference fields as graph children",
    "      --collect         Relocate the heap between lookups",
    "  -v, --verbose...      More logging, repeat for trace",
    "  -h, --help            Print help (see more with '--help')",
    "  -V, --version         Print version"]

def longHelpText : String := lines <| purpose ++
  ["      --mode <MODE>",
    "          Table topology to resolve the sample objects through",
    "",
    "          Possible values:",
    "          - local: compiler and heap in one process",
    "          - split: compiler as server, heap owner as client on its own thread",
    "          ",
    "          [default: local]",
    "",
    "      --graph",
    "          Print the <knownObjectGraph> block",
    "",
    "      --mutable-fields",
    "          Include mutable reference fields as graph children",
    "",
    "      --collect",
    "          Relocate the heap between lookups",
    "",
    "  -v, --verbose...",
    "          More logging, repeat for trace",
    "",
    "  -h, --help",
    "          Print help (see a summary with '-h')",
    "",
    "  -V, --version",
    "          Print version"]

def versionText : String := lines ["knot 0.1.0"]

end KnownObjects.CommandLine
