import Recast.Cli.Options

/-!
# Usage

What is printed about the command line itself.
-/

namespace Recast

namespace Cli

/-- The program's name in its messages. -/
def program : Text := "polyglot"

/-- The lines on how the program is called. -/
def usage : Text :=
  "usage: polyglot [-h] [--target \x7bgo,php,javascript,csharp\x7d] [--report]\n" ++
    "                [--trace] [--json] [--grammar-check] [--verbose]\n" ++
    "                [file]\n"

/-- The usage and what each argument means. -/
def help : Text :=
  usage ++
    "\nTranslate a Python-like snippet to Go, PHP, JavaScript and C#\n" ++
    "\npositional arguments:\n" ++
    "  file                  Source file to translate\n" ++
    "\noptions:\n" ++
    "  -h, --help            show this help message and exit\n" ++
    "  --target \x7bgo,php,javascript,csharp\x7d, -t \x7bgo,php,javascript,csharp\x7d\n" ++
    "                        Target to emit (repeatable; default: all)\n" ++
    "  --report              Print the analysis report\n" ++
    "  --trace               Print which rules rewrote the text\n" ++
    "  --json                Dump the full result as JSON\n" ++
    "  --grammar-check       Also parse each output with the target's tree-sitter\n" ++
    "                        grammar\n" ++
    "  --verbose, -v         Log pipeline progress\n"

/-- What is printed where the arguments are misused. -/
def complaint (m : Misuse) : Text :=
  usage ++ program ++ ": error: " ++ m.message ++ "\n"

end Cli

end Recast
