import Reckon.Text.Basic

/-!
# Help

The texts that explain how the program is called.
-/

namespace Reckon.CommandLine

def programName : Text := "sequential-calculator".toList

/-- The lines that say how the program is called. -/
def usageLines : List String :=
  ["usage: sequential-calculator [-h] [-f FILE_PATH] [-o OUTPUT] [-w MAX_WORKERS]",
   "                             [expression]"]

/-- The lines that say what the arguments mean. -/
def helpLines : List String :=
  ["",
   "Evaluate integer arithmetic strictly left to right",
   "",
   "positional arguments:",
   "  expression            Expression to evaluate, e.g. \"9 + 3 * 2\"",
   "",
   "options:",
   "  -h, --help            show this help message and exit",
   "  -f FILE_PATH, --file FILE_PATH",
   "                        File (.txt, .zip, .tar.xz, .7z) with one expression",
   "                        per line",
   "  -o OUTPUT, --output OUTPUT",
   "                        Results file for --file (default: <input>_results.txt)",
   "  -w MAX_WORKERS, --max-workers MAX_WORKERS",
   "                        Maximum simultaneous worker processes for --file"]

/-- Lines as a text, each with its line end. -/
def ended (lines : List String) : Text :=
  lines.flatMap fun l => l.toList ++ ['\n']

def usageText : Text := ended usageLines

def helpText : Text := ended (usageLines ++ helpLines)

end Reckon.CommandLine
