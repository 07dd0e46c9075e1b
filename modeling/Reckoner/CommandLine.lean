import Reckoner.Evaluation
import Reckoner.Exit

/-!
# The command line

All arguments make up one expression. The first of them may ask for help, or be a mark that is left
out and that lets the expression start with such a word.
-/
namespace Reckoner.CommandLine

/-- What the arguments ask for. -/
inductive Invocation where
  | help
  | misused
  | evaluation (expression : String)
  deriving Repr, DecidableEq

/-- Whether an argument is a dash and then letters that all ask for help. -/
def isShortHelp (argument : String) : Bool :=
  match argument.toList with
  | '-' :: letters => letters ≠ [] ∧ letters.all (· = 'h')
  | _ => false

def expressionOf : List String → Invocation
  | [] => .misused
  | words => .evaluation (" ".intercalate words)

def Invocation.ofArguments : List String → Invocation
  | [] => misused
  | first :: rest =>
    if first = "--" then expressionOf rest
    else if first = "--help" ∨ isShortHelp first then help
    else if first.startsWith "--help=" then misused
    else expressionOf (first :: rest)

def usage : String := "Usage: calc \"2+2\""

def helpLines : List String :=
  ["Évalue une expression arithmétique restreinte",
   "",
   usage,
   "",
   "Arguments:",
   "  <EXPRESSION>...  Expression (plusieurs arguments sont joints par un espace)",
   "",
   "Options:",
   "  -h, --help  Print help"]

/-- How the program ends that is started with these arguments. -/
def run (arguments : List String) : Exit :=
  match Invocation.ofArguments arguments with
  | .help => .success helpLines
  | .misused => .misused
  | .evaluation expression =>
    match evaluate expression with
    | .ok value => .success [Decimal.result.render value]
    | .error reason => .refused ["Error: " ++ reason.message]

end Reckoner.CommandLine
