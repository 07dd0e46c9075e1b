import Reckoner.Exit
import Reckoner.Server.Host
import Reckoner.Server.LogFilter

/-!
# The server as a program

It reads its settings and starts. When it does not start it logs why, which the usual filter does
not show; once it has started it runs until it is stopped.
-/
namespace Reckoner.Server

/-- The environment of the program: its settings and its log filter. -/
structure ProgramEnvironment where
  settings : Environment
  logFilter : Option String

/-- The filter that a text writes; without one, or if it writes none, nothing about the start is
shown. -/
def LogFilter.ofEnvironment (text : Option String) : LogFilter :=
  (text.bind LogFilter.parse?).getD []

/-- The line that tells why the server did not start. -/
def failureLine : LogLine := ⟨"serveur".toList, ["message".toList]⟩

/-- How a character is logged: those that could steer a terminal are spelled out. -/
def loggedChars (c : Char) : List Char :=
  let hex := Nat.toDigits 16 c.toNat
  if c ∈ ['\x1b', '\x07', '\x08', '\x0c', '\x7f'] then
    '\\' :: 'x' :: List.replicate (2 - hex.length) '0' ++ hex
  else if 0x80 ≤ c.toNat ∧ c.toNat ≤ 0x9F then ['\\', 'u', '\x7b'] ++ hex ++ ['\x7d']
  else [c]

/-- What is shown of a message that is logged as an error. -/
def shownLines (filter : LogFilter) (message : String) : List String :=
  if filter.showsError failureLine then
    let text := "ERROR serveur: ".toList ++ message.toList.flatMap loggedChars
    (Text.split '\n' text).map String.ofList
  else []

def helpLines (environment : Environment) : List String :=
  ["Calculatrice sûre : API JSON + interface web",
   "",
   "Usage: serveur [OPTIONS]",
   "",
   "Options:",
   "      --bind <BIND>        Adresse TCP d’écoute [env: CALCULATRICE_BIND=" ++
     environment.address.getD "" ++ "] [default: " ++ usualAddress.render ++ "]",
   "      --web-dir <WEB_DIR>  Dossier des fichiers statiques (index.html, app.js, style.css) " ++
     "[env: CALCULATRICE_WEB=" ++ environment.site.getD "" ++ "] [default: " ++ usualSite ++ "]",
   "  -h, --help               Print help"]

/-- How the program ends that is started with these arguments on a host, if it does. -/
def run (host : Host) (environment : ProgramEnvironment) (arguments : List String) : Option Exit :=
  match Settings.read environment.settings arguments with
  | .error .helpWanted => some (.success (helpLines environment.settings))
  | .error _ => some .misused
  | .ok settings =>
    match host.start settings with
    | .ok () => none
    | .error failure =>
      let filter := LogFilter.ofEnvironment environment.logFilter
      some (.refused (shownLines filter failure.message))

end Reckoner.Server
