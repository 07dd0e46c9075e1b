import Reckoner.Server.Settings
import Reckoner.Text.Split
import Reckoner.Web.Connection

/-!
# The host of a server

What a server asks of the machine that it runs on: which paths are directories, at which addresses
it may listen, and whether its clients reach it. A server starts if its site is a directory and if
the host then lets it listen; it does not end by itself.
-/
namespace Reckoner.Server

open Network

structure Host where
  isDirectory : String → Bool
  /-- why nobody can listen at an address -/
  refusal? : SocketAddress → Option String
  /-- why a client on this host cannot reach a server on it -/
  barrier? : Option String

/-- Why a server does not start, or stops. -/
inductive ServerFailure where
  | siteMissing (site : String)
  | listenRefused (address : SocketAddress) (detail : String)
  | serviceStopped (detail : String)
  deriving Repr, DecidableEq

def ServerFailure.message : ServerFailure → String
  | siteMissing site => "dossier web introuvable : " ++ site
  | listenRefused address detail => s!"impossible d’écouter sur {address.render} : {detail}"
  | serviceStopped detail => "erreur serveur : " ++ detail

namespace Host

/-- Whether a server with these settings starts. -/
def start (host : Host) (settings : Settings) : Except ServerFailure Unit :=
  if !host.isDirectory settings.site then .error (.siteMissing settings.site)
  else match host.refusal? settings.address with
    | some detail => .error (.listenRefused settings.address detail)
    | none => .ok ()

/-- What clients on the host receive, one after the other, or why they receive nothing. -/
def exchange (host : Host) (site : Web.Site) (sent : List Web.Sent) :
    Except String (List Web.Response) :=
  match sent, host.barrier? with
  | [], _ => .ok []
  | _ :: _, some detail => .error detail
  | _ :: _, none => .ok (sent.map (Web.answer site))

/-- The parts of a path between its slashes. -/
def pathParts (path : String) : List (List Char) := Text.split '/' path.toList

/-- Whether a path leads nowhere but to where it starts or upwards. -/
def leadsNowhereNew (path : String) : Bool :=
  path ≠ "" && (pathParts path).all fun part => part.length ≤ 2 && part.all (· = '.')

def firstUnprivileged : UInt16 := 1024

/-- Whether a number is for privileged programs; zero asks for any that is free. -/
def isPrivileged (portNumber : UInt16) : Bool := 0 < portNumber && portNumber < firstUnprivileged

/-- A host without directories but its root, on which every address is its own, only privileged
programs listen at the low numbers, and no network is up. -/
def bare : Host where
  isDirectory := leadsNowhereNew
  refusal? address :=
    if isPrivileged address.portNumber then some "Permission denied (os error 13)" else none
  barrier? := some "Network is unreachable (os error 101)"

end Host
end Reckoner.Server
