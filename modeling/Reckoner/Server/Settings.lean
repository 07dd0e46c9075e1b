import Reckoner.Network.SocketAddress

/-!
# Settings of the server

The address to listen on and the directory of the site. Each is given by an option, else by the
environment, else it has its usual value. An option is settled, with the word after it as its value,
only when the next option is met or the arguments end; a word that nothing takes is refused at once.
-/
namespace Reckoner.Server

open Network

structure Settings where
  address : SocketAddress
  site : String
  deriving Repr, DecidableEq

inductive Setting where
  | address
  | site
  deriving Repr, DecidableEq

/-- Why arguments give no settings. -/
inductive Misuse where
  /-- help is asked for, and nothing before it is wrong -/
  | helpWanted
  | valueMissing
  | valueUnexpected
  | valueMalformed
  | settingRepeated
  | argumentUnknown
  deriving Repr, DecidableEq

/-- The settings that have been given so far. -/
structure Given where
  address : Option SocketAddress
  site : Option String
  deriving Repr, DecidableEq

namespace Given

def nothing : Given := ⟨none, none⟩

def has (given : Given) : Setting → Bool
  | .address => given.address.isSome
  | .site => given.site.isSome

/-- The same with one more setting. A directory has a name that is not empty. -/
def set (given : Given) (setting : Setting) (value : String) : Except Misuse Given :=
  match setting with
  | .address =>
    match SocketAddress.parse? value with
    | some address => .ok { given with address := some address }
    | none => .error .valueMalformed
  | .site => if value = "" then .error .valueMissing else .ok { given with site := some value }

/-- The same with what an option says, which has one value and stands once. -/
def settle (given : Given) (setting : Setting) : Option String → Except Misuse Given
  | none => .error .valueMissing
  | some value => if given.has setting then .error .settingRepeated else given.set setting value

/-- The same with what the environment says about a setting that is not given yet. -/
def supply (given : Given) (setting : Setting) : Option String → Except Misuse Given
  | none => .ok given
  | some value => if given.has setting then .ok given else given.set setting value

end Given

/-- What one argument is, before the mark that ends the options. -/
inductive Word where
  | option (setting : Setting)
  | optionWith (setting : Setting) (value : String)
  | help
  | helpWith (value : String)
  | endOfOptions
  | unknownOption
  | plain (text : String)
  deriving Repr, DecidableEq

def settingNamed? (name : List Char) : Option Setting :=
  if name = "bind".toList then some .address
  else if name = "web-dir".toList then some .site
  else none

def Word.of (argument : String) : Word :=
  match argument.toList with
  | ['-', '-'] => endOfOptions
  | '-' :: '-' :: text =>
    let name := text.takeWhile (· ≠ '=')
    let value? := (text.dropWhile (· ≠ '=')).tail?.map String.ofList
    match settingNamed? name, value? with
    | some setting, none => option setting
    | some setting, some value => optionWith setting value
    | none, none => if name = "help".toList then help else unknownOption
    | none, some value => if name = "help".toList then helpWith value else unknownOption
  | '-' :: 'h' :: _ => help
  | '-' :: _ :: _ => unknownOption
  | _ => plain argument

/-- An option that was met last, with the word after it if there is one. -/
structure Pending where
  setting : Setting
  value : Option String

/-- What is given once the option that was met last is settled. -/
def Given.withPending (given : Given) : Option Pending → Except Misuse Given
  | none => .ok given
  | some pending => given.settle pending.setting pending.value

def readWords (given : Given) (pending : Option Pending) : List String → Except Misuse Given
  | [] => given.withPending pending
  | argument :: rest =>
    match Word.of argument with
    | .option setting => do
      readWords (← given.withPending pending) (some ⟨setting, none⟩) rest
    | .optionWith setting value => do
      readWords (← (← given.withPending pending).settle setting value) none rest
    | .help => do
      let _ ← given.withPending pending
      .error .helpWanted
    | .helpWith _ => .error .valueUnexpected
    | .endOfOptions => if rest = [] then given.withPending pending else .error .argumentUnknown
    | .unknownOption => .error .argumentUnknown
    | .plain text =>
      match pending with
      | some ⟨setting, none⟩ => readWords given (some ⟨setting, some text⟩) rest
      | _ => .error .argumentUnknown

/-- What the environment says about the settings. -/
structure Environment where
  address : Option String
  site : Option String

def usualAddress : SocketAddress := .v4 ⟨#v[127, 0, 0, 1]⟩ 8000

def usualSite : String := "web"

/-- The settings that arguments and an environment make. -/
def Settings.read (environment : Environment) (arguments : List String) : Except Misuse Settings := do
  let given ← readWords .nothing none arguments
  let given ← given.supply .address environment.address
  let given ← given.supply .site environment.site
  return ⟨given.address.getD usualAddress, given.site.getD usualSite⟩

end Reckoner.Server
