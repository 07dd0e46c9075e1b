import Reckoner.Web.DateText
import Reckoner.Web.Message

/-!
# Conditions on the age of a file

A request may ask for a file only if it has not changed since a moment, or only if it has. A header
that writes no moment sets no condition.
-/
namespace Reckoner.Web

open Calendar

/-- The moment in the header of a name. -/
def Request.moment? (request : Request) (name : String) : Option Moment :=
  (request.header? name).bind DateText.parse?

/-- The response instead of a file that was last changed at a moment, if a condition fails. That it
has not changed is checked first. -/
def Request.conditionFailure? (request : Request) (changed : Moment) : Option Response :=
  if (request.moment? "if-unmodified-since").any (·.seconds < changed.seconds) then
    some .preconditionFailed
  else if (request.moment? "if-modified-since").any (changed.seconds ≤ ·.seconds) then
    some .notModified
  else none

end Reckoner.Web
