/-!
# Cutting a text

A text is cut at every occurrence of a separator; the pieces may be empty, and there is always one.
-/
namespace Reckoner.Text

def split (separator : Char) : List Char → List (List Char)
  | [] => [[]]
  | c :: rest =>
    if c = separator then [] :: split separator rest
    else match split separator rest with
      | [] => [[c]]
      | piece :: pieces => (c :: piece) :: pieces

@[simp] theorem split_nil (separator : Char) : split separator [] = [[]] := rfl

@[simp] theorem split_ne_nil (separator : Char) (cs : List Char) : split separator cs ≠ [] := by
  cases cs with
  | nil => simp
  | cons c rest =>
    simp only [split]
    split
    · simp
    · split <;> simp

end Reckoner.Text
