/-!
# Parts of a text

A text cut at every occurrence of a separator.
-/

namespace Monkey.Text

/-- The stretches of a text between the occurrences of a separator. -/
def parts (separator : Char) : List Char → List (List Char)
  | [] => [[]]
  | c :: rest =>
    if c = separator then [] :: parts separator rest
    else
      match parts separator rest with
      | part :: more => (c :: part) :: more
      | [] => [[c]]

end Monkey.Text
