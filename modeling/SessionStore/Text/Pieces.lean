/-! # Pieces of a text

A text cut at every occurrence of one character. There is always one piece more than there are cuts.
-/

namespace SessionStore.Text

def pieces (separator : Char) : List Char → List (List Char)
  | [] => [[]]
  | c :: cs =>
    if c = separator then [] :: pieces separator cs
    else
      match pieces separator cs with
      | [] => [[c]]
      | p :: ps => (c :: p) :: ps

end SessionStore.Text
