/-! # Splitting

`splitAt` takes a text apart at every occurrence of a character; there is always one piece more than
occurrences.
-/
namespace Metrology.Text

def splitAt (mark : Char) : List Char → List (List Char)
  | [] => [[]]
  | c :: rest =>
    match splitAt mark rest with
    | piece :: pieces => if c = mark then [] :: piece :: pieces else (c :: piece) :: pieces
    | [] => [[c]]

end Metrology.Text
