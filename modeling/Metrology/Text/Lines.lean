import Metrology.Text.Split

/-! # Lines

Texts made of lines. Every line ends with a line feed, except perhaps the last one, which is not empty then.
-/
namespace Metrology.Text

/-- Drops the piece after the last line feed if nothing is in it. -/
def dropEmptyLast : List (List Char) → List (List Char)
  | [] => []
  | [[]] => []
  | piece :: rest => piece :: dropEmptyLast rest

def lines (s : String) : List String := (dropEmptyLast (splitAt '\n' s.toList)).map String.ofList

def unifyLineEnds : List Char → List Char
  | [] => []
  | '\r' :: '\n' :: rest => '\n' :: unifyLineEnds rest
  | '\r' :: rest => '\n' :: unifyLineEnds rest
  | c :: rest => c :: unifyLineEnds rest

end Metrology.Text
