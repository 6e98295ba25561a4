import Vigil.Text.Scan

/-!
# Progress markers

Words and counters by which a line tells that work goes on. A marker is a whole word of a short list in
any letter case, a percentage, or a count of so many out of so many.
-/

namespace Vigil.Progress

open CharClass

def words : List (List Char) :=
  ["progress", "step", "steps", "processed", "completed", "done", "eta"].map String.toList

def isWordAt (before : Option Char) (text : List Char) : Bool :=
  Scan.opensWord before &&
    words.any fun w => (Scan.afterFolded? w text).any Scan.endsWord

/-- A percent sign follows the digit that stands here. The digits in front of that one, with or without
a point among them, do not matter. -/
def isPercentAt : List Char → Bool
  | d :: '%' :: _ => isDigit d
  | _ => false

def isRatioAt (before : Option Char) (text : List Char) : Bool :=
  Scan.opensWord before && !(text.takeWhile isDigit).isEmpty &&
    match text.dropWhile isDigit with
    | '/' :: rest => !(rest.takeWhile isDigit).isEmpty && Scan.endsWord (rest.dropWhile isDigit)
    | _ => false

def isMarked (line : List Char) : Bool :=
  Scan.any (fun before text => isWordAt before text || isPercentAt text || isRatioAt before text) line

end Vigil.Progress
