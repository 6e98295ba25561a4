import Vigil.Evidence.Tracked
import Vigil.Text.Utf8

/-!
# Lines of a byte stream

A stream arrives in pieces that may end anywhere. Every segment up to and including a line feed is one
line; what is left at the end of the stream is a last line unless it is empty. A stream that breaks takes
its unfinished line with it.
-/

namespace Vigil

structure LineReader where
  pending : List UInt8 := []
  deriving DecidableEq, Repr

namespace LineReader

def lineFeed : UInt8 := 10

/-- Cuts bytes behind every line feed. What follows the last one is the rest. -/
def split : List UInt8 → List (List UInt8) × List UInt8
  | [] => ([], [])
  | b :: bs =>
    let (done, rest) := split bs
    if b = lineFeed then ([b] :: done, rest)
    else
      match done with
      | [] => ([], b :: rest)
      | d :: ds => ((b :: d) :: ds, rest)

def feed (r : LineReader) (piece : List UInt8) : List (List UInt8) × LineReader :=
  match split piece with
  | ([], rest) => ([], ⟨r.pending ++ rest⟩)
  | (d :: ds, rest) => ((r.pending ++ d) :: ds, ⟨rest⟩)

def finish (r : LineReader) : List (List UInt8) := if r.pending = [] then [] else [r.pending]

end LineReader

def OutputLine.ofSegment (segment : List UInt8) : OutputLine := .of (Utf8.decodeLossy segment)

end Vigil
