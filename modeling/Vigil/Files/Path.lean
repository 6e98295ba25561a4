/-!
# Paths

A path is a list of names, counted from the root or from where one stands. Points and doubled slashes drop
out of it; a slash at its end asks for a folder.
-/

namespace Vigil

structure FilePath where
  absolute : Bool
  parts : List String
  /-- It names a folder, whatever stands there. -/
  asFolder : Bool
  deriving DecidableEq, Repr

namespace FilePath

def isNamed (part : String) : Bool := part ≠ "" && part ≠ "."

def ofText (s : String) : FilePath :=
  let pieces := s.splitOn "/"
  { absolute := 1 < pieces.length && pieces.head? == some ""
    parts := pieces.filter isNamed
    asFolder := !(pieces.getLast?.any isNamed) }

def text (p : FilePath) : String :=
  (if p.absolute then "/" else "") ++ "/".intercalate p.parts

def sibling (p : FilePath) (name : String) : FilePath :=
  { p with parts := p.parts.dropLast ++ [name], asFolder := false }

end FilePath

end Vigil
