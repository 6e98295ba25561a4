import Vigil.Settings.Schema
import Vigil.Decimal.Shortest

/-!
# Listing settings

One setting a line, grouped by section, each level four blanks further in.
-/

namespace Vigil.Settings

def Kind.show : (k : Kind) → k.Value → String
  | .count _, n => toString (n : Nat)
  | .real, x => Decimal.Layout.tagged.text x
  | .mode, .kill => "Kill"
  | .mode, .observe => "Observe"

def Field.line (s : Settings) (f : Field) : String := s!"        {f.name}: {f.kind.show (f.get s)},\n"

def Section.lines (s : Settings) (sec : Section) : String :=
  s!"    {sec.name}: {sec.title} \x7b\n" ++ String.join (sec.fields.map (Field.line s)) ++ "    \x7d,\n"

def listing (s : Settings) : String :=
  "WardenConfig \x7b\n" ++ String.join (schema.map (Section.lines s)) ++ "\x7d"

end Vigil.Settings
