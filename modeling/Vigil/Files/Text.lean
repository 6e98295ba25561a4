import Vigil.SystemError
import Vigil.Text.Utf8

/-!
# Text files

What reading a file as text comes to: its text, or the reason why there is none.
-/

namespace Vigil

inductive ReadFailure where
  | refused (e : SystemError)
  | notText
  deriving DecidableEq, Repr

namespace ReadFailure

def message : ReadFailure → String
  | .refused e => e.message
  | .notText => "stream did not contain valid UTF-8"

end ReadFailure

abbrev FileText := Except ReadFailure String

namespace FileText

def ofBytes (bytes : List UInt8) : FileText :=
  match Utf8.decode? bytes with
  | some text => .ok text
  | none => .error .notText

def missing : FileText := .error (.refused .notFound)

def isFolder : FileText := .error (.refused .isDirectory)

end FileText

end Vigil
