import Vigil.Report.Incidents
import Vigil.Text.Utf8

/-!
# Addresses of incident logs

A log is addressed by a path, or by a URI of the scheme `file`: a path in which a percent sign with two
hexadecimal digits stands for a byte, and behind a question mark options that say how the log is opened.
A number sign ends the address, and a byte of zero ends the part it stands in. A log that has no file
lasts only as long as it is open.
-/

namespace Vigil.Report

inductive LogAccess where
  | read
  | write
  | create
  deriving DecidableEq, Repr

structure LogAddress where
  path : Option String
  access : LogAccess := .create
  deriving DecidableEq, Repr

namespace LogAddress

def scheme : String := "file:"

def memoryPath : String := ":memory:"

def ofPath (path : String) (access : LogAccess) : LogAddress :=
  { path := if path = "" || path = memoryPath then none else some path, access }

def hexValue? (c : Char) : Option Nat :=
  if '0' ≤ c && c ≤ '9' then some (c.toNat - '0'.toNat)
  else if 'a' ≤ c && c ≤ 'f' then some (c.toNat - 'a'.toNat + 10)
  else if 'A' ≤ c && c ≤ 'F' then some (c.toNat - 'A'.toNat + 10)
  else none

def unescape : List Char → List UInt8
  | '%' :: a :: b :: rest =>
    match hexValue? a, hexValue? b with
    | some x, some y => UInt8.ofNat (x * 16 + y) :: unescape rest
    | _, _ => '%'.toString.toUTF8.toList ++ unescape (a :: b :: rest)
  | c :: rest => c.toString.toUTF8.toList ++ unescape rest
  | [] => []

def decode (part : List Char) : String := Utf8.decodeLossy ((unescape part).takeWhile (· ≠ 0))

def cut (mark : Char) (text : List Char) : List Char × List Char :=
  (text.takeWhile (· ≠ mark), (text.dropWhile (· ≠ mark)).drop 1)

def option (text : List Char) : String × String :=
  let (name, value) := cut '=' text
  (decode name, decode value)

/-- The options of a URI. One without a name is passed over. -/
def options (query : List Char) : List (String × String) :=
  ((query.splitOn '&').map option).filter fun o => o.1 ≠ ""

def afterHost : List Char → Except LogError (List Char)
  | '/' :: '/' :: rest =>
    let host := String.ofList (rest.takeWhile (· ≠ '/'))
    if host = "" || host = "localhost" then .ok (rest.dropWhile (· ≠ '/'))
    else .error (.invalidAuthority host)
  | rest => .ok rest

structure Opening where
  access : LogAccess := .create
  inMemory : Bool := false
  store : Option String := none
  deriving DecidableEq, Repr

def applyOption (o : Opening) : String × String → Except LogError Opening
  | ("vfs", name) => .ok { o with store := some name }
  | ("cache", value) =>
    if value = "shared" || value = "private" then .ok o else .error (.unknownMode "cache" value)
  | ("mode", value) =>
    match value with
    | "ro" => .ok { o with access := .read, inMemory := false }
    | "rw" => .ok { o with access := .write, inMemory := false }
    | "rwc" => .ok { o with access := .create, inMemory := false }
    | "memory" => .ok { o with inMemory := true }
    | _ => .error (.unknownMode "access" value)
  | _ => .ok o

def fileStores : List String := ["unix", "unix-dotfile", "unix-excl", "unix-none"]

def memoryStore : String := "memdb"

def ofUri (rest : List Char) : Except LogError LogAddress := do
  let rest ← afterHost rest
  let (path, query) := cut '?' (rest.takeWhile (· ≠ '#'))
  let o ← (options query).foldlM applyOption {}
  let store := o.store.getD "unix"
  if store = memoryStore then return { path := none, access := o.access }
  else if store ∈ fileStores then
    return if o.inMemory then { path := none, access := o.access } else ofPath (decode path) o.access
  else throw (.unknownStore store)

def ofText (text : String) : Except LogError LogAddress :=
  if text.startsWith scheme then ofUri (text.toList.drop scheme.length) else .ok (ofPath text .create)

end LogAddress

end Vigil.Report
