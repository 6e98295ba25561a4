/-!
# Bytes to text

Decoding of UTF-8. `decode?` accepts well-formed input only. `decodeLossy` puts one replacement
character (U+FFFD) in the place of each maximal part that begins a character but does not finish it,
and of each byte that can begin none.
-/

namespace Vigil.Utf8

def replacement : Char := Char.ofNat 0xFFFD

def isTail (b : UInt8) : Bool := 0x80 ≤ b && b ≤ 0xBF

/-- What a first byte announces: the bits it carries, the bounds of the second byte, and how many bytes
follow in all. The bounds rule out overlong forms, surrogates and code points above U+10FFFF. -/
structure Lead where
  bits : Nat
  low : UInt8
  high : UInt8
  follow : Nat

def lead? (b : UInt8) : Option Lead :=
  if 0xC2 ≤ b && b ≤ 0xDF then some ⟨b.toNat - 0xC0, 0x80, 0xBF, 1⟩
  else if b == 0xE0 then some ⟨0, 0xA0, 0xBF, 2⟩
  else if b == 0xED then some ⟨0xD, 0x80, 0x9F, 2⟩
  else if 0xE1 ≤ b && b ≤ 0xEF then some ⟨b.toNat - 0xE0, 0x80, 0xBF, 2⟩
  else if b == 0xF0 then some ⟨0, 0x90, 0xBF, 3⟩
  else if b == 0xF4 then some ⟨4, 0x80, 0x8F, 3⟩
  else if 0xF1 ≤ b && b ≤ 0xF3 then some ⟨b.toNat - 0xF0, 0x80, 0xBF, 3⟩
  else none

def tails : Nat → Nat → List UInt8 → Nat × Option Nat
  | 0, acc, _ => (0, some acc)
  | _ + 1, _, [] => (0, none)
  | n + 1, acc, b :: bs =>
    if isTail b then
      let (k, r) := tails n (acc * 64 + (b.toNat - 0x80)) bs
      (k + 1, r)
    else (0, none)

/-- The character at the front, if well formed, and how many bytes it or its maximal part takes. -/
def next (b : UInt8) (bs : List UInt8) : Option Char × Nat :=
  if b < 0x80 then (some (Char.ofNat b.toNat), 1)
  else
    match lead? b, bs with
    | none, _ => (none, 1)
    | some _, [] => (none, 1)
    | some l, b₂ :: rest =>
      if l.low ≤ b₂ && b₂ ≤ l.high then
        let (k, r) := tails (l.follow - 1) (l.bits * 64 + (b₂.toNat - 0x80)) rest
        (r.map Char.ofNat, k + 2)
      else (none, 1)

def lossyFrom (skip : Nat) : List UInt8 → List Char
  | [] => []
  | b :: bs =>
    match skip with
    | k + 1 => lossyFrom k bs
    | 0 =>
      let (c, n) := next b bs
      c.getD replacement :: lossyFrom (n - 1) bs

def decodeLossy (bytes : List UInt8) : String := String.ofList (lossyFrom 0 bytes)

def strictFrom (skip : Nat) : List UInt8 → Option (List Char)
  | [] => some []
  | b :: bs =>
    match skip with
    | k + 1 => strictFrom k bs
    | 0 =>
      match next b bs with
      | (some c, n) => (strictFrom (n - 1) bs).map (c :: ·)
      | (none, _) => none

def decode? (bytes : List UInt8) : Option String := (strictFrom 0 bytes).map String.ofList

end Vigil.Utf8
