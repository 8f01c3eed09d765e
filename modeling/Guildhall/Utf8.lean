-- SUMMARY: Reading UTF-8 bytes as characters, with the bytes that belong to no character kept apart.

/-!
# UTF-8

`Utf8.pieces` reads any list of bytes: well-formed sequences become characters, and `none`
stands where bytes form no character. The reader goes byte by byte; between the bytes of a
character it knows how many are still to come, the bits so far and the least code that may
be written with that many bytes.
-/

namespace Guildhall.Utf8

/-- What the reader knows in the middle of a character; `missing` is zero between two. -/
structure Pending where
  missing : Nat
  code : Nat
  least : Nat

def Pending.start : Pending := ⟨0, 0, 0⟩

/-- The first byte of a character: what it stands for by itself, and what is to come. -/
def first (b : UInt8) : List (Option Char) × Pending :=
  if b < 0x80 then ([some (Char.ofNat b.toNat)], .start)
  else if 0xC2 ≤ b && b ≤ 0xDF then ([], ⟨1, b.toNat - 0xC0, 0x80⟩)
  else if 0xE0 ≤ b && b ≤ 0xEF then ([], ⟨2, b.toNat - 0xE0, 0x800⟩)
  else if 0xF0 ≤ b && b ≤ 0xF4 then ([], ⟨3, b.toNat - 0xF0, 0x10000⟩)
  else ([none], .start)

/-- The character of a code, unless it was written too long or is no character at all. -/
def char? (code least : Nat) : Option Char :=
  if least ≤ code ∧ code.isValidChar then some (Char.ofNat code) else none

/-- Takes one more byte. -/
def step (p : Pending) (b : UInt8) : List (Option Char) × Pending :=
  match p.missing with
  | 0 => first b
  | missing + 1 =>
    if 0x80 ≤ b && b ≤ 0xBF then
      let code := p.code * 64 + (b.toNat - 0x80)
      if missing = 0 then ([char? code p.least], .start) else ([], ⟨missing, code, p.least⟩)
    else
      let (out, q) := first b
      (none :: out, q)

/-- Reads the bytes that follow. -/
def piecesFrom (p : Pending) : List UInt8 → List (Option Char)
  | [] => if p.missing = 0 then [] else [none]
  | b :: bs =>
    let (out, q) := step p b
    out ++ piecesFrom q bs

/-- The characters that the bytes spell, with `none` for bytes that spell none. -/
def pieces (bytes : List UInt8) : List (Option Char) := piecesFrom .start bytes

/-- The characters of a well-formed list of bytes. -/
def decode? (bytes : List UInt8) : Option (List Char) := (pieces bytes).mapM id

/-- The bytes of a text. -/
def encode (s : String) : List UInt8 := s.toUTF8.data.toList

end Guildhall.Utf8
