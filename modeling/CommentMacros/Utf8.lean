import CommentMacros.Text.Basic

namespace CommentMacros

/-- A run of bytes: a path, an argument, the content of a file. -/
abbrev Bytes := List UInt8

namespace Utf8

/-- A character of which some bytes are still owed, with bounds on the one that may come next. -/
structure Partial where
  owed : Nat
  least : UInt8
  greatest : UInt8
  bits : Nat
  deriving DecidableEq, Repr

inductive Lead where
  | whole (c : Char)
  | begins (p : Partial)
  | stray
  deriving DecidableEq, Repr

/-- Overlong forms, surrogates and code points past U+10FFFF are shut out by the bounds on the
second byte. -/
def lead (b : UInt8) : Lead :=
  let n := b.toNat
  if n < 0x80 then .whole (Char.ofNat n)
  else if n < 0xC2 then .stray
  else if n < 0xE0 then .begins ⟨0, 0x80, 0xBF, n - 0xC0⟩
  else if n = 0xE0 then .begins ⟨1, 0xA0, 0xBF, n - 0xE0⟩
  else if n = 0xED then .begins ⟨1, 0x80, 0x9F, n - 0xE0⟩
  else if n < 0xF0 then .begins ⟨1, 0x80, 0xBF, n - 0xE0⟩
  else if n = 0xF0 then .begins ⟨2, 0x90, 0xBF, n - 0xF0⟩
  else if n < 0xF4 then .begins ⟨2, 0x80, 0xBF, n - 0xF0⟩
  else if n = 0xF4 then .begins ⟨2, 0x80, 0x8F, n - 0xF0⟩
  else .stray

def Partial.take (p : Partial) (b : UInt8) : Nat := p.bits * 64 + (b.toNat - 0x80)

/-- Reads bytes as characters, with `none` for each maximal ill-formed run: a beginning of some
character that the next byte cannot continue, or a byte that begins none. Reading resumes right
behind it. -/
def scan : Option Partial → Bytes → List (Option Char)
  | none, [] => []
  | some _, [] => [none]
  | none, b :: bs =>
    match lead b with
    | .whole c => some c :: scan none bs
    | .begins q => scan (some q) bs
    | .stray => none :: scan none bs
  | some p, b :: bs =>
    if p.least ≤ b ∧ b ≤ p.greatest then
      match p.owed with
      | 0 => some (Char.ofNat (p.take b)) :: scan none bs
      | n + 1 => scan (some ⟨n, 0x80, 0xBF, p.take b⟩) bs
    else
      none ::
        match lead b with
        | .whole c => some c :: scan none bs
        | .begins q => scan (some q) bs
        | .stray => none :: scan none bs

def decode? (bs : Bytes) : Option Text := (scan none bs).mapM id

/-- The bytes made legible: each maximal ill-formed run becomes one U+FFFD. -/
def lossy (bs : Bytes) : Text := (scan none bs).map (·.getD '\uFFFD')

def encode (s : Text) : Bytes := s.flatMap String.utf8EncodeChar

end Utf8

end CommentMacros
