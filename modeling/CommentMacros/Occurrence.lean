import CommentMacros.Comment
import CommentMacros.Text.Alphanumeric
import CommentMacros.Text.Offset

namespace CommentMacros

/-- What stands around a name in a line; of the characters before it the nearest comes first. -/
structure Occurrence where
  seen : Text
  rest : Text
  deriving DecidableEq, Repr

namespace Occurrence

/-- The occurrences in a text of which the first `skip` characters belong to an occurrence
already found. -/
def allFrom (name : Text) : Text → Nat → Text → List Occurrence
  | _, _, [] => []
  | seen, skip + 1, c :: s => allFrom name (c :: seen) skip s
  | seen, 0, c :: s =>
    match afterLead? name (c :: s) with
    | some rest => ⟨seen, rest⟩ :: allFrom name (c :: seen) (name.length - 1) s
    | none => allFrom name (c :: seen) 0 s

def all (name line : Text) : List Occurrence := allFrom name [] 0 line

/-- Neither neighbour could belong to the same identifier; the ends of a line belong to none. -/
def standsAlone (o : Occurrence) : Bool :=
  !o.seen.head?.any isWordChar && !o.rest.head?.any isWordChar

def offset (o : Occurrence) : Nat := o.seen.byteLength

/-- The offset of the first occurrence that stands alone. Comments hold none, and the empty name
occurs nowhere. -/
def find? (style : CommentStyle) (name line : Text) : Option Nat :=
  if name = [] ∨ style.isComment line then none
  else ((all name line).find? standsAlone).map offset

end Occurrence

end CommentMacros
