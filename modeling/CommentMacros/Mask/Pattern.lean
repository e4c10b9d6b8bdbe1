import CommentMacros.Utf8

namespace CommentMacros

inductive Pattern where
  | empty
  | anyByte
  | byte (b : UInt8)
  | oneOf (negated : Bool) (ranges : List (Char × Char))
  | anything
  | seq (p q : Pattern)
  | alt (p q : Pattern)
  deriving DecidableEq, Repr

namespace Pattern

def literal (c : Char) : Pattern := (Utf8.encode [c]).foldr (fun b p => seq (byte b) p) empty

def inClass (b : UInt8) (ranges : List (Char × Char)) : Bool :=
  ranges.any fun r => r.1.toNat ≤ b.toNat && b.toNat ≤ r.2.toNat

/-- For every place of a name, from before its first byte to behind its last, whether it is
marked. -/
abbrev Marks := List Bool

def advance (test : UInt8 → Bool) (name : Bytes) (marks : Marks) : Marks :=
  false :: List.zipWith (fun m b => m && test b) marks name

/-- Marks every place behind a mark; `seen` tells of marks further in front. -/
def spread : (seen : Bool) → Marks → Marks
  | _, [] => []
  | seen, m :: marks => (seen || m) :: spread (seen || m) marks

def reach (name : Bytes) : Pattern → Marks → Marks
  | .empty, marks => marks
  | .anyByte, marks => advance (fun _ => true) name marks
  | .byte a, marks => advance (· == a) name marks
  | .oneOf negated ranges, marks => advance (fun b => inClass b ranges != negated) name marks
  | .anything, marks => spread false marks
  | .seq p q, marks => q.reach name (p.reach name marks)
  | .alt p q, marks => List.zipWith (· || ·) (p.reach name marks) (q.reach name marks)

/-- A pattern is run on all places of the name at once: from those where it may begin it leads to
those where it may end. -/
def admits (p : Pattern) (name : Bytes) : Bool :=
  (p.reach name (true :: name.map fun _ => false)).getLast?.getD false

end Pattern

end CommentMacros
