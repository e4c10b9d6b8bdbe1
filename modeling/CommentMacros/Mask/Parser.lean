import CommentMacros.Mask.Fault
import CommentMacros.Mask.Pattern

/-!
The language of file masks. `?` is one byte, `*` any bytes, `[a-z]` a class, `{a,b}` a choice,
and a backslash takes the next character as it is. Two stars that make up a whole part between
slashes stand for any number of such parts.
-/

namespace CommentMacros

/-- What a mask admits, the levels of its structure, and the room that its parts take. -/
structure Mask where
  pattern : Pattern
  depth : Nat
  size : Nat
  deriving DecidableEq, Repr

namespace Mask

def depthLimit : Nat := 250

def sizeLimit : Nat := 10 * 1024 * 1024

/-- Whether the mask can be matched at all. -/
def isManageable (m : Mask) : Bool := m.depth ≤ depthLimit && m.size ≤ sizeLimit

def slash : Pattern := .byte 0x2F

/-- A part of a mask that has been read. Two stars between slashes are inner parts; in front, with
the slash behind them, they are leading parts, and at the end, with the slash before them, trailing
parts. A choice vanishes if all of its branches do. -/
inductive Part where
  | literal (c : Char)
  | anyByte
  | anything
  | oneOf (negated : Bool) (ranges : List (Char × Char))
  | leadingParts
  | innerParts
  | trailingParts
  | choice (p : Option Pattern) (depth size : Nat)
  deriving DecidableEq, Repr

namespace Part

def pattern? : Part → Option Pattern
  | .literal c => some (.literal c)
  | .anyByte => some .anyByte
  | .anything => some .anything
  | .oneOf negated ranges => some (.oneOf negated ranges)
  | .leadingParts => some (.alt (.alt .empty slash) (.seq .anything slash))
  | .innerParts => some (.alt slash (.seq slash (.seq .anything slash)))
  | .trailingParts => some (.seq slash .anything)
  | .choice p _ _ => p

def width : Part → Nat
  | .literal c => (Utf8.encode [c]).length
  | .trailingParts => 2
  | .choice none _ _ => 0
  | _ => 1

/-- How many levels of structure the items of the part have. -/
def depth : Part → Nat
  | .literal _ => 0
  | .anyByte => 0
  | .anything => 1
  | .oneOf _ ranges => if ranges.length = 1 then 1 else 2
  | .leadingParts => 4
  | .innerParts => 4
  | .trailingParts => 1
  | .choice _ depth _ => depth

/-- The room that a state of a matcher takes. -/
def stateSize : Nat := 32

/-- The room that the part takes in a matcher: states, with the bounds of their ranges and the
branches behind them. -/
def size : Part → Nat
  | .literal c => stateSize * (Utf8.encode [c]).length
  | .anyByte => 2 * stateSize + 8
  | .anything => 3 * stateSize + 16
  | .oneOf _ [(a, b)] => if a = b then stateSize else 2 * stateSize + 8
  | .oneOf _ ranges => 2 * stateSize + 8 * ranges.length
  | .leadingParts => 9 * stateSize + 32
  | .innerParts => 8 * stateSize + 24
  | .trailingParts => 4 * stateSize + 16
  | .choice _ _ size => size

end Part

def sequence : List Part → Option Pattern
  | [] => none
  | p :: ps =>
    match p.pattern?, sequence ps with
    | none, rest => rest
    | some a, none => some a
    | some a, some b => some (.seq a b)

def innerDepth (parts : List Part) : Nat := (parts.map Part.depth).foldl max 0

/-- The levels of parts one after the other. Two or more items make up a level of their own. -/
def sequenceDepth (parts : List Part) : Nat :=
  innerDepth parts + if 2 ≤ (parts.map Part.width).foldl (· + ·) 0 then 1 else 0

def sequenceSize (parts : List Part) : Nat := (parts.map Part.size).foldl (· + ·) 0

/-- A choice between branches. A branch that vanishes is no choice. The choice is a level, and two
or more branches are another one, with states of their own where they part and meet. -/
def choose (branches : List (List Part)) : Part :=
  let kept := branches.filter fun b => (sequence b).isSome
  let depth := (kept.map sequenceDepth).foldl max 0
  let size := (kept.map sequenceSize).foldl (· + ·) 0
  match kept.filterMap sequence with
  | [] => .choice none 0 0
  | [p] => .choice (some p) (depth + 1) size
  | p :: ps =>
    .choice (some (ps.foldl .alt p)) (depth + 2) (size + 2 * Part.stateSize + 4 * kept.length)

/-- What the reader is in the middle of. A class has the last range first and may wait for the end
behind a dash; the character before a star matters if another star follows. -/
inductive Mode where
  | plain
  | escape
  | classStart
  | inClass (negated : Bool) (ranges : List (Char × Char)) (dash : Bool)
  | star (before : Option Char)
  | twoStars (before : Option Char)
  deriving DecidableEq, Repr

/-- A choice that is still open: what stands before it, and the branches that a comma ended. The
last comes first in all of them. -/
structure OpenChoice where
  outer : List Part
  ended : List (List Part)
  deriving DecidableEq, Repr

/-- The branch at hand has its last part first, and the innermost of the open choices comes first. -/
structure Reader where
  mode : Mode
  previous : Option Char
  branch : List Part
  choices : List OpenChoice
  deriving DecidableEq, Repr

namespace Reader

def start : Reader := ⟨.plain, none, [], []⟩

def push (r : Reader) (p : Part) : Reader := { r with branch := p :: r.branch }

def readPlain (r : Reader) (c : Char) : Except MaskFault Reader :=
  match c with
  | '?' => .ok (r.push .anyByte)
  | '*' => .ok { r with mode := .star r.previous }
  | '[' => .ok { r with mode := .classStart }
  | '\x7b' => .ok { r with branch := [], choices := ⟨r.branch, []⟩ :: r.choices }
  | '\x7d' =>
    match r.choices with
    | [] => .error .unopenedAlternates
    | choice :: rest =>
      let branches := (r.branch :: choice.ended).reverse.map List.reverse
      .ok { r with branch := choose branches :: choice.outer, choices := rest }
  | ',' =>
    match r.choices with
    | [] => .ok (r.push (.literal ','))
    | choice :: rest =>
      let choice := { choice with ended := r.branch :: choice.ended }
      .ok { r with branch := [], choices := choice :: rest }
  | '\\' => .ok { r with mode := .escape }
  | c => .ok (r.push (.literal c))

/-- Reads a character of a class. A bracket closes it unless it comes first; a dash that comes
first or last is a member. -/
def readClass (r : Reader) (negated : Bool) (ranges : List (Char × Char)) (dash : Bool)
    (c : Char) : Except MaskFault Reader :=
  match ranges with
  | [] => .ok { r with mode := .inClass negated [(c, c)] false }
  | (first, last) :: rest =>
    if c = ']' then
      let all := if dash then ('-', '-') :: ranges else ranges
      .ok { r.push (.oneOf negated all.reverse) with mode := .plain }
    else if dash then
      if c < first then .error (.invalidRange first c)
      else .ok { r with mode := .inClass negated ((first, c) :: rest) false }
    else if c = '-' then .ok { r with mode := .inClass negated ((first, last) :: rest) true }
    else .ok { r with mode := .inClass negated ((c, c) :: ranges) false }

def pushStars (r : Reader) : Reader := (r.push .anything).push .anything

/-- Replaces the slash before two stars by the parts that they stand for. -/
def absorbSlash (r : Reader) (p : Part) : Reader :=
  match r.branch with
  | .leadingParts :: _ => r
  | .trailingParts :: _ => r
  | _ :: rest => { r with branch := p :: rest }
  | [] => r

/-- Settles two stars by what stands around them, and tells whether the next character is used
up. -/
def settleStars (r : Reader) (before next : Option Char) : Reader × Bool :=
  let inChoice := !r.choices.isEmpty
  if r.branch = [] then
    if next.all (· == '/') then (r.push .leadingParts, true) else (r.pushStars, false)
  else if before ≠ some '/' ∧ ¬(inChoice ∧ (before = some ',' ∨ before = some '\x7b')) then
    (r.pushStars, false)
  else
    match next with
    | none => (r.absorbSlash .trailingParts, true)
    | some c =>
      if c = '/' then (r.absorbSlash .innerParts, true)
      else if inChoice ∧ (c = ',' ∨ c = '\x7d') then (r.absorbSlash .trailingParts, false)
      else (r.pushStars, false)

def readIn (r : Reader) (c : Char) : Except MaskFault Reader :=
  let r' := { r with mode := .plain }
  match r.mode with
  | .plain => r.readPlain c
  | .escape => .ok (r'.push (.literal c))
  | .classStart =>
    if c = '!' ∨ c = '^' then .ok { r with mode := .inClass true [] false }
    else r.readClass false [] false c
  | .inClass negated ranges dash => r.readClass negated ranges dash c
  | .star before =>
    if c = '*' then .ok { r with mode := .twoStars before }
    else (r'.push .anything).readPlain c
  | .twoStars before =>
    match r'.settleStars before (some c) with
    | (r, true) => .ok r
    | (r, false) => r.readPlain c

def read (r : Reader) (c : Char) : Except MaskFault Reader :=
  (r.readIn c).map fun r => { r with previous := some c }

def readAll : Reader → Text → Except MaskFault Reader
  | r, [] => .ok r
  | r, c :: s =>
    match r.read c with
    | .error fault => .error fault
    | .ok r => readAll r s

/-- The mask that has been read to its end. Its parts make up a level, however few they are, and a
matcher has six states around them. Two stars alone admit everything. -/
def finish (r : Reader) : Except MaskFault Mask :=
  let r' := { r with mode := .plain }
  let closed : Except MaskFault Reader :=
    match r.mode with
    | .plain => .ok r
    | .escape => .error .danglingEscape
    | .classStart => .error .unclosedClass
    | .inClass .. => .error .unclosedClass
    | .star _ => .ok (r'.push .anything)
    | .twoStars before => .ok (r'.settleStars before none).1
  closed.bind fun r =>
    if r.choices ≠ [] then .error .unclosedAlternates
    else
      let parts := if r.branch = [.leadingParts] then [.anything] else r.branch.reverse
      .ok ⟨(sequence parts).getD .empty, innerDepth parts + 1,
        sequenceSize parts + 6 * Part.stateSize⟩

end Reader

def parse (mask : Text) : Except MaskFault Mask :=
  (Reader.start.readAll mask).bind Reader.finish

end Mask

end CommentMacros
