import CommentMacros.Path
import CommentMacros.Hole
import CommentMacros.Text.Decimal

namespace CommentMacros

inductive Piece where
  | char (c : Char)
  | hole (p : Hole)
  deriving DecidableEq, Repr

structure Place where
  line : Nat
  file : Path
  deriving DecidableEq, Repr

namespace Template

/-- The pieces of a text of which the first `skip` characters belong to a token already read. -/
def piecesFrom : Nat → Text → List Piece
  | _, [] => []
  | skip + 1, _ :: s => piecesFrom skip s
  | 0, c :: s =>
    match Hole.leading? (c :: s) with
    | some p => .hole p :: piecesFrom (p.token.length - 1) s
    | none => .char c :: piecesFrom 0 s

/-- The pieces of a template, read once from the left. A token is taken wherever one begins, unless
an earlier token covers that place. -/
def pieces (template : Text) : List Piece := piecesFrom 0 template

def quoted (s : Text) : Text := '\'' :: s ++ ['\'']

/-- What stands in a hole when the counter is at `n`. An argument that the call does not supply
leaves its token. -/
def value (place : Place) (args : List Text) (n : Nat) : Hole → Text
  | .index => Text.decimal n
  | .file => quoted ((place.file.fileName?.map Path.display).getD [])
  | .filePath => quoted place.file.display
  | .line => Text.decimal place.line
  | .arg i =>
    match args[i.val]? with
    | some a => quoted a
    | none => (Hole.arg i).token

def advance : Hole → Nat
  | .index => 1
  | _ => 0

/-- The text of a list of pieces when the counter starts at `n`, and the counter behind it. What is
put into a hole is not read again. -/
def fill (place : Place) (args : List Text) : List Piece → Nat → Text × Nat
  | [], n => ([], n)
  | .char c :: ps, n =>
    let rest := fill place args ps n
    (c :: rest.1, rest.2)
  | .hole p :: ps, n =>
    let rest := fill place args ps (n + advance p)
    (value place args n p ++ rest.1, rest.2)

def fillAll (place : Place) (args : List Text) : List Text → Nat → List Text × Nat
  | [], n => ([], n)
  | t :: ts, n =>
    let first := fill place args (pieces t) n
    let rest := fillAll place args ts first.2
    (first.1 :: rest.1, rest.2)

end Template

end CommentMacros
