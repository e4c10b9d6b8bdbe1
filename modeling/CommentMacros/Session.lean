import CommentMacros.Notice
import CommentMacros.Tree.Create

namespace CommentMacros

/-- A file of the tree, with the number of bytes that have gone into it. Lines are kept back, the
last one first, until somebody looks at that file. -/
structure Log where
  path : Path
  route : Route
  written : Nat
  pending : List Text
  deriving DecidableEq, Repr

/-- The tree that a run works on, its log, and the notices posted so far, the last one first. -/
structure Session where
  tree : Tree
  log : Option Log
  posted : List Notice

namespace Session

def start (t : Tree) : Session := ⟨t, none, []⟩

def post (s : Session) (n : Notice) : Session :=
  { s with
    posted := n :: s.posted
    log := if n.inLog then s.log.map fun l => { l with pending := n.line :: l.pending } else s.log }

def postAll (s : Session) (ns : List Notice) : Session := ns.foldl post s

def tell (s : Session) (channel : Channel) (text : Text) : Session := s.post (.other channel text)

def notices (s : Session) : List Notice := s.posted.reverse

def screen (s : Session) : Text := (s.notices.filter Notice.onScreen).flatMap Notice.line

def errors (s : Session) : Text := (s.notices.filter Notice.onError).flatMap Notice.line

/-- Overwrites a content from a position on, with zeros up to there if it is too short. -/
def overwrite (content : Bytes) (position : Nat) (new : Bytes) : Bytes :=
  content.take position ++ List.replicate (position - content.length) 0 ++ new ++
    content.drop (position + new.length)

def settle (s : Session) : Session :=
  match s.log with
  | none => s
  | some l =>
    let new := Utf8.encode l.pending.reverse.flatten
    let content := overwrite ((s.tree.read? l.route).getD []) l.written new
    { s with
      tree := s.tree.write l.route content
      log := some { l with written := l.written + new.length, pending := [] } }

def settleFor (s : Session) (r : Route) : Session :=
  if s.log.any (·.route == r) then s.settle else s

def write (s : Session) (r : Route) (content : Bytes) : Session :=
  let s := s.settleFor r
  { s with tree := s.tree.write r content }

end Session

end CommentMacros
