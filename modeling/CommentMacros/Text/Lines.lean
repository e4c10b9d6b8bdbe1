import CommentMacros.Text.Basic

namespace CommentMacros

inductive Terminator where
  | lf
  | crlf
  | missing
  deriving DecidableEq, Repr

def Terminator.text : Terminator → Text
  | .lf => ['\n']
  | .crlf => ['\r', '\n']
  | .missing => []

/-- A line with the terminator that ended it; the last line of a source may have none. A carriage
return belongs to the terminator only if a line feed follows at once. -/
structure Line where
  body : Text
  terminator : Terminator
  deriving DecidableEq, Repr

namespace Line

def text (l : Line) : Text := l.body ++ l.terminator.text

def push (c : Char) (ls : List Line) : List Line :=
  if c = '\n' then ⟨[], .lf⟩ :: ls
  else
    match ls with
    | [] => [⟨[c], .missing⟩]
    | l :: rest =>
      if c = '\r' ∧ l.body = [] ∧ l.terminator = .lf then ⟨[], .crlf⟩ :: rest
      else ⟨c :: l.body, l.terminator⟩ :: rest

def split (source : Text) : List Line := source.foldr push []

def join (ls : List Line) : Text := ls.flatMap text

/-- The terminator that a whole source is written with: one carriage return before a line feed
anywhere decides for all lines. -/
def newline (ls : List Line) : Terminator :=
  if ls.any (·.terminator == .crlf) then .crlf else .lf

def withTerminator (t : Terminator) (l : Line) : Line :=
  if l.terminator = .missing then l else ⟨l.body, t⟩

theorem join_push (c : Char) (ls : List Line) : join (push c ls) = c :: join ls := by
  unfold push
  split
  · rename_i h; simp [join, text, Terminator.text, h]
  · split
    · simp [join, text, Terminator.text]
    · split
      · rename_i h
        obtain ⟨rfl, hb, ht⟩ := h
        simp [join, text, Terminator.text, hb, ht]
      · simp [join, text]

theorem join_split (source : Text) : join (split source) = source := by
  induction source with
  | nil => rfl
  | cons c s ih => exact (join_push c (split s)).trans (congrArg (c :: ·) ih)

end Line

end CommentMacros
