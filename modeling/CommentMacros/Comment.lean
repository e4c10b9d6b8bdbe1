import CommentMacros.Text.Blank

namespace CommentMacros

/-- How comments look in the files at hand: a line is a comment if this text comes first. -/
structure CommentStyle where
  opener : Text
  deriving DecidableEq, Repr

namespace CommentStyle

def standard : CommentStyle := ⟨"//".toList⟩

def marker (style : CommentStyle) : Text := style.opener ++ "#DEFINE".toList

def isComment (style : CommentStyle) (line : Text) : Bool :=
  style.opener.isPrefixOf line.trimStart

end CommentStyle

/-- A comment that declares a macro: the marker, a blank, the signature and the expansion, each of
the latter a word. -/
structure Declaration where
  text : Text
  signature : Text
  expansion : Text
  deriving DecidableEq, Repr

/-- Reads a line as a declaration. The signature and the expansion are the second and the third
word of the line, wherever the marker ends. -/
def Declaration.read? (style : CommentStyle) (line : Text) : Option Declaration :=
  let text := line.trim
  match afterLead? style.marker text with
  | none => none
  | some rest =>
    if rest.head?.any isBlank then
      match text.words with
      | _ :: signature :: expansion :: _ => some ⟨text, signature, expansion⟩
      | _ => none
    else none

end CommentMacros
