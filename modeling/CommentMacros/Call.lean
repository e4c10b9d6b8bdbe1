import CommentMacros.Failure
import CommentMacros.Template
import CommentMacros.Text.Offset

namespace CommentMacros

structure Call where
  before : Text
  name : Text
  arguments : List Text
  closing : Text
  deriving DecidableEq, Repr

namespace Call

/-- Reads the call whose name begins at a byte offset of the line; the text there is taken to be
the name. The list opens at the first `(` behind the name and closes at the last `)` of the
line. -/
def parseAt (line : Text) (offset : Nat) (name : Text) : Except Failure Call :=
  match line.cutAt? (offset + name.byteLength) with
  | none => .error (.badOffset (offset + name.byteLength))
  | some (_, rest) =>
    match cutFirst '(' rest with
    | none => .error (.notACall line)
    | some (_, list) =>
      match cutLast ')' list with
      | none => .error (.notACall line)
      | some (arguments, closing) =>
        match line.cutAt? offset with
        | none => .error (.badOffset offset)
        | some (before, _) => .ok ⟨before, name, readArguments arguments, ')' :: closing⟩

/-- The line after a call is replaced, and the counter. The call's own arguments take the leading
slots as they stand; the templates of the other slots are filled. -/
def expand (call : Call) (d : Definition) (place : Place) (n : Nat) :
    Except Failure (Text × Nat) :=
  if d.arity < call.arguments.length then
    .error (.tooManyArguments call.name call.arguments.length d.arity)
  else
    let filled := Template.fillAll place call.arguments
      (d.templates.drop call.arguments.length) n
    .ok (call.before ++ d.target ++ '(' :: writeArguments (call.arguments ++ filled.1) ++
      call.closing, filled.2)

/-- Replaces the call at an offset. A failure names the line and the file, unless the offset
itself is at fault. -/
def replaceAt (line : Text) (offset : Nat) (name : Text) (d : Definition) (place : Place)
    (n : Nat) : Except Failure (Text × Nat) :=
  match (parseAt line offset name).bind fun call => call.expand d place n with
  | .ok result => .ok result
  | .error (.badOffset k) => .error (.badOffset k)
  | .error f => .error (.atLine line place.file f)

end Call

end CommentMacros
