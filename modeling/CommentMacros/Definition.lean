import CommentMacros.Text.Blank

namespace CommentMacros

/-- A list of arguments as it is written: pieces between commas, without any quoting. Nothing but
blanks is no argument at all. -/
def readArguments (s : Text) : List Text := if s.allBlank then [] else s.splitOn ','

def writeArguments (args : List Text) : Text := [','].intercalate args

inductive DefinitionFault where
  | noOpening
  | noClosing
  | emptyName
  | noOpeningInSignature
  | noClosingInSignature
  | duplicate (name : Text)
  | stated (reason : Text)
  deriving DecidableEq, Repr

def DefinitionFault.message : DefinitionFault → Text
  | .noOpening => "Opening parenthesis was not found".toList
  | .noClosing => "Closing parenthesis was not found".toList
  | .emptyName => "Symbol name before '(' is empty".toList
  | .noOpeningInSignature => "Opening parenthesis in symbol not found".toList
  | .noClosingInSignature => "Closing parenthesis in symbol not found".toList
  | .duplicate name => "Symbol '".toList ++ name ++ "' is already defined".toList
  | .stated reason => reason

/-- What a macro expands to: the name that replaces its own, and a template for each slot. -/
structure Definition where
  target : Text
  templates : List Text
  deriving DecidableEq, Repr

namespace Definition

def arity (d : Definition) : Nat := d.templates.length

/-- The first `(` opens the list and the last `)` closes it; what follows is ignored. -/
def parse (s : Text) : Except DefinitionFault Definition :=
  match cutFirst '(' s with
  | none => .error .noOpening
  | some (target, rest) =>
    match cutLast ')' rest with
    | none => .error .noClosing
    | some (list, _) =>
      if target = [] then .error .emptyName
      else .ok ⟨target, readArguments list⟩

def print (d : Definition) : Text := d.target ++ '(' :: writeArguments d.templates ++ [')']

end Definition

end CommentMacros
