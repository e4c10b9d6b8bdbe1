import CommentMacros.Comment
import CommentMacros.Failure

namespace CommentMacros

structure Macro where
  name : Text
  definition : Definition
  deriving DecidableEq, Repr

/-- The name in a signature `NAME(…)`: what stands before the first `(` of the part that the
first `)` ends. -/
def signatureName (signature : Text) : Except DefinitionFault Text :=
  match cutFirst ')' signature with
  | none => .error .noClosingInSignature
  | some (head, _) =>
    match cutFirst '(' head with
    | none => .error .noOpeningInSignature
    | some (name, _) => if name = [] then .error .emptyName else .ok name

structure MacroTable where
  macros : List Macro
  deriving DecidableEq, Repr

namespace MacroTable

def empty : MacroTable := ⟨[]⟩

def names (t : MacroTable) : List Text := t.macros.map (·.name)

def find? (t : MacroTable) (name : Text) : Option Definition :=
  (t.macros.find? (·.name == name)).map (·.definition)

/-- Adds a declared macro. Its name is looked at first, then whether it is taken, then its
expansion. -/
def add (t : MacroTable) (d : Declaration) : Except DefinitionFault MacroTable :=
  match signatureName d.signature with
  | .error fault => .error fault
  | .ok name =>
    if name ∈ t.names then .error (.duplicate name)
    else
      match Definition.parse d.expansion with
      | .error fault => .error fault
      | .ok definition => .ok ⟨t.macros ++ [⟨name, definition⟩]⟩

def addAll (file : Path) : MacroTable → List Declaration → Except Failure MacroTable
  | t, [] => .ok t
  | t, d :: ds =>
    match t.add d with
    | .error fault => .error (.atDeclaration d.text file (.badDefinition fault))
    | .ok t => addAll file t ds

def ofLines (style : CommentStyle) (file : Path) (lines : List Text) : Except Failure MacroTable :=
  addAll file empty (lines.filterMap (Declaration.read? style))

end MacroTable

end CommentMacros
