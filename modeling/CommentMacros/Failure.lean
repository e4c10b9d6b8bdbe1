import CommentMacros.Definition
import CommentMacros.Mask.Fault
import CommentMacros.Path
import CommentMacros.Text.Decimal

namespace CommentMacros

/-- Everything that can go wrong. A line in which a name stands alone, without an argument list
behind it, is not a call; an offset is bad if it lies past the end of a line or in a character. -/
inductive Failure where
  | noDirectory
  | notADirectory (path : Path)
  | badMask (mask : Text) (fault : MaskFault)
  | maskTooComplex
  | badDefinition (fault : DefinitionFault)
  | tooManyArguments (name : Text) (supplied declared : Nat)
  | notACall (line : Text)
  | atDeclaration (definition : Text) (file : Path) (cause : Failure)
  | atLine (line : Text) (file : Path) (cause : Failure)
  | inaccessible (path : Path) (reason : Text)
  | badOffset (offset : Nat)
  deriving DecidableEq, Repr

namespace Failure

/-- The failure without the line, definition and file it arose in. -/
def rootCause : Failure → Failure
  | .atDeclaration _ _ cause => cause.rootCause
  | .atLine _ _ cause => cause.rootCause
  | f => f

def message : Failure → Text
  | .noDirectory => "Missing the directories parameter (-d)".toList
  | .notADirectory path => "The directory '".toList ++ path.display ++ "' is not valid".toList
  | .badMask mask fault =>
    "Invalid file mask '".toList ++ mask ++ "': ".toList ++ fault.message mask
  | .maskTooComplex => "The file mask is too complex".toList
  | .badDefinition fault => fault.message
  | .tooManyArguments name supplied declared =>
    "Argument list does not match symbol '".toList ++ name ++ "': ".toList ++
      Text.decimal supplied ++ " supplied, ".toList ++ Text.decimal declared ++ " declared".toList
  | .notACall line =>
    "The line '".toList ++ line ++ "' is not a valid symbol invocation".toList
  | .atDeclaration definition file cause =>
    "Critical error: ".toList ++ cause.message ++ " while processing symbol '".toList ++
      definition ++ "' in file '".toList ++ file.display ++ "'".toList
  | .atLine line file cause =>
    "Critical error: ".toList ++ cause.message ++ " while processing line '".toList ++
      line ++ "' in file '".toList ++ file.display ++ "'".toList
  | .inaccessible path reason =>
    "Failed to access '".toList ++ path.display ++ "': ".toList ++ reason
  | .badOffset offset =>
    "Byte offset ".toList ++ Text.decimal offset ++ " does not begin a character".toList

/-- The messages of what lies behind a failure, the nearest cause first. -/
def causes : Failure → List Text
  | .badMask mask fault => [fault.message mask]
  | .atDeclaration _ _ cause => cause.message :: cause.causes
  | .atLine _ _ cause => cause.message :: cause.causes
  | .inaccessible _ reason => [reason]
  | _ => []

end Failure

end CommentMacros
