import CommentMacros.Path
import CommentMacros.Text.Decimal

namespace CommentMacros

/-- A channel of the screen or of errors is logged as well, unless it is said to be the only one. A
warning goes to the error stream and is marked. -/
inductive Channel where
  | screen
  | log
  | warning
  | screenOnly
  | errorOnly
  deriving DecidableEq, Repr

inductive Notice where
  | processing (files : Nat)
  | progress (percent : Nat)
  | adding (symbol : Text)
  | skipping (file : Path)
  | processed (file : Path)
  | replaced (file : Path) (lines : Nat)
  | other (channel : Channel) (text : Text)
  deriving DecidableEq, Repr

namespace Notice

def channel : Notice → Channel
  | .skipping _ => .warning
  | .replaced .. => .log
  | .other channel _ => channel
  | _ => .screen

def words : Notice → Text
  | .processing files => "Processing ".toList ++ Text.grouped files ++ " files".toList
  | .progress percent => Text.decimal percent ++ "% done".toList
  | .adding symbol => "Adding symbol '".toList ++ symbol ++ "'".toList
  | .skipping file => "Skipping non UTF-8 file '".toList ++ file.display ++ "'".toList
  | .processed file =>
    "Processed '".toList ++ (file.fileName?.map Path.display).getD [] ++ "'".toList
  | .replaced file lines =>
    file.display ++ ": ".toList ++ Text.decimal lines ++ " lines rewritten".toList
  | .other _ text => text

def line (n : Notice) : Text :=
  (if n.channel = .warning then "Warning: ".toList else []) ++ n.words ++ ['\n']

def onScreen (n : Notice) : Bool := n.channel = .screen ∨ n.channel = .screenOnly

def onError (n : Notice) : Bool := n.channel = .warning ∨ n.channel = .errorOnly

def inLog (n : Notice) : Bool := n.channel ≠ .screenOnly ∧ n.channel ≠ .errorOnly

end Notice

end CommentMacros
