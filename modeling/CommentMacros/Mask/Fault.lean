import CommentMacros.Text.Basic

namespace CommentMacros

inductive MaskFault where
  | unclosedClass
  | invalidRange (first last : Char)
  | unopenedAlternates
  | unclosedAlternates
  | danglingEscape
  deriving DecidableEq, Repr

def MaskFault.reason : MaskFault → Text
  | .unclosedClass => "unclosed character class; missing ']'".toList
  | .invalidRange a b => "invalid range; '".toList ++ a :: "' > '".toList ++ b :: "'".toList
  | .unopenedAlternates =>
    "unopened alternate group; missing '\x7b' (maybe escape '\x7d' with '[\x7d]'?)".toList
  | .unclosedAlternates =>
    "unclosed alternate group; missing '\x7d' (maybe escape '\x7b' with '[\x7b]'?)".toList
  | .danglingEscape => "dangling '\\'".toList

def MaskFault.message (mask : Text) (f : MaskFault) : Text :=
  "error parsing glob '".toList ++ mask ++ "': ".toList ++ f.reason

end CommentMacros
