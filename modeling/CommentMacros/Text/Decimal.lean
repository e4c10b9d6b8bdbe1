import CommentMacros.Text.Basic

namespace CommentMacros.Text

def decimal (n : Nat) : Text := Nat.toDigits 10 n

/-- Puts a comma wherever a positive multiple of three characters follows. -/
def groupThrees : Text → Text
  | [] => []
  | c :: s => if s ≠ [] ∧ s.length % 3 = 0 then c :: ',' :: groupThrees s else c :: groupThrees s

def grouped (n : Nat) : Text := groupThrees (decimal n)

end CommentMacros.Text
