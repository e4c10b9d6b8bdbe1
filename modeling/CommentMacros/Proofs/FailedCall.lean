import CommentMacros.Proofs.Expansion
import CommentMacros.Proofs.Runs
import CommentMacros.Proofs.Slices

namespace CommentMacros

namespace Text

end Text

namespace Site

end Site

namespace Call

variable (before name rest : Text) (d : Definition) (place : Place) (n : Nat)

end Call

end CommentMacros
