import CommentMacros.Proofs.FailedCall
import CommentMacros.Proofs.Rewrites

namespace CommentMacros

/-- Where the expansion of lines comes to its end: the call of a macro in a line, with the lines
before it and the macros before it in the table. The counter is the one at the beginning of the
line, and the body is what the macros before have left. -/
structure Stop where
  ahead : List Line
  line : Line
  behind : List Line
  earlier : List Macro
  rule : Macro
  later : List Macro
  counter : Nat
  body : Text

namespace Stop

variable (style : CommentStyle) (file : Path) (ms : List Macro) (number : Nat)

def place (stop : Stop) : Place := ⟨number + stop.ahead.length, file⟩

def completed (stop : Stop) (n : Nat) : List Rewrite :=
  (traceLines style file ms number stop.ahead n).flatMap (·.2) ++
    rewritesOfLine style (stop.place file number) stop.earlier stop.line.body stop.counter

/-- The lines ahead are expanded, then the earlier macros are taken through the line, and then the
call fails. The counter is `c` at that moment. -/
structure Reached (stop : Stop) (ls : List Line) (n : Nat) (f : Failure) (c : Nat) : Prop where
  lines : ls = stop.ahead ++ stop.line :: stop.behind
  macros : ms = stop.earlier ++ stop.rule :: stop.later
  ahead : ∃ done, expandLines style file ms number stop.ahead n = ⟨.ok done, stop.counter⟩
  earlier : ∃ hit, expandLine style (stop.place file number) stop.earlier stop.line.body
    stop.counter = ⟨.ok (stop.body, hit), c⟩
  call : ∃ offset, Occurrence.find? style stop.rule.name stop.body = some offset ∧
    Call.replaceAt stop.body offset stop.rule.name stop.rule.definition
      (stop.place file number) c = .error f

/-- The counter has gone through the values of the calls replaced on the way. -/
theorem Reached.runs {stop : Stop} {ls : List Line} {n c : Nat} {f : Failure}
    (h : Reached style file ms number stop ls n f c) :
    Runs n ((stop.completed style file ms number n).flatMap Rewrite.indices) c := by
  obtain ⟨done, hahead⟩ := h.ahead
  obtain ⟨hit, hearlier⟩ := h.earlier
  obtain ⟨-, hlines, -⟩ := expandLines_trace style file ms number stop.ahead n _ done hahead
  obtain ⟨-, -, hline, -⟩ := expandLine_rewrites style _ stop.earlier _ _ _ _ hit hearlier
  rw [completed, List.flatMap_append]
  exact hlines.append hline

end Stop

end CommentMacros
