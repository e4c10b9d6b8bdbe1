import CommentMacros.Text.Basic

namespace CommentMacros

/-- The reserved tokens of a template: the next value of the counter of the run, the name and the
path of the file, the number of the line, and the arguments of the call. -/
inductive Hole where
  | index
  | file
  | filePath
  | line
  | arg (n : Fin 4)
  deriving DecidableEq, Repr

namespace Hole

def all : List Hole := [.index, .file, .filePath, .line, .arg 0, .arg 1, .arg 2, .arg 3]

/-- The hole for the argument with the given number; only the first four have one. -/
def arg? (n : Nat) : Option Hole := if h : n < 4 then some (.arg ⟨n, h⟩) else none

def token : Hole → Text
  | .index => "__INDEX__".toList
  | .file => "__FILE__".toList
  | .filePath => "__FILEPATH__".toList
  | .line => "__LINE__".toList
  | .arg 0 => "__ARG0__".toList
  | .arg 1 => "__ARG1__".toList
  | .arg 2 => "__ARG2__".toList
  | .arg 3 => "__ARG3__".toList

/-- The hole whose token the text begins with. No token begins another one, so there is
at most one. -/
def leading? (s : Text) : Option Hole := all.find? fun p => p.token.isPrefixOf s

theorem mem_all (p : Hole) : p ∈ all := by
  cases p with
  | arg n => revert n; decide
  | _ => decide

theorem token_ne_nil (p : Hole) : p.token ≠ [] := by
  cases p with
  | arg n => revert n; decide
  | _ => decide

private theorem eq_of_token_isPrefixOf_of_mem :
    ∀ p ∈ all, ∀ q ∈ all, p.token.isPrefixOf q.token → p = q := by decide

theorem eq_of_token_isPrefixOf {p q : Hole} (h : p.token.isPrefixOf q.token) : p = q :=
  eq_of_token_isPrefixOf_of_mem p (mem_all p) q (mem_all q) h

theorem token_prefix_of_leading? {s : Text} {p : Hole} (h : leading? s = some p) :
    p.token <+: s := by
  unfold leading? at h
  exact List.isPrefixOf_iff_prefix.mp (by simpa using List.find?_some h)

theorem leading?_eq_some_iff {s : Text} {p : Hole} :
    leading? s = some p ↔ p.token <+: s := by
  constructor
  · exact token_prefix_of_leading?
  · intro h
    cases hq : leading? s with
    | none =>
      have := List.find?_eq_none.mp hq p (mem_all p)
      exact absurd (List.isPrefixOf_iff_prefix.mpr h) this
    | some q =>
      have hqs := token_prefix_of_leading? hq
      rcases Nat.le_total p.token.length q.token.length with hle | hle
      · have := List.prefix_of_prefix_length_le h hqs hle
        rw [eq_of_token_isPrefixOf (List.isPrefixOf_iff_prefix.mpr this)]
      · have := List.prefix_of_prefix_length_le hqs h hle
        rw [eq_of_token_isPrefixOf (List.isPrefixOf_iff_prefix.mpr this)]

end Hole

end CommentMacros
