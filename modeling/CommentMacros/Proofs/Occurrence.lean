import CommentMacros.Occurrence
import Mathlib.Data.List.Basic
import Mathlib.Tactic.SplitIfs

namespace CommentMacros

theorem Text.byteLength_reverse (s : Text) : Text.byteLength s.reverse = Text.byteLength s := by
  induction s with
  | nil => rfl
  | cons c s ih =>
    rw [List.reverse_cons, Text.byteLength_append, ih]
    simp only [Text.byteLength]
    omega

/-- The name is bounded in a line that reads `before ++ name ++ rest`. -/
def Bounded (before rest : Text) : Prop :=
  (∀ c ∈ before.getLast?, isWordChar c = false) ∧ ∀ c ∈ rest.head?, isWordChar c = false

instance (before rest : Text) : Decidable (Bounded before rest) :=
  decidable_of_iff
    (before.getLast?.all (!isWordChar ·) = true ∧ rest.head?.all (!isWordChar ·) = true)
    (by simp [Bounded, Option.all_eq_true])

section Bounds

variable {u v before rest : Text} {a : Char}

theorem Bounded.of_append_left (h : Bounded (u ++ before) rest) : Bounded before rest := by
  refine ⟨?_, h.2⟩
  intro c hc
  apply h.1 c
  rw [List.getLast?_append, Option.or_of_isSome (Option.isSome_of_mem hc)]
  exact hc

theorem Bounded.of_append_right (h : Bounded before (rest ++ v)) : Bounded before rest := by
  refine ⟨h.1, ?_⟩
  intro c hc
  apply h.2 c
  rw [List.head?_append, Option.or_of_isSome (Option.isSome_of_mem hc)]
  exact hc

theorem Bounded.append_left (h : Bounded before rest) (ha : isWordChar a = false) :
    Bounded (u ++ a :: before) rest := by
  refine ⟨?_, h.2⟩
  intro c hc
  rcases List.eq_nil_or_concat' before with rfl | ⟨init, last, rfl⟩
  · obtain rfl : a = c := by simpa using hc
    exact ha
  · rw [← List.cons_append, ← List.append_assoc, List.getLast?_concat] at hc
    apply h.1 c
    rw [List.getLast?_concat]
    exact hc

theorem Bounded.append_right (h : Bounded before rest) (ha : isWordChar a = false) :
    Bounded before (rest ++ a :: v) := by
  refine ⟨h.1, ?_⟩
  intro c hc
  cases rest with
  | nil =>
    obtain rfl : a = c := by simpa using hc
    exact ha
  | cons d rest => exact h.2 c (by simpa using hc)

end Bounds

namespace Occurrence

theorem mem_allFrom (name seen s : Text) (skip : Nat) (o : Occurrence)
    (h : o ∈ allFrom name seen skip s) : o.seen.reverse ++ name ++ o.rest = seen.reverse ++ s := by
  induction s generalizing seen skip with
  | nil => cases skip <;> simp [allFrom] at h
  | cons c s ih =>
    have hmove : (c :: seen).reverse ++ s = seen.reverse ++ c :: s := by simp
    cases skip with
    | succ skip =>
      rw [← hmove]
      exact ih (c :: seen) skip h
    | zero =>
      rw [allFrom] at h
      cases hlead : afterLead? name (c :: s) with
      | none =>
        rw [hlead] at h
        rw [← hmove]
        exact ih (c :: seen) 0 h
      | some rest =>
        rw [hlead] at h
        rcases List.mem_cons.mp h with rfl | h
        · rw [afterLead?_eq_some_iff.mp hlead, List.append_assoc]
        · rw [← hmove]
          exact ih (c :: seen) _ h

theorem standsAlone_iff_bounded (o : Occurrence) :
    o.standsAlone = true ↔ Bounded o.seen.reverse o.rest := by
  rw [Bounded, List.getLast?_reverse]
  simp only [standsAlone, Bool.and_eq_true, Bool.not_eq_true', Option.any_eq_false]
  rfl

theorem bounded_of_standsAlone (o : Occurrence) (h : o.standsAlone) :
    Bounded o.seen.reverse o.rest :=
  (standsAlone_iff_bounded o).mp h

/-- The search is right about what it finds. -/
theorem find?_eq_some (style : CommentStyle) (name line : Text) (offset : Nat)
    (h : find? style name line = some offset) :
    name ≠ [] ∧ style.isComment line = false ∧ ∃ before rest, line = before ++ name ++ rest ∧
      offset = Text.byteLength before ∧ Bounded before rest := by
  unfold find? at h
  split_ifs at h with hno
  simp only [not_or, Bool.not_eq_true] at hno
  obtain ⟨o, ho, rfl⟩ := Option.map_eq_some_iff.mp h
  have hmem := mem_allFrom name [] line 0 o (List.mem_of_find?_eq_some ho)
  refine ⟨hno.1, hno.2, o.seen.reverse, o.rest, hmem.symm, ?_, ?_⟩
  · exact (Text.byteLength_reverse o.seen).symm
  · exact bounded_of_standsAlone o (List.find?_some ho)

theorem find?_of_isComment (style : CommentStyle) (name line : Text)
    (h : style.isComment line = true) : find? style name line = none :=
  if_pos (Or.inr h)

end Occurrence

end CommentMacros
