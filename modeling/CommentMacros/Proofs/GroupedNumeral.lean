import CommentMacros.Proofs.Declaration
import CommentMacros.Proofs.Template

namespace CommentMacros.Text

/-- Taking the commas out again leaves the text as it was. -/
theorem filter_groupThrees (s : Text) (h : ',' ∉ s) : (groupThrees s).filter (· ≠ ',') = s := by
  induction s with
  | nil => rfl
  | cons c s ih =>
    have hc : c ≠ ',' := fun heq => h (by simp [heq])
    have hs := ih (fun hmem => h (List.mem_cons_of_mem c hmem))
    unfold groupThrees
    split_ifs
    · simpa [hc] using hs
    · simpa [hc] using hs

/-- Only the first group can be short: it has what is left over when the others have three each. -/
theorem splitOn_groupThrees (c : Char) (s : Text) (h : ',' ∉ c :: s) :
    ∃ first rest, (groupThrees (c :: s)).splitOn ',' = first :: rest ∧
      first.length = s.length % 3 + 1 ∧ ∀ g ∈ rest, g.length = 3 := by
  induction s generalizing c with
  | nil =>
    refine ⟨[c], [], ?_, rfl, by simp⟩
    have hc : c ≠ ',' := fun heq => h (by simp [heq])
    simp [groupThrees, List.splitOn_eq_splitOnP, List.splitOnP_cons_eq_if_modifyHead, hc]
  | cons d s ih =>
    have hc : c ≠ ',' := fun heq => h (by simp [heq])
    obtain ⟨first, rest, hsplit, hfirst, hrest⟩ := ih d (fun hmem => h (List.mem_cons_of_mem c hmem))
    rw [List.splitOn_eq_splitOnP] at hsplit
    unfold groupThrees
    split_ifs with hthree
    · -- the comma behind `c` is where a full group begins
      have hfull : first.length = 3 := by
        have hlength := hthree.2
        rw [List.length_cons] at hlength
        omega
      refine ⟨[c], first :: rest, ?_, ?_, ?_⟩
      · simp [List.splitOn_eq_splitOnP, List.splitOnP_cons_eq_if_modifyHead, hc, hsplit]
      · rw [hthree.2, List.length_singleton]
      · exact List.forall_mem_cons.mpr ⟨hfull, hrest⟩
    · have hlength : (d :: s).length % 3 ≠ 0 := fun hzero => hthree ⟨List.cons_ne_nil d s, hzero⟩
      refine ⟨c :: first, rest, ?_, ?_, hrest⟩
      · simp [List.splitOn_eq_splitOnP, List.splitOnP_cons_eq_if_modifyHead, hc, hsplit]
      · rw [List.length_cons] at hlength ⊢
        rw [List.length_cons, hfirst]
        omega

theorem comma_not_mem_decimal (n : Nat) : ',' ∉ decimal n := by
  intro h
  have hdigit := Template.isDigit_of_mem_decimal n ',' h
  revert hdigit
  decide

theorem filter_grouped (n : Nat) : (grouped n).filter (· ≠ ',') = decimal n :=
  filter_groupThrees (decimal n) (comma_not_mem_decimal n)

theorem splitOn_grouped (n : Nat) :
    ∃ first rest, (grouped n).splitOn ',' = first :: rest ∧ 1 ≤ first.length ∧
      first.length ≤ 3 ∧ ∀ g ∈ rest, g.length = 3 := by
  have hne : decimal n ≠ [] := Nat.toDigits_ne_nil
  obtain ⟨c, s, hcs⟩ := List.exists_cons_of_ne_nil hne
  have hcomma : ',' ∉ c :: s := hcs ▸ comma_not_mem_decimal n
  obtain ⟨first, rest, hsplit, hfirst, hrest⟩ := splitOn_groupThrees c s hcomma
  rw [← hcs] at hsplit
  exact ⟨first, rest, hsplit, by omega, by omega, hrest⟩

theorem isDigit_of_mem_group (n : Nat) (g : Text) (hg : g ∈ (grouped n).splitOn ',') (c : Char)
    (hc : c ∈ g) : c.isDigit = true := by
  rw [List.splitOn_eq_splitOnP] at hg
  obtain ⟨hmem, hcomma⟩ := mem_splitOnP _ (grouped n) g c hg hc
  apply Template.isDigit_of_mem_decimal n c
  rw [← filter_grouped n]
  exact List.mem_filter.mpr ⟨hmem, by simpa using hcomma⟩

theorem grouped_injective : Function.Injective grouped := by
  intro m n h
  have hdigits : decimal m = decimal n := by
    rw [← filter_grouped m, ← filter_grouped n, h]
  calc
    m = Nat.ofDigitChars 10 (decimal m) 0 := Nat.ofDigitChars_ten_toDigits.symm
    _ = Nat.ofDigitChars 10 (decimal n) 0 := by rw [hdigits]
    _ = n := Nat.ofDigitChars_ten_toDigits

end Text

/-- Without its commas a grouped numeral is the decimal numeral, which reads as the number. Its
groups hold digits alone, one to three in the first and three in every other; and no two numbers
are grouped alike. -/
theorem grouped_numeral_faithful :
    (∀ n, (Text.grouped n).filter (· ≠ ',') = Text.decimal n ∧
      Nat.ofDigitChars 10 ((Text.grouped n).filter (· ≠ ',')) 0 = n ∧
      (∃ first rest, (Text.grouped n).splitOn ',' = first :: rest ∧
        1 ≤ first.length ∧ first.length ≤ 3 ∧ ∀ g ∈ rest, g.length = 3) ∧
      ∀ g ∈ (Text.grouped n).splitOn ',', g ≠ [] ∧ ∀ c ∈ g, c.isDigit = true) ∧
    Function.Injective Text.grouped := by
  refine ⟨?_, Text.grouped_injective⟩
  intro n
  have hdigits := Text.filter_grouped n
  obtain ⟨first, rest, hsplit, hone, hthree, hrest⟩ := Text.splitOn_grouped n
  refine ⟨hdigits, ?_, ⟨first, rest, hsplit, hone, hthree, hrest⟩, ?_⟩
  · rw [hdigits]
    exact Nat.ofDigitChars_ten_toDigits
  · intro g hg
    refine ⟨?_, fun c hc => Text.isDigit_of_mem_group n g hg c hc⟩
    have hlength : 1 ≤ g.length := by
      rw [hsplit] at hg
      rcases List.mem_cons.mp hg with rfl | hmem
      · exact hone
      · have hg3 := hrest g hmem
        omega
    exact List.ne_nil_of_length_pos hlength

example : Text.grouped 1234567 = "1,234,567".toList := by decide

end CommentMacros
