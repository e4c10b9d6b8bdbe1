import CommentMacros.Proofs.FirstOccurrence
import Mathlib.Data.List.SplitBy

namespace CommentMacros

structure Run where
  offset : Nat
  text : Text
  deriving DecidableEq, Repr

theorem Text.byteLength_pos {s : Text} (h : s ≠ []) : 0 < s.byteLength := by
  obtain ⟨c, s, rfl⟩ := List.exists_cons_of_ne_nil h
  have hpos := c.utf8Size_pos
  rw [Text.byteLength]
  omega

namespace Run

def locate : Nat → List Text → List Run
  | _, [] => []
  | i, s :: pieces => ⟨i, s⟩ :: locate (i + s.byteLength) pieces

def alike (a b : Char) : Bool := isWordChar a == isWordChar b

/-- The maximal runs of identifier characters, from left to right. -/
def all (line : Text) : List Run :=
  (locate 0 (line.splitBy alike)).filter fun r => r.text.all isWordChar

theorem locate_append (i : Nat) (front back : List Text) :
    locate i (front ++ back) =
      locate i front ++ locate (i + Text.byteLength front.flatten) back := by
  induction front generalizing i with
  | nil => rfl
  | cons s front ih => simp [locate, ih, Nat.add_assoc]

theorem mem_locate (i : Nat) (pieces : List Text) (r : Run) (h : r ∈ locate i pieces) :
    ∃ front back, pieces = front ++ r.text :: back ∧
      r.offset = i + Text.byteLength front.flatten := by
  induction pieces generalizing i with
  | nil => simp [locate] at h
  | cons s pieces ih =>
    rcases List.mem_cons.mp h with rfl | h
    · exact ⟨[], pieces, rfl, rfl⟩
    · obtain ⟨front, back, rfl, hoffset⟩ := ih _ h
      refine ⟨s :: front, back, rfl, ?_⟩
      rw [hoffset, List.flatten_cons, Text.byteLength_append, Nat.add_assoc]

theorem locate_sorted (i : Nat) (pieces : List Text) (h : [] ∉ pieces) :
    (locate i pieces).Pairwise fun a b => a.offset < b.offset := by
  induction pieces generalizing i with
  | nil => exact List.Pairwise.nil
  | cons s pieces ih =>
    simp only [List.mem_cons, not_or] at h
    refine List.pairwise_cons.mpr ⟨?_, ih _ h.2⟩
    intro r hr
    obtain ⟨front, back, -, hoffset⟩ := mem_locate _ pieces r hr
    have hpos := Text.byteLength_pos (Ne.symm h.1)
    show i < r.offset
    omega

theorem all_sorted (line : Text) : (all line).Pairwise fun a b => a.offset < b.offset :=
  (locate_sorted 0 _ (List.nil_notMem_splitBy alike line)).filter _

theorem bounded_of_pieces (line : Text) (front back : List Text) (text : Text)
    (hpieces : line.splitBy alike = front ++ text :: back)
    (hword : ∀ c ∈ text, isWordChar c = true) :
    Bounded front.flatten back.flatten := by
  have hchain := List.isChain_getLast_head_splitBy alike line
  rw [hpieces, List.isChain_append] at hchain
  obtain ⟨-, hback, hfront⟩ := hchain
  constructor
  · intro c hc
    rcases List.eq_nil_or_concat' front with rfl | ⟨init, piece, rfl⟩
    · simp at hc
    · obtain ⟨hpiece, htext, hborder⟩ := hfront piece (by simp) text (by simp)
      rw [List.flatten_append, List.flatten_singleton,
        List.getLast?_append_of_ne_nil _ hpiece] at hc
      rw [alike, List.getLast_of_mem_getLast? hc, hword _ (List.head_mem htext)] at hborder
      simpa using hborder
  · intro c hc
    cases back with
    | nil => simp at hc
    | cons piece back =>
      obtain ⟨htext, hpiece, hborder⟩ := (List.isChain_cons_cons.mp hback).1
      rw [List.flatten_cons, List.head?_append_of_ne_nil _ hpiece] at hc
      rw [alike, List.head_of_mem_head? hc, hword _ (List.getLast_mem htext)] at hborder
      simpa using hborder

theorem mem_all_iff (line : Text) (r : Run) :
    r ∈ all line ↔ r.text ≠ [] ∧ (∀ c ∈ r.text, isWordChar c = true) ∧
      AloneAt r.text line r.offset := by
  constructor
  · intro h
    obtain ⟨hmem, hall⟩ := List.mem_filter.mp h
    have hword : ∀ c ∈ r.text, isWordChar c = true := List.all_eq_true.mp hall
    obtain ⟨front, back, hpieces, hoffset⟩ := mem_locate 0 _ r hmem
    have hne : r.text ≠ [] :=
      List.ne_nil_of_mem_splitBy (r := alike) (l := line) (by simp [hpieces])
    refine ⟨hne, hword, front.flatten, back.flatten, ?_, by omega,
      bounded_of_pieces line front back r.text hpieces hword⟩
    rw [← List.flatten_splitBy alike line, hpieces]
    simp
  · rintro ⟨hne, hword, before, rest, rfl, hoffset, hbound⟩
    have hchain : r.text.IsChain fun a b => alike a b = true := by
      refine (List.pairwise_of_forall_mem_list ?_).isChain
      intro a ha b hb
      rw [alike, hword a ha, hword b hb]
      rfl
    have hpieces : (before ++ r.text ++ rest).splitBy alike =
        before.splitBy alike ++ r.text :: rest.splitBy alike := by
      rw [List.append_assoc, List.splitBy_append, List.splitBy_append,
        List.splitBy_of_isChain hne hchain]
      · rfl
      · intro a ha b hb
        rw [alike, hword a (List.mem_of_getLast? ha), hbound.2 b hb]
        rfl
      · intro a ha b hb
        rw [List.head?_append_of_ne_nil _ hne] at hb
        rw [alike, hbound.1 a ha, hword b (List.mem_of_mem_head? hb)]
        rfl
    refine List.mem_filter.mpr ⟨?_, List.all_eq_true.mpr hword⟩
    rw [hpieces, locate_append, List.flatten_splitBy, hoffset, Nat.zero_add]
    exact List.mem_append_right _ List.mem_cons_self

end Run

/-- A name of identifier characters has no seam. -/
theorem seamless_of_word (name : Text) (hword : ∀ c ∈ name, isWordChar c = true) :
    Seamless name := by
  intro k hk hpos _
  have hne : name.take k ≠ [] :=
    List.ne_nil_of_length_pos (by rw [List.length_take]; omega)
  rw [List.getLast?_eq_getLast_of_ne_nil hne]
  exact hword _ (List.mem_of_mem_take (List.getLast_mem hne))

/-- In a line that is no comment, a name of identifier characters is found at the first run that
reads as the name, and not found exactly if no run does. -/
theorem found_at_first_run (style : CommentStyle) (name line : Text)
    (hcomment : style.isComment line = false) (hname : name ≠ [])
    (hword : ∀ c ∈ name, isWordChar c = true) :
    Occurrence.find? style name line =
      ((Run.all line).find? fun r => r.text == name).map (·.offset) ∧
    (Occurrence.find? style name line = none ↔ ∀ r ∈ Run.all line, r.text ≠ name) := by
  have hplaces : {i | AloneAt name line i ∧ MetAt name line i} =
      {i | ∃ r ∈ Run.all line, (r.text == name) = true ∧ r.offset = i} := by
    ext i
    constructor
    · rintro ⟨halone, -⟩
      exact ⟨⟨i, name⟩, (Run.mem_all_iff line ⟨i, name⟩).mpr ⟨hname, hword, halone⟩, by simp, rfl⟩
    · rintro ⟨r, hr, heq, rfl⟩
      obtain rfl := eq_of_beq heq
      obtain ⟨-, -, halone⟩ := (Run.mem_all_iff line r).mp hr
      refine ⟨halone, ?_⟩
      obtain ⟨before, rest, rfl, hoffset, hbound⟩ := halone
      have hmet := met_of_seamless r.text before rest hname (seamless_of_word r.text hword) hbound
      exact ⟨before, hmet, hoffset⟩
  have hfound : Occurrence.find? style name line =
      ((Run.all line).find? fun r => r.text == name).map (·.offset) := by
    ext i
    rw [Occurrence.find?_eq_some_iff style name line i hname, hplaces,
      find?_isLeast (Run.all line) (·.offset) _ (Run.all_sorted line)]
    simp [hcomment]
  refine ⟨hfound, ?_⟩
  rw [hfound, Option.map_eq_none_iff, List.find?_eq_none]
  simp

/-- The name `aa` occurs twice in the run `éaaa`, and is the run behind it. -/
theorem found_behind_longer_run :
    CommentStyle.standard.isComment "éaaa.aa()".toList = false ∧
    Run.all "éaaa.aa()".toList = [⟨0, "éaaa".toList⟩, ⟨6, "aa".toList⟩] ∧
    Occurrence.find? .standard "aa".toList "éaaa.aa()".toList = some 6 := by
  have hcomment : CommentStyle.standard.isComment "éaaa.aa()".toList = false := by decide
  have hruns : Run.all "éaaa.aa()".toList = [⟨0, "éaaa".toList⟩, ⟨6, "aa".toList⟩] := by
    decide +kernel
  refine ⟨hcomment, hruns, ?_⟩
  have hword : ∀ c ∈ "aa".toList, isWordChar c = true := List.all_eq_true.mp (by decide)
  rw [(found_at_first_run .standard "aa".toList "éaaa.aa()".toList hcomment (by decide) hword).1,
    hruns]
  decide

end CommentMacros
