import CommentMacros.Proofs.Site

namespace CommentMacros

inductive Cell where
  | char (c : Char)
  | index (k : Nat)
  deriving DecidableEq, Repr

namespace Cell

def text (n : Nat) : Cell → Text
  | .char c => [c]
  | .index k => Text.decimal (n + k)

def isBlank : Cell → Bool
  | .char c => CommentMacros.isBlank c
  | .index _ => false

def isWord : Cell → Bool
  | .char c => isWordChar c
  | .index _ => true

end Cell

/-- A text in which the values are left open that the counter has some steps behind its start. -/
abbrev Skeleton := List Cell

theorem isBlank_of_isDigit (c : Char) (h : c.isDigit = true) : isBlank c = false := by
  simp only [Char.isDigit, Bool.and_eq_true, decide_eq_true_eq] at h
  have hlow := UInt32.le_iff_toNat_le.mp h.1
  have hhigh := UInt32.le_iff_toNat_le.mp h.2
  change 48 ≤ c.toNat at hlow
  change c.toNat ≤ 57 at hhigh
  simp [isBlank]
  omega

namespace Skeleton

/-- The text when the counter starts at `n`. -/
def render (n : Nat) (w : Skeleton) : Text := w.flatMap (Cell.text n)

def ofText (s : Text) : Skeleton := s.map .char

theorem exists_digit (n : Nat) :
    ∃ d ds, Text.decimal n = d :: ds ∧ d.isDigit = true := by
  obtain ⟨d, ds, hd⟩ := List.exists_cons_of_ne_nil (Nat.toDigits_ne_nil (n := n) (b := 10))
  exact ⟨d, ds, hd, Template.isDigit_of_mem_decimal n d (by rw [Text.decimal, hd]; simp)⟩

@[simp] theorem render_nil (n : Nat) : render n [] = [] := rfl

@[simp] theorem render_char (n : Nat) (c : Char) (w : Skeleton) :
    render n (.char c :: w) = c :: render n w := rfl

@[simp] theorem render_index (n k : Nat) (w : Skeleton) :
    render n (.index k :: w) = Text.decimal (n + k) ++ render n w := rfl

@[simp] theorem render_append (n : Nat) (w v : Skeleton) :
    render n (w ++ v) = render n w ++ render n v :=
  List.flatMap_append

@[simp] theorem render_ofText (n : Nat) (s : Text) : render n (ofText s) = s := by
  induction s with
  | nil => rfl
  | cons c s ih => exact congrArg (c :: ·) ih

theorem mem_render (n : Nat) (w : Skeleton) (a : Char) (ha : a.isDigit = false) :
    a ∈ render n w ↔ Cell.char a ∈ w := by
  induction w with
  | nil => simp
  | cons cell w ih =>
    cases cell with
    | char c => simp [ih]
    | index k =>
      have hno : a ∉ Text.decimal (n + k) := by
        intro hmem
        rw [Template.isDigit_of_mem_decimal _ a hmem] at ha
        cases ha
      simp [ih, hno]

theorem cutFirst_render (n : Nat) (w : Skeleton) (a : Char) (ha : a.isDigit = false) :
    cutFirst a (render n w) =
      (cutFirst (Cell.char a) w).map fun parts => (render n parts.1, render n parts.2) := by
  cases hcut : cutFirst (Cell.char a) w with
  | none =>
    have hno := cutFirst_eq_none_iff.mp hcut
    exact cutFirst_eq_none_iff.mpr fun hmem => hno ((mem_render n w a ha).mp hmem)
  | some parts =>
    obtain ⟨l, r⟩ := parts
    obtain ⟨rfl, hl⟩ := cutFirst_eq_some hcut
    rw [render_append, render_char]
    exact cutFirst_append (fun hmem => hl ((mem_render n l a ha).mp hmem)) _

theorem cutLast_render (n : Nat) (w : Skeleton) (a : Char) (ha : a.isDigit = false) :
    cutLast a (render n w) =
      (cutLast (Cell.char a) w).map fun parts => (render n parts.1, render n parts.2) := by
  cases hcut : cutLast (Cell.char a) w with
  | none =>
    have hno := cutLast_eq_none_iff.mp hcut
    exact cutLast_eq_none_iff.mpr fun hmem => hno ((mem_render n w a ha).mp hmem)
  | some parts =>
    obtain ⟨l, r⟩ := parts
    obtain ⟨rfl, hr⟩ := cutLast_eq_some hcut
    rw [render_append, render_char]
    exact cutLast_append (fun hmem => hr ((mem_render n r a ha).mp hmem)) _

theorem render_intercalate (n : Nat) (a : Char) (ws : List Skeleton) :
    render n ([Cell.char a].intercalate ws) = [a].intercalate (ws.map (render n)) := by
  induction ws with
  | nil => rfl
  | cons w ws ih =>
    cases ws with
    | nil => simp
    | cons v ws =>
      rw [List.intercalate_cons_cons, List.map_cons, List.map_cons, List.intercalate_cons_cons,
        ← List.map_cons, ← ih]
      simp

theorem splitOn_render (n : Nat) (w : Skeleton) (a : Char) (ha : a.isDigit = false) :
    (render n w).splitOn a = (w.splitOn (Cell.char a)).map (render n) := by
  have hpieces : ∀ s ∈ (w.splitOn (Cell.char a)).map (render n), a ∉ s := by
    intro s hs hmem
    obtain ⟨v, hv, rfl⟩ := List.mem_map.mp hs
    rw [List.splitOn_eq_splitOnP] at hv
    have hsep := (mem_splitOnP _ w v _ hv ((mem_render n v a ha).mp hmem)).2
    simp at hsep
  have hne : (w.splitOn (Cell.char a)).map (render n) ≠ [] := by simp
  have hw : render n w = [a].intercalate ((w.splitOn (Cell.char a)).map (render n)) := by
    rw [← render_intercalate, List.intercalate_splitOn]
  rw [hw, List.splitOn_intercalate a hpieces hne]

theorem all_isBlank_render (n : Nat) (w : Skeleton) :
    (render n w).all isBlank = w.all Cell.isBlank := by
  induction w with
  | nil => rfl
  | cons cell w ih =>
    cases cell with
    | char c => simp [Cell.isBlank, ih]
    | index k =>
      obtain ⟨d, ds, hd, hdigit⟩ := exists_digit (n + k)
      simp [Cell.isBlank, hd, isBlank_of_isDigit d hdigit]

theorem readArguments_render (w : Skeleton) :
    ∃ args : List Skeleton, ∀ n, readArguments (render n w) = args.map (render n) := by
  by_cases hblank : w.all Cell.isBlank = true
  · refine ⟨[], ?_⟩
    intro n
    rw [readArguments, Text.allBlank, all_isBlank_render, if_pos hblank]
    rfl
  · refine ⟨w.splitOn (.char ','), ?_⟩
    intro n
    rw [readArguments, Text.allBlank, all_isBlank_render, if_neg hblank]
    exact splitOn_render n w ',' (by decide)

theorem trimStart_render (n : Nat) (w : Skeleton) :
    Text.trimStart (render n w) = render n (w.dropWhile Cell.isBlank) := by
  unfold Text.trimStart
  induction w with
  | nil => rfl
  | cons cell w ih =>
    cases cell with
    | char c => cases hc : isBlank c <;> simp [Cell.isBlank, hc, ih]
    | index k =>
      obtain ⟨d, ds, hd, hdigit⟩ := exists_digit (n + k)
      simp [Cell.isBlank, hd, isBlank_of_isDigit d hdigit]

theorem prefix_render (n : Nat) (u : Text) (w : Skeleton) (hu : ∀ c ∈ u, c.isDigit = false) :
    u <+: render n w ↔ ofText u <+: w := by
  induction u generalizing w with
  | nil => simp [ofText]
  | cons a u ih =>
    obtain ⟨ha, hu⟩ := List.forall_mem_cons.mp hu
    cases w with
    | nil => simp [ofText]
    | cons cell w =>
      cases cell with
      | char c =>
        change a :: u <+: c :: render n w ↔ Cell.char a :: ofText u <+: Cell.char c :: w
        rw [List.cons_prefix_cons, List.cons_prefix_cons, Cell.char.injEq, ih w hu]
      | index k =>
        obtain ⟨d, ds, hd, hdigit⟩ := exists_digit (n + k)
        have hne : a ≠ d := by
          rintro rfl
          rw [ha] at hdigit
          cases hdigit
        simp [ofText, hd, hne]

theorem isComment_render (style : CommentStyle) (hopener : ∀ c ∈ style.opener, c.isDigit = false)
    (n : Nat) (w : Skeleton) :
    style.isComment (render n w) = (ofText style.opener).isPrefixOf (w.dropWhile Cell.isBlank) := by
  rw [CommentStyle.isComment, trimStart_render, Bool.eq_iff_iff, List.isPrefixOf_iff_prefix,
    List.isPrefixOf_iff_prefix]
  exact prefix_render n style.opener _ hopener

theorem afterLead?_render (n : Nat) (u : Text) (w : Skeleton)
    (hu : ∀ c ∈ u, c.isDigit = false) :
    afterLead? u (render n w) = (afterLead? (ofText u) w).map (render n) := by
  cases hlead : afterLead? (ofText u) w with
  | some rest =>
    obtain rfl := afterLead?_eq_some_iff.mp hlead
    rw [render_append, render_ofText]
    exact afterLead?_eq_some_iff.mpr rfl
  | none =>
    cases htext : afterLead? u (render n w) with
    | none => rfl
    | some rest =>
      have htextual : u <+: render n w := ⟨rest, (afterLead?_eq_some_iff.mp htext).symm⟩
      obtain ⟨v, hv⟩ := (prefix_render n u w hu).mp htextual
      rw [afterLead?_eq_some_iff.mpr hv.symm] at hlead
      cases hlead

/-- Digits begin no occurrence of a name without digits. -/
theorem allFrom_digits (name seen ds s : Text) (hne : name ≠ [])
    (hname : ∀ c ∈ name, c.isDigit = false) (hds : ∀ d ∈ ds, d.isDigit = true) :
    Occurrence.allFrom name seen 0 (ds ++ s) =
      Occurrence.allFrom name (ds.reverse ++ seen) 0 s := by
  induction ds generalizing seen with
  | nil => rfl
  | cons d ds ih =>
    obtain ⟨hd, hds⟩ := List.forall_mem_cons.mp hds
    obtain ⟨a, name', rfl⟩ := List.exists_cons_of_ne_nil hne
    have had : a ≠ d := by
      intro heq
      have ha := hname a List.mem_cons_self
      rw [heq, hd] at ha
      cases ha
    have hlead : afterLead? (a :: name') (d :: (ds ++ s)) = none := if_neg had
    rw [List.cons_append, Occurrence.allFrom, hlead]
    dsimp only
    rw [ih (d :: seen) hds, List.reverse_cons, List.append_assoc]
    rfl

def occurrence (n : Nat) (o : Skeleton × Skeleton) : Occurrence :=
  ⟨(render n o.1).reverse, render n o.2⟩

/-- The name is found at the same cells whatever the numbers are. The characters to be skipped
belong to the name, so that they are characters of the skeleton. -/
theorem allFrom_render (name : Text) (hne : name ≠ []) (hname : ∀ c ∈ name, c.isDigit = false)
    (w before : Skeleton) (skipped : Text) (hskip : ofText skipped <+: w) :
    ∃ os : List (Skeleton × Skeleton), ∀ n,
      Occurrence.allFrom name (render n before).reverse skipped.length (render n w) =
        os.map (occurrence n) := by
  induction w generalizing before skipped with
  | nil =>
    refine ⟨[], ?_⟩
    intro n
    cases skipped.length <;> rfl
  | cons cell w ih =>
    have hmove (n : Nat) (c : Char) : c :: (render n before).reverse =
        (render n (before ++ [.char c])).reverse := by
      simp
    cases skipped with
    | cons c skipped =>
      obtain ⟨rfl, hrest⟩ := List.cons_prefix_cons.mp hskip
      obtain ⟨os, hos⟩ := ih (before ++ [.char c]) skipped hrest
      refine ⟨os, ?_⟩
      intro n
      rw [← hos n, render_char, List.length_cons, Occurrence.allFrom, hmove]
    | nil =>
      cases cell with
      | index k =>
        -- the digits of a number are passed at once, since the name begins with none of them
        obtain ⟨os, hos⟩ := ih (before ++ [.index k]) [] List.nil_prefix
        refine ⟨os, ?_⟩
        intro n
        have hdigits := allFrom_digits name (render n before).reverse (Text.decimal (n + k))
          (render n w) hne hname (Template.isDigit_of_mem_decimal (n + k))
        rw [← hos n, render_index, List.length_nil, hdigits]
        simp
      | char c =>
        cases hlead : afterLead? (ofText name) (.char c :: w) with
        | none =>
          obtain ⟨os, hos⟩ := ih (before ++ [.char c]) [] List.nil_prefix
          refine ⟨os, ?_⟩
          intro n
          have hlead' := afterLead?_render n name (.char c :: w) hname
          rw [hlead, render_char, Option.map_none] at hlead'
          rw [← hos n, render_char, List.length_nil, Occurrence.allFrom, hlead']
          dsimp only
          rw [hmove]
        | some rest =>
          obtain ⟨a, name', rfl⟩ := List.exists_cons_of_ne_nil hne
          have hw : w = ofText name' ++ rest :=
            (List.cons.inj (afterLead?_eq_some_iff.mp hlead)).2
          obtain ⟨os, hos⟩ := ih (before ++ [.char c]) name' ⟨rest, hw.symm⟩
          refine ⟨(before, rest) :: os, ?_⟩
          intro n
          have hlead' := afterLead?_render n (a :: name') (.char c :: w) hname
          rw [hlead, render_char, Option.map_some] at hlead'
          rw [List.map_cons, ← hos n, render_char, List.length_nil, Occurrence.allFrom, hlead']
          dsimp only
          rw [hmove]
          rfl

theorem isWord_text (n : Nat) (cell : Cell) :
    cell.text n ≠ [] ∧ ∀ c ∈ cell.text n, isWordChar c = cell.isWord := by
  cases cell with
  | char c => simp [Cell.text, Cell.isWord]
  | index k =>
    refine ⟨Nat.toDigits_ne_nil, ?_⟩
    intro c hc
    exact isWordChar_of_isDigit (Template.isDigit_of_mem_decimal (n + k) c hc)

theorem head?_render (n : Nat) (w : Skeleton) :
    (render n w).head?.any isWordChar = w.head?.any Cell.isWord := by
  cases w with
  | nil => rfl
  | cons cell w =>
    obtain ⟨hne, hword⟩ := isWord_text n cell
    obtain ⟨c, cs, hcs⟩ := List.exists_cons_of_ne_nil hne
    have hw : render n (cell :: w) = c :: (cs ++ render n w) := by
      rw [← List.cons_append, ← hcs]
      rfl
    rw [hw, List.head?_cons, List.head?_cons, Option.any_some, Option.any_some]
    exact hword c (by simp [hcs])

theorem getLast?_render (n : Nat) (w : Skeleton) :
    (render n w).getLast?.any isWordChar = w.getLast?.any Cell.isWord := by
  rcases List.eq_nil_or_concat' w with rfl | ⟨init, cell, rfl⟩
  · rfl
  · obtain ⟨hne, hword⟩ := isWord_text n cell
    obtain ⟨cs, c, hcs⟩ := (List.eq_nil_or_concat' (cell.text n)).resolve_left hne
    have hw : render n (init ++ [cell]) = (render n init ++ cs) ++ [c] := by
      rw [render_append, List.append_assoc, ← hcs]
      simp [render]
    rw [hw, List.getLast?_concat, List.getLast?_concat, Option.any_some, Option.any_some]
    exact hword c (by simp [hcs])

/-- The place where a name stands alone is a place of the skeleton. -/
theorem find?_render (style : CommentStyle) (hopener : ∀ c ∈ style.opener, c.isDigit = false)
    (name : Text) (hname : ∀ c ∈ name, c.isDigit = false) (w : Skeleton) :
    ∃ found : Option (Skeleton × Skeleton), ∀ n,
      Occurrence.find? style name (render n w) =
        found.map (fun o => (render n o.1).byteLength) ∧
      ∀ o ∈ found, render n w = render n o.1 ++ name ++ render n o.2 := by
  by_cases hnone : name = [] ∨
      (ofText style.opener).isPrefixOf (w.dropWhile Cell.isBlank) = true
  · refine ⟨none, ?_⟩
    intro n
    refine ⟨?_, by simp⟩
    rw [Occurrence.find?, isComment_render style hopener, if_pos hnone]
    rfl
  · have hne : name ≠ [] := fun hnil => hnone (Or.inl hnil)
    obtain ⟨os, hos⟩ := allFrom_render name hne hname w [] [] List.nil_prefix
    refine ⟨os.find? fun o => !o.1.getLast?.any Cell.isWord && !o.2.head?.any Cell.isWord, ?_⟩
    intro n
    have hall : Occurrence.all name (render n w) = os.map (occurrence n) := hos n
    have halone : Occurrence.standsAlone ∘ occurrence n =
        fun o => !o.1.getLast?.any Cell.isWord && !o.2.head?.any Cell.isWord := by
      funext o
      rw [Function.comp_apply, Occurrence.standsAlone, occurrence, List.head?_reverse,
        getLast?_render, head?_render]
    refine ⟨?_, ?_⟩
    · rw [Occurrence.find?, isComment_render style hopener, if_neg hnone, hall, List.find?_map,
        halone, Option.map_map]
      congr 1
      funext o
      exact Text.byteLength_reverse _
    · intro o ho
      have hmem : occurrence n o ∈ Occurrence.all name (render n w) := by
        rw [hall]
        exact List.mem_map_of_mem (List.mem_of_find?_eq_some ho)
      have hline := Occurrence.mem_allFrom name [] (render n w) 0 _ hmem
      rw [occurrence, List.reverse_reverse] at hline
      exact hline.symm

end Skeleton

end CommentMacros
