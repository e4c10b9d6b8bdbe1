import CommentMacros.Proofs.DeclaredTable

namespace CommentMacros

namespace Text

theorem words_append_blank (s r : Text) (c : Char) (hc : isBlank c = true) :
    words (s ++ c :: r) = words s ++ words r := by
  unfold words
  rw [List.splitOnP_append_cons s r hc, List.filter_append]

/-- Words do not reach over a blank at the seam. -/
theorem words_append (s r : Text) (hr : ∀ c ∈ r.head?, isBlank c = true) :
    words (s ++ r) = words s ++ words r := by
  cases r with
  | nil => simp [words]
  | cons c r =>
    have hc := hr c rfl
    have hfront : words (c :: r) = words r := words_append_blank [] r c hc
    rw [words_append_blank s r c hc, hfront]

theorem words_blank_append (g r : Text) (hg : g.allBlank = true) : words (g ++ r) = words r := by
  induction g with
  | nil => rfl
  | cons c g ih =>
    rw [allBlank, List.all_cons, Bool.and_eq_true] at hg
    obtain ⟨hc, hg⟩ := hg
    have hfront : words (c :: (g ++ r)) = words (g ++ r) := words_append_blank [] (g ++ r) c hc
    exact hfront.trans (ih hg)

theorem words_of_solid (s : Text) (hne : s ≠ []) (hs : Solid s) : words s = [s] := by
  rw [words, List.splitOnP_eq_singleton hs]
  simp [hne]

theorem words_ne_nil (s : Text) (c : Char) (hmem : c ∈ s) (hc : isBlank c = false) :
    words s ≠ [] := by
  induction s with
  | nil => simp at hmem
  | cons b s ih =>
    cases hb : isBlank b with
    | true =>
      have hfront : words (b :: s) = words s := words_append_blank [] s b hb
      rw [hfront]
      rcases List.mem_cons.mp hmem with rfl | hmem
      · rw [hb] at hc
        cases hc
      · exact ih hmem
    | false =>
      obtain ⟨first, rest, hs⟩ := List.exists_cons_of_ne_nil (List.splitOnP_ne_nil isBlank s)
      rw [words, List.splitOnP_cons_eq_if_modifyHead, hb, hs]
      simp

theorem words_trimStart (s : Text) : words s.trimStart = words s := by
  have hblank : allBlank (s.takeWhile isBlank) = true := List.all_takeWhile
  have hskip := words_blank_append _ (s.dropWhile isBlank) hblank
  rw [List.takeWhile_append_dropWhile] at hskip
  exact hskip.symm

theorem words_trimEnd (s : Text) : words s.trimEnd = words s := by
  have hsplit : s.trimEnd ++ s.rtakeWhile isBlank = s := List.rdropWhile_append_rtakeWhile
  have hblank : ∀ c ∈ s.rtakeWhile isBlank, isBlank c = true :=
    fun _ hc => List.mem_rtakeWhile_imp hc
  have hnone : words (s.rtakeWhile isBlank) = [] := by
    rw [← List.append_nil (s.rtakeWhile isBlank),
      words_blank_append _ _ (List.all_eq_true.mpr hblank)]
    rfl
  have hcut := words_append s.trimEnd (s.rtakeWhile isBlank)
    fun c hc => hblank c (List.mem_of_mem_head? hc)
  rw [hsplit, hnone, List.append_nil] at hcut
  exact hcut.symm

theorem words_trim (s : Text) : words s.trim = words s := by
  rw [trim, words_trimEnd, words_trimStart]

theorem trimEnd_append_solid (s t r : Text) (hne : t ≠ []) (ht : Solid t) :
    trimEnd (s ++ t ++ r) = s ++ t ++ trimEnd r := by
  have hreverse : (s ++ t ++ r).reverse = r.reverse ++ (s ++ t).reverse := List.reverse_append
  have hkeep : (s ++ t).reverse.dropWhile isBlank = (s ++ t).reverse := by
    obtain ⟨init, c, rfl⟩ := (List.eq_nil_or_concat' t).resolve_left hne
    have hc := ht c (by simp)
    simp [hc]
  rw [trimEnd, hreverse, List.dropWhile_append, hkeep, trimEnd]
  split_ifs with hempty
  · rw [List.isEmpty_iff.mp hempty, List.reverse_reverse]
    simp
  · rw [List.reverse_append, List.reverse_reverse]

end Text

namespace CommentStyle

def Flush (style : CommentStyle) : Prop := ∀ c ∈ style.opener.head?, isBlank c = false

instance (style : CommentStyle) : Decidable style.Flush :=
  decidable_of_iff (style.opener.head?.all (!isBlank ·) = true)
    (by simp [Flush, Option.all_eq_true])

theorem flush_of_solid (style : CommentStyle) (hsolid : style.opener.Solid) : style.Flush :=
  fun c hc => hsolid c (List.mem_of_mem_head? hc)

/-- What is left of a marked line when it is trimmed. -/
theorem trim_marked (style : CommentStyle) (hflush : style.Flush) (indent rest : Text)
    (hindent : indent.allBlank = true) :
    Text.trim (indent ++ style.marker ++ rest) = style.marker ++ Text.trimEnd rest := by
  have hstart : Text.trimStart (indent ++ (style.marker ++ rest)) = style.marker ++ rest := by
    rw [Text.trimStart, List.dropWhile_append_of_pos (List.all_eq_true.mp hindent), marker]
    cases hopener : style.opener with
    | nil => rfl
    | cons c opener =>
      have hc := hflush c (by simp [hopener])
      simp [hc]
  rw [Text.trim, List.append_assoc, hstart, marker]
  exact Text.trimEnd_append_solid style.opener "#DEFINE".toList rest (by decide) (by decide)

theorem words_marked (style : CommentStyle) (indent rest : Text)
    (hindent : indent.allBlank = true) (hrest : ∀ c ∈ rest.head?, isBlank c = true) :
    Text.words (indent ++ style.marker ++ rest) = style.marker.words ++ Text.words rest := by
  rw [List.append_assoc, Text.words_blank_append indent _ hindent, Text.words_append _ rest hrest]

theorem words_marker_of_solid (style : CommentStyle) (hsolid : style.opener.Solid) :
    style.marker.words = [style.marker] := by
  have hdefine : Text.Solid "#DEFINE".toList := by decide
  apply Text.words_of_solid
  · simp [marker]
  · intro c hc
    rcases List.mem_append.mp hc with hc | hc
    · exact hsolid c hc
    · exact hdefine c hc

/-- A blank in the opener cuts the marker into two words or more. -/
theorem words_marker_of_not_solid (style : CommentStyle) (hflush : style.Flush)
    (hblank : ¬style.opener.Solid) :
    ∃ first second more, style.marker.words = first :: second :: more := by
  simp only [Text.Solid, not_forall, Bool.not_eq_false] at hblank
  obtain ⟨b, hmem, hb⟩ := hblank
  obtain ⟨front, back, hopener⟩ := List.append_of_mem hmem
  have hmarker : style.marker = front ++ b :: (back ++ "#DEFINE".toList) := by
    rw [marker, hopener, List.append_assoc, List.cons_append]
  have hfirst : Text.words front ≠ [] := by
    cases front with
    | nil =>
      have hno := hflush b (by simp [hopener])
      rw [hb] at hno
      cases hno
    | cons c front =>
      exact Text.words_ne_nil _ c List.mem_cons_self (hflush c (by simp [hopener]))
  have hsecond : Text.words (back ++ "#DEFINE".toList) ≠ [] :=
    Text.words_ne_nil _ '#' (by simp) (by decide)
  rw [hmarker, Text.words_append_blank front _ b hb]
  obtain ⟨first, more, hfront⟩ := List.exists_cons_of_ne_nil hfirst
  obtain ⟨second, others, hback⟩ := List.exists_cons_of_ne_nil hsecond
  rw [hfront, hback]
  cases more with
  | nil => exact ⟨first, second, others, rfl⟩
  | cons w more => exact ⟨first, w, more ++ second :: others, rfl⟩

end CommentStyle

theorem toOption_eq_some_iff {ε α : Type} (e : Except ε α) (a : α) :
    e.toOption = some a ↔ e = .ok a := by
  cases e with
  | error f => simp [Except.toOption]
  | ok b => simp [Except.toOption]

/-- A declaration as it is written behind any opener. More text may follow it, behind a blank. -/
structure Spelling where
  indent : Text
  gap : Text
  signature : Text
  space : Text
  expansion : Text
  tail : Text
  indent_blank : indent.allBlank = true
  gap_ne_nil : gap ≠ []
  gap_blank : gap.allBlank = true
  signature_ne_nil : signature ≠ []
  signature_solid : signature.Solid
  space_ne_nil : space ≠ []
  space_blank : space.allBlank = true
  expansion_ne_nil : expansion ≠ []
  expansion_solid : expansion.Solid
  tail_apart : ∀ c ∈ tail.head?, isBlank c = true

namespace Spelling

def rest (w : Spelling) : Text := w.gap ++ w.signature ++ w.space ++ w.expansion ++ w.tail

def line (style : CommentStyle) (w : Spelling) : Text := w.indent ++ style.marker ++ w.rest

theorem rest_apart (w : Spelling) : ∀ c ∈ w.rest.head?, isBlank c = true := by
  intro c hc
  rw [rest, List.append_assoc, List.append_assoc, List.append_assoc,
    List.head?_append_of_ne_nil _ w.gap_ne_nil] at hc
  exact List.all_eq_true.mp w.gap_blank c (List.mem_of_mem_head? hc)

theorem words_rest (w : Spelling) :
    Text.words w.rest = w.signature :: w.expansion :: Text.words w.tail := by
  have hrest : w.rest = w.gap ++ (w.signature ++ (w.space ++ (w.expansion ++ w.tail))) := by
    simp [rest]
  have hspace : ∀ c ∈ (w.space ++ (w.expansion ++ w.tail)).head?, isBlank c = true := by
    intro c hc
    rw [List.head?_append_of_ne_nil _ w.space_ne_nil] at hc
    exact List.all_eq_true.mp w.space_blank c (List.mem_of_mem_head? hc)
  rw [hrest, Text.words_blank_append _ _ w.gap_blank, Text.words_append _ _ hspace,
    Text.words_blank_append _ _ w.space_blank, Text.words_append _ _ w.tail_apart,
    Text.words_of_solid _ w.signature_ne_nil w.signature_solid,
    Text.words_of_solid _ w.expansion_ne_nil w.expansion_solid]
  rfl

theorem words_line (style : CommentStyle) (w : Spelling) :
    (w.line style).trim.words =
      style.marker.words ++ w.signature :: w.expansion :: Text.words w.tail := by
  rw [Text.words_trim, line, style.words_marked w.indent w.rest w.indent_blank w.rest_apart,
    words_rest]

theorem marked_line (style : CommentStyle) (hflush : style.Flush) (w : Spelling) :
    ∃ c rest, isBlank c = true ∧ (w.line style).trim = style.marker ++ c :: rest := by
  obtain ⟨c, gap, hgap⟩ := List.exists_cons_of_ne_nil w.gap_ne_nil
  refine ⟨c, gap ++ w.signature ++ w.space ++ w.expansion ++ w.tail.trimEnd,
    List.all_eq_true.mp w.gap_blank c (by simp [hgap]), ?_⟩
  rw [line, style.trim_marked hflush w.indent w.rest w.indent_blank, rest,
    Text.trimEnd_append_solid _ _ w.tail w.expansion_ne_nil w.expansion_solid, hgap]
  simp

theorem declares_line (style : CommentStyle) (hflush : style.Flush) (w : Spelling) :
    Declares style (w.line style) := by
  refine ⟨w.marked_line style hflush, ?_⟩
  rw [words_line]
  have hmarker : 0 < style.marker.words.length := by
    apply List.length_pos_of_ne_nil
    exact Text.words_ne_nil _ '#' (by simp [CommentStyle.marker]) (by decide)
  simp only [List.length_append, List.length_cons]
  omega

/-- Behind a solid opener the line gives the macro that it was written for. -/
theorem gives_line_iff (style : CommentStyle) (hsolid : style.opener.Solid) (w : Spelling)
    (m : Macro) :
    Gives (w.line style) m ↔
      Signs w.signature m.name ∧ Definition.parse w.expansion = .ok m.definition := by
  rw [Gives, words_line, style.words_marker_of_solid hsolid]
  simp

theorem declaring_lines (style : CommentStyle) (hflush : style.Flush) (ws : List Spelling) :
    declaring style (ws.map (line style)) = ws.map (line style) := by
  rw [declaring, List.filter_eq_self]
  intro l hl
  obtain ⟨w, -, rfl⟩ := List.mem_map.mp hl
  exact decide_eq_true (w.declares_line style hflush)

/-- Behind a solid opener the table is that of the signatures and expansions alone. -/
theorem ofLines_eq_ok_iff (style : CommentStyle) (hsolid : style.opener.Solid) (file : Path)
    (ws : List Spelling) (table : MacroTable) :
    MacroTable.ofLines style file (ws.map (line style)) = .ok table ↔
      List.Forall₂ (fun w m => Signs w.signature m.name ∧
        Definition.parse w.expansion = .ok m.definition) ws table.macros ∧ table.names.Nodup := by
  rw [MacroTable.ofLines_eq_ok_iff, declaring_lines style (style.flush_of_solid hsolid),
    List.forall₂_map_left_iff]
  simp only [gives_line_iff style hsolid]

theorem toOption_ofLines (style style' : CommentStyle) (hsolid : style.opener.Solid)
    (hsolid' : style'.opener.Solid) (file : Path) (ws : List Spelling) :
    (MacroTable.ofLines style file (ws.map (line style))).toOption =
      (MacroTable.ofLines style' file (ws.map (line style'))).toOption := by
  ext table
  rw [toOption_eq_some_iff, toOption_eq_some_iff, ofLines_eq_ok_iff style hsolid,
    ofLines_eq_ok_iff style' hsolid']

end Spelling

theorem not_declares_of_short (style : CommentStyle) (hsolid : style.opener.Solid)
    (indent rest : Text) (hindent : indent.allBlank = true)
    (hshort : (Text.words rest).length < 2) :
    ¬Declares style (indent ++ style.marker ++ rest) := by
  rintro ⟨⟨c, r, hc, htrim⟩, hthree⟩
  rw [style.trim_marked (style.flush_of_solid hsolid) indent rest hindent] at htrim
  have hend : Text.trimEnd rest = c :: r := List.append_cancel_left htrim
  have hrest : ∀ d ∈ rest.head?, isBlank d = true := by
    intro d hd
    obtain ⟨t, ht⟩ : Text.trimEnd rest <+: rest := List.rdropWhile_prefix isBlank rest
    rw [← ht, hend] at hd
    obtain rfl : c = d := by simpa using hd
    exact hc
  rw [Text.words_trim, style.words_marked indent rest hindent hrest,
    style.words_marker_of_solid hsolid] at hthree
  simp only [List.length_append, List.length_singleton] at hthree
  omega

theorem ofLines_skip (style : CommentStyle) (file : Path) (before after : List Text) (line : Text)
    (h : ¬Declares style line) :
    MacroTable.ofLines style file (before ++ line :: after) =
      MacroTable.ofLines style file (before ++ after) := by
  have hnone : Declaration.read? style line = none := by
    rw [← Option.not_isSome_iff_eq_none, Declaration.isSome_read?_iff]
    exact h
  rw [MacroTable.ofLines, MacroTable.ofLines, List.filterMap_append, List.filterMap_append,
    List.filterMap_cons, hnone]

def Spelling.plain (signature : Text) (hne : signature ≠ []) (hsolid : signature.Solid) :
    Spelling where
  indent := []
  gap := [' ']
  signature := signature
  space := [' ']
  expansion := "f()".toList
  tail := []
  indent_blank := by decide
  gap_ne_nil := by simp
  gap_blank := by decide
  signature_ne_nil := hne
  signature_solid := hsolid
  space_ne_nil := by simp
  space_blank := by decide
  expansion_ne_nil := by decide
  expansion_solid := by decide
  tail_apart := by simp

/-- The tables behind the opener and behind the standard one have the same entries, or neither is
one. -/
def AgreesWithStandard (style : CommentStyle) (file : Path) : Prop :=
  ∀ ws : List Spelling,
    (MacroTable.ofLines style file (ws.map (Spelling.line style))).toOption =
      (MacroTable.ofLines .standard file (ws.map (Spelling.line .standard))).toOption

/-- Lines with fewer than two words behind the marker leave no trace in a table. -/
def SkipsShortLines (style : CommentStyle) (file : Path) : Prop :=
  ∀ (before after : List Text) (indent rest : Text), indent.allBlank = true →
    (Text.words rest).length < 2 →
    MacroTable.ofLines style file (before ++ (indent ++ style.marker ++ rest) :: after) =
      MacroTable.ofLines style file (before ++ after)

/-- The second word of the marker, if there is one, is taken for every signature. -/
theorem signs_of_agrees (style : CommentStyle) (hflush : style.Flush) (file : Path)
    (hagrees : AgreesWithStandard style file) (first second : Text) (more : List Text)
    (hmarker : style.marker.words = first :: second :: more) (signature name : Text)
    (hsolid : signature.Solid) (hsigns : Signs signature name) : Signs second name := by
  have hne : signature ≠ [] := by
    obtain ⟨-, parameters, rest, rfl, -⟩ := hsigns
    simp
  let w := Spelling.plain signature hne hsolid
  have hstandard : MacroTable.ofLines .standard file ([w].map (Spelling.line .standard)) =
      .ok ⟨[⟨name, ⟨"f".toList, []⟩⟩]⟩ := by
    rw [Spelling.ofLines_eq_ok_iff .standard (by decide)]
    exact ⟨.cons ⟨hsigns, rfl⟩ .nil, List.nodup_singleton name⟩
  have hsome := (hagrees [w]).trans ((toOption_eq_some_iff _ _).mpr hstandard)
  rw [toOption_eq_some_iff, MacroTable.ofLines_eq_ok_iff,
    Spelling.declaring_lines style hflush] at hsome
  obtain ⟨hgives, -⟩ := hsome
  obtain _ | ⟨hline, -⟩ := hgives
  obtain ⟨found, hfound, -, -, hfound', -⟩ := hline
  rw [Spelling.words_line, hmarker] at hfound
  obtain rfl := Option.some.inj hfound
  exact hfound'

theorem solid_of_agrees (style : CommentStyle) (hflush : style.Flush) (file : Path)
    (hagrees : AgreesWithStandard style file) : style.opener.Solid := by
  by_contra hblank
  obtain ⟨first, second, more, hmarker⟩ := style.words_marker_of_not_solid hflush hblank
  have hsigns := signs_of_agrees style hflush file hagrees first second more hmarker
  have ha := hsigns "a()".toList "a".toList (by decide) ((signatureName_eq_ok_iff _ _).mp rfl)
  have hb := hsigns "b()".toList "b".toList (by decide) ((signatureName_eq_ok_iff _ _).mp rfl)
  rw [← signatureName_eq_ok_iff] at ha hb
  have hsame := Except.ok.inj (ha.symm.trans hb)
  revert hsame
  decide

theorem solid_of_skips (style : CommentStyle) (hflush : style.Flush) (file : Path)
    (hskips : SkipsShortLines style file) : style.opener.Solid := by
  by_contra hblank
  obtain ⟨first, second, more, hmarker⟩ := style.words_marker_of_not_solid hflush hblank
  -- with the two words of the marker, one word more makes a declaration
  have hdeclares : Declares style ([] ++ style.marker ++ " x".toList) := by
    refine ⟨⟨' ', ['x'], by decide, ?_⟩, ?_⟩
    · rw [style.trim_marked hflush [] _ (by decide)]
      rfl
    · have hword : Text.words " x".toList = [['x']] := by decide
      have hapart : ∀ c ∈ (" x".toList).head?, isBlank c = true := by
        rintro c ⟨⟩
        decide
      rw [Text.words_trim, style.words_marked [] _ (by decide) hapart, hmarker, hword]
      simp
  have hskip := hskips [] [] [] " x".toList (by decide) (by decide)
  have hempty : MacroTable.ofLines style file ([] ++ []) = .ok .empty := rfl
  rw [hempty, List.nil_append, MacroTable.ofLines_eq_ok_iff] at hskip
  have hmem : [] ++ style.marker ++ " x".toList ∈
      declaring style [[] ++ style.marker ++ " x".toList] :=
    List.mem_filter.mpr ⟨List.mem_singleton_self _, decide_eq_true hdeclares⟩
  have hpos := List.length_pos_of_mem hmem
  rw [hskip.1.length_eq] at hpos
  cases hpos

/-- For an opener that does not begin with a blank: behind it the same declarations make the same
tables as behind the standard opener if and only if it holds no blank at all, and if and only if
that is so are lines with fewer than two words behind the marker skipped. -/
theorem tables_agree_iff_opener_solid (style : CommentStyle) (hflush : style.Flush) (file : Path) :
    (AgreesWithStandard style file ↔ style.opener.Solid) ∧
    (SkipsShortLines style file ↔ style.opener.Solid) := by
  refine ⟨⟨solid_of_agrees style hflush file, ?_⟩, solid_of_skips style hflush file, ?_⟩
  · intro hsolid ws
    exact Spelling.toOption_ofLines style .standard hsolid (by decide) file ws
  · intro hsolid before after indent rest hindent hshort
    exact ofLines_skip style file before after _
      (not_declares_of_short style hsolid indent rest hindent hshort)

theorem tables_agree_behind_dashes :
    CommentStyle.Flush ⟨"--".toList⟩ ∧
    ∀ file, AgreesWithStandard ⟨"--".toList⟩ file ∧ SkipsShortLines ⟨"--".toList⟩ file := by
  have hflush : CommentStyle.Flush ⟨"--".toList⟩ := by decide
  have hsolid : Text.Solid "--".toList := by decide
  refine ⟨hflush, fun file => ?_⟩
  obtain ⟨hagrees, hskips⟩ := tables_agree_iff_opener_solid ⟨"--".toList⟩ hflush file
  exact ⟨hagrees.mpr hsolid, hskips.mpr hsolid⟩

/-- Behind an opener that ends in a blank, `#DEFINE` itself is taken for the signature. -/
theorem blank_in_opener_hides_signature :
    MacroTable.ofLines ⟨"REM ".toList⟩ [97] ["REM #DEFINE LOG(m) doLog(m)".toList] =
      .error (.atDeclaration "REM #DEFINE LOG(m) doLog(m)".toList [97]
        (.badDefinition .noClosingInSignature)) ∧
    MacroTable.ofLines .standard [97] ["//#DEFINE LOG(m) doLog(m)".toList] =
      .ok ⟨[⟨"LOG".toList, ⟨"doLog".toList, ["m".toList]⟩⟩]⟩ ∧
    ¬AgreesWithStandard ⟨"REM ".toList⟩ [97] ∧ ¬SkipsShortLines ⟨"REM ".toList⟩ [97] := by
  have hflush : CommentStyle.Flush ⟨"REM ".toList⟩ := by decide
  have hblank : ¬Text.Solid "REM ".toList := by decide
  exact ⟨by decide +kernel, by decide +kernel, mt (solid_of_agrees _ hflush [97]) hblank,
    mt (solid_of_skips _ hflush [97]) hblank⟩

end CommentMacros
