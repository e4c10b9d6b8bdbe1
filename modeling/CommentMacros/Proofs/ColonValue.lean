import CommentMacros.Proofs.ColonArgument
import CommentMacros.Proofs.OptionValue

namespace CommentMacros

namespace Options

namespace Reader

variable (r : Reader)

theorem readArgument_letter (a : ColonArgument) :
    r.readArgument (Utf8.encode ['-', a.opt.letter]) = r.await a.opt := by
  cases a <;> rfl

section Apart

variable (a : ColonArgument) (rest : List Bytes)

theorem readAll_letter :
    r.readAll (Utf8.encode ['-', a.opt.letter] :: rest) =
      r.resolve.bind fun r => { r with pending := some (a.opt, none) }.readAll rest := by
  have hletter : Utf8.encode ['-', a.opt.letter] ≠ [0x2D, 0x2D] := by
    cases a <;> simp [ColonArgument.opt, Opt.letter, Utf8.encode, String.utf8EncodeChar]
  rw [readAll_cons r _ rest hletter, readArgument_letter, await]
  cases r.resolve <;> rfl

theorem readAll_text (h : a.IsText) (hdash : ¬Dashed a.value) :
    r.readAll (splitColon a.spelled ++ rest) =
      r.resolve.bind fun r => (r.hold a.opt a.value).readAll rest := by
  rw [a.splitColon_of_isText h, List.cons_append, List.cons_append, List.nil_append,
    readAll_letter]
  cases r.resolve with
  | error e => rfl
  | ok r' =>
    have hdashes : a.value ≠ [0x2D, 0x2D] := by
      intro heq
      rw [heq] at hdash
      exact hdash (by decide)
    change Reader.readAll _ (a.value :: rest) = _
    rw [readAll_cons _ _ rest hdashes, readArgument_value _ a.opt rfl a.value hdash]
    rfl

theorem readAll_dashed (h : a.IsText) (hdash : Dashed a.value) :
    ∃ e, r.readAll (splitColon a.spelled ++ rest) = .error e := by
  rw [a.splitColon_of_isText h, List.cons_append, List.cons_append, List.nil_append,
    readAll_letter]
  cases r.resolve with
  | error e => exact ⟨e, rfl⟩
  | ok r' =>
    change ∃ e, Reader.readAll _ (a.value :: rest) = .error e
    by_cases hdashes : a.value = [0x2D, 0x2D]
    · -- two dashes end the options, and the value is still missing
      rw [hdashes, readAll.eq_def]
      dsimp only
      rw [if_pos rfl]
      cases rest with
      | nil => exact ⟨_, rfl⟩
      | cons next rest => exact ⟨_, rfl⟩
    · obtain ⟨e, he⟩ := readArgument_dashed { r' with pending := some (a.opt, none) } a.opt rfl
        a.value hdash hdashes
      refine ⟨e, ?_⟩
      rw [readAll_cons _ _ rest hdashes, he]
      rfl

theorem readAll_bytes (h : ¬a.IsText) :
    r.readAll (splitColon a.spelled ++ rest) =
      r.resolve.bind fun r => (r.accept .dirs (0x3A :: a.value)).bind fun r => r.readAll rest := by
  have hspelled : a.spelled = 0x2D :: 0x64 :: 0x3A :: a.value := by
    rw [a.eq_dirs_of_not_isText h]
    rfl
  have hattach : r.readArgument a.spelled = r.attach .dirs (0x3A :: a.value) := by
    rw [hspelled]
    rfl
  rw [a.splitColon_of_not_isText h, List.singleton_append,
    readAll_cons r _ rest (by simp [hspelled]), hattach, attach]
  cases r.resolve <;> rfl

end Apart

def acceptAll : Reader → List ColonArgument → Except UsageError Reader
  | r, [] => .ok r
  | r, a :: items => (r.accept a.opt a.value).bind fun r => r.acceptAll items

/-- Reading arguments in the colon spelling gives the options what arrives of their values. -/
theorem readAll_colons (items : List ColonArgument) (h : ∀ a ∈ items, a.IsText → ¬Dashed a.value) :
    r.readAll (splitColons (items.map ColonArgument.spelled)) =
      r.resolve.bind fun r => r.acceptAll (items.map ColonArgument.arriving) := by
  induction items generalizing r with
  | nil =>
    change r.resolve = _
    cases r.resolve <;> rfl
  | cons a items ih =>
    obtain ⟨ha, hitems⟩ := List.forall_mem_cons.mp h
    rw [List.map_cons, List.map_cons, splitColons, List.flatMap_cons, ← splitColons]
    by_cases htext : a.IsText
    · have harriving : a.arriving = a := if_pos htext
      rw [readAll_text r a _ htext (ha htext), harriving]
      cases hresolve : r.resolve with
      | error e => rfl
      | ok r' =>
        have hhold := r'.resolve_hold a.opt a.value (r.pending_resolve r' hresolve)
        change (r'.hold a.opt a.value).readAll _ = _
        rw [ih _ hitems, hhold]
        rfl
    · have harriving : a.arriving = .dirs (0x3A :: a.value) := if_neg htext
      rw [readAll_bytes r a _ htext, harriving]
      cases hresolve : r.resolve with
      | error e => rfl
      | ok r' =>
        change (r'.accept .dirs (0x3A :: a.value)).bind _ =
          (r'.accept .dirs (0x3A :: a.value)).bind _
        cases haccept : r'.accept .dirs (0x3A :: a.value) with
        | error e => rfl
        | ok r'' =>
          have hnone : r''.pending = none :=
            (r'.pending_accept r'' _ _ haccept).trans (r.pending_resolve r' hresolve)
          change r''.readAll _ = r''.acceptAll _
          rw [ih _ hitems, r''.resolve_of_none hnone]
          rfl

/-- One value that looks like an option spoils the command line. -/
theorem readAll_colons_dashed (items : List ColonArgument)
    (h : ∃ a ∈ items, a.IsText ∧ Dashed a.value) :
    ∃ e, r.readAll (splitColons (items.map ColonArgument.spelled)) = .error e := by
  induction items generalizing r with
  | nil => simp at h
  | cons a items ih =>
    rw [List.map_cons, splitColons, List.flatMap_cons, ← splitColons]
    by_cases htext : a.IsText
    · by_cases hdash : Dashed a.value
      · exact readAll_dashed r a _ htext hdash
      · have hitems : ∃ b ∈ items, b.IsText ∧ Dashed b.value := by
          simpa [htext, hdash] using h
        rw [readAll_text r a _ htext hdash]
        cases r.resolve with
        | error e => exact ⟨e, rfl⟩
        | ok r' => exact ih (r'.hold a.opt a.value) hitems
    · have hitems : ∃ b ∈ items, b.IsText ∧ Dashed b.value := by
        simpa [htext] using h
      rw [readAll_bytes r a _ htext]
      cases r.resolve with
      | error e => exact ⟨e, rfl⟩
      | ok r' =>
        change ∃ e, (r'.accept .dirs (0x3A :: a.value)).bind _ = .error e
        cases r'.accept .dirs (0x3A :: a.value) with
        | error e => exact ⟨e, rfl⟩
        | ok r'' => exact ih r'' hitems

theorem eq_none_of_length_le_one (o : Option Text) (v : Text) (vs : List Text)
    (h : (o.toList ++ v :: vs).length ≤ 1) : o = none := by
  cases o with
  | none => rfl
  | some u => simp at h

/-- Directories add up; a mask and an opener are taken if there is one of each at most. -/
theorem acceptAll_eq (items : List ColonArgument)
    (hmask : (r.mask.toList ++ items.filterMap ColonArgument.mask?).length ≤ 1)
    (hopener : (r.opener.toList ++ items.filterMap ColonArgument.opener?).length ≤ 1)
    (hdirs : ∀ a ∈ items, [] ∉ a.pieces) :
    ∃ used, r.acceptAll items = .ok
      { r with
        dirs := r.dirs ++ items.flatMap ColonArgument.pieces
        mask := (r.mask.toList ++ items.filterMap ColonArgument.mask?).head?
        opener := (r.opener.toList ++ items.filterMap ColonArgument.opener?).head?
        used := used } := by
  induction items generalizing r with
  | nil =>
    refine ⟨r.used, ?_⟩
    simp only [acceptAll, List.flatMap_nil, List.filterMap_nil, List.append_nil,
      Option.head?_toList]
  | cons a items ih =>
    obtain ⟨ha, hitems⟩ := List.forall_mem_cons.mp hdirs
    cases a with
    | dirs v =>
      have haccept : r.accept .dirs v = .ok { r.use .dirs with dirs := r.dirs ++ v.splitOn 0x2C } :=
        if_neg ha
      obtain ⟨used, hall⟩ := ih { r.use .dirs with dirs := r.dirs ++ v.splitOn 0x2C } hmask hopener
        hitems
      refine ⟨used, ?_⟩
      change (r.accept .dirs v).bind _ = _
      rw [haccept]
      change Reader.acceptAll _ items = _
      rw [hall, List.flatMap_cons, List.append_assoc]
      rfl
    | mask v =>
      have hnone : r.mask = none := eq_none_of_length_le_one r.mask v _ hmask
      obtain ⟨used, hall⟩ := ih { r.use .mask with mask := some v }
        (by simpa [hnone, ColonArgument.mask?] using hmask) hopener hitems
      refine ⟨used, ?_⟩
      change (r.accept .mask (Utf8.encode v)).bind _ = _
      rw [r.accept_mask v hnone]
      change Reader.acceptAll _ items = _
      rw [hall, hnone]
      rfl
    | opener v =>
      have hnone : r.opener = none := eq_none_of_length_le_one r.opener v _ hopener
      obtain ⟨used, hall⟩ := ih { r.use .opener with opener := some v } hmask
        (by simpa [hnone, ColonArgument.opener?] using hopener) hitems
      refine ⟨used, ?_⟩
      change (r.accept .opener (Utf8.encode v)).bind _ = _
      rw [r.accept_opener v hnone]
      change Reader.acceptAll _ items = _
      rw [hall, hnone]
      rfl

end Reader

section Line

variable (program : Bytes) (items : List ColonArgument) (hline : ColonLine program items)

include hline

theorem parse_colons :
    parse (program :: items.map ColonArgument.spelled) =
      (Reader.start.readAll (splitColons (items.map ColonArgument.spelled))).map Reader.finish := by
  rw [parse, splitColons, List.flatMap_cons, splitColon_of_no_colon program hline.program,
    List.singleton_append, List.tail_cons, ← splitColons]

theorem parse_colons_dashed (h : ∃ a ∈ items, a.IsText ∧ Dashed a.value) :
    ∃ e, parse (program :: items.map ColonArgument.spelled) = .error e := by
  obtain ⟨e, he⟩ := Reader.start.readAll_colons_dashed items h
  refine ⟨e, ?_⟩
  rw [parse_colons program items hline, he]
  rfl

theorem parse_colons_arriving (h : ∀ a ∈ items, a.IsText → ¬Dashed a.value) :
    parse (program :: items.map ColonArgument.spelled) =
      .ok (verbatim (items.map ColonArgument.arriving)) := by
  have hdirs : ∀ a ∈ items.map ColonArgument.arriving, [] ∉ a.pieces := by
    intro b hb
    obtain ⟨a, ha, rfl⟩ := List.mem_map.mp hb
    exact a.nil_not_mem_pieces_arriving (hline.dirs a ha)
  have hmask := hline.mask
  have hopener := hline.opener
  rw [← ColonArgument.filterMap_mask?_arriving] at hmask
  rw [← ColonArgument.filterMap_opener?_arriving] at hopener
  obtain ⟨used, haccept⟩ := Reader.start.acceptAll_eq (items.map ColonArgument.arriving)
    hmask hopener hdirs
  have hstart : Reader.start.resolve = .ok Reader.start := rfl
  rw [parse_colons program items hline, Reader.start.readAll_colons items h, hstart]
  change (Reader.start.acceptAll _).map Reader.finish = _
  rw [haccept]
  rfl

end Line

/-- The values of a colon spelled command line arrive as they are if and only if all of them are
UTF-8 and none looks like an option. In general a value that looks like an option makes the command
line fail, and a value that is not UTF-8 arrives with its colon. -/
theorem colon_values_arrive_iff (program : Bytes) (items : List ColonArgument)
    (hline : ColonLine program items) :
    (parse (program :: items.map ColonArgument.spelled) = .ok (verbatim items) ↔
      ∀ a ∈ items, a.IsText ∧ ¬Dashed a.value) ∧
    ((∀ a ∈ items, a.IsText → ¬Dashed a.value) →
      parse (program :: items.map ColonArgument.spelled) =
        .ok (verbatim (items.map ColonArgument.arriving))) ∧
    ((∃ a ∈ items, a.IsText ∧ Dashed a.value) →
      ∃ e, parse (program :: items.map ColonArgument.spelled) = .error e) := by
  have harriving := parse_colons_arriving program items hline
  have hdashed := parse_colons_dashed program items hline
  refine ⟨⟨?_, ?_⟩, harriving, hdashed⟩
  · intro hparse
    have hplain : ∀ a ∈ items, a.IsText → ¬Dashed a.value := by
      intro a ha htext hdash
      obtain ⟨e, he⟩ := hdashed ⟨a, ha, htext, hdash⟩
      cases hparse.symm.trans he
    have hsame := Except.ok.inj ((harriving hplain).symm.trans hparse)
    have htext := ColonArgument.isText_of_flatMap_arriving items (congrArg Options.dirs hsame)
    exact fun a ha => ⟨htext a ha, hplain a ha (htext a ha)⟩
  · intro h
    have hkept : items.map ColonArgument.arriving = items.map id := by
      apply List.map_congr_left
      intro a ha
      exact if_pos (h a ha).1
    rw [harriving (fun a ha _ => (h a ha).2), hkept, List.map_id]

/-- Further colons, a dash alone, an empty mask, and dashes inside a list. -/
def plainColons : List ColonArgument :=
  [.dirs (Utf8.encode "a:b,-x".toList), .mask [], .opener ['-'], .dirs (Utf8.encode "é".toList)]

def byteColons : List ColonArgument := [.dirs [0xFF, 0x2C, 0x61], .mask "*.js".toList]

def dashedColons : List ColonArgument := [.dirs (Utf8.encode "src".toList), .opener "--".toList]

theorem colon_values_arrive_plain :
    parse (Utf8.encode Usage.program :: plainColons.map ColonArgument.spelled) =
      .ok ⟨[Utf8.encode "a:b".toList, Utf8.encode "-x".toList, Utf8.encode "é".toList], [], ['-'],
        false, false⟩ ∧
    parse (Utf8.encode Usage.program :: byteColons.map ColonArgument.spelled) =
      .ok ⟨[[0x3A, 0xFF], [0x61]], "*.js".toList, "//".toList, false, false⟩ ∧
    ∃ e, parse (Utf8.encode Usage.program :: dashedColons.map ColonArgument.spelled) =
      .error e := by
  have hplain := colon_values_arrive_iff (Utf8.encode Usage.program) plainColons
    ⟨by decide, by decide, by decide, by decide⟩
  have hbytes := colon_values_arrive_iff (Utf8.encode Usage.program) byteColons
    ⟨by decide, by decide, by decide, by decide⟩
  have hdashed := colon_values_arrive_iff (Utf8.encode Usage.program) dashedColons
    ⟨by decide, by decide, by decide, by decide⟩
  refine ⟨?_, ?_, hdashed.2.2 (by decide)⟩
  · rw [hplain.1.mpr (by decide)]
    decide
  · rw [hbytes.2.1 (by decide)]
    decide

/-- Two values that do not arrive: the first makes the command line fail, the second gains a
colon. -/
theorem colon_values_lost :
    ColonLine (Utf8.encode Usage.program) dashedColons ∧
    parse (Utf8.encode Usage.program :: dashedColons.map ColonArgument.spelled) =
      .error (.missingValue .opener) ∧
    ColonLine (Utf8.encode Usage.program) byteColons ∧
    parse (Utf8.encode Usage.program :: byteColons.map ColonArgument.spelled) ≠
      .ok (verbatim byteColons) := by
  refine ⟨⟨by decide, by decide, by decide, by decide⟩, by decide,
    ⟨by decide, by decide, by decide, by decide⟩, by decide⟩

end Options

end CommentMacros
