import CommentMacros.Proofs.ReplacedCall

namespace CommentMacros

namespace Definition

theorem exists_parse_iff (s : Text) :
    (∃ d, parse s = .ok d) ↔
      ∃ target rest, s = target ++ '(' :: rest ∧ '(' ∉ target ∧ target ≠ [] ∧ ')' ∈ rest := by
  constructor
  · rintro ⟨d, h⟩
    obtain ⟨hne, list, rest, ⟨hs, htarget, -⟩, -⟩ := (parse_eq_ok_iff s d).mp h
    exact ⟨d.target, list ++ ')' :: rest, hs, htarget, hne, by simp⟩
  · rintro ⟨target, rest, rfl, htarget, hne, hclose⟩
    cases hcut : cutLast ')' rest with
    | none => exact absurd hclose (cutLast_eq_none_iff.mp hcut)
    | some parts =>
      obtain ⟨list, more⟩ := parts
      obtain ⟨rfl, hmore⟩ := cutLast_eq_some hcut
      have hwritten : Written (target ++ '(' :: (list ++ ')' :: more)) target list more :=
        ⟨rfl, htarget, hmore⟩
      exact ⟨⟨target, readArguments list⟩,
        (parse_eq_ok_iff _ _).mpr ⟨hne, list, more, hwritten, rfl⟩⟩

/-- The list of a definition is written in one place of the text only. -/
theorem Written.unique {s target list rest target' list' rest' : Text}
    (h : Written s target list rest) (h' : Written s target' list' rest') :
    target = target' ∧ list = list' ∧ rest = rest' := by
  obtain ⟨hs, htarget, hrest⟩ := h
  obtain ⟨hs', htarget', hrest'⟩ := h'
  have hfirst := cutFirst_append htarget (list ++ ')' :: rest)
  rw [← hs, hs', cutFirst_append htarget'] at hfirst
  obtain ⟨rfl, htail⟩ := Prod.mk.inj (Option.some.inj hfirst)
  have hlast := cutLast_append hrest list
  rw [← htail, cutLast_append hrest'] at hlast
  obtain ⟨rfl, rfl⟩ := Prod.mk.inj (Option.some.inj hlast)
  exact ⟨rfl, rfl, rfl⟩

theorem written_print (d : Definition) (h : '(' ∉ d.target) :
    Written d.print d.target (writeArguments d.templates) [] :=
  ⟨by rw [print, List.append_assoc]; rfl, h, List.not_mem_nil⟩

theorem parse_print (d : Definition) (s : Text) (h : parse s = .ok d) : parse d.print = .ok d := by
  obtain ⟨hne, list, rest, ⟨-, htarget, -⟩, -⟩ := (parse_eq_ok_iff s d).mp h
  have hread : d.templates = readArguments (writeArguments d.templates) :=
    (readArguments_writeArguments d.templates (d.templates_separable s h)).symm
  apply (parse_eq_ok_iff d.print d).mpr
  exact ⟨hne, writeArguments d.templates, [], d.written_print htarget, hread⟩

/-- A definition is printed as it was written, up to its last parenthesis. -/
theorem print_eq (d : Definition) (s target list rest : Text) (h : parse s = .ok d)
    (hwritten : Written s target list rest) :
    d.print = target ++ '(' :: ((if list.allBlank then [] else list) ++ [')']) := by
  obtain ⟨-, list', rest', hwritten', htemplates⟩ := (parse_eq_ok_iff s d).mp h
  obtain ⟨rfl, rfl, rfl⟩ := hwritten.unique hwritten'
  rw [print, htemplates, writeArguments_readArguments, List.append_assoc]
  rfl

end Definition

/-- A text is a definition exactly if something stands before its first `(` and a `)` comes behind
that. The definition is printed so that it is read back, and if its list is not blank, as the text
up to the last `)`. The templates are then the pieces between the commas. -/
theorem definition_parse_print_inverse (s : Text) :
    ((∃ d, Definition.parse s = .ok d) ↔
      ∃ target rest, s = target ++ '(' :: rest ∧ '(' ∉ target ∧ target ≠ [] ∧ ')' ∈ rest) ∧
    (∀ d, Definition.parse s = .ok d → Definition.parse d.print = .ok d) ∧
    ∀ d target list rest, Definition.parse s = .ok d →
      Definition.Written s target list rest → list.allBlank = false →
      s = d.print ++ rest ∧ d.templates = list.splitOn ',' ∧ (∀ t ∈ d.templates, ',' ∉ t) ∧
        [','].intercalate d.templates = list ∧ d.arity = list.count ',' + 1 := by
  refine ⟨Definition.exists_parse_iff s, fun d h => d.parse_print s h, ?_⟩
  intro d target list rest h hwritten hvisible
  have hprint := d.print_eq s target list rest h hwritten
  rw [hvisible] at hprint
  obtain ⟨-, list', rest', hwritten', htemplates⟩ := (Definition.parse_eq_ok_iff s d).mp h
  obtain ⟨rfl, rfl, rfl⟩ := hwritten.unique hwritten'
  have hsplit : d.templates = list.splitOn ',' := by
    rw [htemplates, readArguments, hvisible]
    rfl
  refine ⟨?_, hsplit, (d.templates_separable s h).comma, ?_, ?_⟩
  · rw [hprint, hwritten.1]
    simp
  · rw [hsplit]
    exact List.intercalate_splitOn ','
  · rw [Definition.arity, hsplit]
    exact length_splitOn ',' list

/-- A name with a parenthesis in it, a template with a list of its own, an empty one, and a text
that is left out. -/
theorem definition_parse_print_nested :
    Definition.parse "a)b( x ,f(y),);z".toList =
      .ok ⟨"a)b".toList, [" x ".toList, "f(y)".toList, []]⟩ ∧
    Definition.parse "a)b( x ,f(y),)".toList =
      .ok ⟨"a)b".toList, [" x ".toList, "f(y)".toList, []]⟩ ∧
    "a)b( x ,f(y),);z".toList =
      Definition.print ⟨"a)b".toList, [" x ".toList, "f(y)".toList, []]⟩ ++ ";z".toList := by
  have hparse : Definition.parse "a)b( x ,f(y),);z".toList =
      .ok ⟨"a)b".toList, [" x ".toList, "f(y)".toList, []]⟩ := by
    decide +kernel
  have hwritten : Definition.Written "a)b( x ,f(y),);z".toList "a)b".toList " x ,f(y),".toList
      ";z".toList := by
    exact ⟨by decide, by decide, by decide⟩
  obtain ⟨-, hback, hprint⟩ := definition_parse_print_inverse "a)b( x ,f(y),);z".toList
  exact ⟨hparse, hback _ hparse, (hprint _ _ _ _ hparse hwritten (by decide)).1⟩

end CommentMacros
