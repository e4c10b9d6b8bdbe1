import CommentMacros.Proofs.Expansion

namespace CommentMacros

def Stands (name text : Text) : Prop :=
  ∃ before rest, text = before ++ name ++ rest ∧ Bounded before rest

structure Plain (name : Text) : Prop where
  ne_nil : name ≠ []
  word : ∀ c ∈ name, isWordChar c = true
  digit : ∀ c ∈ name, c.isDigit = false

instance (name : Text) : Decidable (Plain name) :=
  decidable_of_iff
    (name ≠ [] ∧ name.all isWordChar = true ∧ name.all (!Char.isDigit ·) = true)
    ⟨fun h => ⟨h.1, by simpa using h.2.1, by simpa using h.2.2⟩,
      fun h => ⟨h.ne_nil, by simpa using h.word, by simpa using h.digit⟩⟩

theorem Plain.not_mem {name : Text} (h : Plain name) {c : Char} (hc : isWordChar c = false) :
    c ∉ name := by
  intro hmem
  rw [h.word c hmem] at hc
  cases hc

theorem append_eq_append_cons {b x r u v : Text} {a : Char} (h : b ++ x ++ r = u ++ a :: v)
    (ha : a ∉ x) :
    (∃ r', u = b ++ x ++ r' ∧ r = r' ++ a :: v) ∨ ∃ b', v = b' ++ x ++ r ∧ b = u ++ a :: b' := by
  rcases List.append_eq_append_iff.mp h with ⟨w, rfl, rfl⟩ | ⟨w, hbx, hw⟩
  · exact Or.inl ⟨w, rfl, rfl⟩
  · cases w with
    | nil => exact Or.inl ⟨[], by simpa using hbx.symm, by simpa using hw.symm⟩
    | cons d w =>
      obtain ⟨rfl, rfl⟩ := List.cons.inj hw
      rcases List.append_eq_append_iff.mp hbx with ⟨z, -, rfl⟩ | ⟨z, rfl, hz⟩
      · simp at ha
      · cases z with
        | nil =>
          obtain rfl : a :: w = x := hz
          simp at ha
        | cons d z =>
          obtain ⟨rfl, rfl⟩ := List.cons.inj hz
          exact Or.inr ⟨z, rfl, rfl⟩

theorem Stands.of_append {x u v : Text} {a : Char} (h : Stands x (u ++ a :: v)) (ha : a ∉ x) :
    Stands x u ∨ Stands x v := by
  obtain ⟨b, r, hsplit, hbound⟩ := h
  rcases append_eq_append_cons hsplit.symm ha with ⟨r', rfl, rfl⟩ | ⟨b', rfl, rfl⟩
  · exact Or.inl ⟨b, r', rfl, hbound.of_append_right⟩
  · rw [List.append_cons] at hbound
    exact Or.inr ⟨b', r, rfl, hbound.of_append_left⟩

theorem Stands.append_left {x u v : Text} {a : Char} (h : Stands x v) (ha : isWordChar a = false) :
    Stands x (u ++ a :: v) := by
  obtain ⟨b, r, rfl, hbound⟩ := h
  exact ⟨u ++ a :: b, r, by simp, hbound.append_left ha⟩

theorem Stands.append_right {x u v : Text} {a : Char} (h : Stands x u)
    (ha : isWordChar a = false) : Stands x (u ++ a :: v) := by
  obtain ⟨b, r, rfl, hbound⟩ := h
  exact ⟨b, r ++ a :: v, by simp, hbound.append_right ha⟩

theorem Stands.occurs {x s : Text} (h : Stands x s) : x <:+: s := by
  obtain ⟨b, r, rfl, -⟩ := h
  exact ⟨b, r, rfl⟩

theorem stands_writeArguments (x : Text) (hx : Plain x) (args : List Text) :
    Stands x (writeArguments args) ↔ ∃ a ∈ args, Stands x a := by
  have hcomma : isWordChar ',' = false := by decide
  induction args with
  | nil =>
    constructor
    · rintro ⟨b, r, hnil, -⟩
      have hx' := hx.ne_nil
      simp [writeArguments, hx'] at hnil
    · simp
  | cons a args ih =>
    cases args with
    | nil => simp [writeArguments]
    | cons b args =>
      have hwrite : writeArguments (a :: b :: args) = a ++ ',' :: writeArguments (b :: args) := by
        rw [writeArguments, List.intercalate_cons_cons, List.append_assoc]
        rfl
      rw [hwrite, List.exists_mem_cons_iff]
      constructor
      · intro h
        rcases h.of_append (hx.not_mem hcomma) with h | h
        · exact Or.inl h
        · exact Or.inr (ih.mp h)
      · rintro (h | h)
        · exact h.append_right hcomma
        · exact (ih.mpr h).append_left hcomma

theorem stands_readArguments (x s a : Text) (hx : Plain x) (ha : a ∈ readArguments s)
    (h : Stands x a) : Stands x s := by
  have hwrite : writeArguments (readArguments s) = s := by
    unfold readArguments at ha ⊢
    split_ifs at ha ⊢ with hblank
    · simp at ha
    · exact List.intercalate_splitOn ','
  rw [← hwrite]
  exact (stands_writeArguments x hx _).mpr ⟨a, ha, h⟩

namespace Template

/-- What stands in a hole: digits, something quoted, or the token itself. -/
theorem value_cases (place : Place) (args : List Text) (n : Nat) (p : Hole) :
    (∃ k, value place args n p = Text.decimal k) ∨
    (∃ s, value place args n p = quoted s ∧ (s <:+: place.file.display ∨ s ∈ args)) ∨
    value place args n p = p.token := by
  cases p with
  | index => exact Or.inl ⟨n, rfl⟩
  | line => exact Or.inl ⟨place.line, rfl⟩
  | filePath => exact Or.inr (Or.inl ⟨_, rfl, Or.inl List.infix_rfl⟩)
  | file =>
    refine Or.inr (Or.inl ⟨_, rfl, Or.inl ?_⟩)
    cases hname : place.file.fileName? with
    | none => exact List.nil_infix
    | some name => exact Path.display_fileName place.file name hname
  | arg i =>
    rw [value]
    cases harg : args[i.val]? with
    | none => exact Or.inr (Or.inr rfl)
    | some a => exact Or.inr (Or.inl ⟨a, rfl, Or.inr (List.mem_of_getElem? harg)⟩)

theorem fill_char (place : Place) (args : List Text) (c : Char) (s : Text) (n : Nat)
    (h : Hole.leading? (c :: s) = none) :
    (fill place args (pieces (c :: s)) n).1 = c :: (fill place args (pieces s) n).1 := by
  rw [pieces_char c s h]
  rfl

theorem fill_token (place : Place) (args : List Text) (p : Hole) (s : Text) (n : Nat) :
    (fill place args (pieces (p.token ++ s)) n).1 =
      value place args n p ++ (fill place args (pieces s) (n + advance p)).1 := by
  rw [pieces_token p s]
  rfl

/-- Identifier characters other than digits at the front of a filled template are its own. -/
theorem prefix_fill (place : Place) (args : List Text) (t x : Text) (n : Nat)
    (hword : ∀ c ∈ x, isWordChar c = true) (hdigit : ∀ c ∈ x, c.isDigit = false)
    (h : x <+: (fill place args (pieces t) n).1) : x <+: t := by
  induction t using pieces_induction generalizing x n with
  | nil => exact h
  | char c s hlead ih =>
    rw [fill_char place args c s n hlead] at h
    cases x with
    | nil => exact List.nil_prefix
    | cons d x =>
      obtain ⟨rfl, htail⟩ := List.cons_prefix_cons.mp h
      exact List.cons_prefix_cons.mpr ⟨rfl, ih x n (fun c hc => hword c (List.mem_cons_of_mem d hc))
        (fun c hc => hdigit c (List.mem_cons_of_mem d hc)) htail⟩
  | token p s ih =>
    rw [fill_token place args p s n] at h
    cases x with
    | nil => exact List.nil_prefix
    | cons d x =>
      have hd := hword d List.mem_cons_self
      have hd' := hdigit d List.mem_cons_self
      rcases value_cases place args n p with ⟨k, hvalue⟩ | ⟨q, hvalue, -⟩ | hvalue
      · have hne : Text.decimal k ≠ [] := Nat.toDigits_ne_nil
        obtain ⟨e, es, he⟩ := List.exists_cons_of_ne_nil hne
        rw [hvalue, he, List.cons_append] at h
        obtain ⟨rfl, -⟩ := List.cons_prefix_cons.mp h
        rw [isDigit_of_mem_decimal k d (by simp [he])] at hd'
        cases hd'
      · rw [hvalue, quoted, List.cons_append, List.cons_append] at h
        obtain ⟨rfl, -⟩ := List.cons_prefix_cons.mp h
        exact absurd hd (by decide)
      · rw [hvalue] at h
        obtain ⟨r, hr⟩ := h
        rcases List.append_eq_append_iff.mp hr with ⟨w, htoken, -⟩ | ⟨w, htoken, hrest⟩
        · exact ⟨w ++ s, by rw [htoken, List.append_assoc]⟩
        · have hmem : ∀ c ∈ w, c ∈ d :: x := by
            intro c hc
            rw [htoken]
            exact List.mem_append_right _ hc
          have hw : w <+: s := ih w (n + advance p) (fun c hc => hword c (hmem c hc))
            (fun c hc => hdigit c (hmem c hc)) ⟨r, hrest.symm⟩
          rw [htoken]
          exact List.prefix_append_right_inj _ |>.mpr hw

/-- A plain name in a filled template stands in the template, in the path or in an argument. -/
theorem stands_fill (place : Place) (args : List Text) (t x : Text) (n : Nat) (hx : Plain x)
    (h : Stands x (fill place args (pieces t) n).1) :
    x <:+: t ∨ x <:+: place.file.display ∨ ∃ a ∈ args, Stands x a := by
  have hquote : '\'' ∉ x := hx.not_mem (by decide)
  induction t using pieces_induction generalizing n with
  | nil => exact Or.inl h.occurs
  | char c s hlead ih =>
    rw [fill_char place args c s n hlead] at h
    obtain ⟨b, r, hsplit, hbound⟩ := h
    cases b with
    | nil =>
      obtain ⟨d, y, rfl⟩ := List.exists_cons_of_ne_nil hx.ne_nil
      obtain ⟨rfl, htail⟩ := List.cons.inj hsplit
      have hy : y <+: s := prefix_fill place args s y n
        (fun e he => hx.word e (List.mem_cons_of_mem c he))
        (fun e he => hx.digit e (List.mem_cons_of_mem c he)) ⟨r, htail.symm⟩
      exact Or.inl (List.cons_prefix_cons.mpr ⟨rfl, hy⟩).isInfix
    | cons d b =>
      obtain ⟨rfl, htail⟩ := List.cons.inj hsplit
      have hrest := ih n ⟨b, r, htail, Bounded.of_append_left (u := [c]) hbound⟩
      exact hrest.imp_left fun hs => hs.trans (List.suffix_cons c s).isInfix
  | token p s ih =>
    rw [fill_token place args p s n] at h
    have hlater : Stands x (fill place args (pieces s) (n + advance p)).1 →
        x <:+: p.token ++ s ∨ x <:+: place.file.display ∨ ∃ a ∈ args, Stands x a :=
      fun hs => (ih _ hs).imp_left fun hs => hs.trans (List.suffix_append _ _).isInfix
    rcases value_cases place args n p with ⟨k, hvalue⟩ | ⟨q, hvalue, hq⟩ | hvalue
    · obtain ⟨b, r, hsplit, hbound⟩ := h
      rw [hvalue, List.append_assoc] at hsplit
      rcases List.append_eq_append_iff.mp hsplit with ⟨w, rfl, hrest⟩ | ⟨w, hdigits, hrest⟩
      · exact hlater ⟨w, r, by rw [hrest, List.append_assoc], hbound.of_append_left⟩
      · cases w with
        | nil => exact hlater ⟨[], r, hrest.symm, ⟨by simp, hbound.2⟩⟩
        | cons d w =>
          obtain ⟨e, y, rfl⟩ := List.exists_cons_of_ne_nil hx.ne_nil
          obtain ⟨rfl, -⟩ := List.cons.inj hrest
          have hno := hx.digit e List.mem_cons_self
          rw [isDigit_of_mem_decimal k e (by simp [hdigits])] at hno
          cases hno
    · have hcut : value place args n p ++ (fill place args (pieces s) (n + advance p)).1 =
          [] ++ '\'' :: (q ++ '\'' :: (fill place args (pieces s) (n + advance p)).1) := by
        rw [hvalue, quoted]
        simp
      rw [hcut] at h
      rcases h.of_append hquote with hnil | h
      · exact absurd (List.infix_nil.mp hnil.occurs) hx.ne_nil
      · rcases h.of_append hquote with hin | h
        · rcases hq with hq | hq
          · exact Or.inr (Or.inl (hin.occurs.trans hq))
          · exact Or.inr (Or.inr ⟨q, hq, hin⟩)
        · exact hlater h
    · obtain ⟨b, r, hsplit, hbound⟩ := h
      rw [hvalue, List.append_assoc] at hsplit
      rcases List.append_eq_append_iff.mp hsplit with ⟨w, rfl, hrest⟩ | ⟨w, htoken, hrest⟩
      · exact hlater ⟨w, r, by rw [hrest, List.append_assoc], hbound.of_append_left⟩
      · -- the name begins inside a token that was left as it is
        rcases List.append_eq_append_iff.mp hrest with ⟨v, rfl, -⟩ | ⟨v, rfl, htail⟩
        · exact Or.inl ⟨b, v ++ s, by rw [htoken]; simp⟩
        · have hv : v <+: s := prefix_fill place args s v (n + advance p)
            (fun e he => hx.word e (List.mem_append_right w he))
            (fun e he => hx.digit e (List.mem_append_right w he)) ⟨r, htail.symm⟩
          obtain ⟨z, rfl⟩ := hv
          exact Or.inl ⟨b, z, by rw [htoken]; simp⟩

theorem stands_fillAll (place : Place) (args : List Text) (ts : List Text) (x s : Text) (n : Nat)
    (hx : Plain x) (hs : s ∈ (fillAll place args ts n).1) (h : Stands x s) :
    (∃ t ∈ ts, x <:+: t) ∨ x <:+: place.file.display ∨ ∃ a ∈ args, Stands x a := by
  induction ts generalizing n with
  | nil => simp [fillAll] at hs
  | cons t ts ih =>
    rcases List.mem_cons.mp hs with rfl | hs
    · exact (stands_fill place args t x n hx h).imp_left fun ht => ⟨t, List.mem_cons_self, ht⟩
    · refine (ih _ hs).imp_left ?_
      rintro ⟨u, hu, hinfix⟩
      exact ⟨u, List.mem_cons_of_mem t hu, hinfix⟩

end Template

/-- No name of the table occurs in what its macros or the path bring into a line. -/
def Fresh (table : MacroTable) (file : Path) : Prop :=
  ∀ name ∈ table.names, ¬name <:+: file.display ∧
    ∀ m ∈ table.macros, ¬name <:+: m.definition.target ∧
      ∀ t ∈ m.definition.templates, ¬name <:+: t

def StandsAt (name line : Text) (i : Nat) : Prop :=
  name <+: line.drop i ∧ Bounded (line.take i) (line.drop (i + name.length))

/-- At most one place of the line holds one of the names alone. -/
def Single (names : List Text) (line : Text) : Prop :=
  ∀ x ∈ names, ∀ y ∈ names, ∀ i ≤ line.length, ∀ j ≤ line.length,
    StandsAt x line i → StandsAt y line j → i = j

instance (name line : Text) (i : Nat) : Decidable (StandsAt name line i) :=
  inferInstanceAs (Decidable (_ ∧ _))

instance (names : List Text) (line : Text) : Decidable (Single names line) :=
  inferInstanceAs (Decidable (∀ x ∈ names, ∀ y ∈ names, _))

instance (table : MacroTable) (file : Path) : Decidable (Fresh table file) :=
  inferInstanceAs (Decidable (∀ name ∈ table.names, _))

theorem standsAt_length (name before rest : Text) (h : Bounded before rest) :
    StandsAt name (before ++ name ++ rest) before.length := by
  refine ⟨?_, ?_⟩
  · rw [List.append_assoc, List.drop_left]
    exact List.prefix_append name rest
  · have htake : (before ++ name ++ rest).take before.length = before := by
      rw [List.append_assoc, List.take_left]
    have hdrop : (before ++ name ++ rest).drop (before.length + name.length) = rest := by
      rw [← List.length_append, List.drop_left]
    rw [htake, hdrop]
    exact h

theorem Single.length_eq {names : List Text} {line x y b r b' r' : Text} (h : Single names line)
    (hx : x ∈ names) (hy : y ∈ names) (hline : line = b ++ x ++ r) (hbound : Bounded b r)
    (hline' : line = b' ++ y ++ r') (hbound' : Bounded b' r') : b.length = b'.length := by
  have hle : b.length ≤ line.length := by
    rw [hline, List.append_assoc, List.length_append]
    omega
  have hle' : b'.length ≤ line.length := by
    rw [hline', List.append_assoc, List.length_append]
    omega
  refine h x hx y hy _ hle _ hle' ?_ ?_
  · rw [hline]
    exact standsAt_length x b r hbound
  · rw [hline']
    exact standsAt_length y b' r' hbound'

/-- A name before the target stood there before, and ends before the called name begins. -/
theorem stands_before_target {before target x b r : Text} (hx : Plain x)
    (hbefore : ∀ c ∈ before.getLast?, isWordChar c = false)
    (hsplit : before ++ target = b ++ x ++ r) (htarget : ¬x <:+: target) :
    ∃ c w, before = b ++ x ++ w ++ [c] ∧ r = w ++ c :: target := by
  rcases List.eq_nil_or_concat' before with rfl | ⟨init, c, rfl⟩
  · exact absurd ⟨b, r, hsplit.symm⟩ htarget
  · have hc : isWordChar c = false := hbefore c (by simp)
    rw [List.append_assoc, List.singleton_append] at hsplit
    rcases append_eq_append_cons hsplit.symm (hx.not_mem hc) with ⟨w, rfl, hr⟩ | ⟨b', hin, -⟩
    · exact ⟨c, w, rfl, hr⟩
    · exact absurd ⟨b', r, hin.symm⟩ htarget

/-- Replacing the only call of a line leaves no name in it. -/
theorem clean_of_applies (style : CommentStyle) (place : Place) (table : MacroTable)
    (hplain : ∀ name ∈ table.names, Plain name) (hfresh : Fresh table place.file) (m : Macro)
    (hm : m ∈ table.macros) (line line' : Text) (n n' : Nat)
    (happly : Applies style place m line n line' n') (hsingle : Single table.names line)
    (x : Text) (hmem : x ∈ table.names) : ¬Stands x line' := by
  obtain ⟨s, -, -, hbound, -, rfl, rfl, -⟩ := happly
  have hx := hplain x hmem
  have hopen : isWordChar '(' = false := by decide
  have hclose : isWordChar ')' = false := by decide
  obtain ⟨hpath, hmacros⟩ := hfresh x hmem
  obtain ⟨htarget, htemplates⟩ := hmacros m hm
  have hcalled : s.line m.name =
      s.before ++ m.name ++ (s.gap ++ '(' :: (s.list ++ ')' :: s.closing)) := rfl
  have honly : ∀ b r, s.line m.name = b ++ x ++ r → Bounded b r → b.length = s.before.length :=
    fun b r hline hb =>
      hsingle.length_eq hmem (List.mem_map_of_mem hm) hline hb hcalled hbound
  -- a name in the list or behind it would be a second place
  have hnotBehind : ¬Stands x (s.list ++ ')' :: s.closing) := by
    rintro ⟨b, r, hsplit, hb⟩
    have hlength := honly (s.before ++ m.name ++ s.gap ++ '(' :: b) r
      (by simp [Site.line, hsplit]) (hb.append_left hopen)
    simp only [List.length_append, List.length_cons] at hlength
    omega
  have hnotList : ¬Stands x s.list := fun h => hnotBehind (h.append_right hclose)
  have hnotClosing : ¬Stands x s.closing := fun h => hnotBehind (h.append_left hclose)
  have hnotWritten :
      ¬Stands x (writeArguments (s.arguments ++ (s.filled m.definition place n).1)) := by
    intro h
    obtain ⟨a, ha, hstands⟩ := (stands_writeArguments x hx _).mp h
    rcases List.mem_append.mp ha with ha | ha
    · exact hnotList (stands_readArguments x s.list a hx ha hstands)
    · rcases Template.stands_fillAll place s.arguments _ x a n hx ha hstands with
        ⟨t, ht, hin⟩ | hin | ⟨b, hb, hin⟩
      · exact htemplates t (List.mem_of_mem_drop ht) hin
      · exact hpath hin
      · exact hnotList (stands_readArguments x s.list b hx hb hin)
  rintro ⟨b, r, hsplit, hb⟩
  rcases append_eq_append_cons hsplit.symm (hx.not_mem hopen) with ⟨w, hfront, rfl⟩ | ⟨b', hin, rfl⟩
  · obtain ⟨c, v, hbefore, rfl⟩ := stands_before_target hx hbound.1 hfront htarget
    have hline : s.line m.name = b ++ x ++ (v ++ c :: (m.name ++
        (s.gap ++ '(' :: (s.list ++ ')' :: s.closing)))) := by
      simp [hcalled, hbefore]
    have hleft : Bounded b (v ++ [c]) := by
      rw [List.append_cons v c, List.append_assoc] at hb
      exact hb.of_append_right
    have hagain : Bounded b (v ++ c :: (m.name ++
        (s.gap ++ '(' :: (s.list ++ ')' :: s.closing)))) := by
      refine ⟨hleft.1, ?_⟩
      intro d hd
      apply hleft.2 d
      cases v with
      | nil => exact hd
      | cons e v => exact hd
    have hlength := honly b _ hline hagain
    rw [hbefore] at hlength
    simp only [List.length_append, List.length_cons, List.length_nil] at hlength
    omega
  · have hbound' : Bounded b' r := by
      rw [List.append_cons] at hb
      exact hb.of_append_left
    rcases Stands.of_append ⟨b', r, hin, hbound'⟩ (hx.not_mem hclose) with h | h
    · exact hnotWritten h
    · exact hnotClosing h

theorem find?_of_not_stands (style : CommentStyle) (name line : Text) (h : ¬Stands name line) :
    Occurrence.find? style name line = none := by
  cases hfind : Occurrence.find? style name line with
  | none => rfl
  | some offset =>
    obtain ⟨-, -, before, rest, hline, -, hbound⟩ :=
      Occurrence.find?_eq_some style name line offset hfind
    exact absurd ⟨before, rest, hline, hbound⟩ h

/-- One pass over a line with at most one call finishes it. -/
theorem absent_of_single (style : CommentStyle) (place : Place) (table : MacroTable)
    (hplain : ∀ name ∈ table.names, Plain name) (hfresh : Fresh table place.file)
    (line line' : Text) (n n' : Nat) (hit : Bool) (hsingle : Single table.names line)
    (h : expandLine style place table.macros line n = ⟨.ok (line', hit), n'⟩) :
    ∀ m ∈ table.macros, Occurrence.find? style m.name line' = none := by
  have hpass : ∀ ms, ms ⊆ table.macros → ∀ k,
      expandLine style place ms line k = ⟨.ok (line', hit), n'⟩ → hit = true →
      ∀ m ∈ table.macros, Occurrence.find? style m.name line' = none := by
    intro ms
    induction ms with
    | nil =>
      rintro - k hexpand rfl
      cases (Prod.mk.inj (Except.ok.inj (Counted.mk.inj hexpand).1)).2
    | cons d ms ih =>
      intro hsub k hexpand hhit
      obtain ⟨hd, hms⟩ := List.cons_subset.mp hsub
      rcases expandLine_cons style place d ms line line' k n' hit hexpand with
        ⟨-, hrest⟩ | ⟨mid, j, more, -, happly, hrest⟩
      · exact ih hms k hrest hhit
      · have hclean : ∀ m ∈ table.macros, Occurrence.find? style m.name mid = none := by
          intro m hm
          apply find?_of_not_stands
          exact clean_of_applies style place table hplain hfresh d hd line mid k j happly hsingle
            m.name (List.mem_map_of_mem hm)
        obtain ⟨-, rfl⟩ := unhit_of_absent style place ms mid line' j n' more
          (fun m hm => hclean m (hms hm)) hrest
        exact hclean
  cases hit with
  | false =>
    obtain ⟨rfl, -, habsent⟩ :=
      absent_of_expandLine style place table.macros line line' n n' h
    exact habsent
  | true => exact hpass table.macros (fun _ hm => hm) n h rfl

end CommentMacros
