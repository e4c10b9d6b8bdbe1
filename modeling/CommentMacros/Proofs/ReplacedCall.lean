import CommentMacros.Proofs.SingleCall
import CommentMacros.Proofs.Skeleton

namespace CommentMacros

/-- The arguments can be told apart in the list that they are written into. A blank list would be
read as no argument at all. -/
structure Separable (args : List Text) : Prop where
  comma : ∀ a ∈ args, ',' ∉ a
  visible : ∀ a, args = [a] → a.allBlank = false

theorem writeArguments_readArguments (s : Text) :
    writeArguments (readArguments s) = if s.allBlank then [] else s := by
  unfold readArguments
  split_ifs with hblank
  · rfl
  · exact List.intercalate_splitOn ','

theorem readArguments_separable (s : Text) : Separable (readArguments s) := by
  have hwrite := writeArguments_readArguments s
  unfold readArguments at hwrite ⊢
  split_ifs at hwrite ⊢ with hblank
  · exact ⟨by simp, by simp⟩
  · refine ⟨?_, ?_⟩
    · intro a ha hmem
      rw [List.splitOn_eq_splitOnP] at ha
      have hcomma := (mem_splitOnP _ s a ',' ha hmem).2
      revert hcomma
      decide
    · intro a ha
      rw [ha] at hwrite
      have hs : a = s := by simpa [writeArguments] using hwrite
      rw [hs]
      simpa using hblank

theorem readArguments_writeArguments (args : List Text) (h : Separable args) :
    readArguments (writeArguments args) = args := by
  cases args with
  | nil => rfl
  | cons a args =>
    have hvisible : (writeArguments (a :: args)).allBlank = false := by
      cases args with
      | nil =>
        have ha := h.visible a rfl
        simpa [writeArguments] using ha
      | cons b args =>
        rw [writeArguments, List.intercalate_cons_cons, Text.allBlank]
        have hcomma : isBlank ',' = false := by decide
        simp [hcomma]
    rw [readArguments, hvisible]
    exact List.splitOn_intercalate ',' h.comma (List.cons_ne_nil a args)

theorem Definition.templates_separable (expr : Text) (d : Definition)
    (h : Definition.parse expr = .ok d) : Separable d.templates := by
  obtain ⟨list, -, -, -, -, htemplates⟩ := Definition.parse_shape expr d h
  rw [htemplates]
  exact readArguments_separable list

namespace Template

theorem visible_value (place : Place) (args : List Text) (n : Nat) (p : Hole) :
    (value place args n p).allBlank = false := by
  rcases value_cases place args n p with ⟨k, hk⟩ | ⟨s, hs, -⟩ | htoken
  · obtain ⟨c, cs, hdecimal, hdigit⟩ := Skeleton.exists_digit k
    rw [hk, hdecimal, Text.allBlank, List.all_cons, isBlank_of_isDigit c hdigit, Bool.false_and]
  · rw [hs]
    rfl
  · rw [htoken]
    have hall : ∀ q ∈ Hole.all, Text.allBlank q.token = false := by decide
    exact hall p (Hole.mem_all p)

/-- Filling does not make a template vanish. -/
theorem visible_fill (place : Place) (args : List Text) (t : Text) (n : Nat)
    (h : t.allBlank = false) : (fill place args (pieces t) n).1.allBlank = false := by
  induction t using pieces_induction generalizing n with
  | nil => cases h
  | char c s hlead ih =>
    rw [fill_char place args c s n hlead]
    rw [Text.allBlank, List.all_cons] at h ⊢
    cases hc : isBlank c with
    | false => rfl
    | true =>
      rw [hc, Bool.true_and] at h
      exact ih n h
  | token p s ih =>
    rw [fill_token, Text.allBlank, List.all_append]
    have hvalue : (value place args n p).all isBlank = false := visible_value place args n p
    rw [hvalue, Bool.false_and]

theorem length_fillAll (place : Place) (args : List Text) (ts : List Text) (n : Nat) :
    (fillAll place args ts n).1.length = ts.length := by
  induction ts generalizing n with
  | nil => rfl
  | cons t ts ih => exact congrArg (· + 1) (ih _)

end Template

namespace Site

variable (s : Site) (d : Definition) (place : Place) (n : Nat)

/-- The arguments of the new call: those of the old one, then the slots that it left open. -/
def slots : List Text := s.arguments ++ (s.filled d place n).1

theorem length_slots (harity : s.arguments.length ≤ d.arity) :
    (s.slots d place n).length = d.arity := by
  have hfilled : (s.filled d place n).1.length = d.templates.length - s.arguments.length := by
    rw [filled, Template.length_fillAll, List.length_drop]
  rw [Definition.arity] at harity ⊢
  rw [slots, List.length_append, hfilled]
  omega

theorem slots_separable (hd : Separable d.templates) (hpath : ',' ∉ place.file.display) :
    Separable (s.slots d place n) := by
  have hargs : Separable s.arguments := readArguments_separable s.list
  have hadmits : Template.Admits (· ≠ ',') place s.arguments :=
    Template.admits_ne ',' place s.arguments (by decide) (by decide) (by decide) hpath hargs.comma
  refine ⟨?_, ?_⟩
  · intro a ha hmem
    rcases List.mem_append.mp ha with ha | ha
    · exact hargs.comma a ha hmem
    · refine hadmits.fillAll _ n ?_ a ha ',' hmem rfl
      rintro t ht c hc rfl
      exact hd.comma t (List.mem_of_mem_drop ht) hc
  · intro a ha
    rcases List.append_eq_singleton_iff.mp ha with ⟨hnone, hone⟩ | ⟨hone, -⟩
    · -- the only slot is filled, and its template is not blank
      rw [filled, hnone, List.length_nil, List.drop_zero] at hone
      cases htemplates : d.templates with
      | nil =>
        rw [htemplates] at hone
        cases hone
      | cons t ts =>
        have hlength := congrArg List.length hone
        rw [Template.length_fillAll, htemplates] at hlength
        obtain rfl : ts = [] := List.eq_nil_of_length_eq_zero (Nat.succ.inj hlength)
        rw [htemplates] at hone
        obtain ⟨rfl, -⟩ := List.cons.inj hone
        exact Template.visible_fill place [] t n (hd.visible t htemplates)
    · exact hargs.visible a hone

def saturated : Site := ⟨s.before, [], writeArguments (s.slots d place n), s.closing⟩

theorem line_saturated : (s.saturated d place n).line d.target = s.replaced d place n := rfl

theorem saturated_sharp (hs : s.Sharp) : (s.saturated d place n).Sharp :=
  ⟨List.not_mem_nil, hs.closing⟩

theorem arguments_saturated (h : Separable (s.slots d place n)) :
    (s.saturated d place n).arguments = s.slots d place n :=
  readArguments_writeArguments _ h

/-- A call that leaves no slot open is replaced by itself. -/
theorem replaced_of_saturated (harity : s.arguments.length = d.arity)
    (hwrite : writeArguments s.arguments = s.list) (hgap : s.gap = []) :
    s.replaced d place n = s.line d.target ∧ (s.filled d place n).2 = n := by
  have hopen : d.templates.drop s.arguments.length = [] := by
    rw [harity]
    exact List.drop_length
  rw [replaced, filled, hopen, line, hgap]
  rw [Template.fillAll, List.append_nil, hwrite]
  exact ⟨rfl, rfl⟩

end Site

/-- After a call is replaced, the name of the target is called at the same place, with the same
text before and behind it and an argument for every slot, first of all the old arguments. Replacing
that call by the same definition changes nothing. -/
theorem replaced_call_is_saturated (style : CommentStyle) (name line expr : Text) (offset : Nat)
    (d : Definition) (place : Place) (n : Nat) (out : Text) (n' : Nat)
    (hfind : Occurrence.find? style name line = some offset)
    (hparse : Definition.parse expr = .ok d) (hpath : ',' ∉ place.file.display)
    (hreplace : Call.replaceAt line offset name d place n = .ok (out, n')) :
    ∃ call again, Call.parseAt line offset name = .ok call ∧
      Call.parseAt out offset d.target = .ok again ∧
      again.before = call.before ∧ again.closing = call.closing ∧
      again.arguments.length = d.arity ∧ call.arguments <+: again.arguments ∧
      ∀ place' k, Call.replaceAt out offset d.target d place' k = .ok (out, k) := by
  obtain ⟨s, hs, rfl, rfl, -, harity, rfl, -⟩ :=
    Call.replaceAt_eq_ok style name line offset d place n out n' hfind hreplace
  have hseparable := s.slots_separable d place n (d.templates_separable expr hparse) hpath
  have harguments := s.arguments_saturated d place n hseparable
  have hlength := s.length_slots d place n harity
  have hsharp := s.saturated_sharp d place n hs
  rw [← s.line_saturated d place n]
  refine ⟨_, _, Call.parseAt_line s hs name,
    Call.parseAt_line (s.saturated d place n) hsharp d.target, rfl, rfl, ?_, ?_, ?_⟩
  · rw [harguments]
    exact hlength
  · rw [harguments]
    exact List.prefix_append _ _
  · -- no slot is open, so neither the place nor the counter matters
    intro place' k
    have hagain := Call.replaceAt_line (s.saturated d place n) hsharp d.target d place' k
    rw [harguments, hlength, if_neg (Nat.lt_irrefl _)] at hagain
    obtain ⟨hsame, hcounter⟩ := (s.saturated d place n).replaced_of_saturated d place' k
      (by rw [harguments]; exact hlength) (by rw [harguments]; rfl) rfl
    rw [hsame, hcounter] at hagain
    exact hagain

theorem replaced_call_is_saturated_once :
    Occurrence.find? .standard "LOG".toList "if (é) LOG (f(x) ); // ü".toList = some 8 ∧
    Definition.parse "doLog(m, __INDEX__,__ARG0__)".toList =
      .ok ⟨"doLog".toList, ["m".toList, " __INDEX__".toList, "__ARG0__".toList]⟩ ∧
    Call.replaceAt "if (é) LOG (f(x) ); // ü".toList 8 "LOG".toList
      ⟨"doLog".toList, ["m".toList, " __INDEX__".toList, "__ARG0__".toList]⟩ ⟨3, [97]⟩ 7 =
      .ok ("if (é) doLog(f(x) , 7,'f(x) '); // ü".toList, 8) ∧
    ∃ again, Call.parseAt "if (é) doLog(f(x) , 7,'f(x) '); // ü".toList 8 "doLog".toList =
        .ok again ∧ again.arguments.length = 3 ∧
      ∀ place k, Call.replaceAt "if (é) doLog(f(x) , 7,'f(x) '); // ü".toList 8 "doLog".toList
        ⟨"doLog".toList, ["m".toList, " __INDEX__".toList, "__ARG0__".toList]⟩ place k =
        .ok ("if (é) doLog(f(x) , 7,'f(x) '); // ü".toList, k) := by
  have hfind : Occurrence.find? .standard "LOG".toList "if (é) LOG (f(x) ); // ü".toList =
      some 8 := by
    decide +kernel
  have hparse : Definition.parse "doLog(m, __INDEX__,__ARG0__)".toList =
      .ok ⟨"doLog".toList, ["m".toList, " __INDEX__".toList, "__ARG0__".toList]⟩ := by
    decide +kernel
  have hreplace : Call.replaceAt "if (é) LOG (f(x) ); // ü".toList 8 "LOG".toList
      ⟨"doLog".toList, ["m".toList, " __INDEX__".toList, "__ARG0__".toList]⟩ ⟨3, [97]⟩ 7 =
      .ok ("if (é) doLog(f(x) , 7,'f(x) '); // ü".toList, 8) := by
    decide +kernel
  obtain ⟨-, again, -, hagain, -, -, hlength, -, hsame⟩ :=
    replaced_call_is_saturated .standard _ _ _ 8 _ ⟨3, [97]⟩ 7 _ 8 hfind hparse
      (by decide +kernel) hreplace
  exact ⟨hfind, hparse, hreplace, again, hagain, hlength, hsame⟩

/-- The text between a name and the parenthesis that is taken to open its list. -/
def Call.gap? (line : Text) (offset : Nat) (name : Text) : Option Text :=
  (line.cutAt? (offset + name.byteLength)).bind fun parts => (cutFirst '(' parts.2).map (·.1)

theorem Call.gap?_line (s : Site) (hs : s.Sharp) (name : Text) :
    Call.gap? (s.line name) s.before.byteLength name = some s.gap := by
  have hname : (s.line name).cutAt? (s.before.byteLength + name.byteLength) =
      some (s.before ++ name, s.gap ++ '(' :: (s.list ++ ')' :: s.closing)) :=
    Text.cutAt?_behind _ _ _
  rw [gap?, hname, Option.bind_some, cutFirst_append hs.gap]
  rfl

theorem Text.allBlank_iff_opens (gap rest : Text) (h : '(' ∉ gap) :
    gap.allBlank = true ↔ (Text.trimStart (gap ++ '(' :: rest)).head? = some '(' := by
  have hopen : isBlank '(' = false := by decide
  induction gap with
  | nil => simp [Text.allBlank, Text.trimStart, hopen]
  | cons c gap ih =>
    rw [List.mem_cons, not_or] at h
    cases hc : isBlank c with
    | false =>
      have hne : c ≠ '(' := Ne.symm h.1
      simp [Text.allBlank, Text.trimStart, hc, hne]
    | true =>
      have hrest := ih h.2
      simpa [Text.allBlank, Text.trimStart, hc] using hrest

theorem writeArguments_prefix (args more : List Text) :
    writeArguments args <+: writeArguments (args ++ more) := by
  induction args with
  | nil => exact List.nil_prefix
  | cons a args ih =>
    cases args with
    | nil =>
      cases more with
      | nil => exact List.prefix_rfl
      | cons b more =>
        rw [List.singleton_append, writeArguments, writeArguments, List.intercalate_cons_cons,
          List.intercalate_singleton, List.append_assoc]
        exact List.prefix_append _ _
    | cons b args =>
      simp only [writeArguments, List.cons_append, List.intercalate_cons_cons] at ih ⊢
      exact (List.prefix_append_right_inj _).mpr ih

/-- The list of a call as it is written again: a blank one is left out. -/
def Site.rewritten (s : Site) : Text := if s.list.allBlank then [] else s.list

theorem Site.replaced_eq (s : Site) (d : Definition) (place : Place) (n : Nat) :
    ∃ added, s.replaced d place n =
      s.before ++ d.target ++ ('(' :: (s.rewritten ++ added ++ ')' :: s.closing)) := by
  have hlist : writeArguments s.arguments = s.rewritten := writeArguments_readArguments s.list
  obtain ⟨added, hadded⟩ := writeArguments_prefix s.arguments (s.filled d place n).1
  refine ⟨added, ?_⟩
  rw [replaced, ← hadded, hlist]

def Text.solidPart (s : Text) : Text := s.filter fun c => !isBlank c

theorem Site.solidPart_list (s : Site) : (Text.solidPart s.list).Sublist s.rewritten := by
  rw [rewritten]
  split_ifs with hblank
  · rw [Text.allBlank, List.all_eq_true] at hblank
    have hnone : Text.solidPart s.list = [] := by
      apply List.filter_eq_nil_iff.mpr
      intro c hc
      rw [hblank c hc]
      decide
    rw [hnone]
  · exact List.filter_sublist

/-- Whatever is added to the list, the rest of the line keeps its order. -/
theorem Site.solidPart_rest (s : Site) (target added : Text) :
    (Text.solidPart (s.before ++ ('(' :: (s.list ++ ')' :: s.closing)))).Sublist
      (s.before ++ target ++ ('(' :: (s.rewritten ++ added ++ ')' :: s.closing))) := by
  have hsplit : Text.solidPart (s.before ++ ('(' :: (s.list ++ ')' :: s.closing))) =
      Text.solidPart s.before ++
        ('(' :: (Text.solidPart s.list ++ Text.solidPart (')' :: s.closing))) := by
    have hopen : isBlank '(' = false := by decide
    simp [Text.solidPart, hopen]
  have hbefore : (Text.solidPart s.before).Sublist (s.before ++ target) :=
    List.filter_sublist.trans (List.sublist_append_left _ _)
  have hlist : (Text.solidPart s.list).Sublist (s.rewritten ++ added) :=
    s.solidPart_list.trans (List.sublist_append_left _ _)
  have hclosing : (Text.solidPart (')' :: s.closing)).Sublist (')' :: s.closing) :=
    List.filter_sublist
  rw [hsplit]
  exact hbefore.append ((hlist.append hclosing).cons_cons '(')

/-- When a call is replaced, the line loses the name and what stands between the name and the
parenthesis that opens the list. All else that is not blank is kept in its order. So the name alone
is lost exactly if the parenthesis comes next to it, blanks apart. -/
theorem replaced_line_loses_name_and_gap (style : CommentStyle) (name line : Text) (offset : Nat)
    (d : Definition) (place : Place) (n : Nat) (out : Text) (n' : Nat)
    (hfind : Occurrence.find? style name line = some offset)
    (hreplace : Call.replaceAt line offset name d place n = .ok (out, n')) :
    ∃ before gap list closing added : Text,
      line = before ++ name ++ (gap ++ '(' :: (list ++ ')' :: closing)) ∧
      offset = Text.byteLength before ∧ Call.gap? line offset name = some gap ∧
      out = before ++ d.target ++
        ('(' :: ((if list.allBlank then [] else list) ++ added ++ ')' :: closing)) ∧
      (Text.solidPart (before ++ ('(' :: (list ++ ')' :: closing)))).Sublist out ∧
      (gap.allBlank = true ↔
        (Text.trimStart (gap ++ '(' :: (list ++ ')' :: closing))).head? = some '(') := by
  obtain ⟨s, hs, rfl, rfl, -, -, rfl, -⟩ :=
    Call.replaceAt_eq_ok style name line offset d place n out n' hfind hreplace
  obtain ⟨added, hout⟩ := s.replaced_eq d place n
  refine ⟨s.before, s.gap, s.list, s.closing, added, rfl, rfl, Call.gap?_line s hs name, hout, ?_,
    Text.allBlank_iff_opens s.gap _ hs.gap⟩
  rw [hout]
  exact s.solidPart_rest d.target added

theorem replaced_line_loses_blank_gap :
    Occurrence.find? .standard "LOG".toList "é = LOG  (y); // LOG".toList = some 5 ∧
    Call.replaceAt "é = LOG  (y); // LOG".toList 5 "LOG".toList ⟨"doLog".toList, ["m".toList]⟩
      ⟨1, [97]⟩ 0 = .ok ("é = doLog(y); // LOG".toList, 0) ∧
    ∃ gap, Call.gap? "é = LOG  (y); // LOG".toList 5 "LOG".toList = some gap ∧
      gap.allBlank = true := by
  have hfind : Occurrence.find? .standard "LOG".toList "é = LOG  (y); // LOG".toList = some 5 := by
    decide +kernel
  have hreplace : Call.replaceAt "é = LOG  (y); // LOG".toList 5 "LOG".toList
      ⟨"doLog".toList, ["m".toList]⟩ ⟨1, [97]⟩ 0 = .ok ("é = doLog(y); // LOG".toList, 0) := by
    decide +kernel
  obtain ⟨-, gap, -, -, -, -, -, hgap, -⟩ :=
    replaced_line_loses_name_and_gap .standard _ _ 5 _ _ 0 _ 0 hfind hreplace
  have hblank : Call.gap? "é = LOG  (y); // LOG".toList 5 "LOG".toList = some "  ".toList := by
    decide +kernel
  refine ⟨hfind, hreplace, gap, hgap, ?_⟩
  rw [Option.some.inj (hgap.symm.trans hblank)]
  decide

/-- A name that is only mentioned takes the next parenthesis for its own, and a statement is
lost. -/
theorem mention_swallows_statement :
    Occurrence.find? .standard "LOG".toList "x = LOG; send(y);".toList = some 4 ∧
    Call.replaceAt "x = LOG; send(y);".toList 4 "LOG".toList ⟨"doLog".toList, ["m".toList]⟩
      ⟨1, [97]⟩ 0 = .ok ("x = doLog(y);".toList, 0) ∧
    Call.gap? "x = LOG; send(y);".toList 4 "LOG".toList = some "; send".toList ∧
    Text.allBlank "; send".toList = false := by
  decide +kernel

end CommentMacros
