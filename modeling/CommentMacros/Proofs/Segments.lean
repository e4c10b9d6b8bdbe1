import CommentMacros.Proofs.Template

namespace CommentMacros

/-- A template cut up: the text before the first hole, and every hole with the text behind it. -/
structure Segments where
  lead : Text
  parts : List (Hole × Text)
  deriving DecidableEq, Repr

namespace Segments

def spellParts : List (Hole × Text) → Text
  | [] => []
  | part :: parts => part.1.token ++ (part.2 ++ spellParts parts)

def spell (d : Segments) : Text := d.lead ++ spellParts d.parts

def holes (d : Segments) : List Hole := d.parts.map (·.1)

/-- No token begins at a place of the literal text, which `rest` follows. It may end in `rest`. -/
def Clear (literal rest : Text) : Prop :=
  ∀ u v, literal = u ++ v → v ≠ [] → ∀ p : Hole, ¬p.token <+: v ++ rest

def ClearParts : List (Hole × Text) → Prop
  | [] => True
  | part :: parts => Clear part.2 (spellParts parts) ∧ ClearParts parts

/-- The segments make up the template, and no token begins between two holes, before the first or
behind the last. -/
structure Cuts (d : Segments) (template : Text) : Prop where
  whole : d.spell = template
  lead : Clear d.lead (spellParts d.parts)
  parts : ClearParts d.parts

def piecesOfParts (parts : List (Hole × Text)) : List Piece :=
  parts.flatMap fun part => .hole part.1 :: part.2.map .char

def pieces (d : Segments) : List Piece := d.lead.map .char ++ piecesOfParts d.parts

def ofPieces : List Piece → Segments
  | [] => ⟨[], []⟩
  | .char c :: ps => ⟨c :: (ofPieces ps).lead, (ofPieces ps).parts⟩
  | .hole p :: ps => ⟨[], (p, (ofPieces ps).lead) :: (ofPieces ps).parts⟩

theorem clear_nil (rest : Text) : Clear [] rest := by
  intro u v huv hv
  exact absurd (List.append_eq_nil_iff.mp huv.symm).2 hv

theorem clear_cons_iff (c : Char) (s rest : Text) :
    Clear (c :: s) rest ↔ Hole.leading? (c :: (s ++ rest)) = none ∧ Clear s rest := by
  constructor
  · intro h
    refine ⟨?_, ?_⟩
    · cases hlead : Hole.leading? (c :: (s ++ rest)) with
      | none => rfl
      | some p =>
        have hprefix := Hole.leading?_eq_some_iff.mp hlead
        exact absurd hprefix (h [] (c :: s) rfl (List.cons_ne_nil c s) p)
    · intro u v huv
      exact h (c :: u) v (by rw [huv, List.cons_append])
  · rintro ⟨hlead, hrest⟩ u v huv hv p hprefix
    cases u with
    | nil =>
      obtain rfl : c :: s = v := huv
      have hsome := Hole.leading?_eq_some_iff.mpr hprefix
      rw [List.cons_append, hlead] at hsome
      cases hsome
    | cons b u =>
      obtain ⟨rfl, rfl⟩ := List.cons.inj huv
      exact hrest u v rfl hv p hprefix

/-- Where no token begins, a template is read character by character. -/
theorem pieces_append (literal rest : Text) (h : Clear literal rest) :
    Template.pieces (literal ++ rest) = literal.map .char ++ Template.pieces rest := by
  induction literal with
  | nil => rfl
  | cons c s ih =>
    obtain ⟨hlead, hrest⟩ := (clear_cons_iff c s rest).mp h
    rw [List.cons_append, Template.pieces_char c (s ++ rest) hlead, ih hrest]
    rfl

theorem pieces_spellParts (parts : List (Hole × Text)) (h : ClearParts parts) :
    Template.pieces (spellParts parts) = piecesOfParts parts := by
  induction parts with
  | nil => rfl
  | cons part parts ih =>
    obtain ⟨hclear, hparts⟩ := h
    rw [spellParts, Template.pieces_token, pieces_append part.2 _ hclear, ih hparts]
    rfl

theorem Cuts.pieces_eq {d : Segments} {t : Text} (h : d.Cuts t) :
    Template.pieces t = d.pieces := by
  rw [← h.whole, spell, pieces_append d.lead _ h.lead, pieces_spellParts d.parts h.parts]
  rfl

theorem ofPieces_chars (s : Text) (ps : List Piece) :
    ofPieces (s.map .char ++ ps) = ⟨s ++ (ofPieces ps).lead, (ofPieces ps).parts⟩ := by
  induction s with
  | nil => rfl
  | cons c s ih =>
    rw [List.map_cons, List.cons_append, ofPieces, ih]
    rfl

theorem ofPieces_piecesOfParts (parts : List (Hole × Text)) :
    ofPieces (piecesOfParts parts) = ⟨[], parts⟩ := by
  induction parts with
  | nil => rfl
  | cons part parts ih =>
    have hcons : piecesOfParts (part :: parts) =
        .hole part.1 :: (part.2.map .char ++ piecesOfParts parts) := rfl
    rw [hcons, ofPieces, ofPieces_chars, ih, List.append_nil]

theorem ofPieces_pieces (d : Segments) : ofPieces d.pieces = d := by
  rw [pieces, ofPieces_chars, ofPieces_piecesOfParts, List.append_nil]

theorem ofPieces_cuts (t : Text) : (ofPieces (Template.pieces t)).Cuts t := by
  induction t using Template.pieces_induction with
  | nil => exact ⟨rfl, clear_nil _, trivial⟩
  | char c s hlead ih =>
    have hwhole : (ofPieces (Template.pieces s)).lead ++
        spellParts (ofPieces (Template.pieces s)).parts = s := ih.whole
    rw [Template.pieces_char c s hlead, ofPieces]
    refine ⟨?_, ?_, ih.parts⟩
    · exact congrArg (c :: ·) hwhole
    · apply (clear_cons_iff c _ _).mpr
      rw [hwhole]
      exact ⟨hlead, ih.lead⟩
  | token p s ih =>
    rw [Template.pieces_token p s, ofPieces]
    refine ⟨?_, clear_nil _, ih.lead, ih.parts⟩
    exact congrArg (p.token ++ ·) ih.whole

/-- There is one way to cut a template, the one in which it is read. -/
theorem cuts_iff (d : Segments) (t : Text) : d.Cuts t ↔ d = ofPieces (Template.pieces t) := by
  constructor
  · intro h
    rw [h.pieces_eq, ofPieces_pieces]
  · rintro rfl
    exact ofPieces_cuts t

def withValues (d : Segments) (vs : List Text) : Text :=
  d.lead ++ (List.zipWith (fun v part => v ++ part.2) vs d.parts).flatten

/-- What may stand in a hole, if the counter is at `index` there. -/
def Fits (place : Place) (args : List Text) (index : Nat) : Hole → Text → Prop
  | .index, v => v = Text.decimal index
  | .line, v => v = Text.decimal place.line
  | .file, v => v = '\'' :: ((place.file.fileName?.map Path.display).getD [] ++ ['\''])
  | .filePath, v => v = '\'' :: (place.file.display ++ ['\''])
  | .arg i, v =>
    (∀ a, args[i.val]? = some a → v = '\'' :: (a ++ ['\''])) ∧
      (args[i.val]? = none → v = (Hole.arg i).token)

section Values

variable (place : Place) (args : List Text)

def valuesFrom : Nat → List Hole → List Text
  | _, [] => []
  | n, p :: ps => Template.value place args n p :: valuesFrom (n + Template.advance p) ps

theorem length_valuesFrom (n : Nat) (ps : List Hole) :
    (valuesFrom place args n ps).length = ps.length := by
  induction ps generalizing n with
  | nil => rfl
  | cons p ps ih => exact congrArg (· + 1) (ih _)

theorem fits_value (n : Nat) (p : Hole) : Fits place args n p (Template.value place args n p) := by
  cases p with
  | arg i =>
    refine ⟨?_, ?_⟩
    · intro a ha
      rw [Template.value, ha]
      rfl
    · intro hnone
      rw [Template.value, hnone]
  | _ => rfl

theorem count_index_cons (p : Hole) (ps : List Hole) :
    (p :: ps).count .index = Template.advance p + ps.count .index := by
  cases p with
  | index => rw [List.count_cons_self, Nat.add_comm]; rfl
  | _ => rw [List.count_cons_of_ne (by simp)]; exact (Nat.zero_add _).symm

/-- The counter at a hole has passed the counter holes before it. -/
theorem getElem?_valuesFrom (n i : Nat) (ps : List Hole) (p : Hole) (h : ps[i]? = some p) :
    (valuesFrom place args n ps)[i]? =
      some (Template.value place args (n + (ps.take i).count .index) p) := by
  induction ps generalizing n i with
  | nil => cases h
  | cons q ps ih =>
    cases i with
    | zero =>
      obtain rfl : q = p := Option.some.inj h
      rfl
    | succ i =>
      have hrest := ih (n + Template.advance q) i h
      rw [List.take_succ_cons, count_index_cons, ← Nat.add_assoc]
      exact hrest

theorem fill_chars (s : Text) (ps : List Piece) (n : Nat) :
    Template.fill place args (s.map .char ++ ps) n =
      (s ++ (Template.fill place args ps n).1, (Template.fill place args ps n).2) := by
  induction s with
  | nil => rfl
  | cons c s ih =>
    rw [List.map_cons, List.cons_append, Template.fill, ih]
    rfl

theorem fill_piecesOfParts (parts : List (Hole × Text)) (n : Nat) :
    Template.fill place args (piecesOfParts parts) n =
      ((List.zipWith (fun v part => v ++ part.2)
          (valuesFrom place args n (parts.map (·.1))) parts).flatten,
        n + (parts.map (·.1)).count .index) := by
  induction parts generalizing n with
  | nil => rfl
  | cons part parts ih =>
    have hcons : piecesOfParts (part :: parts) =
        .hole part.1 :: (part.2.map .char ++ piecesOfParts parts) := rfl
    have hrest := ih (n + Template.advance part.1)
    rw [hcons, Template.fill, fill_chars, hrest, List.map_cons, count_index_cons, valuesFrom,
      List.zipWith_cons_cons, List.flatten_cons]
    simp only [List.append_assoc, Nat.add_assoc]

/-- The literal texts of a template are kept, and its holes are filled from the left. -/
theorem fill_pieces (d : Segments) (n : Nat) :
    Template.fill place args d.pieces n =
      (d.withValues (valuesFrom place args n d.holes), n + d.holes.count .index) := by
  rw [pieces, fill_chars, fill_piecesOfParts]
  rfl

theorem exists_values (t : Text) (n : Nat) :
    ∃ d : Segments, d.Cuts t ∧ ∃ vs : List Text, vs.length = d.holes.length ∧
      Template.fill place args (Template.pieces t) n =
        (d.withValues vs, n + d.holes.count .index) ∧
      ∀ i p v, d.holes[i]? = some p → vs[i]? = some v →
        Fits place args (n + (d.holes.take i).count .index) p v := by
  have hcuts := ofPieces_cuts t
  refine ⟨ofPieces (Template.pieces t), hcuts,
    valuesFrom place args n (ofPieces (Template.pieces t)).holes, ?_, ?_, ?_⟩
  · exact length_valuesFrom place args n _
  · rw [hcuts.pieces_eq, ofPieces_pieces]
    exact fill_pieces place args _ n
  · intro i p v hp hv
    have hvalue := getElem?_valuesFrom place args n i _ p hp
    obtain rfl := Option.some.inj (hv.symm.trans hvalue)
    exact fits_value place args _ p

end Values

end Segments

/-- A template has exactly one cut into literal texts and holes. It is filled by putting a value in
the place of each hole: in the counter holes the numbers from `n` on, one for each from the left,
and in the others what the place and the arguments say. The literal texts stay as they are, whatever
the values read like, alone or together with their neighbours. -/
theorem template_filled_in_one_pass (place : Place) (args : List Text) (t : Text) (n : Nat) :
    ∃ d : Segments, d.Cuts t ∧ (∀ d' : Segments, d'.Cuts t → d' = d) ∧
      ∃ vs : List Text, vs.length = d.holes.length ∧
        Template.fill place args (Template.pieces t) n =
          (d.withValues vs, n + d.holes.count .index) ∧
        ∀ i p v, d.holes[i]? = some p → vs[i]? = some v →
          Segments.Fits place args (n + (d.holes.take i).count .index) p v := by
  obtain ⟨d, hcuts, hvalues⟩ := Segments.exists_values place args t n
  refine ⟨d, hcuts, ?_, hvalues⟩
  intro d' hd'
  rw [(Segments.cuts_iff d t).mp hcuts]
  exact (Segments.cuts_iff d' t).mp hd'

/-- Tokens that share underscores with their neighbours. -/
example : Segments.ofPieces (Template.pieces "___INDEX____FILE__LINE__".toList) =
    ⟨"_".toList, [(.index, []), (.file, "LINE__".toList)]⟩ := by
  decide +kernel

end CommentMacros
