import CommentMacros.Template
import CommentMacros.Proofs.Display
import Mathlib.Algebra.Ring.Nat

namespace CommentMacros.Template

theorem piecesFrom_eq_pieces (skip : Nat) (t : Text) :
    piecesFrom skip t = pieces (t.drop skip) := by
  induction skip generalizing t with
  | zero => rfl
  | succ skip ih =>
    cases t with
    | nil => rfl
    | cons c t => exact ih t

theorem pieces_char (c : Char) (s : Text) (h : Hole.leading? (c :: s) = none) :
    pieces (c :: s) = .char c :: pieces s := by
  rw [pieces, piecesFrom, h]
  rfl

theorem pieces_token (p : Hole) (s : Text) : pieces (p.token ++ s) = .hole p :: pieces s := by
  obtain ⟨c, token, htoken⟩ := List.exists_cons_of_ne_nil p.token_ne_nil
  have hlead : Hole.leading? (c :: (token ++ s)) = some p := by
    apply Hole.leading?_eq_some_iff.mpr
    rw [← List.cons_append, ← htoken]
    exact List.prefix_append p.token s
  rw [htoken, List.cons_append, pieces, piecesFrom, hlead]
  dsimp only
  rw [piecesFrom_eq_pieces, htoken]
  simp

/-- A template is read from the left: a token where one begins, a character elsewhere. -/
theorem pieces_induction {motive : Text → Prop} (nil : motive [])
    (char : ∀ c s, Hole.leading? (c :: s) = none → motive s → motive (c :: s))
    (token : ∀ (p : Hole) s, motive s → motive (p.token ++ s)) (t : Text) : motive t := by
  induction hlength : t.length using Nat.strongRecOn generalizing t with
  | _ length ih =>
    cases t with
    | nil => exact nil
    | cons c s =>
      cases hlead : Hole.leading? (c :: s) with
      | none =>
        exact char c s hlead (ih s.length (by simp [← hlength]) s rfl)
      | some p =>
        obtain ⟨rest, hrest⟩ := Hole.token_prefix_of_leading? hlead
        have hpos := List.length_pos_iff.mpr p.token_ne_nil
        have hshort : rest.length < length := by
          rw [← hlength, ← hrest, List.length_append]
          omega
        rw [← hrest]
        exact token p rest (ih rest.length hshort rest rfl)

theorem mem_piecesFrom (skip : Nat) (t : Text) (c : Char) (h : Piece.char c ∈ piecesFrom skip t) :
    c ∈ t := by
  induction t generalizing skip with
  | nil => cases skip <;> simp [piecesFrom] at h
  | cons b t ih =>
    cases skip with
    | succ skip => exact List.mem_cons_of_mem b (ih skip h)
    | zero =>
      rw [piecesFrom] at h
      cases hlead : Hole.leading? (b :: t) with
      | none =>
        rw [hlead] at h
        rcases List.mem_cons.mp h with hb | h
        · rw [Piece.char.inj hb]
          exact List.mem_cons_self
        · exact List.mem_cons_of_mem b (ih 0 h)
      | some p =>
        rw [hlead] at h
        rcases List.mem_cons.mp h with hb | h
        · cases hb
        · exact List.mem_cons_of_mem b (ih _ h)

theorem isDigit_of_mem_decimal (k : Nat) (c : Char) (h : c ∈ Text.decimal k) :
    c.isDigit = true :=
  Nat.isDigit_of_mem_toDigits (by decide) (by decide) h

structure Admits (P : Char → Prop) (place : Place) (args : List Text) : Prop where
  digit : ∀ c : Char, c.isDigit = true → P c
  quote : P '\''
  path : ∀ c ∈ place.file.display, P c
  args : ∀ a ∈ args, ∀ c ∈ a, P c
  token : ∀ p : Hole, ∀ c ∈ p.token, P c

/-- A character that no value has of its own is kept out by the path and the arguments. -/
theorem admits_ne (x : Char) (place : Place) (args : List Text) (hdigit : x.isDigit = false)
    (hquote : x ≠ '\'') (htoken : ∀ p ∈ Hole.all, x ∉ p.token) (hpath : x ∉ place.file.display)
    (hargs : ∀ a ∈ args, x ∉ a) : Admits (· ≠ x) place args := by
  refine ⟨?_, Ne.symm hquote, ?_, ?_, ?_⟩
  · rintro c hc rfl
    rw [hdigit] at hc
    cases hc
  · rintro c hc rfl
    exact hpath hc
  · rintro a ha c hc rfl
    exact hargs a ha hc
  · rintro p c hc rfl
    exact htoken p (Hole.mem_all p) hc

theorem Admits.decimal {P : Char → Prop} {place : Place} {args : List Text}
    (h : Admits P place args) (n : Nat) : ∀ c ∈ Text.decimal n, P c := by
  intro c hc
  exact h.digit c (isDigit_of_mem_decimal n c hc)

theorem Admits.quoted {P : Char → Prop} {place : Place} {args : List Text}
    (h : Admits P place args) (s : Text) (hs : ∀ c ∈ s, P c) : ∀ c ∈ quoted s, P c := by
  intro c hc
  simp only [Template.quoted, List.cons_append, List.mem_cons, List.mem_append,
    List.not_mem_nil, or_false] at hc
  rcases hc with rfl | hc | rfl
  · exact h.quote
  · exact hs c hc
  · exact h.quote

theorem Admits.value {P : Char → Prop} {place : Place} {args : List Text}
    (h : Admits P place args) (n : Nat) (p : Hole) : ∀ c ∈ value place args n p, P c := by
  cases p with
  | index => exact h.decimal n
  | line => exact h.decimal place.line
  | filePath => exact h.quoted place.file.display h.path
  | file =>
    apply h.quoted
    cases hname : place.file.fileName? with
    | none => simp
    | some name =>
      intro c hc
      exact h.path c ((Path.display_fileName place.file name hname).subset hc)
  | arg i =>
    rw [Template.value]
    cases harg : args[i.val]? with
    | none => exact h.token (.arg i)
    | some a => exact h.quoted a (h.args a (List.mem_of_getElem? harg))

theorem Admits.fill {P : Char → Prop} {place : Place} {args : List Text}
    (h : Admits P place args) (ps : List Piece) (n : Nat) (hps : ∀ c, Piece.char c ∈ ps → P c) :
    ∀ c ∈ (fill place args ps n).1, P c := by
  induction ps generalizing n with
  | nil => simp [Template.fill]
  | cons piece ps ih =>
    have htail : ∀ c, Piece.char c ∈ ps → P c := fun c hc => hps c (List.mem_cons_of_mem _ hc)
    intro c hc
    cases piece with
    | char b =>
      rcases List.mem_cons.mp hc with rfl | hc
      · exact hps c List.mem_cons_self
      · exact ih n htail c hc
    | hole p =>
      rcases List.mem_append.mp hc with hc | hc
      · exact h.value n p c hc
      · exact ih (n + advance p) htail c hc

theorem Admits.fillAll {P : Char → Prop} {place : Place} {args : List Text}
    (h : Admits P place args) (ts : List Text) (n : Nat) (hts : ∀ t ∈ ts, ∀ c ∈ t, P c) :
    ∀ s ∈ (fillAll place args ts n).1, ∀ c ∈ s, P c := by
  induction ts generalizing n with
  | nil => simp [Template.fillAll]
  | cons t ts ih =>
    intro s hs
    rcases List.mem_cons.mp hs with rfl | hs
    · apply h.fill
      intro c hc
      exact hts t List.mem_cons_self c (mem_piecesFrom 0 t c hc)
    · exact ih _ (fun u hu => hts u (List.mem_cons_of_mem t hu)) s hs

def indices : List Piece → Nat → List Nat
  | [], _ => []
  | .hole .index :: ps, n => n :: indices ps (n + 1)
  | _ :: ps, n => indices ps n

def indicesAll : List Text → Nat → List (List Nat)
  | [], _ => []
  | t :: ts, n => indices (pieces t) n :: indicesAll ts (n + (indices (pieces t) n).length)

/-- The text of a list of pieces with the given values in its counter holes. -/
def render (place : Place) (args : List Text) : List Piece → List Nat → Text
  | [], _ => []
  | .char c :: ps, vs => c :: render place args ps vs
  | .hole .index :: ps, vs => Text.decimal (vs.headD 0) ++ render place args ps vs.tail
  | .hole p :: ps, vs => value place args 0 p ++ render place args ps vs

def indexCount (t : Text) : Nat := (pieces t).count (.hole .index)

theorem value_of_ne_index (place : Place) (args : List Text) (n k : Nat) (p : Hole)
    (hp : p ≠ .index) : value place args n p = value place args k p := by
  cases p with
  | index => exact absurd rfl hp
  | _ => rfl

theorem indices_of_ne (piece : Piece) (ps : List Piece) (n : Nat) (h : piece ≠ .hole .index) :
    indices (piece :: ps) n = indices ps n := by
  cases piece with
  | char c => rfl
  | hole p =>
    cases p with
    | index => exact absurd rfl h
    | _ => rfl

theorem render_of_ne_index (place : Place) (args : List Text) (p : Hole) (ps : List Piece)
    (vs : List Nat) (hp : p ≠ .index) :
    render place args (.hole p :: ps) vs = value place args 0 p ++ render place args ps vs := by
  cases p with
  | index => exact absurd rfl hp
  | _ => rfl

/-- Filling puts exactly these values into the counter holes. -/
theorem fill_eq_render (place : Place) (args : List Text) (ps : List Piece) (n : Nat) :
    fill place args ps n =
      (render place args ps (indices ps n), n + (indices ps n).length) := by
  induction ps generalizing n with
  | nil => rfl
  | cons piece ps ih =>
    cases piece with
    | char c => simp [fill, render, indices, ih n]
    | hole p =>
      by_cases hp : p = .index
      · subst hp
        simp only [fill, render, indices, advance, value, ih (n + 1), List.headD_cons,
          List.tail_cons, List.length_cons]
        congr 1
        omega
      · have hadvance : advance p = 0 := by
          cases p with
          | index => exact absurd rfl hp
          | _ => rfl
        have hindices := indices_of_ne (.hole p) ps n (by simpa using hp)
        rw [fill, hadvance, Nat.add_zero, ih n, hindices, render_of_ne_index place args p ps _ hp,
          value_of_ne_index place args n 0 p hp]

theorem fillAll_eq_render (place : Place) (args : List Text) (ts : List Text) (n : Nat) :
    fillAll place args ts n =
      (List.zipWith (fun t vs => render place args (pieces t) vs) ts (indicesAll ts n),
        n + (indicesAll ts n).flatten.length) := by
  induction ts generalizing n with
  | nil => rfl
  | cons t ts ih =>
    simp only [fillAll, fill_eq_render, ih, indicesAll, List.zipWith_cons_cons,
      List.flatten_cons, List.length_append, Nat.add_assoc]

theorem getElem?_fillAll (place : Place) (args : List Text) (ts : List Text) (n j : Nat)
    (t s : Text) (ht : ts[j]? = some t) (hs : (fillAll place args ts n).1[j]? = some s) :
    ∃ k, s = (fill place args (pieces t) k).1 := by
  induction ts generalizing n j with
  | nil => cases ht
  | cons u ts ih =>
    cases j with
    | zero =>
      obtain rfl := Option.some.inj ht
      exact ⟨n, (Option.some.inj hs).symm⟩
    | succ j => exact ih _ j ht hs

theorem le_fill (place : Place) (args : List Text) (ps : List Piece) (n : Nat) :
    n ≤ (fill place args ps n).2 := by
  rw [fill_eq_render]
  exact Nat.le_add_right _ _

theorem le_fillAll (place : Place) (args : List Text) (ts : List Text) (n : Nat) :
    n ≤ (fillAll place args ts n).2 := by
  rw [fillAll_eq_render]
  exact Nat.le_add_right _ _

theorem indices_eq_range (ps : List Piece) (n : Nat) :
    indices ps n = List.range' n (ps.count (.hole .index)) := by
  induction ps generalizing n with
  | nil => rfl
  | cons piece ps ih =>
    by_cases h : piece = .hole .index
    · subst h
      rw [indices, ih (n + 1), List.count_cons_self, List.range'_succ]
    · rw [indices_of_ne piece ps n h, ih n, List.count_cons_of_ne h]

theorem flatten_indicesAll (ts : List Text) (n : Nat) :
    (indicesAll ts n).flatten = List.range' n (ts.map indexCount).sum := by
  induction ts generalizing n with
  | nil => rfl
  | cons t ts ih =>
    have hfirst : indices (pieces t) n = List.range' n (indexCount t) := indices_eq_range _ n
    rw [indicesAll, List.flatten_cons, ih, hfirst, List.length_range', List.map_cons,
      List.sum_cons, List.range'_append_1]

end CommentMacros.Template
