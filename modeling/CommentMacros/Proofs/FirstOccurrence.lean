import CommentMacros.MacroTable
import CommentMacros.Proofs.Occurrence
import Mathlib.Data.Nat.Find
import Mathlib.Order.Bounds.Basic

namespace CommentMacros

/-- Behind `i` bytes of the line the name stands alone. Occurrences may overlap. -/
def AloneAt (name line : Text) (i : Nat) : Prop :=
  ∃ before rest, line = before ++ name ++ rest ∧ Text.byteLength before = i ∧ Bounded before rest

def FindsFirst (style : CommentStyle) (name line : Text) : Prop :=
  (∀ i, Occurrence.find? style name line = some i ↔
    style.isComment line = false ∧ IsLeast {i | AloneAt name line i} i) ∧
  (Occurrence.find? style name line = none ↔
    ∀ i, ¬(style.isComment line = false ∧ AloneAt name line i))

/-- A text is read from the left, and behind every occurrence of the name that is met on the way;
then the name is met behind the given characters. -/
inductive Met (name : Text) : Text → Text → Prop
  | here (rest : Text) : Met name (name ++ rest) []
  | behind {rest before : Text} : Met name rest before → Met name (name ++ rest) (name ++ before)
  | past {c : Char} {s before : Text} : ¬name <+: c :: s → Met name s before →
      Met name (c :: s) (c :: before)

def MetAt (name line : Text) (i : Nat) : Prop :=
  ∃ before, Met name line before ∧ Text.byteLength before = i

theorem Met.exists_rest {name s before : Text} (h : Met name s before) :
    ∃ rest, s = before ++ name ++ rest := by
  induction h with
  | here rest => exact ⟨rest, rfl⟩
  | behind _ ih =>
    obtain ⟨rest, rfl⟩ := ih
    exact ⟨rest, by simp⟩
  | past _ _ ih =>
    obtain ⟨rest, rfl⟩ := ih
    exact ⟨rest, rfl⟩

/-- Wherever the name begins again inside itself, it does so behind an identifier character. -/
def Seamless (name : Text) : Prop :=
  ∀ k < name.length, 0 < k → name.drop k <+: name → (name.take k).getLast?.any isWordChar = true

instance (name : Text) : Decidable (Seamless name) :=
  inferInstanceAs (Decidable (∀ k < name.length, _))

theorem find?_isLeast {α : Type} (xs : List α) (key : α → Nat) (p : α → Bool)
    (hsorted : xs.Pairwise fun x y => key x < key y) (i : Nat) :
    (xs.find? p).map key = some i ↔ IsLeast {i | ∃ x ∈ xs, p x = true ∧ key x = i} i := by
  have hleast : ∀ x, xs.find? p = some x →
      IsLeast {i | ∃ x ∈ xs, p x = true ∧ key x = i} (key x) := by
    intro x hx
    obtain ⟨hp, front, back, rfl, hfront⟩ := List.find?_eq_some_iff_append.mp hx
    refine ⟨⟨x, by simp, hp, rfl⟩, ?_⟩
    rintro i ⟨y, hy, hpy, rfl⟩
    rcases List.mem_append.mp hy with hy | hy
    · have hno := hfront y hy
      rw [hpy] at hno
      cases hno
    · rcases List.mem_cons.mp hy with rfl | hy
      · exact Nat.le_refl _
      · have hback := (List.pairwise_append.mp hsorted).2.1
        exact Nat.le_of_lt ((List.pairwise_cons.mp hback).1 y hy)
  constructor
  · intro h
    obtain ⟨x, hx, rfl⟩ := Option.map_eq_some_iff.mp h
    exact hleast x hx
  · intro h
    obtain ⟨x, hx, hp, -⟩ := h.1
    cases hfind : xs.find? p with
    | none => exact absurd hp (List.find?_eq_none.mp hfind x hx)
    | some y => rw [Option.map_some, (hleast y hfind).unique h]

theorem Text.eq_of_byteLength_eq {l r l' r' : Text} (h : l ++ r = l' ++ r')
    (hlength : byteLength l = byteLength l') : l = l' ∧ r = r' := by
  have hcut := cutAt?_byteLength l r
  rw [h, hlength, cutAt?_byteLength l' r'] at hcut
  obtain ⟨rfl, rfl⟩ := Prod.mk.inj (Option.some.inj hcut)
  exact ⟨rfl, rfl⟩

namespace Occurrence

theorem allFrom_skip (name seen s : Text) (skip : Nat) :
    allFrom name seen skip s = allFrom name ((s.take skip).reverse ++ seen) 0 (s.drop skip) := by
  induction s generalizing seen skip with
  | nil => simp [allFrom]
  | cons c s ih =>
    cases skip with
    | zero => rfl
    | succ skip =>
      rw [allFrom, ih]
      simp

/-- An occurrence is taken, and the search goes on behind it. -/
theorem allFrom_name (name seen rest : Text) (hname : name ≠ []) :
    allFrom name seen 0 (name ++ rest) =
      ⟨seen, rest⟩ :: allFrom name (name.reverse ++ seen) 0 rest := by
  obtain ⟨c, s, rfl⟩ := List.exists_cons_of_ne_nil hname
  have hlead : afterLead? (c :: s) (c :: (s ++ rest)) = some rest :=
    afterLead?_eq_some_iff.mpr rfl
  rw [List.cons_append, allFrom, hlead]
  dsimp only
  rw [allFrom_skip]
  simp

theorem allFrom_past (name seen s : Text) (c : Char) (h : ¬name <+: c :: s) :
    allFrom name seen 0 (c :: s) = allFrom name (c :: seen) 0 s := by
  rw [allFrom]
  cases hlead : afterLead? name (c :: s) with
  | none => rfl
  | some rest => exact absurd ⟨rest, (afterLead?_eq_some_iff.mp hlead).symm⟩ h

theorem mem_allFrom_of_met (name s before seen rest : Text) (hname : name ≠ [])
    (hmet : Met name s before) (hs : s = before ++ name ++ rest) :
    ⟨before.reverse ++ seen, rest⟩ ∈ allFrom name seen 0 s := by
  induction hmet generalizing seen with
  | here rest' =>
    obtain rfl : rest' = rest := by simpa using hs
    rw [allFrom_name name seen rest' hname]
    exact List.mem_cons_self
  | @behind rest' before _ ih =>
    rw [allFrom_name name seen rest' hname]
    have hmem := ih (name.reverse ++ seen) (by simpa using hs)
    apply List.mem_cons_of_mem
    simpa using hmem
  | @past c s before hno _ ih =>
    rw [allFrom_past name seen s c hno]
    have hmem := ih (c :: seen) (by simpa using hs)
    simpa using hmem

theorem met_of_mem_allFrom (name s seen : Text) (o : Occurrence) (hname : name ≠ [])
    (h : o ∈ allFrom name seen 0 s) :
    ∃ before, Met name s before ∧ o.seen = before.reverse ++ seen ∧
      s = before ++ name ++ o.rest := by
  -- on the length of the text: behind an occurrence the search goes on in what is left of it
  induction hlength : s.length using Nat.strong_induction_on generalizing s seen with
  | h n ih =>
    by_cases hlead : name <+: s
    · obtain ⟨rest, rfl⟩ := hlead
      rw [allFrom_name name seen rest hname] at h
      rcases List.mem_cons.mp h with rfl | h
      · exact ⟨[], .here rest, rfl, rfl⟩
      · have hlt : rest.length < n := by
          have hpos := List.length_pos_of_ne_nil hname
          rw [List.length_append] at hlength
          omega
        obtain ⟨before, hmet, hseen, hs⟩ := ih _ hlt rest _ h rfl
        exact ⟨name ++ before, .behind hmet, by simp [hseen], by simp [hs]⟩
    · cases s with
      | nil => simp [allFrom] at h
      | cons c s =>
        rw [allFrom_past name seen s c hlead] at h
        obtain ⟨before, hmet, hseen, hs⟩ := ih s.length (by simp [← hlength]) s _ h rfl
        exact ⟨c :: before, .past hlead hmet, by simp [hseen], by simp [← hs]⟩

theorem le_offset (name seen s : Text) (skip : Nat) (o : Occurrence)
    (h : o ∈ allFrom name seen skip s) : Text.byteLength seen ≤ o.offset := by
  induction s generalizing seen skip with
  | nil => cases skip <;> simp [allFrom] at h
  | cons c s ih =>
    have hlater : ∀ k, o ∈ allFrom name (c :: seen) k s → Text.byteLength seen ≤ o.offset := by
      intro k hk
      have hle := ih (c :: seen) k hk
      rw [Text.byteLength] at hle
      omega
    cases skip with
    | succ skip => exact hlater skip h
    | zero =>
      rw [allFrom] at h
      cases hlead : afterLead? name (c :: s) with
      | none =>
        rw [hlead] at h
        exact hlater 0 h
      | some rest =>
        rw [hlead] at h
        rcases List.mem_cons.mp h with rfl | h
        · exact Nat.le_refl _
        · exact hlater _ h

theorem allFrom_sorted (name seen s : Text) (skip : Nat) :
    (allFrom name seen skip s).Pairwise fun a b => a.offset < b.offset := by
  induction s generalizing seen skip with
  | nil => cases skip <;> exact List.Pairwise.nil
  | cons c s ih =>
    cases skip with
    | succ skip => exact ih (c :: seen) skip
    | zero =>
      rw [allFrom]
      cases afterLead? name (c :: s) with
      | none => exact ih (c :: seen) 0
      | some rest =>
        refine List.pairwise_cons.mpr ⟨?_, ih (c :: seen) _⟩
        intro o ho
        have hle := le_offset name (c :: seen) s _ o ho
        have hpos := c.utf8Size_pos
        rw [Text.byteLength] at hle
        show Text.byteLength seen < o.offset
        omega

/-- What the search looks at are the places that are met on the way. -/
theorem mem_all_iff (name line : Text) (i : Nat) (hname : name ≠ []) :
    (∃ o ∈ all name line, o.standsAlone = true ∧ o.offset = i) ↔
      AloneAt name line i ∧ MetAt name line i := by
  constructor
  · rintro ⟨o, ho, halone, rfl⟩
    obtain ⟨before, hmet, hseen, hline⟩ := met_of_mem_allFrom name line [] o hname ho
    rw [List.append_nil] at hseen
    have hbound := bounded_of_standsAlone o halone
    have hoffset : Text.byteLength before = o.offset := by
      rw [offset, hseen, Text.byteLength_reverse]
    rw [hseen, List.reverse_reverse] at hbound
    exact ⟨⟨before, o.rest, hline, hoffset, hbound⟩, before, hmet, hoffset⟩
  · rintro ⟨⟨before, rest, hline, rfl, hbound⟩, front, hmet, hlength⟩
    obtain ⟨tail, htail⟩ := hmet.exists_rest
    have hsplit : front ++ (name ++ tail) = before ++ (name ++ rest) := by
      rw [← List.append_assoc, ← htail, hline, List.append_assoc]
    obtain ⟨rfl, -⟩ := Text.eq_of_byteLength_eq hsplit hlength
    refine ⟨_, mem_allFrom_of_met name line front [] rest hname hmet hline, ?_, ?_⟩
    · rw [List.append_nil]
      exact (standsAlone_iff_bounded ⟨front.reverse, rest⟩).mpr (by simpa using hbound)
    · rw [List.append_nil]
      exact Text.byteLength_reverse front

/-- The search gives the first place, of those that are met on the way, where the name stands
alone. -/
theorem find?_eq_some_iff (style : CommentStyle) (name line : Text) (i : Nat) (hname : name ≠ []) :
    find? style name line = some i ↔ style.isComment line = false ∧
      IsLeast {i | AloneAt name line i ∧ MetAt name line i} i := by
  have hplaces : {i | ∃ o ∈ all name line, o.standsAlone = true ∧ o.offset = i} =
      {i | AloneAt name line i ∧ MetAt name line i} :=
    Set.ext fun i => mem_all_iff name line i hname
  unfold find?
  cases hcomment : style.isComment line with
  | true => simp
  | false =>
    have hsorted : (all name line).Pairwise fun a b => a.offset < b.offset :=
      allFrom_sorted name [] line 0
    rw [if_neg (by simp [hname]), find?_isLeast _ offset standsAlone hsorted, hplaces]
    simp

end Occurrence

theorem met_of_seamless (name before rest : Text) (hname : name ≠ []) (hseamless : Seamless name)
    (hbound : Bounded before rest) : Met name (before ++ name ++ rest) before := by
  induction hlength : before.length using Nat.strong_induction_on generalizing before with
  | h n ih =>
    by_cases hlead : name <+: before ++ name ++ rest
    · have hbefore : before <+: before ++ name ++ rest := by
        rw [List.append_assoc]
        exact List.prefix_append _ _
      by_cases hle : name.length ≤ before.length
      · -- the occurrence in front ends before the name begins
        obtain ⟨further, rfl⟩ := List.prefix_of_prefix_length_le hlead hbefore hle
        have hlt : further.length < n := by
          have hpos := List.length_pos_of_ne_nil hname
          rw [List.length_append] at hlength
          omega
        have hmet := ih _ hlt further hbound.of_append_left rfl
        rw [List.append_assoc name, List.append_assoc name]
        exact .behind hmet
      · obtain ⟨overlap, hoverlap⟩ :=
          List.prefix_of_prefix_length_le hbefore hlead (Nat.le_of_not_le hle)
        rcases List.eq_nil_or_concat' before with rfl | ⟨init, c, rfl⟩
        · exact .here rest
        · -- the name begins again inside the occurrence in front
          have hagain : overlap <+: name := by
            have hshort : overlap.length ≤ name.length := by
              rw [← hoverlap, List.length_append]
              omega
            obtain ⟨tail, htail⟩ := hlead
            rw [← hoverlap, List.append_assoc, List.append_assoc (init ++ [c])] at htail
            have htail' := List.append_cancel_left htail
            rw [hoverlap] at htail'
            exact List.prefix_of_prefix_length_le ⟨tail, htail'⟩
              (List.prefix_append name rest) hshort
          have hword := hseamless (init ++ [c]).length (by omega) (by simp)
            (by rw [← hoverlap, List.drop_left, hoverlap]; exact hagain)
          rw [← hoverlap, List.take_left, List.getLast?_concat] at hword
          have hno := hbound.1 c (by simp)
          simp [hno] at hword
    · cases before with
      | nil => exact absurd (List.prefix_append name rest) hlead
      | cons c before =>
        have hmet := ih before.length (by simp [← hlength]) before
          (Bounded.of_append_left (u := [c]) hbound) rfl
        exact .past hlead hmet

theorem exists_letter (a b : Char) :
    ∃ x, x ≠ a ∧ x ≠ b ∧ isWordChar x = true ∧ isBlank x = false := by
  by_cases hx : 'x' ≠ a ∧ 'x' ≠ b
  · exact ⟨'x', hx.1, hx.2, by decide, by decide⟩
  · by_cases hy : 'y' ≠ a ∧ 'y' ≠ b
    · exact ⟨'y', hy.1, hy.2, by decide, by decide⟩
    · refine ⟨'z', ?_, ?_, by decide, by decide⟩
      · rintro rfl
        grind
      · rintro rfl
        grind

/-- A seam hides a place: behind a letter and the part in front of the seam the name stands alone,
but the occurrence that begins with that part is looked at before it. -/
theorem exists_place_missed (style : CommentStyle) (name : Text) (hopener : style.opener ≠ [])
    (hseam : ¬Seamless name) :
    ∃ line i, style.isComment line = false ∧ AloneAt name line i ∧
      Occurrence.find? style name line = none := by
  simp only [Seamless, not_forall] at hseam
  obtain ⟨k, hk, hpos, ⟨back, hback⟩, hnone⟩ := hseam
  have hname : name ≠ [] := List.ne_nil_of_length_pos (by omega)
  obtain ⟨a, name', hcons⟩ := List.exists_cons_of_ne_nil hname
  obtain ⟨o, opener, hstyle⟩ := List.exists_cons_of_ne_nil hopener
  obtain ⟨x, hxa, hxo, hword, hblank⟩ := exists_letter a o
  have hline : name.take k ++ name = name ++ back := by
    calc
      name.take k ++ name = name.take k ++ (name.drop k ++ back) := by rw [hback]
      _ = name ++ back := by rw [← List.append_assoc, List.take_append_drop]
  have hlength : back.length = k := by
    have hsum := congrArg List.length hback
    rw [List.length_append, List.length_drop] at hsum
    omega
  have hcomment : style.isComment (x :: (name ++ back)) = false := by
    rw [CommentStyle.isComment, Text.trimStart, List.dropWhile_cons_of_neg (by simp [hblank]),
      hstyle, List.isPrefixOf_cons_cons]
    simp [Ne.symm hxo]
  refine ⟨x :: (name ++ back), _, hcomment, ⟨x :: name.take k, [], ?_, rfl, ?_, by simp⟩, ?_⟩
  · rw [List.append_nil, List.cons_append, hline]
  · intro c hc
    have hfront : name.take k ≠ [] :=
      List.ne_nil_of_length_pos (by rw [List.length_take]; omega)
    rw [List.getLast?_cons_of_ne_nil hfront] at hc
    rw [hc] at hnone
    simpa using hnone
  · have hpast : ¬name <+: x :: (name ++ back) := by
      rw [hcons, List.cons_prefix_cons]
      exact fun h => hxa h.1.symm
    have hback : Occurrence.allFrom name (name.reverse ++ [x]) 0 back = [] := by
      rw [List.eq_nil_iff_forall_not_mem]
      intro o ho
      obtain ⟨before, -, -, hsplit⟩ := Occurrence.met_of_mem_allFrom name back _ o hname ho
      rw [hsplit, List.length_append, List.length_append] at hlength
      omega
    rw [Occurrence.find?, if_neg (by simp [hname, hcomment]), Occurrence.all,
      Occurrence.allFrom_past name [] _ x hpast, Occurrence.allFrom_name name [x] back hname, hback]
    simp [Occurrence.standsAlone, hword]

theorem exists_isLeast {p : Nat → Prop} {i : Nat} (h : p i) : ∃ j, IsLeast {i | p i} j := by
  classical
  exact ⟨Nat.find ⟨i, h⟩, Nat.find_spec ⟨i, h⟩, fun _ hj => Nat.find_min' ⟨i, h⟩ hj⟩

/-- The search is right about a line exactly if the first place where the name stands alone is met
on the way. -/
theorem findsFirst_iff (style : CommentStyle) (name line : Text) (hname : name ≠ []) :
    FindsFirst style name line ↔ (style.isComment line = false →
      ∀ i, IsLeast {i | AloneAt name line i} i → MetAt name line i) := by
  have hfind (i : Nat) := Occurrence.find?_eq_some_iff style name line i hname
  constructor
  · intro h hcomment i hleast
    have hsome := (h.1 i).mpr ⟨hcomment, hleast⟩
    exact ((hfind i).mp hsome).2.1.2
  · intro h
    have hsame : style.isComment line = false → ∀ i,
        IsLeast {i | AloneAt name line i ∧ MetAt name line i} i ↔
          IsLeast {i | AloneAt name line i} i := by
      intro hcomment i
      constructor
      · intro hleast
        obtain ⟨j, hj⟩ := exists_isLeast hleast.1.1
        have hle := hleast.2 ⟨hj.1, h hcomment j hj⟩
        exact ⟨hleast.1.1, fun l hl => hle.trans (hj.2 hl)⟩
      · intro hleast
        exact ⟨⟨hleast.1, h hcomment i hleast⟩, fun l hl => hleast.2 hl.1⟩
    refine ⟨fun i => (hfind i).trans (and_congr_right fun hcomment => hsame hcomment i), ?_⟩
    constructor
    · rintro hnone i ⟨hcomment, halone⟩
      obtain ⟨j, hj⟩ := exists_isLeast halone
      have hsome := (hfind j).mpr ⟨hcomment, (hsame hcomment j).mpr hj⟩
      rw [hnone] at hsome
      cases hsome
    · intro hno
      rw [Option.eq_none_iff_forall_ne_some]
      intro i hsome
      obtain ⟨hcomment, hleast⟩ := (hfind i).mp hsome
      exact hno i ⟨hcomment, hleast.1.1⟩

/-- The search gives the first place, among those that are met when the line is read from the left
and behind every occurrence, at which the name stands alone. That is its first place of all, also
among overlapping ones, if and only if this first place is met; and it is so in every line if and
only if the name is seamless, unless all lines are comments. -/
theorem first_place_found_iff_seamless (style : CommentStyle) (name : Text) (hname : name ≠ []) :
    (∀ line i, Occurrence.find? style name line = some i ↔ style.isComment line = false ∧
      IsLeast {i | AloneAt name line i ∧ MetAt name line i} i) ∧
    (∀ line, FindsFirst style name line ↔ (style.isComment line = false →
      ∀ i, IsLeast {i | AloneAt name line i} i → MetAt name line i)) ∧
    ((∀ line, FindsFirst style name line) ↔ style.opener = [] ∨ Seamless name) := by
  refine ⟨fun line i => Occurrence.find?_eq_some_iff style name line i hname,
    fun line => findsFirst_iff style name line hname, ?_, ?_⟩
  · intro h
    by_contra hnot
    obtain ⟨hopener, hseam⟩ := not_or.mp hnot
    obtain ⟨line, i, hcomment, halone, hnone⟩ := exists_place_missed style name hopener hseam
    exact (h line).2.mp hnone i ⟨hcomment, halone⟩
  · intro h line
    rw [findsFirst_iff style name line hname]
    rintro hcomment i ⟨⟨before, rest, rfl, rfl, hbound⟩, -⟩
    rcases h with hopener | hseamless
    · rw [CommentStyle.isComment, hopener] at hcomment
      cases hcomment
    · exact ⟨before, met_of_seamless name before rest hname hseamless hbound, rfl⟩

theorem first_place_found_dotted :
    "a.b".toList ≠ [] ∧ ∀ line, FindsFirst .standard "a.b".toList line :=
  ⟨by decide,
    (first_place_found_iff_seamless .standard "a.b".toList (by decide)).2.2.mpr
      (Or.inr (by decide))⟩

/-- The name `a.a` stands alone in `xa.a.a(1)` behind three bytes. It is looked for behind the
occurrence that belongs to `xa`, and not found. -/
theorem overlapped_place_missed :
    signatureName "a.a(m)".toList = .ok "a.a".toList ∧
    Occurrence.find? .standard "a.a".toList "xa.a.a(1)".toList = none ∧
    AloneAt "a.a".toList "xa.a.a(1)".toList 3 ∧
    ¬FindsFirst .standard "a.a".toList "xa.a.a(1)".toList := by
  have hnone : Occurrence.find? .standard "a.a".toList "xa.a.a(1)".toList = none := by decide
  have halone : AloneAt "a.a".toList "xa.a.a(1)".toList 3 :=
    ⟨"xa.".toList, "(1)".toList, by decide, by decide, by decide⟩
  refine ⟨by decide, hnone, halone, ?_⟩
  intro h
  exact h.2.mp hnone 3 ⟨by decide, halone⟩

end CommentMacros
