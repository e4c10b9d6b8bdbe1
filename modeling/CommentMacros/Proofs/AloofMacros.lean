import CommentMacros.Proofs.Expansion
import CommentMacros.Proofs.SingleCall

namespace CommentMacros

theorem stands_iff_exists_standsAt (name text : Text) :
    Stands name text ↔ ∃ i ≤ text.length, StandsAt name text i := by
  constructor
  · rintro ⟨before, rest, rfl, hbound⟩
    refine ⟨before.length, ?_, standsAt_length name before rest hbound⟩
    rw [List.append_assoc, List.length_append]
    omega
  · rintro ⟨i, hi, hprefix, hbound⟩
    obtain ⟨rest, hrest⟩ := hprefix
    have htext : text = text.take i ++ name ++ rest := by
      rw [List.append_assoc, hrest, List.take_append_drop]
    have hdrop : text.drop (i + name.length) = rest := by
      rw [← List.drop_drop, ← hrest, List.drop_left]
    rw [hdrop] at hbound
    exact ⟨text.take i, rest, htext, hbound⟩

instance (name text : Text) : Decidable (Stands name text) :=
  decidable_of_iff _ (stands_iff_exists_standsAt name text).symm

/-- A name that stands alone in a line, but not in the text `t` there, begins before this text or
behind the parenthesis that follows it. -/
theorem length_lt_or_prefix (name before rest b t : Text) (hname : '(' ∉ name)
    (hbound : Bounded before rest) (hno : ¬Stands name t)
    (h : b ++ t ++ ['('] <+: before ++ name ++ rest) :
    before.length < b.length ∨ b ++ t ++ ['('] <+: before := by
  rcases Nat.lt_or_ge before.length b.length with hlt | hge
  · exact Or.inl hlt
  · right
    have hleft : b <+: before ++ name ++ rest := by
      rw [List.append_assoc b] at h
      exact (List.prefix_append b _).trans h
    have hright : before <+: before ++ name ++ rest := by
      rw [List.append_assoc]
      exact List.prefix_append before _
    obtain ⟨v, rfl⟩ := List.prefix_of_prefix_length_le hleft hright hge
    obtain ⟨r, hr⟩ := h
    have hcut : v ++ name ++ rest = t ++ '(' :: r := by
      simpa using hr.symm
    -- the name has no `(`, so it ends before this one, inside `t`, or begins behind it
    rcases append_eq_append_cons hcut hname with ⟨r', rfl, rfl⟩ | ⟨v', -, rfl⟩
    · exact absurd ⟨v, r', rfl, hbound.of_append_left.of_append_right⟩ hno
    · exact ⟨v', by simp⟩

/-- Behind `b` the second line goes on with `t` and a `(`, and the first does not. None of the names
stands in `t`. A text like it in the first line begins further to the right or lies within `b`
together with its `(`. -/
structure Leftmost (names : List Text) (line line' b t : Text) : Prop where
  quiet : ∀ x ∈ names, ¬Stands x t
  stays : b ++ t ++ ['('] <+: line'
  fresh : ¬b ++ t ++ ['('] <+: line
  apart : ∀ b₀ t₀, (∀ x ∈ names, ¬Stands x t₀) → b₀ ++ t₀ ++ ['('] <+: line →
    b.length < b₀.length ∨ b₀ ++ t₀ ++ ['('] <+: b

theorem Leftmost.before {names : List Text} {line line' b t : Text}
    (h : Leftmost names line line' b t) : b <+: line' := by
  have hstays := h.stays
  rw [List.append_assoc] at hstays
  exact (List.prefix_append b _).trans hstays

/-- Of two changes in a row, the one further to the left is seen in the end. -/
theorem Leftmost.trans {names : List Text} {line mid line' b t b' t' : Text}
    (h : Leftmost names line mid b t) (h' : Leftmost names mid line' b' t') :
    ∃ c u, Leftmost names line line' c u := by
  rcases h'.apart b t h.quiet h.stays with hlt | hprefix
  · -- the second change is further to the left, where the first one has left the line as it was
    refine ⟨b', t', h'.quiet, h'.stays, ?_, ?_⟩
    · intro hold
      rcases h.apart b' t' h'.quiet hold with hgt | hb
      · omega
      · exact h'.fresh (hb.trans h.before)
    · intro b₀ t₀ hquiet h₀
      rcases h.apart b₀ t₀ hquiet h₀ with hgt | hb
      · exact Or.inl (Nat.lt_trans hlt hgt)
      · exact h'.apart b₀ t₀ hquiet (hb.trans h.before)
  · exact ⟨b, t, h.quiet, hprefix.trans h'.before, h.fresh, h.apart⟩

/-- The target of a macro is put in where the name stood. -/
theorem leftmost_of_applies (style : CommentStyle) (place : Place) (names : List Text) (m : Macro)
    (hm : m.WellFormed) (hname : m.name ∈ names)
    (hquiet : ∀ x ∈ names, ¬Stands x m.definition.target) (line mid : Text) (n k : Nat)
    (h : Applies style place m line n mid k) : ∃ b t, Leftmost names line mid b t := by
  obtain ⟨s, -, -, hbound, -, rfl, rfl, rfl⟩ := h
  have hsite : ∀ b₀ t₀, (∀ x ∈ names, ¬Stands x t₀) → b₀ ++ t₀ ++ ['('] <+: s.line m.name →
      s.before.length < b₀.length ∨ b₀ ++ t₀ ++ ['('] <+: s.before := by
    intro b₀ t₀ hno
    exact length_lt_or_prefix m.name s.before _ b₀ t₀ hm.name_open hbound (hno m.name hname)
  refine ⟨s.before, m.definition.target, hquiet, ?_, ?_, hsite⟩
  · rw [Site.replaced]
    exact (List.prefix_append_right_inj _).mpr ⟨_, rfl⟩
  · intro hold
    rcases hsite s.before m.definition.target hquiet hold with hlt | hprefix
    · exact Nat.lt_irrefl _ hlt
    · have hle := hprefix.length_le
      simp only [List.length_append, List.length_cons] at hle
      omega

theorem expandLine_leftmost (style : CommentStyle) (place : Place) (names : List Text)
    (ms : List Macro) (line line' : Text) (n n' : Nat)
    (hms : ∀ m ∈ ms, m.WellFormed ∧ m.name ∈ names ∧
      ∀ x ∈ names, ¬Stands x m.definition.target)
    (h : expandLine style place ms line n = ⟨.ok (line', true), n'⟩) :
    ∃ b t, Leftmost names line line' b t := by
  induction ms generalizing line n with
  | nil => cases (Prod.mk.inj (Except.ok.inj (Counted.mk.inj h).1)).2
  | cons m ms ih =>
    obtain ⟨⟨hm, hname, hquiet⟩, htail⟩ := List.forall_mem_cons.mp hms
    rcases expandLine_cons style place m ms line line' n n' true h with
      ⟨-, hrest⟩ | ⟨mid, k, more, -, happly, hrest⟩
    · exact ih line n htail hrest
    · obtain ⟨b, t, hfirst⟩ :=
        leftmost_of_applies style place names m hm hname hquiet line mid n k happly
      cases more with
      | false =>
        obtain ⟨rfl, -, -⟩ := absent_of_expandLine style place ms mid line' k n' hrest
        exact ⟨b, t, hfirst⟩
      | true =>
        obtain ⟨b', t', hlater⟩ := ih mid k htail hrest
        exact hfirst.trans hlater

namespace MacroTable

/-- No macro of the table stands alone in the target of one. -/
def Aloof (t : MacroTable) : Prop :=
  ∀ m ∈ t.macros, ∀ x ∈ t.names, ¬Stands x m.definition.target

instance (t : MacroTable) : Decidable t.Aloof :=
  inferInstanceAs (Decidable (∀ m ∈ t.macros, _))

end MacroTable

theorem expandLine_ne (style : CommentStyle) (place : Place) (table : MacroTable)
    (line line' : Text) (n n' : Nat) (hwell : ∀ m ∈ table.macros, m.WellFormed)
    (haloof : table.Aloof)
    (h : expandLine style place table.macros line n = ⟨.ok (line', true), n'⟩) : line' ≠ line := by
  have hms : ∀ m ∈ table.macros, m.WellFormed ∧ m.name ∈ table.names ∧
      ∀ x ∈ table.names, ¬Stands x m.definition.target :=
    fun m hm => ⟨hwell m hm, List.mem_map_of_mem hm, haloof m hm⟩
  obtain ⟨b, t, hchange⟩ :=
    expandLine_leftmost style place table.names table.macros line line' n n' hms h
  rintro rfl
  exact hchange.fresh hchange.stays

end CommentMacros
