namespace CommentMacros

/-- A run of characters: a line, a name, a template, a message. -/
abbrev Text := List Char

/-- Cuts a list at the first occurrence of `a`, which belongs to neither part. -/
def cutFirst {α : Type} [DecidableEq α] (a : α) : List α → Option (List α × List α)
  | [] => none
  | b :: bs =>
    if b = a then some ([], bs)
    else (cutFirst a bs).map fun parts => (b :: parts.1, parts.2)

/-- Cuts a list at the last occurrence of `a`, which belongs to neither part. -/
def cutLast {α : Type} [DecidableEq α] (a : α) : List α → Option (List α × List α)
  | [] => none
  | b :: bs =>
    match cutLast a bs with
    | some parts => some (b :: parts.1, parts.2)
    | none => if b = a then some ([], bs) else none

def afterLead? {α : Type} [DecidableEq α] : List α → List α → Option (List α)
  | [], s => some s
  | _ :: _, [] => none
  | a :: lead, b :: s => if a = b then afterLead? lead s else none

theorem cutFirst_eq_some {α : Type} [DecidableEq α] {a : α} {s l r : List α}
    (h : cutFirst a s = some (l, r)) : s = l ++ a :: r ∧ a ∉ l := by
  induction s generalizing l with
  | nil => simp [cutFirst] at h
  | cons b bs ih =>
    by_cases hb : b = a
    · simp only [cutFirst, hb, if_true, Option.some.injEq, Prod.mk.injEq] at h
      obtain ⟨rfl, rfl⟩ := h
      simp [hb]
    · simp only [cutFirst, hb, if_false, Option.map_eq_some_iff] at h
      obtain ⟨⟨l', r'⟩, hcut, heq⟩ := h
      obtain ⟨rfl, rfl⟩ := Prod.mk.inj heq
      obtain ⟨hs, hl⟩ := ih hcut
      exact ⟨by rw [hs]; rfl, by simp [Ne.symm hb, hl]⟩

theorem cutFirst_append {α : Type} [DecidableEq α] {a : α} {l : List α} (h : a ∉ l)
    (r : List α) : cutFirst a (l ++ a :: r) = some (l, r) := by
  induction l with
  | nil => simp [cutFirst]
  | cons b l ih =>
    simp only [List.mem_cons, not_or] at h
    simp [cutFirst, Ne.symm h.1, ih h.2]

theorem cutFirst_eq_none_iff {α : Type} [DecidableEq α] {a : α} {s : List α} :
    cutFirst a s = none ↔ a ∉ s := by
  induction s with
  | nil => simp [cutFirst]
  | cons b bs ih =>
    by_cases hb : b = a
    · simp [cutFirst, hb]
    · simp [cutFirst, hb, Ne.symm hb, ih]

theorem cutLast_eq_none_iff {α : Type} [DecidableEq α] {a : α} {s : List α} :
    cutLast a s = none ↔ a ∉ s := by
  induction s with
  | nil => simp [cutLast]
  | cons b bs ih =>
    cases hcut : cutLast a bs with
    | some parts =>
      have hmem : a ∈ bs := by
        apply Decidable.byContradiction
        intro hn
        rw [ih.mpr hn] at hcut
        cases hcut
      simp [cutLast, hcut, hmem]
    | none =>
      have hn := ih.mp hcut
      by_cases hb : b = a
      · simp [cutLast, hcut, hb]
      · simp [cutLast, hcut, hb, Ne.symm hb, hn]

theorem cutLast_eq_some {α : Type} [DecidableEq α] {a : α} {s l r : List α}
    (h : cutLast a s = some (l, r)) : s = l ++ a :: r ∧ a ∉ r := by
  induction s generalizing l with
  | nil => simp [cutLast] at h
  | cons b bs ih =>
    cases hcut : cutLast a bs with
    | some parts =>
      simp only [cutLast, hcut, Option.some.injEq, Prod.mk.injEq] at h
      obtain ⟨rfl, rfl⟩ := h
      obtain ⟨hs, hr⟩ := ih hcut
      exact ⟨by rw [hs]; simp, hr⟩
    | none =>
      by_cases hb : b = a
      · simp only [cutLast, hcut, hb, if_true, Option.some.injEq, Prod.mk.injEq] at h
        obtain ⟨rfl, rfl⟩ := h
        exact ⟨by simp [hb], cutLast_eq_none_iff.mp hcut⟩
      · simp [cutLast, hcut, hb] at h

theorem cutLast_append {α : Type} [DecidableEq α] {a : α} {r : List α} (h : a ∉ r)
    (l : List α) : cutLast a (l ++ a :: r) = some (l, r) := by
  induction l with
  | nil => simp [cutLast, cutLast_eq_none_iff.mpr h]
  | cons b l ih => simp [cutLast, ih]

theorem afterLead?_eq_some_iff {α : Type} [DecidableEq α] {lead s r : List α} :
    afterLead? lead s = some r ↔ s = lead ++ r := by
  induction lead generalizing s with
  | nil => simp [afterLead?]
  | cons a lead ih =>
    cases s with
    | nil => simp [afterLead?]
    | cons b s =>
      by_cases hab : a = b
      · subst hab; simp [afterLead?, ih]
      · simp [afterLead?, hab, Ne.symm hab]

end CommentMacros
