import CommentMacros.Text.Basic

namespace CommentMacros.Text

def byteLength : Text → Nat
  | [] => 0
  | c :: s => c.utf8Size + byteLength s

/-- The text cut at a byte offset, unless the offset lies past the end or inside a character. -/
def cutAt? : Nat → Text → Option (Text × Text)
  | 0, s => some ([], s)
  | _ + 1, [] => none
  | n + 1, c :: s =>
    if c.utf8Size ≤ n + 1 then
      (cutAt? (n + 1 - c.utf8Size) s).map fun parts => (c :: parts.1, parts.2)
    else none

@[simp] theorem byteLength_append (s t : Text) :
    byteLength (s ++ t) = byteLength s + byteLength t := by
  induction s with
  | nil => simp [byteLength]
  | cons c s ih => simp [byteLength, ih, Nat.add_assoc]

theorem cutAt?_byteLength (s t : Text) : cutAt? (byteLength s) (s ++ t) = some (s, t) := by
  induction s with
  | nil => simp [byteLength, cutAt?]
  | cons c s ih =>
    have hpos := c.utf8Size_pos
    obtain ⟨n, hn⟩ : ∃ n, c.utf8Size + byteLength s = n + 1 :=
      ⟨_, (Nat.succ_pred (by omega)).symm⟩
    have hsub : n + 1 - c.utf8Size = byteLength s := by omega
    have hle : c.utf8Size ≤ n + 1 := by omega
    simp [byteLength, hn, cutAt?, hle, hsub, ih]

theorem cutAt?_eq_some {n : Nat} {s l r : Text} (h : cutAt? n s = some (l, r)) :
    s = l ++ r ∧ byteLength l = n := by
  induction s generalizing n l with
  | nil =>
    cases n with
    | zero => simp [cutAt?] at h; simp [h, byteLength]
    | succ n => simp [cutAt?] at h
  | cons c s ih =>
    cases n with
    | zero => simp [cutAt?] at h; simp [h, byteLength]
    | succ n =>
      by_cases hc : c.utf8Size ≤ n + 1
      · simp only [cutAt?, hc, if_true, Option.map_eq_some_iff] at h
        obtain ⟨⟨l', r'⟩, hcut, heq⟩ := h
        obtain ⟨rfl, rfl⟩ := Prod.mk.inj heq
        obtain ⟨hs, hl⟩ := ih hcut
        exact ⟨by rw [hs]; rfl, by simp only [byteLength, hl]; omega⟩
      · simp [cutAt?, hc] at h

end CommentMacros.Text
