import CommentMacros.Text.Basic

/-!
How alike two words are, between 0 and 1. Letters are paired off from the left: each takes the
first equal letter of the other word that is still free and not too far from its own place. The
score is the mean of three shares: of the one word and of the other that is paired, and of the
pairs that stand in order. It is reckoned in double precision.
-/

namespace CommentMacros.Text

/-- A letter, and whether it is taken. -/
abbrev Mark := Char × Bool

def taken (marks : List Mark) : Text := (marks.filter Prod.snd).map Prod.fst

/-- Takes the first free `c` among the letters from place `start` to before place `stop`. -/
def take? (c : Char) : (start stop : Nat) → List Mark → Option (List Mark)
  | _, 0, _ => none
  | _, _ + 1, [] => none
  | start + 1, stop + 1, m :: marks => (take? c start stop marks).map (m :: ·)
  | 0, stop + 1, m :: marks =>
    if m = (c, false) then some ((c, true) :: marks) else (take? c 0 stop marks).map (m :: ·)

/-- Pairs the letters of a word whose first stands at place `i` with the free letters that are at
most `reach` places off. The result is the letters that found a partner and the marks then. -/
def pairOff (reach : Nat) : Nat → Text → List Mark → Text × List Mark
  | _, [], marks => ([], marks)
  | i, c :: s, marks =>
    match take? c (i - reach) (i + reach + 1) marks with
    | none => pairOff reach (i + 1) s marks
    | some marks =>
      let rest := pairOff reach (i + 1) s marks
      (c :: rest.1, rest.2)

def paired (s t : Text) : Text × Text :=
  let r := pairOff (max s.length t.length / 2 - 1) 0 s (t.map (·, false))
  (r.1, taken r.2)

/-- Two pairs that stand in each other's place count once. -/
def swaps (p : Text × Text) : Nat := ((p.1.zip p.2).filter fun c => c.1 != c.2).length / 2

def similarity (s t : Text) : Float :=
  let p := paired s t
  let pairs := p.1.length
  if s = [] ∧ t = [] then 1
  else if pairs = 0 then 0
  else
    (pairs.toFloat / s.length.toFloat + pairs.toFloat / t.length.toFloat +
      (pairs - swaps p).toFloat / pairs.toFloat) / 3

end CommentMacros.Text
