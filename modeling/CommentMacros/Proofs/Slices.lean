import CommentMacros.Proofs.Site

/-!
The readers of lines, signatures and definitions once more, on byte offsets: each looks for an
offset and cuts the text there. A cut may fail, if its offset lies past the end or inside a
character; none of these does, and the readers agree with those that take a text apart directly.
-/

namespace CommentMacros

namespace Text

def offsetOf? (a : Char) (s : Text) : Option Nat :=
  (cutFirst a s).map fun parts => byteLength parts.1

def lastOffsetOf? (a : Char) (s : Text) : Option Nat :=
  (cutLast a s).map fun parts => byteLength parts.1

def upTo? (s : Text) (i : Nat) : Option Text := (s.cutAt? i).map (·.1)

def from? (s : Text) (i : Nat) : Option Text := (s.cutAt? i).map (·.2)

def between? (s : Text) (i j : Nat) : Option Text := (s.upTo? j).bind (·.from? i)

theorem upTo?_byteLength (l r : Text) : (l ++ r).upTo? l.byteLength = some l := by
  rw [upTo?, cutAt?_byteLength]
  rfl

theorem from?_byteLength (l r : Text) : (l ++ r).from? l.byteLength = some r := by
  rw [from?, cutAt?_byteLength]
  rfl

theorem between?_byteLength (l mid r : Text) :
    (l ++ mid ++ r).between? l.byteLength (byteLength (l ++ mid)) = some mid := by
  rw [between?, upTo?_byteLength, Option.bind_some, from?_byteLength]

theorem length_from? (s r : Text) (i : Nat) (hi : 0 < i) (h : s.from? i = some r) :
    r.length < s.length := by
  obtain ⟨⟨l, r'⟩, hcut, rfl⟩ := Option.map_eq_some_iff.mp h
  obtain ⟨rfl, hl⟩ := cutAt?_eq_some hcut
  cases l with
  | nil =>
    rw [byteLength] at hl
    omega
  | cons c l =>
    simp only [List.length_append, List.length_cons]
    omega

theorem byteLength_concat (l : Text) (a : Char) (ha : a.utf8Size = 1) :
    byteLength (l ++ [a]) = byteLength l + 1 := by
  rw [byteLength_append, byteLength, ha, byteLength]

/-- The last `)` of a text, if it comes behind a given `(`, is the last one behind that `(`. -/
theorem lastOffsetOf?_behind (front tail : Text) :
    ((front ++ '(' :: tail).lastOffsetOf? ')').filter (fun j => front.byteLength < j) =
      (cutLast ')' tail).map fun parts => byteLength (front ++ '(' :: parts.1) := by
  cases htail : cutLast ')' tail with
  | some parts =>
    obtain ⟨list, closing⟩ := parts
    obtain ⟨rfl, hclosing⟩ := cutLast_eq_some htail
    have hcut : cutLast ')' (front ++ '(' :: (list ++ ')' :: closing)) =
        some (front ++ '(' :: list, closing) := by
      have happend := cutLast_append hclosing (front ++ '(' :: list)
      simpa using happend
    have hlt : front.byteLength < byteLength (front ++ '(' :: list) := by
      have hpos := Char.utf8Size_pos '('
      rw [byteLength_append, byteLength]
      omega
    rw [lastOffsetOf?, hcut, Option.map_some, Option.filter_some, if_pos (decide_eq_true hlt)]
    rfl
  | none =>
    have hno := cutLast_eq_none_iff.mp htail
    cases hcut : cutLast ')' (front ++ '(' :: tail) with
    | none =>
      rw [lastOffsetOf?, hcut]
      rfl
    | some parts =>
      obtain ⟨l, r⟩ := parts
      obtain ⟨hline, -⟩ := cutLast_eq_some hcut
      -- what comes before the last `)` is part of the front
      have hle : byteLength l ≤ byteLength front := by
        rcases List.append_eq_append_iff.mp hline with ⟨w, rfl, hw⟩ | ⟨w, rfl, hw⟩
        · cases w with
          | nil => cases hw
          | cons b w =>
            obtain ⟨-, rfl⟩ := List.cons.inj hw
            simp at hno
        · rw [byteLength_append]
          omega
      rw [lastOffsetOf?, hcut, Option.map_some, Option.filter_some,
        if_neg (by simpa using hle)]
      rfl

end Text

namespace Sliced

def standsAlone? (name line : Text) (i : Nat) : Option Bool :=
  (line.upTo? i).bind fun front =>
    (line.from? (i + name.byteLength)).map fun back =>
      !front.getLast?.any isWordChar && !back.head?.any isWordChar

def firstAlone? (name line : Text) : List Nat → Option (Option Nat)
  | [] => some none
  | i :: is =>
    match standsAlone? name line i with
    | none => none
    | some true => some (some i)
    | some false => firstAlone? name line is

def find? (style : CommentStyle) (name line : Text) : Option (Option Nat) :=
  if name = [] ∨ style.isComment line then some none
  else firstAlone? name line ((Occurrence.all name line).map Occurrence.offset)

theorem standsAlone?_eq (name line : Text) (o : Occurrence)
    (h : o.seen.reverse ++ name ++ o.rest = line) :
    standsAlone? name line o.offset = some o.standsAlone := by
  have hoffset : o.offset = Text.byteLength o.seen.reverse := (Text.byteLength_reverse o.seen).symm
  have hfront : line.upTo? o.offset = some o.seen.reverse := by
    rw [← h, List.append_assoc, hoffset]
    exact Text.upTo?_byteLength _ _
  have hback : line.from? (o.offset + name.byteLength) = some o.rest := by
    rw [← h, hoffset, ← Text.byteLength_append]
    exact Text.from?_byteLength _ _
  rw [standsAlone?, hfront, hback, Option.bind_some, Option.map_some, List.getLast?_reverse]
  rfl

theorem firstAlone?_eq (name line : Text) (os : List Occurrence)
    (h : ∀ o ∈ os, o.seen.reverse ++ name ++ o.rest = line) :
    firstAlone? name line (os.map Occurrence.offset) =
      some ((os.find? Occurrence.standsAlone).map Occurrence.offset) := by
  induction os with
  | nil => rfl
  | cons o os ih =>
    obtain ⟨ho, hos⟩ := List.forall_mem_cons.mp h
    rw [List.map_cons, firstAlone?, standsAlone?_eq name line o ho, List.find?_cons]
    cases o.standsAlone with
    | true => rfl
    | false => exact ih hos

/-- The search for a name cuts the line around each of its occurrences. -/
theorem find?_eq (style : CommentStyle) (name line : Text) :
    find? style name line = some (Occurrence.find? style name line) := by
  unfold find? Occurrence.find?
  split_ifs with hno
  · rfl
  · apply firstAlone?_eq
    intro o ho
    exact Occurrence.mem_allFrom name [] line 0 o ho

def signatureName (signature : Text) : Option (Except DefinitionFault Text) :=
  match signature.offsetOf? ')' with
  | none => some (.error .noClosingInSignature)
  | some close =>
    (signature.upTo? close).bind fun head =>
      match head.offsetOf? '(' with
      | none => some (.error .noOpeningInSignature)
      | some opening =>
        (signature.upTo? opening).map fun name =>
          if name = [] then .error .emptyName else .ok name

theorem signatureName_eq (signature : Text) :
    signatureName signature = some (CommentMacros.signatureName signature) := by
  unfold signatureName CommentMacros.signatureName
  cases hclose : cutFirst ')' signature with
  | none => simp [Text.offsetOf?, hclose]
  | some outer =>
    obtain ⟨head, rest⟩ := outer
    obtain ⟨rfl, -⟩ := cutFirst_eq_some hclose
    rw [Text.offsetOf?, hclose, Option.map_some]
    dsimp only
    rw [Text.upTo?_byteLength, Option.bind_some]
    cases hopen : cutFirst '(' head with
    | none => simp [Text.offsetOf?, hopen]
    | some inner =>
      obtain ⟨name, parameters⟩ := inner
      obtain ⟨rfl, -⟩ := cutFirst_eq_some hopen
      rw [Text.offsetOf?, hopen, Option.map_some]
      dsimp only
      rw [List.append_assoc, Text.upTo?_byteLength]
      rfl

def parseDefinition (s : Text) : Option (Except DefinitionFault Definition) :=
  match s.offsetOf? '(' with
  | none => some (.error .noOpening)
  | some opening =>
    match (s.lastOffsetOf? ')').filter (fun j => opening < j) with
    | none => some (.error .noClosing)
    | some close =>
      (s.upTo? opening).bind fun target =>
        if target = [] then some (.error .emptyName)
        else
          (s.between? (opening + 1) close).map fun list => .ok ⟨target, readArguments list⟩

theorem between?_parentheses (front list closing : Text) :
    Text.between? (front ++ '(' :: (list ++ ')' :: closing)) (front.byteLength + 1)
      (Text.byteLength (front ++ '(' :: list)) = some list := by
  have hcut := Text.between?_byteLength (front ++ ['(']) list (')' :: closing)
  rw [Text.byteLength_concat front '(' (by decide)] at hcut
  simpa using hcut

theorem parseDefinition_eq (s : Text) : parseDefinition s = some (Definition.parse s) := by
  unfold parseDefinition Definition.parse
  cases hopen : cutFirst '(' s with
  | none => simp [Text.offsetOf?, hopen]
  | some outer =>
    obtain ⟨target, tail⟩ := outer
    obtain ⟨rfl, -⟩ := cutFirst_eq_some hopen
    rw [Text.offsetOf?, hopen, Option.map_some]
    dsimp only
    rw [Text.lastOffsetOf?_behind]
    cases hclose : cutLast ')' tail with
    | none => rfl
    | some inner =>
      obtain ⟨list, closing⟩ := inner
      obtain ⟨rfl, -⟩ := cutLast_eq_some hclose
      rw [Option.map_some]
      dsimp only
      rw [Text.upTo?_byteLength, Option.bind_some, between?_parentheses]
      split_ifs with hnil
      · rfl
      · rfl

def parseAt (line : Text) (i : Nat) (name : Text) : Option (Except Failure Call) :=
  (line.from? (i + name.byteLength)).bind fun rest =>
    match rest.offsetOf? '(' with
    | none => some (.error (.notACall line))
    | some k =>
      match (line.lastOffsetOf? ')').filter (fun j => i + name.byteLength + k < j) with
      | none => some (.error (.notACall line))
      | some close =>
        (line.between? (i + name.byteLength + k + 1) close).bind fun list =>
          (line.upTo? i).bind fun before =>
            (line.from? close).map fun closing => .ok ⟨before, name, readArguments list, closing⟩

theorem parseAt_eq (before name rest : Text) :
    parseAt (before ++ name ++ rest) before.byteLength name =
      some (Call.parseAt (before ++ name ++ rest) before.byteLength name) := by
  have hrest : (before ++ name ++ rest).from? (before.byteLength + name.byteLength) =
      some rest := by
    rw [← Text.byteLength_append]
    exact Text.from?_byteLength _ _
  rw [parseAt, hrest, Option.bind_some, Call.parseAt, Text.cutAt?_behind]
  dsimp only
  cases hopen : cutFirst '(' rest with
  | none => simp [Text.offsetOf?, hopen]
  | some outer =>
    obtain ⟨gap, tail⟩ := outer
    obtain ⟨rfl, -⟩ := cutFirst_eq_some hopen
    rw [Text.offsetOf?, hopen, Option.map_some]
    dsimp only
    have hfront : before.byteLength + name.byteLength + Text.byteLength gap =
        Text.byteLength (before ++ name ++ gap) := by
      rw [Text.byteLength_append, Text.byteLength_append]
    have hline : before ++ name ++ (gap ++ '(' :: tail) = before ++ name ++ gap ++ '(' :: tail :=
      (List.append_assoc _ _ _).symm
    rw [hfront, hline, Text.lastOffsetOf?_behind]
    cases hclose : cutLast ')' tail with
    | none => rfl
    | some inner =>
      obtain ⟨list, closing⟩ := inner
      obtain ⟨rfl, -⟩ := cutLast_eq_some hclose
      have hbefore : (before ++ name ++ gap ++ '(' :: (list ++ ')' :: closing)).cutAt?
          before.byteLength = some (before, name ++ gap ++ '(' :: (list ++ ')' :: closing)) := by
        have hcut := Text.cutAt?_byteLength before (name ++ gap ++ '(' :: (list ++ ')' :: closing))
        simpa using hcut
      have hclosing : (before ++ name ++ gap ++ '(' :: (list ++ ')' :: closing)).from?
          (Text.byteLength (before ++ name ++ gap ++ '(' :: list)) = some (')' :: closing) := by
        have hcut := Text.from?_byteLength (before ++ name ++ gap ++ '(' :: list) (')' :: closing)
        simpa using hcut
      rw [Option.map_some]
      dsimp only
      rw [between?_parentheses, hclosing, Text.upTo?, hbefore]
      rfl

/-- Inside a letter there is nothing to cut. -/
example : parseAt "é()".toList 1 [] = none := by decide

end Sliced

end CommentMacros
