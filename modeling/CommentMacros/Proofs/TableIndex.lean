import CommentMacros.MacroTable
import Mathlib.Data.List.Basic
import Mathlib.Tactic.SplitIfs

namespace CommentMacros

instance : Hashable Text := @instHashableList Char instHashableChar

/-- Beside the macros in their order the table has, for every name, the place of its macro. The two
cannot come apart. -/
structure IndexedTable where
  macros : List Macro
  index : Std.HashMap Text Nat
  indexed : ∀ (name : Text) (i : Nat),
    index[name]? = some i ↔ ∃ m, macros[i]? = some m ∧ m.name = name

namespace IndexedTable

def table (t : IndexedTable) : MacroTable := ⟨t.macros⟩

def empty : IndexedTable := ⟨[], ∅, by simp⟩

theorem lt_length (t : IndexedTable) {name : Text} {i : Nat} (h : t.index[name]? = some i) :
    i < t.macros.length := by
  obtain ⟨m, hm, -⟩ := (t.indexed name i).mp h
  exact (List.getElem?_eq_some_iff.mp hm).1

def get? (t : IndexedTable) (name : Text) : Option Definition :=
  match h : t.index[name]? with
  | none => none
  | some i => some (t.macros.get ⟨i, t.lt_length h⟩).definition

theorem mem_index_iff (t : IndexedTable) (name : Text) :
    name ∈ t.index ↔ name ∈ t.table.names := by
  rw [← Std.HashMap.isSome_getElem?_iff_mem, Option.isSome_iff_exists]
  constructor
  · rintro ⟨i, hi⟩
    obtain ⟨m, hm, rfl⟩ := (t.indexed name i).mp hi
    exact List.mem_map_of_mem (List.mem_of_getElem? hm)
  · intro h
    obtain ⟨m, hm, hname⟩ := List.mem_map.mp h
    obtain ⟨i, hi⟩ := List.mem_iff_getElem?.mp hm
    exact ⟨i, (t.indexed name i).mpr ⟨m, hi, hname⟩⟩

theorem indexed_push (t : IndexedTable) (m : Macro) (h : m.name ∉ t.index) (name : Text)
    (i : Nat) :
    (t.index.insert m.name t.macros.length)[name]? = some i ↔
      ∃ m', (t.macros ++ [m])[i]? = some m' ∧ m'.name = name := by
  have hget : ∀ m', (t.macros ++ [m])[i]? = some m' ↔
      t.macros[i]? = some m' ∨ t.macros.length = i ∧ m = m' := by
    intro m'
    rw [List.getElem?_append]
    split_ifs with hi
    · exact ⟨Or.inl, fun hm => hm.resolve_right fun hlast => by omega⟩
    · rw [List.getElem?_eq_none (Nat.le_of_not_lt hi), List.getElem?_singleton]
      split_ifs with hzero
      · simp only [Option.some.injEq, false_or]
        exact ⟨fun hm => ⟨by omega, hm⟩, fun hm => hm.2⟩
      · simp only [false_or, false_iff, not_and]
        omega
  simp only [hget]
  rw [Std.HashMap.getElem?_insert]
  by_cases hname : m.name = name
  · subst hname
    rw [if_pos BEq.rfl, Option.some.injEq]
    constructor
    · intro hi
      exact ⟨m, Or.inr ⟨hi, rfl⟩, rfl⟩
    · rintro ⟨m', hm' | ⟨hi, -⟩, heq⟩
      · -- the name would have been in the index already
        have hold : m.name ∈ t.table.names := by
          rw [← heq]
          exact List.mem_map_of_mem (List.mem_of_getElem? hm')
        exact absurd ((t.mem_index_iff m.name).mpr hold) h
      · exact hi
  · rw [if_neg (by simpa using hname), t.indexed name i]
    constructor
    · rintro ⟨m', hm', heq⟩
      exact ⟨m', Or.inl hm', heq⟩
    · rintro ⟨m', hm' | ⟨-, rfl⟩, heq⟩
      · exact ⟨m', hm', heq⟩
      · exact absurd heq hname

/-- Adds a macro under a name that is not taken. -/
def push (t : IndexedTable) (m : Macro) (h : m.name ∉ t.index) : IndexedTable where
  macros := t.macros ++ [m]
  index := t.index.insert m.name t.macros.length
  indexed := t.indexed_push m h

def add (t : IndexedTable) (d : Declaration) : Except DefinitionFault IndexedTable :=
  match signatureName d.signature with
  | .error fault => .error fault
  | .ok name =>
    if h : name ∈ t.index then .error (.duplicate name)
    else
      match Definition.parse d.expansion with
      | .error fault => .error fault
      | .ok definition => .ok (t.push ⟨name, definition⟩ h)

def addAll (file : Path) : IndexedTable → List Declaration → Except Failure IndexedTable
  | t, [] => .ok t
  | t, d :: ds =>
    match t.add d with
    | .error fault => .error (.atDeclaration d.text file (.badDefinition fault))
    | .ok t => addAll file t ds

def ofLines (style : CommentStyle) (file : Path) (lines : List Text) :
    Except Failure IndexedTable :=
  addAll file empty (lines.filterMap (Declaration.read? style))

theorem add_table (t : IndexedTable) (d : Declaration) :
    (t.add d).map table = t.table.add d := by
  unfold add MacroTable.add
  cases signatureName d.signature with
  | error fault => rfl
  | ok name =>
    dsimp only
    by_cases htaken : name ∈ t.index
    · rw [dif_pos htaken, if_pos ((t.mem_index_iff name).mp htaken)]
      rfl
    · rw [dif_neg htaken, if_neg (mt (t.mem_index_iff name).mpr htaken)]
      cases Definition.parse d.expansion with
      | error fault => rfl
      | ok definition => rfl

theorem addAll_table (file : Path) (t : IndexedTable) (ds : List Declaration) :
    (addAll file t ds).map table = MacroTable.addAll file t.table ds := by
  induction ds generalizing t with
  | nil => rfl
  | cons d ds ih =>
    rw [addAll, MacroTable.addAll, ← add_table]
    cases t.add d with
    | error fault => rfl
    | ok next => exact ih next

/-- With or without an index, the same files have a table, and the same one. -/
theorem ofLines_table (style : CommentStyle) (file : Path) (lines : List Text) :
    (ofLines style file lines).map table = MacroTable.ofLines style file lines :=
  addAll_table file empty _

/-- The index finds what a search through the macros finds. -/
theorem get?_eq (t : IndexedTable) (name : Text) : t.get? name = t.table.find? name := by
  unfold get? MacroTable.find?
  split
  · rename_i hnone
    have hno : t.macros.find? (·.name == name) = none := by
      rw [List.find?_eq_none]
      intro m hm heq
      obtain ⟨i, hi⟩ := List.mem_iff_getElem?.mp hm
      have hsome := (t.indexed name i).mpr ⟨m, hi, eq_of_beq heq⟩
      rw [hnone] at hsome
      cases hsome
    rw [table, hno]
    rfl
  · rename_i i hi
    have hlt := t.lt_length hi
    obtain ⟨m, hm, hname⟩ := (t.indexed name i).mp hi
    have hget : t.macros[i] = m := (List.getElem?_eq_some_iff.mp hm).2
    have hfind : t.macros.find? (·.name == name) = some t.macros[i] := by
      rw [List.find?_eq_some_iff_getElem]
      refine ⟨by simp [hget, hname], i, hlt, rfl, ?_⟩
      intro j hj
      -- a macro of that name further in front would be the one in the index
      have hother : t.macros[j].name ≠ name := by
        intro heq
        have hsome := (t.indexed name j).mpr
          ⟨t.macros[j], List.getElem?_eq_getElem (Nat.lt_trans hj hlt), heq⟩
        rw [hi] at hsome
        have hsame := Option.some.inj hsome
        omega
      simpa using hother
    rw [table, hfind]
    rfl

end IndexedTable

end CommentMacros
