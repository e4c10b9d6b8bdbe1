import CommentMacros.Path

namespace CommentMacros

/-- The names that lead from the top of the tree to a place in it. -/
abbrev Route := List Bytes

inductive Node where
  | file (content : Bytes)
  | directory
  | link (target : Path)
  deriving DecidableEq, Repr

/-- Routes are compared name by name and names byte by byte, so that a directory comes right before
its content and the entries read as a walk through the tree. Relative paths start from the home
directory. -/
structure Tree where
  entries : List (Route × Node)
  ordered : entries.Pairwise fun a b => a.1 < b.1
  home : Route

namespace Tree

def empty : Tree := ⟨[], .nil, []⟩

def putEntry (r : Route) (x : Node) : List (Route × Node) → List (Route × Node)
  | [] => [(r, x)]
  | e :: es =>
    if e.1 < r then e :: putEntry r x es
    else if e.1 = r then (r, x) :: es
    else (r, x) :: e :: es

theorem mem_putEntry {r : Route} {x : Node} {es : List (Route × Node)} {e : Route × Node}
    (h : e ∈ putEntry r x es) : e = (r, x) ∨ e ∈ es := by
  induction es with
  | nil => simpa [putEntry] using h
  | cons d es ih =>
    unfold putEntry at h
    split at h
    · rcases List.mem_cons.mp h with rfl | h
      · simp
      · rcases ih h with h | h <;> simp [h]
    · split at h
      · rcases List.mem_cons.mp h with rfl | h <;> simp [*]
      · exact List.mem_cons.mp h

theorem putEntry_ordered {r : Route} {x : Node} {es : List (Route × Node)}
    (h : es.Pairwise fun a b => a.1 < b.1) :
    (putEntry r x es).Pairwise fun a b => a.1 < b.1 := by
  induction es with
  | nil => simp [putEntry]
  | cons d es ih =>
    obtain ⟨hd, hes⟩ := List.pairwise_cons.mp h
    unfold putEntry
    split
    · rename_i hlt
      refine List.pairwise_cons.mpr ⟨?_, ih hes⟩
      intro e he
      rcases mem_putEntry he with rfl | he
      · exact hlt
      · exact hd e he
    · rename_i hge
      split
      · rename_i heq
        exact List.pairwise_cons.mpr ⟨fun e he => heq ▸ hd e he, hes⟩
      · rename_i hne
        have hlt : r < d.1 := (List.le_iff_lt_or_eq.mp (List.not_lt.mp hge)).resolve_right
          fun h => hne h.symm
        refine List.pairwise_cons.mpr ⟨?_, h⟩
        intro e he
        rcases List.mem_cons.mp he with rfl | he
        · exact hlt
        · exact List.lt_trans hlt (hd e he)

def put (t : Tree) (r : Route) (x : Node) : Tree :=
  ⟨putEntry r x t.entries, putEntry_ordered t.ordered, t.home⟩

/-- What lies at a route. The top of the tree is a directory. -/
def node? (t : Tree) (r : Route) : Option Node :=
  if r = [] then some .directory else (t.entries.find? (·.1 == r)).map (·.2)

def isDirectoryAt (t : Tree) (r : Route) : Bool := t.node? r == some .directory

def read? (t : Tree) (r : Route) : Option Bytes :=
  match t.node? r with
  | some (.file content) => some content
  | _ => none

def write (t : Tree) (r : Route) (content : Bytes) : Tree := t.put r (.file content)

theorem find?_putEntry {r s : Route} {x : Node} {es : List (Route × Node)}
    (h : es.Pairwise fun a b => a.1 < b.1) :
    ((putEntry r x es).find? (·.1 == s)).map (·.2) =
      if s = r then some x else (es.find? (·.1 == s)).map (·.2) := by
  induction es with
  | nil => by_cases hs : s = r <;> simp [putEntry, hs, Ne.symm]
  | cons d es ih =>
    obtain ⟨hd, hes⟩ := List.pairwise_cons.mp h
    unfold putEntry
    split
    · rename_i hlt
      by_cases hds : d.1 = s
      · have hne : s ≠ r := by
          intro hsr
          rw [hds, hsr] at hlt
          exact List.lt_irrefl r hlt
        simp [hds, hne]
      · simp only [List.find?_cons, beq_eq_false_iff_ne.mpr hds, ih hes]
    · split
      · rename_i heq
        by_cases hs : s = r
        · simp [hs]
        · simp [heq, Ne.symm hs, hs]
      · by_cases hs : s = r
        · simp [hs]
        · simp [List.find?_cons, Ne.symm hs, hs]

theorem read?_write {t : Tree} {r s : Route} {content : Bytes} (hr : r ≠ []) :
    (t.write r content).read? s = if s = r then some content else t.read? s := by
  by_cases hs : s = []
  · have hne : s ≠ r := fun h => hr (h ▸ hs)
    simp [read?, node?, hs, Ne.symm hr]
  · have hput : (t.write r content).node? s =
        if s = r then some (.file content) else t.node? s := by
      simp only [write, put, node?, hs, if_false]
      exact find?_putEntry t.ordered
    unfold read?
    rw [hput]
    by_cases hsr : s = r <;> simp [hsr]

end Tree

end CommentMacros
