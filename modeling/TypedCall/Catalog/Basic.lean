import TypedCall.Component.Basic
/-!
# Catalogs

A catalog holds components by their ids, each id once, in increasing order of ids. Inserting a
component puts it in the place of an earlier one of the same id.
-/

namespace TypedCall

/-- Components in strictly increasing order of their ids. -/
structure Catalog where
  components : List Component
  sorted : components.Pairwise (·.id < ·.id)

/-- The component of an id. -/
def Component.withId? (id : String) : List Component → Option Component
  | [] => none
  | c :: rest => if c.id = id then some c else withId? id rest

/-- Put a component in its place: the component whose place it takes, and the list with the new
one. -/
def Component.place (c : Component) : List Component → Option Component × List Component
  | [] => (none, [c])
  | d :: rest =>
    if c.id = d.id then (some d, c :: rest)
    else if c.id < d.id then (none, c :: d :: rest)
    else
      let (replaced, rest) := place c rest
      (replaced, d :: rest)

/-- Nothing but the new component is added to the list. -/
theorem Component.mem_of_mem_place {c x : Component} {cs : List Component}
    (h : x ∈ (c.place cs).2) : x = c ∨ x ∈ cs := by
  induction cs with
  | nil => simpa [place] using h
  | cons d rest ih =>
    rw [place] at h
    split at h
    · exact (List.mem_cons.mp h).imp_right (List.mem_cons_of_mem _)
    · split at h
      · exact List.mem_cons.mp h
      · rcases List.mem_cons.mp h with rfl | h
        · exact .inr List.mem_cons_self
        · exact (ih h).imp_right (List.mem_cons_of_mem _)

/-- A list in order stays in order. -/
theorem Component.pairwise_place (c : Component) {cs : List Component}
    (h : cs.Pairwise (·.id < ·.id)) : (c.place cs).2.Pairwise (·.id < ·.id) := by
  induction cs with
  | nil => simp [place]
  | cons d rest ih =>
    obtain ⟨first, others⟩ := List.pairwise_cons.mp h
    rw [place]
    split
    · rename_i same
      exact List.pairwise_cons.mpr ⟨fun x hx => same ▸ first x hx, others⟩
    · rename_i differs
      split
      · rename_i below
        refine List.pairwise_cons.mpr ⟨fun x hx => ?_, h⟩
        rcases List.mem_cons.mp hx with rfl | hx
        · exact below
        · exact String.lt_trans below (first x hx)
      · rename_i above
        refine List.pairwise_cons.mpr ⟨fun x hx => ?_, ih others⟩
        rcases mem_of_mem_place hx with rfl | hx
        · rcases String.le_total d.id x.id with le | le
          · exact Decidable.byContradiction fun no =>
              differs (String.le_antisymm (String.not_lt.mp no) le)
          · exact absurd (Decidable.byContradiction fun no =>
              differs (String.le_antisymm le (String.not_lt.mp no))) above
        · exact first x hx

namespace Catalog

/-- The catalog without components. -/
def empty : Catalog := ⟨[], .nil⟩

instance : Inhabited Catalog := ⟨empty⟩

/-- The component of an id. -/
def get? (catalog : Catalog) (id : String) : Option Component :=
  Component.withId? id catalog.components

/-- The number of components. -/
def size (catalog : Catalog) : Nat := catalog.components.length

/-- Are there no components? -/
def isEmpty (catalog : Catalog) : Bool := catalog.components.isEmpty

/-- Insert a component: the one it replaces, and the catalog with the new one. -/
def insert (catalog : Catalog) (c : Component) : Option Component × Catalog :=
  ((c.place catalog.components).1,
    ⟨(c.place catalog.components).2, c.pairwise_place catalog.sorted⟩)

/-- Insert components one after the other. -/
def insertAll (catalog : Catalog) (cs : List Component) : Catalog :=
  cs.foldl (fun catalog c => (catalog.insert c).2) catalog

/-- Find a function by the id of its component and the names of its export and its own. -/
def find (catalog : Catalog) (id exportName function : String) : Except LookupError Callable :=
  match catalog.get? id with
  | none => .error (.componentNotFound id)
  | some c => c.find exportName function

end Catalog

end TypedCall
