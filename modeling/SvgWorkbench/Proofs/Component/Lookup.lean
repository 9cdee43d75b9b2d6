import SvgWorkbench.Component.Lookup
import SvgWorkbench.Proofs.Tree.Subtrees

/-!
# What an id means

The components of a forest are its subtrees, and the component that an id means is one of them,
whether the id stands there as it is or is read as the name of a place.
-/

namespace SvgWorkbench.Component

open SvgWorkbench.Tree

/-- All components of a forest are its subtrees. -/
theorem all_eq (forest : List Component) : all forest = subtreesAll forest := visited_eq forest

theorem map_id_all (forest : List Component) :
    (all forest).map Component.id = (preorderAll forest).map Entry.id := by
  rw [all_eq, ← map_label_subtreesAll, List.map_map]
  rfl

variable {forest : List Component}

theorem mem_of_findExact? {id : String} {c : Component} (h : findExact? forest id = some c) :
    c ∈ subtreesAll forest ∧ c.id = id := by
  rw [findExact?, all_eq] at h
  exact ⟨List.mem_of_find?_eq_some h, by simpa using List.find?_some h⟩

theorem mem_of_nthChild? {c child : Component} {kind : String} {index : Nat}
    (h : nthChild? c kind index = some child) : child ∈ c.children :=
  (List.mem_filter.1 (List.mem_of_getElem? h)).1

theorem mem_of_nthFromRoot? {root c : Component} {kind : String} {index : Nat}
    (h : nthFromRoot? root kind index = some c) : c ∈ root.subtrees := by
  rw [nthFromRoot?.eq_def] at h
  split at h
  · split at h
    · cases h
      exact mem_subtrees_self root
    · exact mem_subtrees_of_mem_children (mem_of_nthChild? h)
  · exact mem_subtrees_of_mem_children (mem_of_nthChild? h)

/-- An id that a component has means a component that has it. -/
theorem exists_find?_of_mem {id : String} (h : id ∈ (all forest).map Component.id) :
    ∃ c, find? forest id = some c ∧ c.id = id := by
  obtain ⟨c', hc', hid⟩ := List.mem_map.1 h
  cases hexact : findExact? forest id with
  | some c => exact ⟨c, by rw [find?, hexact], (mem_of_findExact? hexact).2⟩
  | none => exact absurd (by simpa using hid) (List.find?_eq_none.1 hexact c' hc')

/-- The component that an id means is one of the forest. -/
theorem mem_of_find? {id : String} {c : Component} (h : find? forest id = some c) :
    c ∈ subtreesAll forest := by
  rw [find?] at h
  split at h
  · next hexact =>
    cases h
    exact (mem_of_findExact? hexact).1
  · simp only [resolve?] at h
    split at h
    · next group r hgrouped =>
      obtain ⟨r', -, hr'⟩ := List.exists_of_findSome?_eq_some hgrouped
      obtain ⟨group', hfind, heq⟩ := Option.map_eq_some_iff.1 hr'
      cases heq
      obtain ⟨id', -, hexact⟩ := Option.bind_eq_some_iff.1 hfind
      exact mem_subtreesAll_of_mem_children (mem_of_findExact? hexact).1 (mem_of_nthChild? h)
    · obtain ⟨r, -, hroot⟩ := Option.bind_eq_some_iff.1 h
      obtain ⟨root, hmem, hplace⟩ := List.exists_of_findSome?_eq_some hroot
      exact mem_subtreesAll_iff.2 ⟨root, hmem, mem_of_nthFromRoot? hplace⟩

/-! ## Ids that are not read as places -/

/-- Whether an id can only mean a component that has it: there is one, or the id is read as no
place. -/
def IsCertain (forest : List Component) (id : String) : Prop :=
  (∃ c ∈ all forest, Component.id c = id) ∨ IdReading.all id = []

/-- Whether an id stays certain when the components of another one are gone: it is read as no place,
or no component that has it is inside of one that has the other. -/
def IsApart (forest : List Component) (id id' : String) : Prop :=
  IdReading.all id' = [] ∨
    ∀ c ∈ all forest, Component.id c = id → ∀ d ∈ subtrees c, Component.id d ≠ id'

/-- What a certain id means has it. -/
theorem IsCertain.id_eq {id : String} (h : IsCertain forest id) {c : Component}
    (hfind : find? forest id = some c) : c.id = id := by
  rw [find?] at hfind
  split at hfind
  · next hexact =>
    cases hfind
    exact (mem_of_findExact? hexact).2
  · next hexact =>
    rcases h with ⟨c', hc', hid⟩ | hnone
    · exact absurd (by simpa using hid) (List.find?_eq_none.1 hexact c' hc')
    · rw [hnone] at hfind
      cases hfind

end SvgWorkbench.Component
