import SvgWorkbench.Proofs.Component.Lookup
import SvgWorkbench.Proofs.Tree.Tour

/-!
# Components in document order

The components of a forest are those of a tour of it. So their flat list has every component before
those inside of it, and an id that some components have means the first of these.
-/

namespace SvgWorkbench.Component

open SvgWorkbench.Tree

/-- The entry of a component in a flat list. -/
def flat (withAttributes : Bool) (c : Component) : Flat :=
  ⟨c.label.heading, if withAttributes then some c.label.attributes else none⟩

theorem map_tree_stopsAll (forest : List Component) :
    (stopsAll forest).map Stop.tree = all forest :=
  (map_tree_stopsFrom 0 forest).trans (all_eq forest).symm

theorem flatten_eq_map_stopsAll (withAttributes : Bool) (forest : List Component) :
    flatten withAttributes forest = (stopsAll forest).map fun x ↦ flat withAttributes x.tree := by
  rw [flatten, ← map_tree_stopsAll, List.map_map]
  rfl

/-- An id that some component has means the first one that has it. -/
theorem exists_find?_isFirst {forest : List Component} {id : String}
    (hid : ∃ q, ∃ d : Component, reachAll? forest q = some d ∧ d.id = id) :
    ∃ c, find? forest id = some c ∧ IsFirst (reachAll? forest) (fun d ↦ Component.id d = id) c := by
  obtain ⟨c, hfind, hfirst⟩ := (isTour_stopsAll forest).exists_find?
    (fun c : Component ↦ c.id == id)
    (hid.imp fun q ↦ Exists.imp fun d ↦ And.imp_right beq_iff_eq.2)
  have hexact : findExact? forest id = some c := by rw [findExact?, ← map_tree_stopsAll, hfind]
  exact ⟨c, by rw [find?, hexact], by simpa only [beq_iff_eq] using hfirst⟩

/-- **A walk with a stack is the recursive preorder.** A call takes the last tree of a row off and
puts its children there in reverse; the calls end, and answer a tree and then the walks over its
children, every node once and what is below it without interruption. So the components of a forest
are a tour of it, their flat list has each before those inside of it, and an id that some components
have means the one of them at the least address. -/
theorem isWalked_and_isTour_all (forest : List Component) (withAttributes : Bool) :
    (∀ row : Array Component, (Walk.ofRow row).next? =
        row.back?.map fun c ↦ (c, Walk.ofRow (row.pop ++ c.children.reverse))) ∧
      (∀ c : Component, Walk.start c = Walk.ofRow #[c] ∧ IsWalked c) ∧
      ((stopsAll forest).map Stop.tree = all forest ∧
        IsTour (reachAll? forest) (stopsAll forest)) ∧
      (flatten withAttributes forest
          = (stopsAll forest).map (fun x ↦ flat withAttributes x.tree) ∧
        ∀ i j : Nat, ∀ x y : Stop Entry, (stopsAll forest)[i]? = some x →
          (stopsAll forest)[j]? = some y → x.address <+: y.address → x.address ≠ y.address →
            i < j) ∧
      ∀ id, (∃ q, ∃ d : Component, reachAll? forest q = some d ∧ d.id = id) →
        ∃ c, find? forest id = some c ∧
          IsFirst (reachAll? forest) (fun d ↦ Component.id d = id) c :=
  ⟨Walk.next?_ofRow, fun c ↦ ⟨Walk.start_eq_ofRow c, isWalked c⟩,
    ⟨map_tree_stopsAll forest, isTour_stopsAll forest⟩,
    ⟨flatten_eq_map_stopsAll withAttributes forest,
      fun _ _ _ _ ↦ (isTour_stopsAll forest).lt_of_isPrefix⟩,
    fun _ ↦ exists_find?_isFirst⟩

/-- A group stands at two addresses, and its components share an id with the one in between. -/
theorem isWalked_and_isTour_all_of_repeated :
    let entry (id kind : String) (parent : Option String) : Entry := ⟨id, kind, parent, .empty⟩
    let rect (id : String) : Component := .node (entry id "rect" (some "a")) []
    let group : Component := .node (entry "a" "g" (some "svg-0")) [rect "b", rect "c"]
    let circle : Component := .node (entry "b" "circle" (some "svg-0")) []
    let forest : List Component := [.node (entry "svg-0" "svg" none) [group, circle, group]]
    ((all forest).map Component.id = ["svg-0", "a", "b", "c", "b", "a", "b", "c"] ∧
        IsTour (reachAll? forest) (stopsAll forest)) ∧
      ((stopsAll forest)[5]? = some ⟨[0, 2], group⟩ ∧
        (stopsAll forest)[7]? = some ⟨[0, 2, 1], rect "c"⟩ ∧ [0, 2] <+: [0, 2, 1] ∧
        [0, 2] ≠ [0, 2, 1] ∧ 5 < 7) ∧
      (reachAll? forest [0, 1] = some circle ∧ circle.id = "b" ∧
        ∃ c, find? forest "b" = some c ∧
          IsFirst (reachAll? forest) (fun d ↦ Component.id d = "b") c) := by
  intro entry rect group circle forest
  obtain ⟨-, -, ⟨hall, htour⟩, ⟨-, hbefore⟩, hfind⟩ := isWalked_and_isTour_all forest false
  have hgroup : (stopsAll forest)[5]? = some ⟨[0, 2], group⟩ := rfl
  have hrect : (stopsAll forest)[7]? = some ⟨[0, 2, 1], rect "c"⟩ := rfl
  have hprefix : [0, 2] <+: [0, 2, 1] := ⟨[1], rfl⟩
  have hcircle : reachAll? forest [0, 1] = some circle := rfl
  exact ⟨⟨hall ▸ rfl, htour⟩,
    ⟨hgroup, hrect, hprefix, by decide, hbefore 5 7 _ _ hgroup hrect hprefix (by decide)⟩,
    hcircle, rfl, hfind "b" ⟨[0, 1], circle, hcircle, rfl⟩⟩

end SvgWorkbench.Component
