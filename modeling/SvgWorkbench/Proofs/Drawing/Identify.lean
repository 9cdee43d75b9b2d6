import SvgWorkbench.Proofs.Drawing.Retouched
import SvgWorkbench.Proofs.Markup.Element
import SvgWorkbench.Proofs.Naming
import SvgWorkbench.Proofs.Tree.Rel

/-!
# Giving out ids

The walk that gives out ids changes labels only: an element without an id gets one at the end of its
attributes, all else stays. The components it returns are those of the markup it leaves behind,
every element it has passed has an id, and where all elements have ids already it changes nothing.
-/

namespace SvgWorkbench

open SvgWorkbench.Tree

namespace Drawing

theorem id?_identify (e : Element) (scope : Option String) (naming : Naming) :
    (identify e scope naming).2.1.id? = some (identify e scope naming).1 := by
  rw [identify]
  split
  · next h => exact h
  · exact Element.id?_set e (formatId_ne_empty e.kind scope _)

theorem identify_of_id? {e : Element} {id : String} (h : e.id? = some id) (scope : Option String)
    (naming : Naming) : identify e scope naming = (id, e, naming.skip e.kind scope) := by
  rw [identify, h]

@[simp] theorem kind_identify (e : Element) (scope : Option String) (naming : Naming) :
    (identify e scope naming).2.1.kind = e.kind := by
  rw [identify]
  split <;> rfl

@[simp] theorem name_identify (e : Element) (scope : Option String) (naming : Naming) :
    (identify e scope naming).2.1.name = e.name := by
  rw [identify]
  split <;> rfl

/-! ## Labels that get an id -/

/-- What giving out ids does to the content of a node: nothing, or an element without an id gets
one, which is `good`. -/
inductive IdGiven (good : String → Prop) : Content → Content → Prop where
  /-- The content stays. -/
  | same (c : Content) : IdGiven good c c
  /-- The element gets an id. -/
  | given {e : Element} {id : String} (hnone : e.id? = none) (hgood : good id) :
    IdGiven good (.element e) (.element (e.set "id" id))

variable {good : String → Prop}

/-- An element that is given an id had none. -/
theorem IdGiven.retouched {c c' : Content} (h : IdGiven good c c') :
    Markup.Retouched (· = "") c c' := by
  cases h with
  | same c => exact .same c
  | given hnone _ => exact .element rfl (by rw [hnone, Option.getD_none])

theorem IdGiven.isElement_eq {c c' : Content} (h : IdGiven good c c') :
    c'.isElement = c.isElement := h.retouched.isElement_eq

/-- Giving out ids retouches markup. -/
theorem relAll_retouched {ts us : List (Tree Content)} (h : RelAll (IdGiven good) ts us) :
    RelAll (Markup.Retouched (· = "")) ts us := h.imp fun _ _ _ hgiven ↦ hgiven.retouched

/-! ## The walk -/

/-- Naming a node that is an element: its id, its children in the scope that is theirs, and the
component made of them. -/
theorem name_element (parent scope : Option String) (naming : Naming) (h : Handle) (e : Element)
    (ts : List Node) :
    name parent scope naming (.node ⟨h, .element e⟩ ts) =
      let i := identify e scope naming
      let r := nameAll (some i.1) (parent.map fun _ ↦ i.1) i.2.2 ts
      ([.node ⟨i.1, i.2.1.kind, parent, attributesOf i.2.1 (.node ⟨h, .element e⟩ ts)⟩ r.1],
        .node ⟨h, .element i.2.1⟩ r.2.1, r.2.2) := rfl

/-- A node that is no element is passed over. -/
theorem name_of_isElement_eq_false {c : Content} (hc : c.isElement = false)
    (parent scope : Option String) (naming : Naming) (h : Handle) (ts : List Node) :
    name parent scope naming (.node ⟨h, c⟩ ts) = ([], .node ⟨h, c⟩ ts, naming) := by
  cases c <;> first | rfl | cases hc

theorem nameAll_cons (parent scope : Option String) (naming : Naming) (t : Node) (ts : List Node) :
    nameAll parent scope naming (t :: ts) =
      let r := name parent scope naming t
      let rs := nameAll parent scope r.2.2 ts
      (r.1 ++ rs.1, r.2.1 :: rs.2.1, rs.2.2) := rfl

/-- A condition on elements under which all ids, those they have and those they are given, are
`good`. -/
structure GivesGood (good : String → Prop) (P : Element → Prop) : Prop where
  /-- The ids that are there are good. -/
  own : ∀ e id, P e → e.id? = some id → good id
  /-- The ids that are given out in a good scope are good. -/
  new : ∀ e scope ordinal, P e → (∀ g, scope = some g → good g) →
    good (formatId e.kind scope ordinal)

theorem GivesGood.identify {P : Element → Prop} (hgives : GivesGood good P) {e : Element} (he : P e)
    {scope : Option String} (hscope : ∀ g, scope = some g → good g) (naming : Naming) :
    good (identify e scope naming).1 ∧
      IdGiven good (.element e) (.element (Drawing.identify e scope naming).2.1) := by
  rw [Drawing.identify]
  split
  · next h => exact ⟨hgives.own e _ he h, .same _⟩
  · next h =>
    have := hgives.new e scope (naming.freeOrdinal e.kind scope) he hscope
    exact ⟨this, .given h this⟩

/-- What giving out ids does to a node: the handle stays, and so does the content but for its id. -/
structure SlotGiven (good : String → Prop) (s s' : Slot) : Prop where
  /-- The handle stays. -/
  handle : s'.handle = s.handle
  /-- The content may get an id. -/
  content : IdGiven good s.content s'.content

theorem SlotGiven.same (s : Slot) : SlotGiven good s s := ⟨rfl, .same _⟩

mutual

/-- **Giving out ids changes nothing but that elements without an id get one.** -/
theorem rel_name {P : Element → Prop} (hgives : GivesGood good P) (n : Node)
    (hn : ∀ e, .element e ∈ n.bare.preorder → P e) (parent scope : Option String)
    (hscope : ∀ g, scope = some g → good g) (naming : Naming) :
    Rel (SlotGiven good) n (name parent scope naming n).2.1 := by
  match n with
  | .node ⟨h, c⟩ ts =>
    rw [Node.bare_node] at hn
    rcases c.eq_element_or with ⟨e, rfl⟩ | hc
    · have he := hn e (by simp [preorder])
      obtain ⟨hgood, hgiven⟩ := hgives.identify he hscope naming
      rw [name_element]
      -- the id of the element is the scope of its children, so it has to be good first
      refine ⟨⟨rfl, hgiven⟩, relAll_nameAll hgives ts (fun e' he' ↦ hn e' ?_) _ _ ?_ _⟩
      · rw [preorder]
        exact List.mem_cons_of_mem _ he'
      · intro g hg
        obtain ⟨_, -, rfl⟩ := Option.map_eq_some_iff.1 hg
        exact hgood
    · rw [name_of_isElement_eq_false hc]
      exact rel_refl .same _

theorem relAll_nameAll {P : Element → Prop} (hgives : GivesGood good P) (ns : List Node)
    (hns : ∀ e, .element e ∈ preorderAll (ns.map Node.bare) → P e) (parent scope : Option String)
    (hscope : ∀ g, scope = some g → good g) (naming : Naming) :
    RelAll (SlotGiven good) ns (nameAll parent scope naming ns).2.1 := by
  match ns with
  | [] => exact trivial
  | n :: ns =>
    rw [List.map_cons, preorderAll] at hns
    rw [nameAll_cons]
    exact ⟨rel_name hgives n (fun e he ↦ hns e (List.mem_append_left _ he)) parent scope hscope naming,
      relAll_nameAll hgives ns (fun e he ↦ hns e (List.mem_append_right _ he)) parent scope hscope _⟩

end

/-- Nodes whose contents are related make markup that is. -/
theorem relAll_map_bare {R : Content → Content → Prop} {ns ms : List Node}
    (h : RelAll (fun s s' : Slot ↦ R s.content s'.content) ns ms) :
    RelAll R (ns.map Node.bare) (ms.map Node.bare) := by
  have hmap := RelAll.mapAll (S := R) (fun _ _ hslot ↦ hslot) h
  rwa [mapAll_eq_map, mapAll_eq_map] at hmap

/-- The markup of nodes some of which got ids. -/
theorem relAll_bare {ns ms : List Node} (h : RelAll (SlotGiven good) ns ms) :
    RelAll (IdGiven good) (ns.map Node.bare) (ms.map Node.bare) :=
  relAll_map_bare (h.imp fun _ _ _ hslot ↦ hslot.content)

/-- The ids given out when nothing is asked of them. -/
theorem givesGood_true : GivesGood (fun _ ↦ True) fun _ ↦ True :=
  ⟨fun _ _ _ _ ↦ trivial, fun _ _ _ _ _ ↦ trivial⟩

/-- No id is empty, whether it was there or has been given out. -/
theorem givesGood_ne_empty : GivesGood (· ≠ "") fun _ ↦ True :=
  ⟨fun _ _ _ h ↦ Element.ne_empty_of_id? h, fun _ _ _ _ _ ↦ formatId_ne_empty _ _ _⟩

/-! ## What the walk returns -/

/-- The attributes of a component depend on the element and the markup of its children. -/
theorem attributesOf_eq (e : Element) {s : Slot} (hs : s.content.isElement = true)
    (ts : List Node) :
    attributesOf e (.node s ts) = Markup.attributesOf e (ts.map Node.bare) := by
  have htext : Node.textContent (.node s ts) = Markup.textOfAll (ts.map Node.bare) := by
    rw [← Node.textOf_bare, Node.bare_node]
    obtain ⟨e', he'⟩ := s.content.eq_element_or.resolve_right (by simp [hs])
    rw [he', Markup.textOf]
  have hchildren : (!(Node.childElements (.node s ts)).isEmpty)
      = Markup.hasElements (ts.map Node.bare) := by
    rw [Node.hasElements_map_bare]
    rfl
  rw [attributesOf, withText, hchildren, htext, Markup.attributesOf]
  cases Markup.hasElements (ts.map Node.bare) <;> simp

mutual

/-- **The components are those of the markup the walk leaves behind.** -/
theorem name_fst_eq_view (n : Node) (parent scope : Option String) (naming : Naming) :
    (name parent scope naming n).1
      = Markup.view parent (name parent scope naming n).2.1.bare := by
  match n with
  | .node ⟨h, c⟩ ts =>
    rcases c.eq_element_or with ⟨e, rfl⟩ | hc
    · have hid := id?_identify e scope naming
      rw [name_element, Node.bare_node, Markup.view]
      simp only
      -- the attributes are taken before the children get ids, which is not seen in them
      have hchildren := relAll_bare <| relAll_nameAll givesGood_true ts (fun _ _ ↦ trivial)
        (some (identify e scope naming).1) (parent.map fun _ ↦ (identify e scope naming).1)
        (fun _ _ ↦ trivial) (identify e scope naming).2.2
      rw [nameAll_fst_eq_viewAll ts, Markup.entryOf, hid, Option.getD_some,
        attributesOf_eq _ rfl, Markup.attributesOf_eq_of_relAll (relAll_retouched hchildren)]
    · rw [name_of_isElement_eq_false hc, Node.bare_node,
        Markup.view_of_isElement_eq_false hc]

theorem nameAll_fst_eq_viewAll (ns : List Node) (parent scope : Option String) (naming : Naming) :
    (nameAll parent scope naming ns).1
      = Markup.viewAll parent ((nameAll parent scope naming ns).2.1.map Node.bare) := by
  match ns with
  | [] => rfl
  | n :: ns =>
    rw [nameAll_cons]
    simp only [List.map_cons, Markup.viewAll]
    rw [name_fst_eq_view n, nameAll_fst_eq_viewAll ns]

end

mutual

/-- Every element the walk has passed has an id. -/
theorem hasIds_name (n : Node) (parent scope : Option String) (naming : Naming) :
    Markup.HasIds (name parent scope naming n).2.1.bare := by
  match n with
  | .node ⟨h, c⟩ ts =>
    rcases c.eq_element_or with ⟨e, rfl⟩ | hc
    · rw [name_element, Node.bare_node]
      exact ⟨by rw [id?_identify]; rfl, haveIds_nameAll ts _ _ _⟩
    · rw [name_of_isElement_eq_false hc, Node.bare_node]
      exact Markup.hasIds_of_isElement_eq_false hc _

theorem haveIds_nameAll (ns : List Node) (parent scope : Option String) (naming : Naming) :
    Markup.HaveIds ((nameAll parent scope naming ns).2.1.map Node.bare) := by
  match ns with
  | [] => exact trivial
  | n :: ns =>
    rw [nameAll_cons, List.map_cons]
    exact ⟨hasIds_name n _ _ _, haveIds_nameAll ns _ _ _⟩

end

mutual

/-- Where all elements have ids the walk changes nothing. -/
theorem name_snd_of_hasIds (n : Node) (hn : Markup.HasIds n.bare) (parent scope : Option String)
    (naming : Naming) : (name parent scope naming n).2.1 = n := by
  match n with
  | .node ⟨h, c⟩ ts =>
    rcases c.eq_element_or with ⟨e, rfl⟩ | hc
    · rw [Node.bare_node] at hn
      obtain ⟨id, hid⟩ := Option.isSome_iff_exists.1 hn.1
      rw [name_element, identify_of_id? hid]
      simp only
      rw [nameAll_snd_of_haveIds ts hn.2]
    · rw [name_of_isElement_eq_false hc]

theorem nameAll_snd_of_haveIds (ns : List Node) (hns : Markup.HaveIds (ns.map Node.bare))
    (parent scope : Option String) (naming : Naming) :
    (nameAll parent scope naming ns).2.1 = ns := by
  match ns with
  | [] => rfl
  | n :: ns =>
    rw [nameAll_cons]
    simp only
    rw [name_snd_of_hasIds n hns.1, nameAll_snd_of_haveIds ns hns.2]

end

end Drawing

end SvgWorkbench
