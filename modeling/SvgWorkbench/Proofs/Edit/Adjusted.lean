import SvgWorkbench.Edit.Group
import SvgWorkbench.Proofs.Drawing.Stage
import SvgWorkbench.Proofs.Edit.Attribute
import SvgWorkbench.Proofs.Edit.Located
import SvgWorkbench.Proofs.Quantity

/-!
# The order of changed numbers is not seen

Changing a number on many elements is a row of edits, each of which reads the text the last one
wrote. What a row does is followed on a *sheet*: a text, and its markup as the root and what stands
around it. A change is a turn of the elements of one id, and the sheet is written if one of them
moves. Two turns may be taken in either order, down to the text that is written, since a turn leaves
the ids of all elements and everything else of elements that have another id.
-/

namespace SvgWorkbench

open Xml SvgWorkbench.Tree Markup Component Drawing Document

/-! ## One change with its reason -/

namespace Edit

/-- The text a number becomes, if the result is finite. -/
def newValue? (op : BatchOp) (amount : Float) (shown : Option String) : Option String :=
  let result := op.apply ((shown.bind Quantity.leading?).getD 0) amount
  if result.isFinite then some (Quantity.text result) else none

/-- The change of a number of one element, with the reason if there is none. -/
def adjusted (key : String) (op : BatchOp) (amount : Float) (text id : String) :
    Except EditError String := do
  let drawing ← load text
  match find? drawing.components id with
  | none => throw (.unresolved id)
  | some c =>
    match newValue? op amount (c.attribute? key) with
    | none => pure text
    | some value => setProperty text id key value

/-- Whether an edit has been refused since what it makes cannot be read again. -/
def IsBadResult : Except EditError String → Prop
  | .error (.badResult _) => True
  | _ => False

instance : (result : Except EditError String) → Decidable (IsBadResult result)
  | .error (.badResult _) => inferInstanceAs (Decidable True)
  | .error (.unreadable _) => inferInstanceAs (Decidable False)
  | .error (.unresolved _) => inferInstanceAs (Decidable False)
  | .error (.isRoot _) => inferInstanceAs (Decidable False)
  | .ok _ => inferInstanceAs (Decidable False)

/-- Whether no edit of a row is refused since what it makes cannot be read again. -/
def NoneRefused {α : Type} (edit : String → α → Except EditError String) : String → List α → Prop
  | _, [] => True
  | current, item :: items =>
    ¬ IsBadResult (edit current item) ∧ NoneRefused edit (orKeep current (edit current item)) items

instance NoneRefused.decidable {α : Type} (edit : String → α → Except EditError String) :
    (current : String) → (items : List α) → Decidable (NoneRefused edit current items)
  | _, [] => inferInstanceAs (Decidable True)
  | current, item :: items =>
    have := NoneRefused.decidable edit (orKeep current (edit current item)) items
    inferInstanceAs (Decidable (_ ∧ _))

variable {key : String} {op : BatchOp} {amount : Float} {p : Drawing} {text id : String}

theorem adjust_eq_orKeep : adjust key op amount text id
    = orKeep text (adjusted key op amount text id) := by
  rw [adjust, componentsOf, adjusted, load]
  cases parse text with
  | error cause => rfl
  | ok p =>
    show _ = orKeep text (match find? p.components id with
      | none => _
      | some c => _)
    cases hfind : find? p.components id with
    | none => simp only [Except.map, hfind]; rfl
    | some c =>
      simp only [Except.map, hfind, newValue?]
      split <;> rfl

/-- A change that goes to a component with a given value. -/
theorem adjusted_of_find? {c : Component} (hparse : parse text = .ok p)
    (hfind : find? p.components id = some c) : adjusted key op amount text id
      = (newValue? op amount (c.attribute? key)).elim (.ok text) (setProperty text id key) := by
  rw [adjusted, load_eq_ok_iff.2 hparse]
  show (match find? p.components id with
    | none => _
    | some c => _) = _
  rw [hfind]
  cases h : newValue? op amount (c.attribute? key) with
  | none => simp only [h]; rfl
  | some value => simp only [h]; rfl

end Edit

/-! ## Turns of elements -/

theorem Content.eq_element_of_element? {c : Content} {e : Element} (h : c.element? = some e) :
    c = .element e := by
  cases c with
  | element e' => exact congrArg Content.element (Option.some.inj h)
  | _ => exact nomatch h

section

variable {key : String} {value? : Element → Option String} {e : Element} {a b : String}

namespace Element

/-- An element whose property has got the value it gets, if the element has some id and gets one. -/
def turn (key : String) (value? : Element → Option String) (id : String) (e : Element) : Element :=
  if e.id?.getD "" = id then (value? e).elim e (e.setProperty key) else e

theorem name_turn (key : String) (value? : Element → Option String) (id : String) (e : Element) :
    (e.turn key value? id).name = e.name := by
  rw [turn]
  split
  · cases value? e with
    | none => rfl
    | some value => exact name_setProperty e key value
  · rfl

theorem id?_turn (hkey : key ≠ "id") (value? : Element → Option String) (id : String)
    (e : Element) : (e.turn key value? id).id? = e.id? := by
  rw [turn]
  split
  · cases value? e with
    | none => rfl
    | some value => exact id?_setProperty_of_ne e hkey value
  · rfl

/-- Turns of different ids may be taken in either order: one of them leaves the element alone. -/
theorem turn_turn (hkey : key ≠ "id") (value? : Element → Option String) (a b : String)
    (e : Element) :
    (e.turn key value? a).turn key value? b = (e.turn key value? b).turn key value? a := by
  by_cases hab : a = b
  · rw [hab]
  by_cases ha : e.id?.getD "" = a
  · have hb : e.turn key value? b = e := if_neg fun heq ↦ hab (ha.symm.trans heq)
    rw [hb]
    refine if_neg fun heq ↦ hab ?_
    rw [id?_turn hkey] at heq
    exact ha.symm.trans heq
  · have hsame : e.turn key value? a = e := if_neg ha
    rw [hsame]
    refine (if_neg fun heq ↦ ha ?_).symm
    rwa [id?_turn hkey] at heq

end Element

namespace Stage

/-- Whether an element of an id gets a value. -/
def moves (value? : Element → Option String) (id : String) (s : Stage) : Bool :=
  s.elements.any fun e ↦ decide (e.id?.getD "" = id) && (value? e).isSome

theorem moves_settled (value? : Element → Option String) (id : String) (s : Stage) :
    s.settled.moves value? id = s.moves value? id := by
  rw [moves, elements_settled, moves]

/-- A turn of other elements does not show whether those of an id get a value. -/
theorem moves_alter_turn (hkey : key ≠ "id") (value? : Element → Option String) (hab : a ≠ b)
    (s : Stage) : (s.alter (·.turn key value? a)).moves value? b = s.moves value? b := by
  have hturn : ∀ e : Element, (decide ((e.turn key value? a).id?.getD "" = b)
      && (value? (e.turn key value? a)).isSome)
        = (decide (e.id?.getD "" = b) && (value? e).isSome) := by
    intro e
    rw [Element.id?_turn hkey]
    by_cases hb : e.id?.getD "" = b
    · have hsame : e.turn key value? a = e := if_neg fun heq ↦ hab (heq.symm.trans hb)
      rw [hsame]
    · rw [decide_eq_false hb, Bool.false_and, Bool.false_and]
  rw [moves, elements_alter, List.any_map, moves]
  exact congrArg (List.any s.elements) (funext hturn)

end Stage

/-- A text, and the markup that is read in it. -/
structure Sheet where
  /-- The text. -/
  text : String
  /-- The markup. -/
  stage : Stage

namespace Sheet

/-- The elements of an id have had their turn. The text is written if one of them gets a value, and
what is read in it is settled. -/
def turn (key : String) (value? : Element → Option String) (s : Sheet) (id : String) : Sheet :=
  if s.stage.moves value? id then
    ⟨Markup.write (s.stage.alter (·.turn key value? id)).markup,
      (s.stage.alter (·.turn key value? id)).settled⟩
  else s

theorem turn_of_moves {s : Sheet} (h : s.stage.moves value? a = true) : s.turn key value? a
    = ⟨Markup.write (s.stage.alter (·.turn key value? a)).markup,
      (s.stage.alter (·.turn key value? a)).settled⟩ := if_pos h

theorem turn_of_not_moves {s : Sheet} (h : s.stage.moves value? a = false) :
    s.turn key value? a = s := if_neg (ne_true_of_eq_false h)

theorem moves_turn (hkey : key ≠ "id") (hab : a ≠ b) (s : Sheet) :
    (s.turn key value? a).stage.moves value? b = s.stage.moves value? b := by
  cases h : s.stage.moves value? a with
  | true => rw [turn_of_moves h, Stage.moves_settled, Stage.moves_alter_turn hkey value? hab]
  | false => rw [turn_of_not_moves h]

/-- **Two turns may be taken in either order**, down to the text. -/
theorem turn_turn (hkey : key ≠ "id") (value? : Element → Option String) (s : Sheet)
    (a b : String) : (s.turn key value? a).turn key value? b
      = (s.turn key value? b).turn key value? a := by
  by_cases hab : a = b
  · rw [hab]
  have hmoves : (s.turn key value? a).stage.moves value? b = s.stage.moves value? b :=
    moves_turn hkey hab s
  have hmoves' : (s.turn key value? b).stage.moves value? a = s.stage.moves value? a :=
    moves_turn hkey (Ne.symm hab) s
  cases hb : s.stage.moves value? b with
  | false => rw [turn_of_not_moves (hmoves.trans hb), turn_of_not_moves hb]
  | true =>
    cases ha : s.stage.moves value? a with
    | false => rw [turn_of_not_moves (hmoves'.trans ha), turn_of_not_moves ha]
    | true =>
      have hcomm : (s.stage.alter (·.turn key value? a)).settled.alter (·.turn key value? b)
          = (s.stage.alter (·.turn key value? b)).settled.alter (·.turn key value? a) := by
        rw [← Stage.settled_alter, ← Stage.settled_alter, Stage.alter_alter, Stage.alter_alter]
        exact congrArg (fun f ↦ (s.stage.alter f).settled)
          (funext fun e ↦ Element.turn_turn hkey value? a b e)
      rw [turn_of_moves (hmoves.trans hb), turn_of_moves ha, turn_of_moves (hmoves'.trans ha),
        turn_of_moves hb]
      dsimp only
      rw [hcomm]

end Sheet

end

/-! ## Edits are turns -/

open Edit

variable {key : String} {op : BatchOp} {amount : Float} {p : Drawing} {text id : String}
  {ids : List String} {s : Sheet}

/-- The text the number of an element becomes, if the result is finite. -/
def Element.newValue? (key : String) (op : BatchOp) (amount : Float) (e : Element) :
    Option String :=
  Edit.newValue? op amount ((styled? e key).or (e.get? key))

/-- The value of a number is written without tabs and line breaks. -/
theorem Edit.unbroken_of_newValue? {shown : Option String} {value : String}
    (h : newValue? op amount shown = some value) : Unbroken value.toList := by
  rw [newValue?] at h
  split at h
  · rw [← Option.some.inj h]
    exact (Quantity.unbroken_text _).1
  · exact nomatch h

/-- Where the component of an id stands in a drawing: it is made of the element of one node of the
root, and no other element has the id. -/
structure StandsAt (p : Drawing) (id : String) (c : Component) (root n : Node) (e : Element) :
    Prop where
  /-- The id means the component. -/
  find? : Component.find? p.components id = some c
  /-- The document has the root. -/
  root? : p.document.root? = some root
  /-- The node is inside the root, or the root itself. -/
  mem : n ∈ root.elements
  /-- The node has the element. -/
  content : n.content = .element e
  /-- An edit of the id finds the node. -/
  locate? : p.locate? id = some n
  /-- The component shows what the element has. -/
  attributes : c.attributes = Markup.attributesOf e (n.children.map Node.bare)
  /-- No key stands twice in the element. -/
  keys : e.keys.Nodup
  /-- No other element has the id. -/
  only : ∀ m ∈ root.elements, ∀ e', m.content = .element e' → (e'.id?.getD "" = id ↔ m = n)

/-- An id that a component has stands somewhere. -/
theorem exists_standsAt_of_mem (hparse : parse text = .ok p)
    (hdistinct : ((all p.components).map Component.id).Nodup)
    (hid : id ∈ (all p.components).map Component.id) : ∃ c root n e, StandsAt p id c root n e := by
  obtain ⟨c, hfind, rfl⟩ := exists_find?_of_mem hid
  obtain ⟨root, n, e, hroot, hn, he, hown, hattributes⟩ := exists_element_of_find? hparse hfind
  have hnid : n.id? = some c.id := (Node.id?_of_content he).trans hown
  exact ⟨c, root, n, e, hfind, hroot, hn, he, locate?_of_mem hparse hdistinct hroot hn hnid,
    hattributes, keys_of_mem hparse
      (Node.mem_elementsAll_trans (List.mem_of_find?_eq_some hroot) hn) he,
    fun m hm e' he' ↦ id_eq_iff hparse hdistinct hroot hn hnid hm he'⟩

namespace StandsAt

variable {c : Component} {root n : Node} {e : Element} {value? : Element → Option String}
  {st : Stage} {value : String}

/-- What the component shows for a key is in the element, but for the text. -/
theorem attribute?_eq (h : StandsAt p id c root n e) (htext : key ≠ textKey) :
    c.attribute? key = (styled? e key).or (e.get? key) := by
  rw [Component.attribute?, h.attributes,
    get?_attributesOf_children (Node.isElement_of_mem_elements h.mem) h.keys, shown?,
    if_neg fun heq ↦ htext heq.1]

/-- Whether a number of this id changes is seen in the element. -/
theorem moves_eq (h : StandsAt p id c root n e) (hst : st.HasRoot)
    (hmarkup : p.document.markup = st.markup) (value? : Element → Option String) :
    st.moves value? id = (value? e).isSome := by
  rw [Stage.moves, Document.elements_of_stage hst hmarkup h.root?, Bool.eq_iff_iff,
    List.any_eq_true]
  simp only [Bool.and_eq_true, decide_eq_true_iff]
  constructor
  · rintro ⟨e', hmem, hid, hmoves⟩
    obtain ⟨m, hm, he'⟩ := List.mem_filterMap.1 hmem
    have hcontent : m.content = .element e' := Content.eq_element_of_element? he'
    obtain rfl := (h.only m hm e' hcontent).1 hid
    rwa [Content.element.inj (h.content.symm.trans hcontent)]
  · intro hmoves
    refine ⟨e, List.mem_filterMap.2 ⟨n, h.mem, ?_⟩, (h.only n h.mem e h.content).2 rfl, hmoves⟩
    rw [Node.element?, h.content]
    rfl

/-- In the root a turn of the id is the change of the element, and changes nothing else. -/
theorem turn_eq_ite (h : StandsAt p id c root n e) (hparse : parse text = .ok p)
    (hvalue : value? e = some value) {m : Node} (hm : m ∈ root.elements) {e' : Element}
    (he' : m.content = .element e') : e'.turn key value? id
      = if m.handle = n.handle then e'.setProperty key value else e' := by
  rw [Element.turn]
  by_cases hmn : m = n
  · subst hmn
    obtain rfl := Content.element.inj (h.content.symm.trans he')
    rw [if_pos ((h.only m hm e he').2 rfl), if_pos rfl, hvalue, Option.elim_some]
  · have hne : m.handle ≠ n.handle := fun heq ↦ hmn (Node.eq_of_handle_eq_all
      (nodup_handlesAll_of_parse hparse) (mem_topLevel_of_mem_root h.root? hm)
      (mem_topLevel_of_mem_root h.root? h.mem) heq)
    rw [if_neg (mt (h.only m hm e' he').1 hmn), if_neg hne]

/-- Setting the property of the element makes the markup of the stage after the turn. -/
theorem markup_eq (h : StandsAt p id c root n e) (hparse : parse text = .ok p)
    (hclean : p.IsClean) (hst : st.HasRoot) (hmarkup : p.document.markup = st.markup)
    (hvalue : value? e = some value) :
    (p.document.modifyElement n.handle (·.setProperty key value)).markup
      = (st.alter (·.turn key value? id)).markup :=
  Document.markup_modifyElement_of_stage hst hmarkup (nodup_handlesAll_of_parse hparse)
    (isSound_of_parse hparse hclean.isNamed).isRead h.root?
    (fun _ hm _ he' ↦ h.turn_eq_ite hparse hvalue hm he') h.mem

/-- An edit of the element that is not refused makes a drawing. -/
theorem exists_of_not_isBadResult (h : StandsAt p id c root n e) (hparse : parse text = .ok p)
    (htext : key ≠ textKey)
    (haccepted : ¬ IsBadResult (setProperty text id key value)) :
    ∃ q, parse (p.document.modifyElement n.handle (·.setProperty key value)).text = .ok q ∧
      setProperty text id key value
        = .ok (p.document.modifyElement n.handle (·.setProperty key value)).text := by
  have hfinish : setProperty text id key value
      = finish (p.document.modifyElement n.handle (·.setProperty key value)) := by
    rw [Edit.setProperty, resolve_eq_ok_iff.2 ⟨p, hparse, h.locate?, rfl⟩]
    exact congrArg finish (if_neg htext)
  rw [hfinish, finish] at haccepted ⊢
  cases hread : parse (p.document.modifyElement n.handle (·.setProperty key value)).text with
  | ok q => exact ⟨q, rfl, rfl⟩
  | error cause =>
    rw [hread] at haccepted
    exact absurd trivial haccepted

end StandsAt

/-- Whether a sheet shows a drawing with some ids: the text can be read, and its markup is that of
the stage. -/
structure Sheet.Shows (ids : List String) (s : Sheet) : Prop where
  /-- The stage has the root. -/
  hasRoot : s.stage.HasRoot
  /-- The text is that of a clean drawing with the markup of the stage and with the ids. -/
  read : ∃ p, parse s.text = .ok p ∧ p.IsClean ∧ p.document.markup = s.stage.markup ∧
    (all p.components).map Component.id = ids

/-- Other attributes leave the ids of a forest. -/
theorem Edit.map_id_all_withAttributes (id : String) (attributes : Attributes)
    (forest : List Component) : (all (withAttributes id attributes forest)).map Component.id
      = (all forest).map Component.id := by
  rw [map_id_all, map_id_all, withAttributes, preorderAll_mapAll, List.map_map]
  refine List.map_congr_left fun entry _ ↦ ?_
  rw [Function.comp_apply]
  split <;> rfl

/-- **A change that is not refused is a turn**, and what it writes is shown by the sheet. -/
theorem Sheet.Shows.adjust (h : s.Shows ids) (hids : ids.Nodup) (hkey : IsName key.toList)
    (hid : key ≠ "id") (htext : key ≠ textKey) (hmem : id ∈ ids)
    (haccepted : ¬ IsBadResult (adjusted key op amount s.text id)) :
    Edit.adjust key op amount s.text id
        = (s.turn key (Element.newValue? key op amount) id).text ∧
      (s.turn key (Element.newValue? key op amount) id).Shows ids := by
  obtain ⟨hst, p, hparse, hclean, hmarkup, rfl⟩ := h
  obtain ⟨c, root, n, e, hat⟩ := exists_standsAt_of_mem hparse hids hmem
  have hmoves := hat.moves_eq hst hmarkup (Element.newValue? key op amount)
  have hadjusted : adjusted key op amount s.text id = (Element.newValue? key op amount e).elim
      (.ok s.text) (setProperty s.text id key) := by
    rw [adjusted_of_find? hparse hat.find?, hat.attribute?_eq htext, Element.newValue?]
  rw [adjust_eq_orKeep, hadjusted]
  rw [hadjusted] at haccepted
  cases hvalue : Element.newValue? key op amount e with
  | none =>
    rw [hvalue] at hmoves
    rw [Sheet.turn_of_not_moves hmoves]
    exact ⟨rfl, hst, p, hparse, hclean, hmarkup, rfl⟩
  | some value =>
    rw [hvalue] at hmoves haccepted
    obtain ⟨q, hread, hedit⟩ := hat.exists_of_not_isBadResult hparse htext haccepted
    have hturn : (p.document.modifyElement n.handle (·.setProperty key value)).markup
        = (s.stage.alter (·.turn key (Element.newValue? key op amount) id)).markup :=
      hat.markup_eq hparse hclean hst hmarkup hvalue
    have hroot := hst.alter fun e ↦ Element.name_turn key (Element.newValue? key op amount) id e
    obtain ⟨q', n', e', hread', hn', -, -, -, hq, -, hcomponents⟩ :=
      exists_withAttributes hparse hclean hids hat.find? hid htext (.inr hkey)
        (unbroken_of_forall_isNameChar hkey.forall_isNameChar) (unbroken_of_newValue? hvalue) hedit
    obtain rfl := Except.ok.inj (hread'.symm.trans hread)
    obtain rfl : n' = n := by
      have hlocate := hat.locate?
      rw [locate?, hat.find?, Option.bind_some, hn'] at hlocate
      exact Option.some.inj hlocate
    rw [Sheet.turn_of_moves hmoves, Option.elim_some, hedit, ← hturn]
    refine ⟨rfl, hroot.settled, q', hread, ?_, ?_, ?_⟩
    · exact (isClean_of_parse_text ((isSound_of_parse hparse hclean.isNamed).setAttribute n'.handle
        (.inr hkey) value) hread).1
    · rw [hq, hturn, hroot.markup_settled]
    · rw [hcomponents, map_id_all_withAttributes]

/-! ## Rows of changes -/

/-- **A row of changes of which none is refused is a row of turns.** -/
theorem Sheet.Shows.foldl_adjust {targets : List String} (h : s.Shows ids) (hids : ids.Nodup)
    (hkey : IsName key.toList) (hid : key ≠ "id") (htext : key ≠ textKey)
    (hmem : ∀ id ∈ targets, id ∈ ids)
    (haccepted : NoneRefused (adjusted key op amount) s.text targets) :
    targets.foldl (Edit.adjust key op amount) s.text
      = (targets.foldl (Sheet.turn key (Element.newValue? key op amount)) s).text := by
  induction targets generalizing s with
  | nil => rfl
  | cons id targets ih =>
    obtain ⟨hfirst, hrest⟩ := haccepted
    rw [List.forall_mem_cons] at hmem
    obtain ⟨htext', hshows⟩ := h.adjust hids hkey hid htext hmem.1 hfirst
    rw [← adjust_eq_orKeep, htext'] at hrest
    rw [List.foldl_cons, List.foldl_cons, htext']
    exact ih hshows hmem.2 hrest

namespace Edit

/-- **Numbers may be changed in any order**: the text that is written is the same, if nothing on the
way is refused. -/
theorem adjustAll_eq_of_perm (hparse : parse text = .ok p) (hclean : p.IsClean)
    (hdistinct : ((all p.components).map Component.id).Nodup) (hkey : IsName key.toList)
    (hid : key ≠ "id") (htext : key ≠ textKey) {targets targets' : List String}
    (hperm : targets'.Perm targets)
    (hexact : ∀ id ∈ targets, id ∈ (all p.components).map Component.id)
    (haccepted : NoneRefused (adjusted key op amount) text targets)
    (haccepted' : NoneRefused (adjusted key op amount) text targets') :
    adjustAll targets' key op amount text = adjustAll targets key op amount text := by
  cases htargets : targets with
  | nil =>
    rw [htargets] at hperm
    rw [hperm.eq_nil]
  | cons target rest =>
    rw [← htargets]
    -- one of the ids stands in the root, so there is one
    obtain ⟨_, root, _, _, hat⟩ := exists_standsAt_of_mem hparse hdistinct
      (hexact target (htargets ▸ List.mem_cons_self))
    obtain ⟨st, hst, hmarkup⟩ := Document.exists_stage hat.root?
    have hshows : Sheet.Shows ((all p.components).map Component.id) ⟨text, st⟩ :=
      ⟨hst, p, hparse, hclean, hmarkup, rfl⟩
    have hturns := hshows.foldl_adjust hdistinct hkey hid htext hexact haccepted
    have hturns' := hshows.foldl_adjust hdistinct hkey hid htext
      (fun id hmem ↦ hexact id (hperm.subset hmem)) haccepted'
    have hcomm := hperm.foldl_eq' (f := Sheet.turn key (Element.newValue? key op amount))
      (fun a _ b _ sheet ↦ Sheet.turn_turn hid _ sheet a b) ⟨text, st⟩
    rw [adjustAll, adjustAll, hturns, hturns', hcomm]

/-- Two shapes have a number changed, one of them twice, in either order. -/
theorem adjustAll_eq_of_two_shapes :
    ∃ p, parse "<svg><rect id=\"a\" x=\"1\"/><g id=\"b\"/></svg>" = .ok p ∧ p.IsClean ∧
      ((all p.components).map Component.id).Nodup ∧ IsName "x".toList ∧ "x" ≠ "id" ∧
      "x" ≠ textKey ∧ ["b", "a", "a"].Perm ["a", "b", "a"] ∧
      (∀ id ∈ ["a", "b", "a"], id ∈ (all p.components).map Component.id) ∧
      NoneRefused (adjusted "x" .increase 1) "<svg><rect id=\"a\" x=\"1\"/><g id=\"b\"/></svg>"
        ["a", "b", "a"] ∧
      NoneRefused (adjusted "x" .increase 1) "<svg><rect id=\"a\" x=\"1\"/><g id=\"b\"/></svg>"
        ["b", "a", "a"] ∧
      adjustAll ["a", "b", "a"] "x" .increase 1 "<svg><rect id=\"a\" x=\"1\"/><g id=\"b\"/></svg>"
        = "<svg id=\"svg-0\"><rect id=\"a\" x=\"3\"/><g id=\"b\" x=\"1\"/></svg>" ∧
      adjustAll ["b", "a", "a"] "x" .increase 1 "<svg><rect id=\"a\" x=\"1\"/><g id=\"b\"/></svg>"
        = adjustAll ["a", "b", "a"] "x" .increase 1
          "<svg><rect id=\"a\" x=\"1\"/><g id=\"b\"/></svg>" := by
  have hparse := parse_of_read (m := [.node (.element ⟨"svg", []⟩)
    [.node (.element ⟨"rect", [("id", "a"), ("x", "1")]⟩) [],
      .node (.element ⟨"g", [("id", "b")]⟩) []]])
    (s := "<svg><rect id=\"a\" x=\"1\"/><g id=\"b\"/></svg>") (by cbv) (by cbv)
  generalize hp : ofDocument (.ofMarkup [.node (.element ⟨"svg", []⟩)
    [.node (.element ⟨"rect", [("id", "a"), ("x", "1")]⟩) [],
      .node (.element ⟨"g", [("id", "b")]⟩) []]]) = p at hparse
  have hclean : p.IsClean := by
    subst hp
    exact ⟨by decide +kernel, by decide +kernel⟩
  have hids : (all p.components).map Component.id = ["svg-0", "a", "b"] := by
    subst hp
    rw [all_eq]
    decide +kernel
  have hdistinct : ((all p.components).map Component.id).Nodup := by
    rw [hids]
    decide
  have hexact : ∀ id ∈ ["a", "b", "a"], id ∈ (all p.components).map Component.id := by
    rw [hids]
    decide
  have hperm : ["b", "a", "a"].Perm ["a", "b", "a"] := by decide
  have haccepted : NoneRefused (adjusted "x" .increase 1)
      "<svg><rect id=\"a\" x=\"1\"/><g id=\"b\"/></svg>" ["a", "b", "a"] := by decide +kernel
  have haccepted' : NoneRefused (adjusted "x" .increase 1)
      "<svg><rect id=\"a\" x=\"1\"/><g id=\"b\"/></svg>" ["b", "a", "a"] := by decide +kernel
  exact ⟨p, hparse, hclean, hdistinct, by decide, by decide, by decide, hperm, hexact, haccepted,
    haccepted', by decide +kernel, adjustAll_eq_of_perm hparse hclean hdistinct (by decide)
      (by decide) (by decide) hperm hexact haccepted haccepted'⟩

/-- Markup that is read in another way once one of its elements has been changed: what stood between
two comments is then the value of an attribute of the element before. -/
def swallowed : String :=
  "<!DOCTYPE svg [<!ENTITY a \"<\">]><?p >><svg><a\" b='\"' c'='1' id='t'/><!--='\"' d'='-->" ++
    "<rect id=\"k\"/><!--'/>--><!--='\"' e'='1'/>--></svg><?q?><svg/>"

set_option maxRecDepth 4000 in
theorem parse_swallowed : parse swallowed = .ok (ofDocument (.ofMarkup [
    .node (.doctype "svg [<!ENTITY a \"<\">]><?p >") [], .node (.element ⟨"svg", []⟩)
      [.node (.element ⟨"a\"", [("b", "\""), ("c'", "1"), ("id", "t")]⟩) [],
        .node (.comment "='\"' d'='") [], .node (.element ⟨"rect", [("id", "k")]⟩) [],
        .node (.comment "'/>") [], .node (.comment "='\"' e'='1'/>") []],
    .node (.instruction "q") [], .node (.element ⟨"svg", []⟩) []])) :=
  parse_of_read (by cbv) (by cbv)

/-- The markup after a change of the rectangle. -/
def rectangleFirst : String :=
  "<!DOCTYPE svg [<!ENTITY a \"<\">]><?p >><svg id=\"svg-0\"><a\" b=\"&quot;\" c'=\"1\" id=\"t\"/>" ++
    "<!--='\"' d'='--><rect id=\"k\" x=\"1\"/><!--'/>--><!--='\"' e'='1'/>--></svg><?q?><svg/>"

/-- The markup after a change of the element before the rectangle. -/
def rectangleGone : String :=
  "<!DOCTYPE svg [<!ENTITY a \"<\">]><?p >><svg id=\"svg-0\"><a\" b=\"&quot;\" c'=\"1\" id=\"t\" " ++
    "x=\"1\"/><!--='\"' d'='--><rect id=\"k\"/><!--'/>--><!--='\"' e'='1'/>--></svg><?q?><svg/>"

/-- The markup after a change of the rectangle and then of the element before. -/
def rectangleKept : String :=
  "<!DOCTYPE svg [<!ENTITY a \"<\">]><?p >><svg id=\"svg-0\"><a\" b=\"&quot;\" c'=\"1\" id=\"t\" " ++
    "/><!--=\"&quot;\" d'=\"--&gt;&lt;rect id=&quot;k&quot; x=&quot;1&quot;/&gt;&lt;!--\" " ++
    "x=\"1\"/>--&gt;<!--='\"' e'='1'/>--></svg><?q?><svg/>"

set_option maxRecDepth 4000 in
theorem parse_rectangleFirst : parse rectangleFirst = .ok (ofDocument (.ofMarkup [
    .node (.doctype "svg [<!ENTITY a \"<\">]><?p >") [], .node (.element ⟨"svg", [("id", "svg-0")]⟩)
      [.node (.element ⟨"a\"", [("b", "\""), ("c'", "1"), ("id", "t"), ("/><!--", "\""),
          ("d'", "--><rect id=\"k\" x=\"1\"/><!--")]⟩) [],
        .node (.text "-->") [], .node (.comment "='\"' e'='1'/>") []],
    .node (.instruction "q") [], .node (.element ⟨"svg", []⟩) []])) :=
  parse_of_read (by cbv) (by cbv)

set_option maxRecDepth 4000 in
theorem parse_rectangleGone : parse rectangleGone = .ok (ofDocument (.ofMarkup [
    .node (.doctype "svg [<!ENTITY a \"<\">]><?p >") [], .node (.element ⟨"svg", [("id", "svg-0")]⟩)
      [.node (.element ⟨"a\"", [("b", "\""), ("c'", "1"), ("id", "t"), ("x", "1"), ("/><!--", "\""),
          ("d'", "--><rect id=\"k\"/><!--")]⟩) [],
        .node (.text "-->") [], .node (.comment "='\"' e'='1'/>") []],
    .node (.instruction "q") [], .node (.element ⟨"svg", []⟩) []])) :=
  parse_of_read (by cbv) (by cbv)

set_option maxRecDepth 4000 in
theorem parse_rectangleKept : parse rectangleKept = .ok (ofDocument (.ofMarkup [
    .node (.doctype "svg [<!ENTITY a \"<\">]><?p >") [], .node (.element ⟨"svg", [("id", "svg-0")]⟩)
      [.node (.element ⟨"a\"", [("b", "\""), ("c'", "1"), ("id", "t"), ("/><!--", "\""),
          ("d'", "--><rect id=\"k\" x=\"1\"/><!--"), ("x", "1"), ("/>--&gt;<!--", "\""),
          ("e'", "1")]⟩) [],
        .node (.text "-->") []],
    .node (.instruction "q") [], .node (.element ⟨"svg", []⟩) []])) :=
  parse_of_read (by cbv) (by cbv)

/-- The change of the number of an element of a drawing that is known. -/
theorem adjusted_of_mem {q : Drawing} {n : Node} {shown : Option String} {value w : String}
    (hparse : parse text = .ok p) (hmem : id ∈ (all p.components).map Component.id)
    (hshown : (Component.find? p.components id).bind (Component.attribute? · key) = shown)
    (hvalue : newValue? op amount shown = some value) (hn : p.document.find? id = some n)
    (htext : (p.document.setProperty n.handle key value).text = w) (hread : parse w = .ok q) :
    adjusted key op amount text id = .ok w := by
  obtain ⟨c, hfind, -⟩ := exists_find?_of_mem hmem
  rw [hfind, Option.bind_some] at hshown
  rw [adjusted_of_find? hparse hfind, hshown, hvalue]
  exact setProperty_of_mem hparse hmem hn htext hread

private theorem newValue?_increase_none : newValue? .increase 1 none = some "1" := by
  decide +kernel

private theorem adjusted_swallowed_rectangle :
    adjusted "x" .increase 1 swallowed "k" = .ok rectangleFirst := by
  have hparse := parse_swallowed
  generalize hp : ofDocument _ = p at hparse
  have hmem : "k" ∈ (all p.components).map Component.id := by
    subst hp
    rw [all_eq]
    decide +kernel
  refine adjusted_of_mem (n := .node ⟨4, .element ⟨"rect", [("id", "k")]⟩⟩ []) hparse hmem ?_
    newValue?_increase_none ?_ ?_ parse_rectangleFirst <;> subst hp
  · decide +kernel
  · decide +kernel
  · decide +kernel

private theorem adjusted_swallowed_tag :
    adjusted "x" .increase 1 swallowed "t" = .ok rectangleGone := by
  have hparse := parse_swallowed
  generalize hp : ofDocument _ = p at hparse
  have hmem : "t" ∈ (all p.components).map Component.id := by
    subst hp
    rw [all_eq]
    decide +kernel
  refine adjusted_of_mem
    (n := .node ⟨2, .element ⟨"a\"", [("b", "\""), ("c'", "1"), ("id", "t")]⟩⟩ []) hparse hmem ?_
    newValue?_increase_none ?_ ?_ parse_rectangleGone <;> subst hp
  · decide +kernel
  · decide +kernel
  · decide +kernel

private theorem adjusted_rectangleFirst :
    adjusted "x" .increase 1 rectangleFirst "t" = .ok rectangleKept := by
  have hparse := parse_rectangleFirst
  generalize hp : ofDocument _ = p at hparse
  have hmem : "t" ∈ (all p.components).map Component.id := by
    subst hp
    rw [all_eq]
    decide +kernel
  refine adjusted_of_mem
    (n := .node ⟨2, .element ⟨"a\"", [("b", "\""), ("c'", "1"), ("id", "t"), ("/><!--", "\""),
      ("d'", "--><rect id=\"k\" x=\"1\"/><!--")]⟩⟩ []) hparse hmem ?_
    newValue?_increase_none ?_ ?_ parse_rectangleKept <;> subst hp
  · decide +kernel
  · decide +kernel
  · decide +kernel

private theorem adjusted_rectangleGone :
    adjusted "x" .increase 1 rectangleGone "k" = .error (.unresolved "k") := by
  have hfind : Component.find? (ofDocument (.ofMarkup [
    .node (.doctype "svg [<!ENTITY a \"<\">]><?p >") [], .node (.element ⟨"svg", [("id", "svg-0")]⟩)
      [.node (.element ⟨"a\"", [("b", "\""), ("c'", "1"), ("id", "t"), ("x", "1"), ("/><!--", "\""),
          ("d'", "--><rect id=\"k\"/><!--")]⟩) [],
        .node (.text "-->") [], .node (.comment "='\"' e'='1'/>") []],
    .node (.instruction "q") [], .node (.element ⟨"svg", []⟩) []])).components "k" = none := by
    decide +kernel
  rw [adjusted, load_eq_ok_iff.2 parse_rectangleGone]
  show (match Component.find? (ofDocument _).components "k" with
    | none => _
    | some c => _) = _
  rw [hfind]
  rfl

/-- **Where names are no names of XML, the order of two changes is seen**: after the change of the
one the other element is gone. -/
theorem exists_adjustAll_ne_of_swallowed :
    ∃ p, parse swallowed = .ok p ∧ (∀ c ∈ preorderAll p.document.markup, c.IsUnbroken) ∧
      ((all p.components).map Component.id).Nodup ∧ ["t", "k"].Perm ["k", "t"] ∧
      (∀ id ∈ ["k", "t"], id ∈ (all p.components).map Component.id) ∧
      NoneRefused (adjusted "x" .increase 1) swallowed ["k", "t"] ∧
      NoneRefused (adjusted "x" .increase 1) swallowed ["t", "k"] ∧
      adjustAll ["t", "k"] "x" .increase 1 swallowed
        ≠ adjustAll ["k", "t"] "x" .increase 1 swallowed := by
  have hparse := parse_swallowed
  generalize hp : ofDocument _ = p at hparse
  have hids : (all p.components).map Component.id = ["svg-0", "t", "k"] := by
    subst hp
    rw [all_eq]
    decide +kernel
  have hunbroken : ∀ c ∈ preorderAll p.document.markup, c.IsUnbroken := by
    subst hp
    decide +kernel
  refine ⟨p, hparse, hunbroken, ?_, ?_, ?_, ?_, ?_, ?_⟩
  · rw [hids]
    decide
  · decide
  · rw [hids]
    decide
  · rw [NoneRefused, adjusted_swallowed_rectangle, orKeep, NoneRefused, adjusted_rectangleFirst]
    exact ⟨id, id, trivial⟩
  · rw [NoneRefused, adjusted_swallowed_tag, orKeep, NoneRefused, adjusted_rectangleGone]
    exact ⟨id, id, trivial⟩
  · have hfinite : (1 : Float).isFinite = true := by decide +kernel
    have hgone : adjustAll ["t", "k"] "x" .increase 1 swallowed = rectangleGone := by
      rw [adjustAll, if_pos hfinite, List.foldl_cons, adjust_eq_orKeep, adjusted_swallowed_tag,
        orKeep, List.foldl_cons, adjust_eq_orKeep, adjusted_rectangleGone, orKeep, List.foldl_nil]
    have hkept : adjustAll ["k", "t"] "x" .increase 1 swallowed = rectangleKept := by
      rw [adjustAll, if_pos hfinite, List.foldl_cons, adjust_eq_orKeep,
        adjusted_swallowed_rectangle, orKeep, List.foldl_cons, adjust_eq_orKeep,
        adjusted_rectangleFirst, orKeep, List.foldl_nil]
    rw [hgone, hkept]
    decide +kernel

end Edit

end SvgWorkbench
