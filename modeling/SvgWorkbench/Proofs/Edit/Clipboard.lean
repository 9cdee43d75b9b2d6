import SvgWorkbench.Proofs.Edit.Copied
import SvgWorkbench.Proofs.Edit.Located

/-!
# Two ways to copy an element

A clipboard entry is made of an element of the document or of its component. Both leave the id out
and take the text of an element without elements inside. The entry of a component also leaves out
every key that starts like that of a style declaration, while the entry of an element takes its
attributes as they are: the two are the same unless the markup itself has an attribute so named.
-/

namespace SvgWorkbench

open SvgWorkbench.Tree Component Drawing

namespace Drawing

/-- A component stands for an element of the root. -/
theorem exists_depicts_of_mem {p : Drawing} {text : String} {c : Component} {root : Node}
    (hparse : parse text = .ok p) (hroot : p.document.root? = some root)
    (hmem : c ∈ all p.components) : ∃ n ∈ root.elements, Depicts n c := by
  obtain ⟨_, -, himage⟩ := isImage_of_parse hparse
  obtain ⟨root', -, hroot', -, -, hdepicts⟩ := himage.depicts fun hnil ↦ by
    rw [hnil] at hmem
    cases hmem
  cases hroot.symm.trans hroot'
  obtain ⟨i, hi, rfl⟩ := List.getElem_of_mem hmem
  have hi' : i < root.elements.length := hdepicts.length_eq ▸ hi
  exact ⟨root.elements[i], List.getElem_mem hi', hdepicts.get hi' hi⟩

end Drawing

namespace Copied

variable {c : Component} {copy : Copied} {n : Node} {e : Element}

/-! ## What each of the two holds -/

/-- What the copy of a component holds: neither the id nor what the style declares. -/
theorem get?_ofComponent (c : Component) (key : String) : (ofComponent c).attributes.get? key =
    if key = "id" ∨ (styleName? key).isSome = true then none else c.attributes.get? key := by
  rw [ofComponent, SortedMap.get?_filter, keeps]
  by_cases hid : key = "id"
  · simp [hid]
  · cases hname : styleName? key with
    | none => cases c.attributes.get? key <;> simp [hid]
    | some name => simp

/-- What the copy of an element holds: its attributes but the id, and its text. -/
theorem get?_ofNode (he : n.content = .element e) (hkeys : e.keys.Nodup) (key : String) :
    (ofNode n).attributes.get? key =
      if key = textKey ∧ n.childElements = [] ∧ Text.trim n.textContent ≠ "" then
        some (Text.trim n.textContent)
      else if key = "id" then none else e.get? key := by
  have hnodup : ((e.attributes.filter (·.1 != "id")).map Prod.fst).Nodup :=
    hkeys.sublist (List.filter_sublist.map _)
  have hfind : ((e.attributes.filter (·.1 != "id")).find? (·.1 == key)).map (·.2)
      = if key = "id" then none else e.get? key := by
    rw [List.find?_filter]
    by_cases hid : key = "id"
    · rw [if_pos hid, Option.map_eq_none_iff, List.find?_eq_none]
      intro a _ ha
      simp only [bne_iff_ne, decide_eq_true_eq, beq_iff_eq] at ha
      exact ha.1 (ha.2.trans hid)
    · rw [if_neg hid, Element.get?]
      refine congrArg (Option.map _) (congrArg (List.find? · _) (funext fun a ↦ ?_))
      by_cases ha : a.1 = key <;> simp [ha, hid]
  rw [ofNode_of_content he, get?_withText, SortedMap.get?_ofList hnodup, hfind]

/-- Whether the copy of an element holds what that of its component holds, but under the keys of
style declarations. -/
structure Agrees (e : Element) (c : Component) (copy : Copied) : Prop where
  /-- The types are the same. -/
  kind : copy.kind = (ofComponent c).kind
  /-- Neither holds an id. -/
  id : copy.attributes.get? "id" = none ∧ (ofComponent c).attributes.get? "id" = none
  /-- What the style declares is not in the copy of the component. -/
  declared : ∀ key, (styleName? key).isSome = true → (ofComponent c).attributes.get? key = none
  /-- In the copy of the element stands what the element has there. -/
  raw : ∀ key, (styleName? key).isSome = true → copy.attributes.get? key = e.get? key
  /-- Under every other key they hold the same. -/
  others : ∀ key, styleName? key = none →
    copy.attributes.get? key = (ofComponent c).attributes.get? key

theorem agrees_ofNode (he : n.content = .element e) (hkeys : e.keys.Nodup) (h : Depicts n c) :
    (ofNode n).Agrees e c := by
  have hn := Node.element?_of_content he
  have hcopy := get?_ofNode he hkeys
  have hid : (ofNode n).attributes.get? "id" = none := by
    rw [hcopy, if_neg fun h ↦ absurd h.1 (by decide), if_pos rfl]
  have hid' : (ofComponent c).attributes.get? "id" = none := by
    rw [get?_ofComponent, if_pos (.inl rfl)]
  refine ⟨?_, ⟨hid, hid'⟩, fun key hname ↦ ?_, fun key hname ↦ ?_, fun key hname ↦ ?_⟩
  · have hkind := h.kind
    rw [hn, Option.map_some, Option.some.injEq] at hkind
    rw [ofNode_of_content he]
    exact hkind
  · rw [get?_ofComponent, if_pos (.inr hname)]
  · have hne : key ≠ textKey ∧ key ≠ "id" := by
      constructor <;> rintro rfl <;> cases hname
    rw [hcopy, if_neg fun h ↦ hne.1 h.1, if_neg hne.2]
  · by_cases hkey : key = "id"
    · rw [hkey, hid, hid']
    · have hshown := h.attributes e hn key
      rw [shown?, styled?, hname, Option.bind_none, Option.none_or] at hshown
      have hkept : ¬ (key = "id" ∨ (styleName? key).isSome = true) := by simp [hkey, hname]
      rw [hcopy, get?_ofComponent, if_neg hkept, if_neg hkey, hshown]

/-- The copies are the same if and only if the element has no attribute named like a declaration. -/
theorem Agrees.eq_iff (h : copy.Agrees e c) :
    copy = ofComponent c ↔ ∀ key ∈ e.keys, styleName? key = none := by
  constructor
  · rintro rfl key hkey
    by_contra hname
    rw [← ne_eq, Option.ne_none_iff_isSome] at hname
    have hget : e.get? key = none := (h.raw key hname).symm.trans (h.declared key hname)
    exact Element.get?_eq_none_iff.1 hget hkey
  · intro hkeys
    have hattributes : copy.attributes = (ofComponent c).attributes := by
      refine SortedMap.ext_get? fun key ↦ ?_
      cases hname : styleName? key with
      | none => exact h.others key hname
      | some name =>
        have hsome : (styleName? key).isSome = true := by rw [hname]; rfl
        have hkey : key ∉ e.keys := fun hkey ↦ by cases hname.symm.trans (hkeys key hkey)
        rw [h.raw key hsome, h.declared key hsome, Element.get?_eq_none_iff.2 hkey]
    exact congr (congrArg Copied.mk h.kind) hattributes

end Copied

namespace Edit

variable {p : Drawing} {text : String}

/-- **What is copied is what its component holds**, but for attributes that are named like style
declarations. Copying fails only where no component is found. -/
theorem copies_agree (hparse : parse text = .ok p)
    (hdistinct : ((all p.components).map Component.id).Nodup) (id : String) :
    (copy? text id = none ↔ find? p.components id = none) ∧
      ∀ c, find? p.components id = some c → ∃ n e copy, p.locate? id = some n ∧
        n.content = .element e ∧ e.id? = some c.id ∧ copy? text id = some copy ∧
        copy.Agrees e c ∧
        (copy = .ofComponent c ↔ ∀ key ∈ e.keys, styleName? key = none) := by
  have hcopied : ∀ c, find? p.components id = some c → ∃ n e copy, p.locate? id = some n ∧
      n.content = .element e ∧ e.id? = some c.id ∧ copy? text id = some copy ∧
      copy.Agrees e c := by
    intro c hfind
    obtain ⟨root, n, hroot, hn, hid, hlocate⟩ := exists_locate?_of_find? hparse hfind
    obtain ⟨e, he⟩ := Node.exists_content_of_isElement (Node.isElement_of_mem_elements hn)
    have hkeys : e.keys.Nodup := keys_of_mem hparse
      (Node.mem_elementsAll_trans (List.mem_of_find?_eq_some hroot) hn) he
    obtain ⟨m, hm, hdepicts⟩ := exists_depicts_of_mem hparse hroot
      (all_eq p.components ▸ mem_of_find? hfind)
    -- no other element has the id, so the component that is found stands for the one that is copied
    obtain rfl : n = m := Option.some.inj
      ((locate?_of_mem hparse hdistinct hroot hn hid).symm.trans
        (locate?_of_mem hparse hdistinct hroot hm hdepicts.id))
    exact ⟨n, e, .ofNode n, hlocate, he, (Node.id?_of_content he).symm.trans hid,
      copy?_eq_some_iff.2 ⟨p, n, hparse, hlocate, rfl⟩, Copied.agrees_ofNode he hkeys hdepicts⟩
  refine ⟨⟨fun hnone ↦ ?_, fun hnone ↦ ?_⟩, fun c hfind ↦ ?_⟩
  · rw [Option.eq_none_iff_forall_ne_some]
    intro c hfind
    obtain ⟨n, e, copy, -, -, -, hcopy, -⟩ := hcopied c hfind
    cases hnone.symm.trans hcopy
  · rw [Option.eq_none_iff_forall_ne_some]
    intro copy hcopy
    obtain ⟨q, n, hq, hlocate, -⟩ := copy?_eq_some_iff.1 hcopy
    cases hparse.symm.trans hq
    obtain ⟨c, root, hfind, -⟩ := exists_root_of_locate? hlocate
    cases hnone.symm.trans hfind
  · obtain ⟨n, e, copy, hlocate, he, hid, hcopy, hagrees⟩ := hcopied c hfind
    exact ⟨n, e, copy, hlocate, he, hid, hcopy, hagrees, hagrees.eq_iff⟩

/-- A text with a style is copied as its component is. -/
theorem copies_agree_of_styled : ∃ p c copy,
    parse "<svg><text id=\"t\" style=\"fill: red\"> a </text></svg>" = .ok p ∧
      ((all p.components).map Component.id).Nodup ∧ find? p.components "t" = some c ∧
      copy? "<svg><text id=\"t\" style=\"fill: red\"> a </text></svg>" "t" = some copy ∧
      copy = .ofComponent c := by
  have hparse := parse_of_read (s := "<svg><text id=\"t\" style=\"fill: red\"> a </text></svg>")
    (m := [.node (.element ⟨"svg", []⟩)
      [.node (.element ⟨"text", [("id", "t"), ("style", "fill: red")]⟩) [.node (.text " a ") []]]])
    (by cbv) (by cbv)
  generalize hp : ofDocument _ = p at hparse
  have hdistinct : ((all p.components).map Component.id).Nodup := by
    subst hp
    rw [all_eq]
    decide +kernel
  have hlocate : (p.locate? "t").map Node.element?
      = some (some ⟨"text", [("id", "t"), ("style", "fill: red")]⟩) := by
    subst hp
    decide +kernel
  obtain ⟨n, hn, helement⟩ := Option.map_eq_some_iff.1 hlocate
  obtain ⟨c, -, hfind, -⟩ := exists_root_of_locate? hn
  obtain ⟨m, e, copy, hm, he, -, hcopy, -, heq⟩ := (copies_agree hparse hdistinct "t").2 c hfind
  cases hn.symm.trans hm
  cases (Node.element?_of_content he).symm.trans helement
  exact ⟨p, c, copy, hparse, hdistinct, hfind, hcopy, heq.2 (by decide)⟩

/-- **An attribute of the markup that is named like a declaration is copied**, and the copy of the
component has none. -/
theorem exists_copy_ne_ofComponent : ∃ p c copy,
    parse "<svg><rect id=\"r\" style-x=\"1\"/></svg>" = .ok p ∧
      ((all p.components).map Component.id).Nodup ∧ find? p.components "r" = some c ∧
      copy? "<svg><rect id=\"r\" style-x=\"1\"/></svg>" "r" = some copy ∧
      copy.attributes.get? "style-x" = some "1" ∧
      (Copied.ofComponent c).attributes.get? "style-x" = none ∧ copy ≠ .ofComponent c := by
  have hparse := parse_of_read (s := "<svg><rect id=\"r\" style-x=\"1\"/></svg>")
    (m := [.node (.element ⟨"svg", []⟩)
      [.node (.element ⟨"rect", [("id", "r"), ("style-x", "1")]⟩) []]]) (by cbv) (by cbv)
  have hcopy : copy? "<svg><rect id=\"r\" style-x=\"1\"/></svg>" "r"
      = some ⟨"rect", .ofList [("style-x", "1")]⟩ := by cbv
  exact ⟨_, .node ⟨"r", "rect", some "svg-0", .ofList [("id", "r"), ("style-x", "1")]⟩ [], _,
    hparse, by rw [all_eq]; decide +kernel, by decide +kernel, hcopy, by decide +kernel,
    by decide +kernel, by decide +kernel⟩

end Edit

end SvgWorkbench
