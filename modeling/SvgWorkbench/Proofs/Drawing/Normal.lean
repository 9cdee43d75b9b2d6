import SvgWorkbench.Proofs.Document.Change
import SvgWorkbench.Proofs.Document.Place
import SvgWorkbench.Proofs.Drawing.Sound
import SvgWorkbench.Proofs.Drawing.Spared

/-!
# Documents that are written as they are

A document is normal if writing it and reading it again gives out no id, joins or drops no text and
turns nothing into a space. Its text is then the text of the drawing that is read in it: nothing is
left to be put right. Every drawing that is read in a text that was written is normal.
-/

namespace SvgWorkbench

open SvgWorkbench.Tree Markup

/-! ## Empty texts -/

namespace Markup

private theorem emptyText_notMem_textNodes (s : String) :
    Content.text "" ∉ preorderAll (textNodes s) := by
  rw [textNodes]
  split
  · exact List.not_mem_nil
  · next hne =>
    intro hmem
    cases List.mem_singleton.1 hmem
    exact hne rfl

mutual

private theorem emptyText_notMem_settled {c : Content} (hc : c.text? = none)
    (ts : List (Tree Content)) : .text "" ∉ (settled (.node c ts)).preorder := by
  cases c with
  | text s => cases hc
  | element e =>
    intro hmem
    exact emptyText_notMem_settledAll ts "" ((List.mem_cons.1 hmem).resolve_left nofun)
  | comment | instruction | doctype => exact fun hmem ↦ nomatch List.mem_singleton.1 hmem

/-- Settled markup has no empty text. -/
theorem emptyText_notMem_settledAll (ts : List (Tree Content)) (before : String) :
    .text "" ∉ preorderAll (settledAll before ts) := by
  match ts with
  | [] =>
    rw [settledAll_nil]
    exact emptyText_notMem_textNodes before
  | .node c us :: ts =>
    cases hc : c.text? with
    | some s =>
      obtain rfl := Content.eq_text_of_text? hc
      rw [settledAll_text]
      exact emptyText_notMem_settledAll ts _
    | none =>
      rw [settledAll_cons hc, preorderAll_append, List.mem_append, preorderAll, List.mem_append]
      rintro (hmem | hmem | hmem)
      · exact emptyText_notMem_textNodes before hmem
      · exact emptyText_notMem_settled hc us hmem
      · exact emptyText_notMem_settledAll ts "" hmem

end

theorem haveIds_iff {ts : List (Tree Content)} : HaveIds ts ↔ ∀ t ∈ ts, HasIds t := by
  induction ts with
  | nil => exact ⟨fun _ ↦ nofun, fun _ ↦ trivial⟩
  | cons t ts ih => rw [HaveIds, ih, List.forall_mem_cons]

/-- Spaces for tabs and line breaks retouch no more than elements. -/
theorem Retouched.spaced {c c' : Content} (h : Retouched (fun _ ↦ True) c c') :
    Retouched (fun _ ↦ True) c c'.spaced := by
  cases h with
  | same =>
    cases c with
    | element e => exact .element rfl trivial
    | _ => exact .same _
  | element hname => exact .element hname trivial

section

variable {α : Type} {f g : α → Content}

mutual

/-- What labels stand for may change if every element was one before and loses no id. -/
theorem HasIds.map (hfg : ∀ a e', g a = .element e' →
    ∃ e, f a = .element e ∧ (e.id?.isSome = true → e'.id?.isSome = true))
    {t : Tree α} (h : HasIds (t.map f)) : HasIds (t.map g) := by
  match t with
  | .node a ts =>
    rw [Tree.map] at h ⊢
    rcases (g a).eq_element_or with ⟨e', he'⟩ | hc
    · obtain ⟨e, he, hid⟩ := hfg a e' he'
      rw [he] at h
      rw [he']
      exact ⟨hid h.1, HaveIds.mapAll hfg h.2⟩
    · exact hasIds_of_isElement_eq_false hc _

theorem HaveIds.mapAll (hfg : ∀ a e', g a = .element e' →
    ∃ e, f a = .element e ∧ (e.id?.isSome = true → e'.id?.isSome = true))
    {ts : List (Tree α)} (h : HaveIds (mapAll f ts)) : HaveIds (mapAll g ts) := by
  match ts with
  | [] => exact trivial
  | t :: ts => exact ⟨h.1.map hfg, h.2.mapAll hfg⟩

end

end

theorem HasIds.map_spaced {t : Tree Content} (h : HasIds t) : HasIds (t.map Content.spaced) := by
  rw [← Tree.map_eq_self (f := fun c ↦ c) (t := t) fun _ _ ↦ rfl] at h
  refine h.map fun c e' he' ↦ ?_
  cases c with
  | element e =>
    cases he'
    exact ⟨e, rfl, fun hid ↦ by rwa [Element.id?_spaced, Option.isSome_map]⟩
  | _ => cases he'

end Markup

/-! ## Normal documents -/

/-- Whether content is read again as it is written: a value without tabs and line breaks, a text
that is not empty. -/
def Content.IsKept (c : Content) : Prop := c.IsUnbroken ∧ c ≠ .text ""

/-- Whether a document is read again as it is written, and has all its ids. -/
structure Document.IsNormal (d : Document) : Prop where
  /-- The document can be written and read again. -/
  sound : d.IsSound
  /-- Everything in it comes back as it is. -/
  kept : ∀ c ∈ preorderAll d.markup, c.IsKept
  /-- No id is missing. -/
  ids : ∀ root, d.root? = some root → HasIds root.bare

namespace Drawing

variable {p q : Drawing} {text : String}

/-- **The drawing that is read in the text of a sound document is normal.** -/
theorem isNormal_of_parse_text {d : Document} (h : d.IsSound) (hparse : parse d.text = .ok p) :
    p.document.IsNormal := by
  obtain ⟨hclean, hrel⟩ := isClean_of_parse_text h hparse
  have hempty : ∀ c ∈ preorderAll p.document.markup, c ≠ .text "" := by
    refine hrel.forall_preorderAll (P := (· ≠ .text "")) (fun c c' hretouched hc ↦ ?_)
      fun c hc heq ↦ ?_
    · cases hretouched with
      | same => exact hc
      | element => exact nofun
    · exact emptyText_notMem_settledAll _ _ (heq ▸ hc)
  exact ⟨isSound_of_parse hparse hclean.isNamed,
    fun c hc ↦ ⟨hclean.isUnbroken c hc, hempty c hc⟩, fun root hroot ↦ hasIds_of_parse hparse hroot⟩

/-- **What is read in the text of a document that has all its ids**: the markup with spaces for tabs
and line breaks, and the components of this markup. -/
theorem eq_of_parse_text {d : Document} (hsound : d.IsSound)
    (hids : ∀ root, d.root? = some root → HasIds root.bare) (hparse : parse d.text = .ok q) :
    q = ⟨.ofMarkup (settledAll "" (mapAll Content.spaced d.markup)),
      Markup.components (mapAll Content.spaced d.markup)⟩ := by
  obtain ⟨-, m, hread, rfl⟩ := exists_markup_of_parse hparse
  obtain rfl := Except.ok.inj (hread.symm.trans hsound.read_text)
  rw [ofDocument_of_hasIds, components_settledAll]
  intro root hroot
  rw [root?_settledAll, root?_mapAll_spaced, Document.root?_markup, Option.map_map, Option.map_map,
    Option.map_eq_some_iff] at hroot
  obtain ⟨root, hroot, rfl⟩ := hroot
  exact (hids root hroot).map_spaced.settled

/-- **Nothing is left to be put right in a normal document**: its text is the text of its
drawing. -/
theorem text_of_isNormal {d : Document} (h : d.IsNormal) (hparse : parse d.text = .ok p) :
    p.text = d.text := by
  obtain rfl := eq_of_parse_text h.sound h.ids hparse
  have hempty : .text "" ∉ preorderAll d.markup := fun hmem ↦ (h.kept _ hmem).2 rfl
  rw [mapAll_spaced fun c hc ↦ (h.kept c hc).1]
  show Markup.write (Document.ofMarkup _).markup = Markup.write d.markup
  rw [Document.markup_ofMarkup, Markup.write_eq, Markup.writeNodes_settledAll hempty,
    Markup.write_eq]
  rfl

/-- What is read in the text of a drawing is the drawing again, if the drawing was read in a text
that was written. -/
theorem reparse_of_isSound {d : Document} (h : d.IsSound) (hparse : parse d.text = .ok p)
    (hparse' : parse p.text = .ok q) :
    q.document.IsNormal ∧ q.text = p.text ∧ q.components = p.components := by
  have hnormal := isNormal_of_parse_text h hparse
  refine ⟨isNormal_of_parse_text hnormal.sound hparse', text_of_isNormal hnormal hparse', ?_⟩
  have hcheck := (exists_markup_of_parse hparse').1
  have hreparse := (reparse_text hparse (fun c hc ↦ (hnormal.kept c hc).1)
    (isClean_of_parse_text h hparse).1.isNamed hcheck).1
  rw [componentsOf, hparse'] at hreparse
  exact Except.ok.inj hreparse

end Drawing

/-! ## Changes that keep a document normal -/

namespace Node

variable {k : Handle} {f : Node → Node}

mutual

theorem hasIds_modify {n : Node} (hf : ∀ m : Node, HasIds m.bare → HasIds (f m).bare)
    (hn : HasIds n.bare) : HasIds (modify k f n).bare := by
  match n with
  | .node ⟨h, c⟩ ts =>
    rw [modify]
    split
    · exact hf _ hn
    · rw [bare_node] at hn ⊢
      rcases c.eq_element_or with ⟨e, rfl⟩ | hc
      · exact ⟨hn.1, haveIds_modifyAll hf hn.2⟩
      · exact hasIds_of_isElement_eq_false hc _

private theorem haveIds_modifyAll {ns : List Node}
    (hf : ∀ m : Node, HasIds m.bare → HasIds (f m).bare) (hns : HaveIds (ns.map bare)) :
    HaveIds ((modifyAll k f ns).map bare) := by
  match ns with
  | [] => exact trivial
  | n :: ns => exact ⟨hasIds_modify hf hns.1, haveIds_modifyAll hf hns.2⟩

end

mutual

theorem hasIds_prune {n : Node} (hn : HasIds n.bare) : HasIds (prune k n).bare := by
  match n with
  | .node ⟨h, c⟩ ts =>
    rw [prune, bare_node]
    rw [bare_node] at hn
    rcases c.eq_element_or with ⟨e, rfl⟩ | hc
    · exact ⟨hn.1, haveIds_pruneAll hn.2⟩
    · exact hasIds_of_isElement_eq_false hc _

private theorem haveIds_pruneAll {ns : List Node} (hns : HaveIds (ns.map bare)) :
    HaveIds ((pruneAll k ns).map bare) := by
  match ns with
  | [] => exact trivial
  | n :: ns =>
    rw [pruneAll]
    split
    · exact haveIds_pruneAll hns.2
    · exact ⟨hasIds_prune hns.1, haveIds_pruneAll hns.2⟩

end

mutual

/-- Where no id is missing in a node, none is missing below an element of it. -/
theorem haveIds_children {n m : Node} (hn : HasIds n.bare) (hm : m ∈ n.elements) :
    HaveIds (m.children.map bare) := by
  match n with
  | .node ⟨h, c⟩ ts =>
    rw [elements] at hm
    split at hm
    case isFalse => cases hm
    next helement =>
    obtain ⟨e, rfl⟩ := c.eq_element_or.resolve_right (ne_false_of_eq_true helement)
    rw [bare_node] at hn
    rcases List.mem_cons.1 hm with rfl | hm
    · exact hn.2
    · exact haveIds_childrenAll hn.2 hm

private theorem haveIds_childrenAll {ns : List Node} {m : Node} (hns : HaveIds (ns.map bare))
    (hm : m ∈ elementsAll ns) : HaveIds (m.children.map bare) := by
  match ns with
  | [] => cases hm
  | n :: ns =>
    rcases List.mem_append.1 hm with hm | hm
    · exact haveIds_children hns.1 hm
    · exact haveIds_childrenAll hns.2 hm

end

end Node

/-- A change of one element of the root keeps a document normal if it keeps it sound, puts in
nothing that does not come back as it is, and takes away no id. -/
theorem Document.IsNormal.of_modifyAll {d d' : Document} (h : d.IsNormal)
    (hnodup : (Node.handlesAll d.topLevel).Nodup) {root n : Node} (hroot : d.root? = some root)
    (hn : n ∈ root.elements) {f : Node → Node}
    (hd' : d'.topLevel = Node.modifyAll n.handle f d.topLevel) (hsound : d'.IsSound)
    (hisRoot : n.isRoot = true → (f n).isRoot = true)
    (hkept : ∀ m : Node, (∀ c ∈ m.bare.preorder, c.IsKept) → ∀ c ∈ (f m).bare.preorder, c.IsKept)
    (hids : ∀ m : Node, HasIds m.bare → HasIds (f m).bare) : d'.IsNormal := by
  refine ⟨hsound, ?_, fun root' hroot' ↦ ?_⟩
  · rw [markup, hd']
    exact Node.forall_preorderAll_modifyAll hkept h.kept
  · have hfind := Node.find?_elementsAll_modifyAll_inside hnodup hroot
      (Node.mem_subtrees_of_mem_elements hn) (f := f)
      fun heq ↦ hisRoot (heq ▸ Drawing.isRoot_of_root? hroot)
    rw [← hd'] at hfind
    cases hfind.symm.trans hroot'
    exact Node.hasIds_modify hids (h.ids root hroot)

/-- Children that come back as they are and have their ids may stand in place of others. -/
theorem Document.IsNormal.withChildren {d d' : Document} (h : d.IsNormal)
    (hnodup : (Node.handlesAll d.topLevel).Nodup) {root n : Node} (hroot : d.root? = some root)
    (hn : n ∈ root.elements) {ts : List Node}
    (hd' : d'.topLevel = Node.modifyAll n.handle (Node.withChildren ts) d.topLevel)
    (hsound : d'.IsSound) (hkept : ∀ c ∈ preorderAll (ts.map Node.bare), c.IsKept)
    (hids : HaveIds (ts.map Node.bare)) : d'.IsNormal := by
  refine h.of_modifyAll hnodup hroot hn hd' hsound (fun h ↦ h) (fun m hm ↦ ?_) fun m hm ↦ ?_
  · obtain ⟨s, us⟩ := m
    rw [Node.bare_node, preorder, List.forall_mem_cons] at hm
    rw [Node.withChildren, label_node, Node.bare_node, preorder, List.forall_mem_cons]
    exact ⟨hm.1, hkept⟩
  · obtain ⟨⟨k, c⟩, us⟩ := m
    rw [Node.withChildren, label_node, Node.bare_node]
    rcases c.eq_element_or with ⟨e, rfl⟩ | hc
    · exact ⟨hm.1, hids⟩
    · exact hasIds_of_isElement_eq_false hc _

end SvgWorkbench
