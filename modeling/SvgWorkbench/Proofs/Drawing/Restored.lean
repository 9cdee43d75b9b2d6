import SvgWorkbench.Proofs.Drawing.Serialized
import SvgWorkbench.Proofs.Drawing.Site
import SvgWorkbench.Proofs.Gate.Front

/-!
# Markup that is there again

An edit that takes back another one leaves the markup there was, settled, since it has been written
and read in between. Its components are those there were. The check lets it through if it agrees with
the reader on the text that both edits began with, and has let through the text in between, in which
every element stands that stands in the other one.
-/

namespace SvgWorkbench

open Text Xml SvgWorkbench.Tree Markup

/-! ## Settled documents -/

namespace Markup

private theorem areRead_textNodes (top : Bool) (s : String) : AreRead top (textNodes s) := by
  rw [textNodes]
  split
  · trivial
  · exact ⟨rfl, trivial⟩

mutual

theorem IsRead.settled {top : Bool} {t : Tree Content} (h : IsRead top t) :
    IsRead top (settled t) := by
  match t, h with
  | .node (.element _) _, h => exact ⟨h.1, h.2.settledAll ""⟩
  | .node (.text _) _, _ => rfl
  | .node (.comment _) _, h => exact ⟨h.1, rfl⟩
  | .node (.instruction _) _, h => exact ⟨h.1, rfl⟩
  | .node (.doctype _) _, h => exact ⟨h.1, h.2.1, rfl⟩

/-- Settled markup has the form of markup that is read, if the markup has. -/
theorem AreRead.settledAll {top : Bool} {ts : List (Tree Content)} (h : AreRead top ts)
    (before : String) :
    AreRead top (settledAll before ts) := by
  match ts, h with
  | [], _ =>
    rw [settledAll_nil]
    exact areRead_textNodes top before
  | .node c us :: ts, h =>
    cases htext : c.text? with
    | some s =>
      obtain rfl := Content.eq_text_of_text? htext
      rw [settledAll_text]
      exact h.2.settledAll _
    | none =>
      have hrest : AreRead top (Markup.settled (.node c us) :: Markup.settledAll "" ts) :=
        ⟨h.1.settled, h.2.settledAll ""⟩
      rw [areRead_iff] at hrest
      rw [settledAll_cons htext, areRead_iff, List.forall_mem_append]
      exact ⟨areRead_iff.1 (areRead_textNodes top before), hrest⟩

end

/-- A text in front stays in front. -/
private theorem exists_settledAll_eq_append (ts : List (Tree Content)) (before : String) :
    ∃ more us, settledAll before ts = textNodes (before ++ more) ++ us := by
  induction ts generalizing before with
  | nil => exact ⟨"", [], by rw [settledAll_nil, String.append_empty, List.append_nil]⟩
  | cons t ts ih =>
    obtain ⟨c, us⟩ := t
    cases htext : c.text? with
    | some s =>
      obtain rfl := Content.eq_text_of_text? htext
      obtain ⟨more, vs, hvs⟩ := ih (before ++ s)
      exact ⟨s ++ more, vs, by rw [settledAll_text, hvs, String.append_assoc]⟩
    | none => exact ⟨"", _, by rw [settledAll_cons htext, String.append_empty]⟩

private theorem exists_startsSpaced_settledAll {t : Tree Content} (h : StartsSpaced t)
    (ts : List (Tree Content)) :
    ∃ u us, settledAll "" (t :: ts) = u :: us ∧ StartsSpaced u := by
  obtain ⟨c, vs⟩ := t
  cases htext : c.text? with
  | some s =>
    obtain rfl := Content.eq_text_of_text? htext
    obtain ⟨x, xs, hs, hx⟩ := h s rfl
    obtain ⟨more, us, hus⟩ := exists_settledAll_eq_append ts s
    have hmore : (s ++ more).toList = x :: (xs ++ more.toList) := by
      rw [String.toList_append, hs, List.cons_append]
    have hne : (s ++ more).isEmpty = false := by
      rw [Bool.eq_false_iff, ne_eq, String.isEmpty_iff]
      intro heq
      rw [heq] at hmore
      cases hmore
    refine ⟨.node (.text (s ++ more)) [], us, ?_, ?_⟩
    · rw [settledAll_text, String.empty_append, hus, textNodes, hne]
      rfl
    · rintro _ ⟨⟩
      exact ⟨x, _, hmore, hx⟩
  | none =>
    refine ⟨_, _, settledAll_cons htext "" vs ts, fun s hs ↦ ?_⟩
    rw [label_settled, label_node, htext] at hs
    cases hs

end Markup

/-- A sound document is sound once it is settled. -/
theorem Document.IsSound.settled {d d' : Document} (h : d.IsSound)
    (hd' : d'.markup = settledAll "" d.markup) : d'.IsSound := by
  obtain ⟨t, ts, hmarkup, hstart⟩ := h.start
  obtain ⟨u, us, hu, hstart'⟩ := exists_startsSpaced_settledAll hstart ts
  refine ⟨?_, ?_, u, us, ?_, hstart'⟩
  · rw [hd']
    exact h.isRead.settledAll ""
  · rw [hd']
    exact forall_preorderAll_settledAll (fun _ ↦ trivial) h.isNamed ""
  · rw [hd', hmarkup, hu]

/-! ## What stands before the first element -/

private theorem exists_append_cons_of_eq {α : Type} {P : α → Prop} {left right front after : List α}
    {x t : α} (h : left ++ x :: right = front ++ t :: after) (hfront : ∀ y ∈ front, ¬ P y)
    (hx : P x) (y : α) : ∃ t' after', left ++ y :: right = front ++ t' :: after' ∧
      (t' = t ∨ x = t ∧ t' = y) := by
  rcases List.append_eq_append_iff.1 h with ⟨as, rfl, has⟩ | ⟨bs, rfl, hbs⟩
  · cases as with
    | nil => exact ⟨y, right, by rw [List.append_nil], .inr ⟨(List.cons.inj has).1, rfl⟩⟩
    | cons a as =>
      obtain ⟨rfl, -⟩ := List.cons.inj has
      exact absurd hx (hfront x (List.mem_append_right _ List.mem_cons_self))
  · cases bs with
    | nil => exact ⟨y, right, by rw [List.append_nil], .inr ⟨(List.cons.inj hbs).1.symm, rfl⟩⟩
    | cons b bs =>
      obtain ⟨rfl, -⟩ := List.cons.inj hbs
      exact ⟨t, bs ++ y :: right, by simp, .inl rfl⟩

namespace Markup

/-- Whatever stands at a place below elements, the same stands before the first element. -/
theorem exists_plug_eq_append {c : Context Content} (hpath : ∀ a ∈ c.path, Content.isElement a = true)
    {front after : List (Tree Content)} {t x : Tree Content} (h : c.plug [x] = front ++ t :: after)
    (hfront : ∀ u ∈ front, Content.isElement (label u) = false)
    (hx : Content.isElement x.label = true) (y : Tree Content) :
    ∃ t' after', c.plug [y] = front ++ t' :: after' ∧ (t'.label = t.label ∨ t'.label = y.label) := by
  have hfront' : ∀ u ∈ front, ¬ Content.isElement (label u) = true :=
    fun u hu ↦ ne_true_of_eq_false (hfront u hu)
  cases c with
  | here left right =>
    rw [Context.plug_here, List.append_assoc, List.singleton_append] at h
    obtain ⟨t', after', heq, ht'⟩ :=
      exists_append_cons_of_eq (P := fun u ↦ Content.isElement (label u) = true) h hfront' hx y
    rw [Context.plug_here, List.append_assoc, List.singleton_append]
    exact ⟨t', after', heq, ht'.imp (congrArg label) fun hy ↦ congrArg label hy.2⟩
  | inside left a below right =>
    have ha := hpath a List.mem_cons_self
    obtain ⟨t', after', heq, ht'⟩ :=
      exists_append_cons_of_eq (P := fun u ↦ Content.isElement (label u) = true) h hfront' ha
        (.node a (below.plug [y]))
    refine ⟨t', after', heq, .inl ?_⟩
    rcases ht' with rfl | ⟨rfl, rfl⟩ <;> rfl

end Markup

namespace Drawing

variable {text : String} {p q : Drawing} {d : Document}

/-- Where no value has a line break, none is in the name of a namespace. -/
theorem isSteady_of_isClean (h : parse text = .ok p) (hclean : p.IsClean)
    (hdeclaration : Gate.HasPlainDeclaration (Gate.unmarked text.toList))
    (hdoctype : Gate.HasPlainDoctype text.toList) : IsSteady text := by
  refine ⟨hdeclaration, hdoctype, fun m hread e he a ha q hq hspecial ↦ ?_⟩
  obtain ⟨-, m', hread', rfl⟩ := exists_markup_of_parse h
  cases hread.symm.trans hread'
  obtain ⟨b, hb, hgiven⟩ := (relAll_idGiven_ofDocument m).exists_of_mem he
  have hunbroken := hclean.isUnbroken b hb
  cases hgiven with
  | same => exact hunbroken a ha
  | given _ _ =>
    -- an id is given out under a name that is not that of a namespace
    refine hunbroken a (Element.mem_setEntry_of_ne ha fun hkey ↦ ?_)
    rw [hkey, Gate.ofChars?_id] at hq
    cases hq
    cases hspecial

/-- A drawing has a root after what may stand before one, if the check and the reader agree on the
text. -/
theorem exists_prolog_of_parse (h : parse text = .ok p) (hsteady : IsSteady text) :
    ∃ front t after, p.document.markup = front ++ t :: after ∧ Gate.AcceptsProlog front ∧
      t.label.isElement = true := by
  obtain ⟨m, -, -, haccepts, hrel⟩ := exists_accepted h hsteady
  obtain ⟨front, t, after, rfl, hfront, ht⟩ := haccepts.exists_prolog
  obtain ⟨front', us, hmarkup, hfronts, hrest⟩ := hrel.exists_of_append
  obtain ⟨a, ts⟩ := t
  match us, hrest with
  | .node _ _ :: us, ⟨⟨hlabel, _⟩, _⟩ =>
    exact ⟨front', _, us, hmarkup, hfront.of_relAll hfronts, hlabel.isElement_eq.trans ht⟩

/-- **An edit at a place below elements leaves the document type plain**, whatever it puts into the
tag of the element there. -/
theorem hasPlainDoctype_of_plug (h : parse text = .ok p) (hsteady : IsSteady text)
    {c : Context Content} (hpath : ∀ a ∈ c.path, Content.isElement a = true) {e e' : Element}
    {us : List (Tree Content)} (hmarkup : p.document.markup = c.plug [.node (.element e) us])
    (hname : IsName e'.name.toList) (vs : List (Tree Content)) :
    Gate.HasPlainDoctype (write (c.plug [.node (.element e') vs])).toList := by
  obtain ⟨front, t, after, hp, hfront, ht⟩ := exists_prolog_of_parse h hsteady
  obtain ⟨t', after', hplug, ht'⟩ := exists_plug_eq_append hpath (hmarkup.symm.trans hp)
    hfront.isElement_eq rfl (.node (.element e') vs)
  have hnamed := isNamed_of_parse h hsteady
  have hsound := isSound_of_parse h hnamed
  -- the first element is the one before the edit, or that of the edit
  obtain ⟨e'', ws, rfl, hname''⟩ : ∃ e'' ws, t' = .node (.element e'') ws ∧
      IsName e''.name.toList := by
    obtain ⟨a, ws⟩ := t'
    rcases ht' with hlabel | hlabel
    · obtain ⟨e'', he''⟩ := t.label.eq_element_or.resolve_right (ne_false_of_eq_true ht)
      refine ⟨e'', ws, congrArg (Tree.node · ws) (hlabel.trans he''), (hnamed (.element e'') ?_).1⟩
      rw [hp, mem_preorderAll_append, ← he'']
      exact .inr (List.mem_append_left _ (by cases t; exact List.mem_cons_self))
    · exact ⟨e', ws, congrArg (Tree.node · ws) hlabel, hname⟩
  obtain ⟨x, more, hwrite, hx⟩ := Gate.exists_of_writeNode_element hname'' ws (writeNodes after')
  have hwritable := hsound.isRead.areWritable hnamed
  obtain ⟨u, us', hcons, hstart⟩ := hsound.start
  rw [hp] at hwritable hcons
  rw [write_eq, String.toList_ofList, hplug, writeNodes_append, writeNodes, hwrite]
  refine Gate.hasPlainDoctype_of_prolog (areWritable_append.1 hwritable).1
    (fun v hv ↦ ?_) hfront hx more
  cases front with
  | nil => cases hv
  | cons v' front =>
    obtain ⟨rfl, -⟩ := List.cons.inj hcons
    cases hv
    exact hstart

/-- No element of what is written has its id under both of its names, if it can be read. -/
theorem isClashFree_of_parse_text (hsound : d.IsSound) (hplain : Gate.HasPlainDoctype d.text.toList)
    (hparse : parse d.text = .ok q) : d.markup.IsClashFree := by
  obtain ⟨hcheck, -⟩ := exists_markup_of_parse hparse
  intro e he
  have hstrict := Gate.isStrict_of_check hcheck hsound.read_text hplain _
    (element_spaced_mem_settledAll hsound.isRead he)
  exact Element.isClashFree_spaced.1 hstrict.2.1

/-- **No element of the markup has its id under both of its names** if an edit of the children of one
element is written and can be read, and leaves the elements. -/
theorem isClashFree_of_fill (h : parse text = .ok p) (hsteady : IsSteady text) {e : Element}
    {s : Site e} {us vs : List (Tree Content)} (hmarkup : p.document.markup = s.fill us)
    (hsound : d.IsSound) (hd : d.markup = s.fill vs) (hparse : parse d.text = .ok q)
    (hkeeps : ∀ c ∈ preorderAll us, c ∈ preorderAll vs) : p.document.markup.IsClashFree := by
  have hname : IsName e.name.toList :=
    (isNamed_of_parse h hsteady (.element e) (by
      rw [hmarkup, s.fill_eq_plug, Context.mem_preorderAll_plug]
      exact .inr List.mem_cons_self)).1
  have hplain := hasPlainDoctype_of_plug h hsteady s.path_place (hmarkup.trans (s.fill_eq_plug us))
    hname vs
  rw [← s.fill_eq_plug, ← hd] at hplain
  have hfree := isClashFree_of_parse_text hsound hplain hparse
  intro e' he'
  refine hfree e' ?_
  rw [hmarkup, s.mem_preorderAll_fill] at he'
  rw [hd, s.mem_preorderAll_fill]
  exact he'.imp_right (hkeeps _)

/-- **What is read of an edit of the children of one element that brings no new elements** is what
has been written, settled. -/
theorem markup_of_parse_text (h : parse text = .ok p) (hclean : p.IsClean) {e : Element} {s : Site e}
    {us vs : List (Tree Content)} (hmarkup : p.document.markup = s.fill us) (hsound : d.IsSound)
    (hd : d.markup = s.fill vs) (hkept : ∀ c ∈ preorderAll vs, c ∈ preorderAll us)
    (hparse : parse d.text = .ok q) : q.document.markup = settledAll "" (s.fill vs) := by
  have hunbroken : ∀ c ∈ preorderAll (s.fill vs), c.IsUnbroken := by
    intro c hc
    refine hclean.isUnbroken c ?_
    rw [s.mem_preorderAll_fill] at hc
    rw [hmarkup, s.mem_preorderAll_fill]
    exact hc.imp_right (hkept c)
  obtain ⟨hids, hhave⟩ := s.hasIds_of_parse h hmarkup
  obtain ⟨-, m, hm, rfl⟩ := exists_markup_of_parse hparse
  obtain rfl := Except.ok.inj (hm.symm.trans hsound.read_text)
  rw [hd, mapAll_spaced hunbroken, s.settledAll_fill]
  exact hids.settled.markup_ofDocument
    (isSome_id?_settledAll fun e he ↦ hhave e (hkept _ he))

/-! ## What is there again -/

/-- **The components are those there were** when the markup is there again. -/
theorem componentsOf_text_of_restored (h : parse text = .ok p) (hclean : p.IsClean)
    (hd : d.markup = settledAll "" p.document.markup) (hread : ∃ q, parse d.text = .ok q) :
    componentsOf d.text = .ok p.components := by
  obtain ⟨q, hq⟩ := hread
  have hsound := (isSound_of_parse h hclean.isNamed).settled hd
  have hids : ∀ root, d.root? = some root → HasIds root.bare := by
    intro root hroot
    have hmarkup := Document.root?_markup d
    rw [hd, root?_settledAll, hroot, Option.map_some, Option.map_eq_some_iff] at hmarkup
    obtain ⟨t, ht, hbare⟩ := hmarkup
    rw [Document.root?_markup, Option.map_eq_some_iff] at ht
    obtain ⟨root', hroot', rfl⟩ := ht
    exact hbare ▸ (hasIds_of_parse h hroot').settled
  have hunbroken : ∀ c ∈ preorderAll d.markup, c.IsUnbroken := by
    rw [hd]
    exact forall_preorderAll_settledAll (fun _ ↦ trivial) hclean.isUnbroken ""
  rw [componentsOf, hq, eq_of_parse_text hsound hids hq, mapAll_spaced hunbroken, hd,
    components_settledAll, components_of_parse h]
  rfl

/-- **Markup that is there again can be read** if the check and the reader agree on the text, and
what is there has no clash. -/
theorem exists_parse_of_restored (h : parse text = .ok p) (hsteady : IsSteady text)
    (hclean : p.IsClean) (hfree : p.document.markup.IsClashFree)
    (hd : d.markup = settledAll "" p.document.markup) : ∃ q, parse d.text = .ok q := by
  obtain ⟨m, -, -, haccepts, hrel⟩ := exists_accepted h hsteady
  have haccepts := (haccepts.of_relAll (fun _ hid ↦ hid) hrel hfree).settledAll
  have hsound := (isSound_of_parse h hclean.isNamed).settled hd
  rw [mapAll_spaced hclean.isUnbroken, ← hd] at haccepts
  obtain ⟨t, ts, hmarkup, hstart⟩ := hsound.start
  have hcheck := haccepts.check_write (hsound.isRead.areWritable hsound.isNamed) (by
    rw [hmarkup]
    simpa using hstart)
  exact ⟨_, parse_of_read hcheck hsound.read_text⟩

end Drawing

end SvgWorkbench
