import SvgWorkbench.Proofs.Edit.Added
import SvgWorkbench.Proofs.Session.Confined
import SvgWorkbench.Proofs.Session.Live

/-!
# What is added is selected

Duplicating and pasting commit a text in which all components that were there have kept their ids,
so the ids that are new are those of what was added, and these are selected. A paste adds one
component for every copy that is accepted when its turn comes, at the end of the root and in the
order of the clipboard.
-/

namespace SvgWorkbench

open Xml SvgWorkbench.Tree Component

namespace Session

variable {s t : Session}

/-! ## What sessions are made of -/

/-- Whether the text of a session is clean and its components are those of the text, the flat list
is that of the components, and the clipboard holds copies of ordinary elements. -/
structure IsInOrder (s : Session) : Prop where
  /-- The text and the components agree, and the text is clean. -/
  clean : s.IsClean
  /-- The flat list is that of the components. -/
  flat : s.flat = flatten false s.components
  /-- The copies are ordinary. -/
  clipboard : ∀ c ∈ s.clipboard, c.IsOrdinary fun k ↦ IsName k.toList

/-- After any actions a session is in order if its attribute values are clean: no document type may
be handed in, and the properties have to be named properly. -/
theorem isInOrder_run {config : Config} {text : String} (hopen : openText config text = .ok s)
    (hlimit : config.historyLimit.toNat + 1 < UInt64.size) (hdoctype : IsDoctypeFree text)
    {actions : List Action} (hactions : ∀ a ∈ actions, a.IsProper)
    (hunbroken : ∀ p, Drawing.parse (s.run actions).markup = .ok p →
      ∀ c ∈ preorderAll p.document.markup, c.IsUnbroken) : (s.run actions).IsInOrder where
  clean := isClean_run hopen hlimit hdoctype hactions hunbroken
  flat := ((isPointed_openText hopen).run actions).flat
  clipboard := (isDrawn_run hopen hlimit hdoctype hactions).clipboard

/-! ## What was there and what is new -/

/-- Whether a session has everything another one had, and so many components more, which are those
that are selected. -/
structure SelectsAdded (s t : Session) (n : Nat) : Prop where
  /-- What was there is there, with its id, its type and its parent, and in its order. -/
  kept : s.flat.Sublist t.flat
  /-- No two components have the same id. -/
  nodup : t.ids.Nodup
  /-- Something is new. -/
  pos : 0 < n
  /-- What is new is selected, in document order. -/
  selected : ∃ added, added.Sublist t.flat ∧ t.flat.Perm (s.flat ++ added) ∧ added.length = n ∧
    t.selection.ids = added.map fun entry ↦ entry.heading.id

/-- Whether a session has the components of another one with those of some copies at the end of the
root, in the order of the copies. -/
def AppendsCopies (s t : Session) (copies : List Copied) : Prop :=
  ∃ e e' cs added, s.components = [.node e cs] ∧ t.components = [.node e' (cs ++ added)] ∧
    e'.heading = e.heading ∧ List.Forall₂ (Copied.IsPut e.id) copies added

/-- Of a list in which no id is repeated, the entries whose ids are in a sublist are the sublist. -/
private theorem filter_of_sublist {xs ys : List Flat} (h : xs.Sublist ys)
    (hnodup : (ys.map fun entry ↦ entry.heading.id).Nodup) :
    (ys.filter fun entry ↦ (xs.map fun entry ↦ entry.heading.id).contains entry.heading.id)
      = xs := by
  induction h with
  | slnil => rfl
  | @cons xs ys y hsublist ih =>
    rw [List.map_cons, List.nodup_cons] at hnodup
    have hnot : y.heading.id ∉ xs.map fun entry ↦ entry.heading.id :=
      fun hmem ↦ hnodup.1 ((hsublist.map _).subset hmem)
    rw [List.filter_cons_of_neg (by simpa using hnot), ih hnodup.2]
  | @cons_cons xs ys y hsublist ih =>
    rw [List.map_cons, List.nodup_cons] at hnodup
    rw [List.filter_cons_of_pos (by simp)]
    refine congrArg (y :: ·) ((List.filter_congr fun z hz ↦ ?_).trans (ih hnodup.2))
    have hne : z.heading.id ≠ y.heading.id :=
      fun heq ↦ hnodup.1 (heq ▸ List.mem_map_of_mem (f := fun entry : Flat ↦ entry.heading.id) hz)
    simp [hne]

/-! ## Committing what was added -/

/-- What is committed is the drawing of another text. -/
theorem exists_of_commit_eq {result : Except EditError String}
    (h : s.commit result = (.committed, t)) : ∃ w q, result = .ok w ∧ w ≠ s.markup ∧
      Drawing.parse w = .ok q ∧ t = s.record q.text q.components := by
  rcases commit_eq_or s result with ⟨hnot, -⟩ | ⟨w, q, hw, hne, hq, heq⟩
  · exact absurd (congrArg Prod.fst h) hnot
  · exact ⟨w, q, hw, hne, hq, (Prod.ext_iff.1 (h.symm.trans heq)).2⟩

theorem commitAdding_fst (s : Session) (result : Except EditError String) :
    (s.commitAdding result).1 = (s.commit result).1 := by
  rw [commitAdding]
  split
  · next hcommit =>
    rw [hcommit]
    split <;> rfl
  · rfl

/-- A text that can be read is committed, unless it is the text that is there. -/
theorem commit_fst {w : String} {q : Drawing} (hne : w ≠ s.markup) (hq : Drawing.parse w = .ok q) :
    (s.commit (.ok w)).1 = .committed := congrArg Prod.fst (commit_of_parse hne hq)

/-- What is committed is selected as far as it is new, if anything is. -/
theorem exists_of_commitAdding {result : Except EditError String}
    (h : (s.commitAdding result).1 = .committed) : ∃ w q, result = .ok w ∧ w ≠ s.markup ∧
      Drawing.parse w = .ok q ∧ (s.commitAdding result).2.components = q.components ∧
      (s.commitAdding result).2.flat = flatten false q.components ∧
      ((s.commitAdding result).2.ids.filter (fun id ↦ !s.ids.contains id) ≠ [] →
        (s.commitAdding result).2.selection
          = .ofIds ((s.commitAdding result).2.ids.filter fun id ↦ !s.ids.contains id)) := by
  rw [commitAdding] at h ⊢
  split
  · next t hcommit =>
    obtain ⟨w, q, hw, hne, hq, rfl⟩ := exists_of_commit_eq hcommit
    split
    · next hnone => exact ⟨w, q, hw, hne, hq, rfl, rfl, fun hsome ↦ absurd hnone hsome⟩
    · exact ⟨w, q, hw, hne, hq, rfl, rfl, fun _ ↦ rfl⟩
  · next hnot =>
    -- only a commit is committed
    split at h
    · next t hcommit => exact absurd hcommit (hnot t)
    · exact (hnot (s.commit result).2 (Prod.ext h rfl)).elim

/-- **What is added is selected**, if the edit adds something and leaves what was there. -/
theorem selectsAdded_commitAdding (h : s.IsInOrder) (hids : s.ids.Nodup)
    {result : Except EditError String} {n : Nat}
    (hadds : ∀ w, result = .ok w → w ≠ s.markup → 0 < n ∧
      ∃ p q, Drawing.parse s.markup = .ok p ∧ Drawing.parse w = .ok q ∧ p.Adds q n)
    (hcommitted : (s.commitAdding result).1 = .committed) :
    s.SelectsAdded (s.commitAdding result).2 n := by
  obtain ⟨w, q, hw, hne, hq, -, hflat, hselection⟩ := exists_of_commitAdding hcommitted
  obtain ⟨hpos, p, q', hp, hq', hadds⟩ := hadds w hw hne
  cases hq.symm.trans hq'
  have hbefore : s.flat = (headings p.components).map fun heading ↦ ⟨heading, none⟩ := by
    rw [h.flat, ← h.clean.components p hp, flatten_false]
  rw [flatten_false] at hflat
  generalize (s.commitAdding result).2 = t at hflat hselection ⊢
  have hidsOf : ∀ hs : List Heading, (hs.map fun heading ↦ (⟨heading, none⟩ : Flat)).map
      (fun entry ↦ entry.heading.id) = hs.map Heading.id := fun hs ↦ List.map_map
  have hkept : s.flat.Sublist t.flat := by
    rw [hbefore, hflat]
    exact hadds.kept.map _
  have hnodup : t.ids.Nodup := by
    rw [ids, hbefore, hidsOf] at hids
    rw [ids, hflat, hidsOf]
    exact hadds.nodup hids
  -- what is not new is what was there
  have hold := filter_of_sublist hkept hnodup
  have hperm := List.filter_append_perm
    (fun entry ↦ (s.flat.map fun entry ↦ entry.heading.id).contains entry.heading.id) t.flat
  rw [hold] at hperm
  have hlength : t.flat.length = s.flat.length + n := by
    rw [hbefore, hflat, List.length_map, List.length_map, hadds.length]
  have hadded := hperm.length_eq
  rw [List.length_append, hlength, Nat.add_left_cancel_iff] at hadded
  have hnew : t.ids.filter (fun id ↦ !s.ids.contains id) = (t.flat.filter fun entry ↦
      !(s.flat.map fun entry ↦ entry.heading.id).contains entry.heading.id).map
        fun entry ↦ entry.heading.id := List.filter_map
  refine ⟨hkept, hnodup, hpos, _, List.filter_sublist, hperm.symm, hadded, ?_⟩
  rw [hselection, Selection.ids_ofIds (hnodup.filter _), hnew]
  rw [hnew]
  exact List.ne_nil_of_length_pos (by rw [List.length_map, hadded]; exact hpos)

/-- A row of edits that changes the text has added something. -/
private theorem adds_forEach (h : s.IsInOrder) {α : Type}
    {edit : String → α → Except EditError String} {items : List α}
    (hadds : ∀ item ∈ items, Edit.AddsOne edit item)
    (hreads : ∀ text item w, edit text item = .ok w → ∃ p, Drawing.parse text = .ok p) {w : String}
    (hw : (.ok (Edit.forEach edit s.markup items) : Except EditError String) = .ok w)
    (hne : w ≠ s.markup) :
    0 < (Edit.accepted edit s.markup items).length ∧
      ∃ p q, Drawing.parse s.markup = .ok p ∧ Drawing.parse w = .ok q ∧
        p.Adds q (Edit.accepted edit s.markup items).length := by
  cases hw
  refine ⟨List.length_pos_of_ne_nil (mt Edit.forEach_of_accepted_eq_nil hne), ?_⟩
  cases hparse : Drawing.parse s.markup with
  | error cause => exact absurd (Edit.forEach_of_parse_error hreads hparse) hne
  | ok p =>
    obtain ⟨q, hq, -, hadds⟩ := Edit.exists_adds_forEach hadds hparse (h.clean.markup p hparse)
    exact ⟨p, q, rfl, hq, hadds⟩

private theorem exists_parse_of_paste {text w : String} {copy : Copied}
    (hedit : Edit.paste none text copy = .ok w) : ∃ p, Drawing.parse text = .ok p := by
  obtain ⟨p, n, hparse, -⟩ := Edit.paste_eq_ok_iff.1 hedit
  exact ⟨p, hparse⟩

private theorem exists_parse_of_duplicate {config : Config} {text id w : String}
    (hedit : Edit.duplicate config text id = .ok w) : ∃ p, Drawing.parse text = .ok p := by
  obtain ⟨p, n, parent, hparse, -⟩ := Edit.duplicate_eq_ok_iff.1 hedit
  exact ⟨p, hparse⟩

/-- What a committed paste has appended to the root. -/
private theorem appendsCopies_paste (h : s.IsInOrder) (hcommitted : s.paste.1 = .committed) :
    s.AppendsCopies s.paste.2 (Edit.accepted (Edit.paste none) s.markup s.clipboard) := by
  rw [paste] at hcommitted ⊢
  split at hcommitted
  · cases hcommitted
  next hsome =>
  rw [if_neg hsome]
  obtain ⟨w, q, hw, hne, hq, hcomponents, -, -⟩ := exists_of_commitAdding hcommitted
  cases hw
  cases hparse : Drawing.parse s.markup with
  | error cause =>
    exact absurd (Edit.forEach_of_parse_error (fun _ _ _ ↦ exists_parse_of_paste) hparse) hne
  | ok p =>
  have hclean := h.clean.markup p hparse
  have hbefore := h.clean.components p hparse
  obtain ⟨e, cs, hroot⟩ : ∃ e cs, p.components = [.node e cs] := by
    by_contra hnone
    -- without a root no copy is accepted
    refine hne (Edit.forEach_induction (P := (· = s.markup)) ?_ rfl)
    rintro _ copy w hmem rfl hedit
    obtain ⟨-, e, -, cs, -, -, -, hroot, -⟩ :=
      Edit.exists_components_paste hparse hclean (h.clipboard copy hmem) hedit
    exact (hnone ⟨e, cs, hroot⟩).elim
  obtain ⟨q', e', added, hq', hadded, hheading, hput⟩ :=
    Edit.exists_components_pasteAll hparse hclean h.clipboard hroot
  cases hq.symm.trans hq'
  exact ⟨e, e', cs, added, hbefore ▸ hroot, hcomponents.trans hadded, hheading, hput⟩

/-- **Duplicating and pasting select exactly what they have added**, and a paste has added the
copies that were accepted, at the end of the root and in their order. -/
theorem selectsAdded_of_committed (h : s.IsInOrder) (hids : s.ids.Nodup) :
    (∀ id, (s.duplicate id).1 = .committed → s.SelectsAdded (s.duplicate id).2 1) ∧
      (s.duplicateSelection.1 = .committed → s.SelectsAdded s.duplicateSelection.2
        (Edit.accepted (Edit.duplicate s.config) s.markup s.selection.ids).length) ∧
      (s.paste.1 = .committed →
        s.SelectsAdded s.paste.2 (Edit.accepted (Edit.paste none) s.markup s.clipboard).length ∧
          s.AppendsCopies s.paste.2 (Edit.accepted (Edit.paste none) s.markup s.clipboard)) := by
  refine ⟨fun id hcommitted ↦ ?_, fun hcommitted ↦ ?_, fun hcommitted ↦ ⟨?_, ?_⟩⟩
  · refine selectsAdded_commitAdding h hids (fun w hw hne ↦ ⟨Nat.one_pos, ?_⟩) hcommitted
    obtain ⟨p, hparse⟩ := exists_parse_of_duplicate hw
    obtain ⟨q, hq, -, hadds⟩ :=
      Edit.addsOne_duplicate s.config id s.markup w p hparse (h.clean.markup p hparse) hw
    exact ⟨p, q, hparse, hq, hadds⟩
  · exact selectsAdded_commitAdding h hids (fun w ↦ adds_forEach h
      (fun id _ ↦ Edit.addsOne_duplicate s.config id)
      fun _ _ _ ↦ exists_parse_of_duplicate) hcommitted
  · have hclipboard : s.clipboard.isEmpty ≠ true := by
      intro hempty
      rw [paste, if_pos hempty] at hcommitted
      cases hcommitted
    rw [paste, if_neg hclipboard] at hcommitted ⊢
    exact selectsAdded_commitAdding h hids (fun w ↦ adds_forEach h
      (fun copy hcopy ↦ Edit.addsOne_paste (h.clipboard copy hcopy))
      fun _ _ _ ↦ exists_parse_of_paste) hcommitted
  · exact appendsCopies_paste h hcommitted

/-- What is known of a session that has been opened with a drawing. -/
private theorem exists_openText {text : String} {p : Drawing}
    (hparse : Drawing.parse text = .ok p) :
    ∃ s, openText {} text = .ok s ∧ s.config = {} ∧ s.markup = text ∧
      s.components = p.components ∧ s.flat = flatten false p.components := by
  have hcomponents : Drawing.componentsOf text = .ok p.components := by
    rw [Drawing.componentsOf, hparse]
    rfl
  exact ⟨_, openText_eq_ok hcomponents, rfl, rfl, rfl, rfl⟩

set_option maxRecDepth 2000 in
/-- A rectangle is selected and copied, and then duplicated or pasted. -/
theorem selectsAdded_of_copied_selection :
    ∃ s, openText {} "<svg><rect id=\"r\"/></svg>" = .ok s ∧
      (s.run [.select "r", .copySelection]).IsInOrder ∧
      (s.run [.select "r", .copySelection]).ids.Nodup ∧
      (s.run [.select "r", .copySelection]).duplicateSelection.1 = .committed ∧
      (s.run [.select "r", .copySelection]).paste.1 = .committed ∧
      (s.run [.select "r", .copySelection]).SelectsAdded
        (s.run [.select "r", .copySelection]).duplicateSelection.2 1 ∧
      (s.run [.select "r", .copySelection]).SelectsAdded
        (s.run [.select "r", .copySelection]).paste.2 1 := by
  have hread : Markup.read "<svg><rect id=\"r\"/></svg>"
      = .ok [.node (.element ⟨"svg", []⟩) [.node (.element ⟨"rect", [("id", "r")]⟩) []]] := by cbv
  have hparse := Drawing.parse_of_read (by cbv) hread
  obtain ⟨s, hopen, hconfig, hmarkup, hs, -⟩ := exists_openText hparse
  have hfind : (find? s.components "r").map Component.id = some "r" := by
    rw [hs]
    decide +kernel
  have hcopy : Edit.copy? "<svg><rect id=\"r\"/></svg>" "r" = some ⟨"rect", .empty⟩ := by cbv
  have hrun : s.run [.select "r", .copySelection]
      = { s with selection := .single "r", clipboard := [⟨"rect", .empty⟩] } := by
    have hselect : (s.perform (.select "r")).2 = { s with selection := .single "r" } := by
      simp only [perform, Reply.ofFlag, select, resolve?, hfind]
    rw [run, List.foldl_cons, hselect]
    simp only [List.foldl_cons, List.foldl_nil, perform, copySelection, Selection.single, hmarkup,
      List.filterMap_cons, List.filterMap_nil, hcopy]
  have horder : (s.run [.select "r", .copySelection]).IsInOrder := by
    refine isInOrder_run hopen (by decide)
      (isDoctypeFree_of_read hread (by simp [preorderAll, preorder])) ?_ ?_
    · intro a ha
      simp only [List.mem_cons, List.not_mem_nil, or_false] at ha
      rcases ha with rfl | rfl <;> exact ⟨by rintro _ ⟨⟩, by rintro _ ⟨⟩⟩
    · rw [hrun]
      intro p hp
      rw [show Session.markup _ = _ from hmarkup] at hp
      cases hparse.symm.trans hp
      decide +kernel
  have hduplicate : Edit.duplicate {} "<svg><rect id=\"r\"/></svg>" "r"
      = .ok "<svg id=\"svg-0\"><rect id=\"r\"/><rect/></svg>" := by cbv
  have hpaste : Edit.paste none "<svg><rect id=\"r\"/></svg>" ⟨"rect", .empty⟩
      = .ok "<svg id=\"svg-0\"><rect id=\"r\"/><rect/></svg>" := by cbv
  have hread' : Markup.read "<svg id=\"svg-0\"><rect id=\"r\"/><rect/></svg>"
      = .ok [.node (.element ⟨"svg", [("id", "svg-0")]⟩)
        [.node (.element ⟨"rect", [("id", "r")]⟩) [], .node (.element ⟨"rect", []⟩) []]] := by cbv
  have hparse' := Drawing.parse_of_read (by cbv) hread'
  refine ⟨s, hopen, ?_⟩
  -- all that matters of the session from here on
  obtain ⟨t, ht, hselection, hclipboard, hconfig, hmarkup, hcomponents⟩ :
      ∃ t, s.run [.select "r", .copySelection] = t ∧ t.selection.ids = ["r"] ∧
        t.clipboard = [⟨"rect", .empty⟩] ∧ t.config = {} ∧
        t.markup = "<svg><rect id=\"r\"/></svg>" ∧ t.components = s.components :=
    ⟨_, hrun, rfl, rfl, hconfig, hmarkup, rfl⟩
  rw [ht] at horder ⊢
  have hids : t.ids.Nodup := by
    rw [ids_eq horder.flat, hcomponents, hs]
    decide +kernel
  have hduplicated : t.duplicateSelection.1 = .committed := by
    rw [duplicateSelection, commitAdding_fst, hselection, hmarkup, hconfig, Edit.forEach,
      List.foldl_cons, hduplicate]
    exact commit_fst (by rw [hmarkup]; decide) hparse'
  have hpasted : t.paste.1 = .committed := by
    rw [paste, hclipboard, if_neg (by decide), commitAdding_fst, hmarkup, Edit.forEach,
      List.foldl_cons, hpaste]
    exact commit_fst (by rw [hmarkup]; decide) hparse'
  obtain ⟨-, hselects, hselects'⟩ := selectsAdded_of_committed horder hids
  have hselects := hselects hduplicated
  have hselects' := (hselects' hpasted).1
  rw [hselection, hmarkup, hconfig, Edit.accepted, hduplicate] at hselects
  rw [hclipboard, hmarkup, Edit.accepted, hpaste] at hselects'
  exact ⟨horder, hids, hduplicated, hpasted, hselects, hselects'⟩

/-- **What was there may be lost where names are no names of XML**: the rectangle that is duplicated
is a value when the text is read again, so its id is gone. -/
theorem not_selectsAdded_of_misread_names :
    ∃ s, openText {} Edit.misread = .ok s ∧ s.ids.Nodup ∧
      (∀ p, Drawing.parse s.markup = .ok p → ∀ c ∈ preorderAll p.document.markup, c.IsUnbroken) ∧
      (s.duplicate "k").1 = .committed ∧ "k" ∈ s.ids ∧ "k" ∉ (s.duplicate "k").2.ids ∧
      ∀ n, ¬ s.SelectsAdded (s.duplicate "k").2 n := by
  obtain ⟨s, hopen, hconfig, hmarkup, -, hflat⟩ := exists_openText Edit.parse_misread
  have hids : s.ids = ["svg-0", "t", "k", "u"] := by
    rw [ids, hflat, flatten, List.map_map]
    exact Edit.ids_misread
  have hedit : s.duplicate "k" = s.commitAdding (.ok Edit.rewritten) := by
    rw [duplicate, hconfig, hmarkup, Edit.duplicate_misread]
  have hcommitted : (s.duplicate "k").1 = .committed := by
    rw [hedit, commitAdding_fst]
    exact commit_fst (by rw [hmarkup]; decide +kernel) Edit.parse_rewritten
  have hids' : (s.duplicate "k").2.ids = ["svg-0", "t", "u", "u", "rect-0"] := by
    rw [hedit] at hcommitted ⊢
    obtain ⟨w, q, hw, -, hq, -, hflat', -⟩ := exists_of_commitAdding hcommitted
    cases hw
    cases Edit.parse_rewritten.symm.trans hq
    rw [ids, hflat', flatten, all_eq]
    decide +kernel
  refine ⟨s, hopen, by rw [hids]; decide, fun p hp ↦ ?_, hcommitted, by rw [hids]; decide,
    by rw [hids']; decide, fun n hselects ↦ ?_⟩
  · rw [hmarkup, Edit.parse_misread] at hp
    cases hp
    exact Edit.isUnbroken_misread
  · have hnodup := hselects.nodup
    rw [hids'] at hnodup
    exact absurd hnodup (by decide)

end Session

end SvgWorkbench
