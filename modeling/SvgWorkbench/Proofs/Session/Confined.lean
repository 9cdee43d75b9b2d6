import SvgWorkbench.Proofs.Edit.Spared
import SvgWorkbench.Proofs.Session.Coherent

/-!
# Edits of a selection stay inside the selection

The selected elements are edited one after another, each by its id and in the text that the edits
before have left. As long as every selected id still means its own component when its turn comes,
nothing outside the selection changes. Attributes may be set whatever the selection is, since that
takes no component away. Where elements are removed, or lose what is inside, a selected id may be
gone when its turn comes; if it is then read as the name of a place, the edit goes to whatever
stands there.
-/

namespace SvgWorkbench

open Xml SvgWorkbench.Tree Component

/-! ## Rows of edits -/

namespace Edit

/-- Whether an edit by a certain id of a clean drawing gives one in which everything is spared that
the id does not mean. -/
def IsConfined (edit : String → String → Except EditError String) : Prop :=
  ∀ text id w p, Drawing.parse text = .ok p → p.IsClean → IsCertain p.components id →
    edit text id = .ok w →
      ∃ q, Drawing.parse w = .ok q ∧ q.IsClean ∧ SparesAll (· = id) p.components q.components

/-- Whether an edit by a certain id of a clean drawing leaves all other ids. -/
def LeavesIds (edit : String → String → Except EditError String) : Prop :=
  ∀ text id w p q, Drawing.parse text = .ok p → p.IsClean → IsCertain p.components id →
    edit text id = .ok w → Drawing.parse w = .ok q →
      ∀ c ∈ all p.components, Component.id c ≠ id →
        ∃ c' ∈ all q.components, Component.id c' = Component.id c

variable {edit : String → String → Except EditError String} {p q : Drawing} {ids : List String}

/-- What a row of edits of a drawing has come to after some ids have had their turn. -/
private structure Reaches (edit : String → String → Except EditError String) (p : Drawing)
    (done : List String) (q : Drawing) : Prop where
  isClean : q.IsClean
  spares : SparesAll (· ∈ done) p.components q.components
  leaves : LeavesIds edit → ∀ c ∈ all p.components, Component.id c ∉ done →
    ∃ c' ∈ all q.components, Component.id c' = Component.id c

/-- An id whose turn comes still means its own component. -/
private theorem Reaches.isCertain {done : List String} (h : Reaches edit p done q) {id : String}
    (hlive : ∃ c ∈ all p.components, Component.id c = id) (hnew : id ∉ done)
    (hstay : LeavesIds edit ∨ ∀ id' ∈ done, IsApart p.components id' id) :
    IsCertain q.components id := by
  obtain ⟨c, hc, rfl⟩ := hlive
  rcases hstay with hleaves | hapart
  · exact .inl (h.leaves hleaves c hc hnew)
  by_cases hplace : IdReading.all (Component.id c) = []
  · exact .inr hplace
  -- the id would be read as a place, so its component is inside none that is gone
  rw [all_eq] at hc
  obtain ⟨c', hc', hkept⟩ := h.spares.exists_keptAs hc fun a ha hdone hin ↦ by
    rw [← all_eq] at ha
    exact (hapart _ hdone).resolve_left hplace a ha rfl c hin rfl
  refine .inl ⟨c', ?_, hkept.id_eq⟩
  rwa [all_eq]

/-- **A row of edits spares everything that none of the ids means.** Either the edits leave all ids
but their own, or no id may be lost with one before it. -/
theorem exists_sparesAll_forEach (hconfined : IsConfined edit) {text : String}
    (hparse : Drawing.parse text = .ok p) (hclean : p.IsClean)
    (hlive : ∀ id ∈ ids, ∃ c ∈ all p.components, Component.id c = id) (hnodup : ids.Nodup)
    (hstay : LeavesIds edit ∨ ids.Pairwise (IsApart p.components)) :
    ∃ q, Drawing.parse (forEach edit text ids) = .ok q ∧
      SparesAll (· ∈ ids) p.components q.components := by
  have hreaches : ∃ q, Drawing.parse (forEach edit text ids) = .ok q ∧ Reaches edit p ids q := by
    refine forEach_induction_turns (P := fun done current ↦
      ∃ q, Drawing.parse current = .ok q ∧ Reaches edit p done q) ?_ ?_
      ⟨p, hparse, hclean, .refl _ _, fun _ c hc _ ↦ ⟨c, hc, rfl⟩⟩
    · rintro done id rest current w rfl ⟨q, hq, hreaches⟩ hedit
      have hmem : id ∈ done ++ id :: rest := List.mem_append_right _ List.mem_cons_self
      have hnew : id ∉ done := fun hdone ↦
        (List.nodup_append.1 hnodup).2.2 id hdone id List.mem_cons_self rfl
      have hcertain := hreaches.isCertain (hlive id hmem) hnew <| hstay.imp_right fun hapart ↦
        fun id' hid' ↦ (List.pairwise_append.1 hapart).2.2 id' hid' id List.mem_cons_self
      obtain ⟨q', hq', hclean', hspares⟩ :=
        hconfined current id w q hq hreaches.isClean hcertain hedit
      -- what all edits up to this one were meant for, and the ids that all of them left
      refine ⟨q', hq', hclean', ?_, fun hleaves c hc hnot ↦ ?_⟩
      · refine (hreaches.spares.trans hspares).mono fun c _ hc ↦ ?_
        simpa using hc
      · rw [List.mem_append, List.mem_singleton, not_or] at hnot
        obtain ⟨c', hc', heq⟩ := hreaches.leaves hleaves c hc hnot.1
        obtain ⟨c'', hc'', heq'⟩ :=
          hleaves current id w q q' hq hreaches.isClean hcertain hedit hq' c' hc' (heq ▸ hnot.2)
        exact ⟨c'', hc'', heq'.trans heq⟩
    · -- an edit that fails leaves the text as it is
      rintro done id rest current - ⟨q, hq, hreaches⟩
      refine ⟨q, hq, hreaches.isClean, hreaches.spares.mono fun c _ hc ↦ ?_, ?_⟩
      · exact List.mem_append_left _ hc
      · exact fun hleaves c hc hnot ↦
          hreaches.leaves hleaves c hc fun hdone ↦ hnot (List.mem_append_left _ hdone)
  obtain ⟨q, hq, hreaches⟩ := hreaches
  exact ⟨q, hq, hreaches.spares⟩

theorem isConfined_remove : IsConfined remove := fun _ _ _ _ hparse hclean hcertain hedit ↦
  exists_sparesAll_remove hparse hclean hcertain hedit

theorem isConfined_setProperty {key : String} (hkey : IsPropertyKey (fun k ↦ IsName k.toList) key)
    (value : String) : IsConfined fun text id ↦ setProperty text id key value := by
  intro text id w p hparse hclean hcertain hedit
  by_cases htext : key = textKey
  · subst htext
    exact exists_sparesAll_setText hparse hclean hcertain hedit
  · obtain ⟨q, hq, hclean', hspares, -⟩ :=
      exists_sparesAll_setAttribute hparse hclean hcertain htext hkey hedit
    exact ⟨q, hq, hclean', hspares⟩

theorem leavesIds_setProperty {key : String} (hne : key ≠ textKey)
    (hkey : IsPropertyKey (fun k ↦ IsName k.toList) key) (value : String) :
    LeavesIds fun text id ↦ setProperty text id key value := by
  intro text id w p q hparse hclean hcertain hedit hq c hc hid
  obtain ⟨q', hq', -, -, hleaves⟩ :=
    exists_sparesAll_setAttribute hparse hclean hcertain hne hkey hedit
  cases hq.symm.trans hq'
  rw [all_eq] at hc ⊢
  exact hleaves c hc hid

end Edit

/-! ## Sessions -/

namespace Session

variable {s t : Session}

/-- Whether the components of a session are those of its text, and the names in the text are names
of XML and its attribute values without tabs and line breaks. -/
structure IsClean (s : Session) : Prop where
  /-- The components are those of the text, if it can be read. -/
  components : ∀ p, Drawing.parse s.markup = .ok p → p.components = s.components
  /-- The text is clean, if it can be read. -/
  markup : ∀ p, Drawing.parse s.markup = .ok p → p.IsClean

/-- Whether every component of a session that is neither selected nor inside of a selected one is
still there in another. -/
def SparesRest (s t : Session) : Prop :=
  ∀ c ∈ all s.components,
    (∀ a ∈ all s.components, Component.id a ∈ s.selection.ids → c ∉ subtrees a) →
      ∃ c' ∈ all t.components, KeptAs c c'

theorem SparesRest.refl (s : Session) : s.SparesRest s := fun c hc _ ↦ ⟨c, hc, .refl c⟩

/-- After any actions a session is clean if its attribute values are: no document type may be handed
in, and the properties have to be named properly. -/
theorem isClean_run {config : Config} {text : String} (hopen : openText config text = .ok s)
    (hlimit : config.historyLimit.toNat + 1 < UInt64.size) (hdoctype : IsDoctypeFree text)
    {actions : List Action} (hactions : ∀ a ∈ actions, a.IsProper)
    (hunbroken : ∀ p, Drawing.parse (s.run actions).markup = .ok p →
      ∀ c ∈ preorderAll p.document.markup, c.IsUnbroken) : (s.run actions).IsClean := by
  obtain ⟨m, hstands, hcomponents⟩ := (isDrawn_run hopen hlimit hdoctype hactions).markup
  refine ⟨fun p hparse ↦ ?_, fun p hparse ↦ ⟨fun c hc ↦ ?_, hunbroken p hparse⟩⟩
  · obtain ⟨-, rfl⟩ := hstands.parse_eq_ok_iff.1 hparse
    exact hcomponents.symm
  · obtain ⟨-, rfl⟩ := hstands.parse_eq_ok_iff.1 hparse
    have hrel := Drawing.relAll_idGiven_ofDocument m
    exact (hstands.ordinary.of_relAll keyRule_isName hrel c hc).isNamed keyRule_isName

/-- Committing a row of edits of the selection spares what the row spares. -/
private theorem sparesRest_commit (hclean : s.IsClean)
    {edit : String → String → Except EditError String} (hconfined : Edit.IsConfined edit)
    (hreads : ∀ text id w, edit text id = .ok w → ∃ p, Drawing.parse text = .ok p)
    (hlive : ∀ id ∈ s.selection.ids, ∃ c ∈ all s.components, Component.id c = id)
    (hnodup : s.selection.ids.Nodup)
    (hstay : Edit.LeavesIds edit ∨ s.selection.ids.Pairwise (IsApart s.components)) :
    s.SparesRest (s.commit (.ok (Edit.forEach edit s.markup s.selection.ids))).2 := by
  rcases commit_eq_or s (.ok (Edit.forEach edit s.markup s.selection.ids)) with
    ⟨-, hsame⟩ | ⟨w, q, hw, hne, hq, hcommit⟩
  · rw [hsame]
    exact .refl s
  cases hw
  rw [hcommit]
  cases hparse : Drawing.parse s.markup with
  | error cause =>
    exact absurd (Edit.forEach_of_parse_error hreads hparse) hne
  | ok p =>
    have hcomponents := hclean.components p hparse
    rw [← hcomponents] at hlive hstay
    obtain ⟨q', hq', hspares⟩ := Edit.exists_sparesAll_forEach hconfined hparse
      (hclean.markup p hparse) hlive hnodup hstay
    cases hq.symm.trans hq'
    intro c hc hout
    rw [all_eq, ← hcomponents] at hc hout
    obtain ⟨c', hc', hkept⟩ := hspares.exists_keptAs hc fun a ha hid ↦ hout a ha hid
    refine ⟨c', ?_, hkept⟩
    rw [all_eq]
    exact hc'

/-- **Edits of a selection stay inside the selection.** Where elements are removed or lose what is
inside, a selected id that is read as a place may not be inside of what was selected before it. -/
theorem sparesRest_of_isApart (hclean : s.IsClean)
    (hlive : ∀ id ∈ s.selection.ids, ∃ c ∈ all s.components, Component.id c = id)
    (hnodup : s.selection.ids.Nodup) :
    (s.selection.ids.Pairwise (IsApart s.components) → s.SparesRest s.removeSelection.2) ∧
      ∀ key value, IsPropertyKey (fun k ↦ IsName k.toList) key →
        (key = textKey → s.selection.ids.Pairwise (IsApart s.components)) →
          s.SparesRest (s.setPropertyOfSelection key value).2 := by
  refine ⟨fun hapart ↦ ?_, fun key value hkey hapart ↦ ?_⟩
  · refine sparesRest_commit hclean Edit.isConfined_remove (fun text id w hedit ↦ ?_) hlive hnodup
      (.inr hapart)
    obtain ⟨p, n, parent, hparse, -⟩ := Edit.remove_eq_ok_iff.1 hedit
    exact ⟨p, hparse⟩
  · refine sparesRest_commit hclean (Edit.isConfined_setProperty hkey value)
      (fun text id w hedit ↦ ?_) hlive hnodup ?_
    · obtain ⟨p, n, hparse, -⟩ := Edit.setProperty_eq_ok_iff.1 hedit
      exact ⟨p, hparse⟩
    · by_cases htext : key = textKey
      · exact .inr (hapart htext)
      · exact .inl (Edit.leavesIds_setProperty htext hkey value)

/-- Selecting one component and then another. -/
private theorem run_select_toggle {id id' : String} {c c' : Component}
    (hfind : find? s.components id = some c) (hfind' : find? s.components id' = some c')
    (hid : c.id = id) (hid' : c'.id = id') (hne : id ≠ id') :
    s.run [.select id, .toggle id'] = { s with selection := ⟨[id, id']⟩ } := by
  have hselect : (s.perform (.select id)).2 = { s with selection := .single id } := by
    simp only [perform, Reply.ofFlag, select, resolve?, hfind, Option.map_some, hid]
  have hnot : (Selection.single id).contains id' = false := by
    simpa [Selection.single, Selection.contains] using hne.symm
  simp only [run, List.foldl_cons, List.foldl_nil, hselect]
  simp only [perform, Reply.ofFlag, toggle, resolve?, hfind', Option.map_some, hid', hnot,
    Selection.toggle, Selection.add]
  rfl

/-- A session that is opened with a clean drawing is clean, whatever is selected. -/
private theorem exists_isClean_openText {text : String} {p : Drawing}
    (hparse : Drawing.parse text = .ok p) (hclean : p.IsClean) :
    ∃ s, openText {} text = .ok s ∧ s.markup = text ∧ s.components = p.components ∧
      ∀ selection : Selection, { s with selection }.IsClean := by
  have hcomponents : Drawing.componentsOf text = .ok p.components := by
    rw [Drawing.componentsOf, hparse]
    rfl
  refine ⟨_, openText_eq_ok hcomponents, rfl, rfl, fun selection ↦ ?_⟩
  constructor <;> intro q hq <;> cases hparse.symm.trans hq
  · rfl
  · exact hclean

/-- A group and a shape in it are selected; the shape is gone when its turn comes. -/
theorem sparesRest_of_nested_selection :
    ∃ s, openText {} "<svg><g id=\"a\"><rect id=\"b\"/></g><circle/></svg>" = .ok s ∧
      (s.run [.select "a", .toggle "b"]).selection.ids = ["a", "b"] ∧
      (s.run [.select "a", .toggle "b"]).SparesRest
        (s.run [.select "a", .toggle "b"]).removeSelection.2 ∧
      (s.run [.select "a", .toggle "b"]).SparesRest
        ((s.run [.select "a", .toggle "b"]).setPropertyOfSelection "fill" "red").2 := by
  have hread : Markup.read "<svg><g id=\"a\"><rect id=\"b\"/></g><circle/></svg>"
      = .ok [.node (.element ⟨"svg", []⟩) [.node (.element ⟨"g", [("id", "a")]⟩)
        [.node (.element ⟨"rect", [("id", "b")]⟩) []], .node (.element ⟨"circle", []⟩) []]] := by
    cbv
  have hparse := Drawing.parse_of_read (by cbv) hread
  obtain ⟨s, hopen, hmarkup, hcomponents, hclean⟩ :=
    exists_isClean_openText hparse ⟨by decide, by decide⟩
  obtain ⟨a, ha, haid⟩ : ∃ a : Component, find? s.components "a" = some a ∧ a.id = "a" :=
    ⟨_, by rw [hcomponents]; cbv, rfl⟩
  obtain ⟨b, hb, hbid⟩ : ∃ b : Component, find? s.components "b" = some b ∧ b.id = "b" :=
    ⟨_, by rw [hcomponents]; cbv, rfl⟩
  refine ⟨s, hopen, ?_⟩
  rw [run_select_toggle ha hb haid hbid (by decide)]
  have hlive : ∀ id ∈ ["a", "b"], ∃ c ∈ all s.components, Component.id c = id := by
    rw [all_eq]
    exact List.forall_mem_cons.2 ⟨⟨a, mem_of_find? ha, haid⟩,
      List.forall_mem_cons.2 ⟨⟨b, mem_of_find? hb, hbid⟩, List.forall_mem_nil _⟩⟩
  have hspares := sparesRest_of_isApart (hclean ⟨["a", "b"]⟩) hlive (List.nodup_cons.2 (by decide))
  refine ⟨rfl, hspares.1 ?_,
    hspares.2 "fill" "red" (.inr (.inr (by decide))) fun h ↦ absurd h (by decide)⟩
  exact List.pairwise_pair.2 (.inl (by cbv))

/-- **An element that is not selected is removed** when a selected id is gone with the group around
it and is read as the name of a place: the first rectangle, which has never had that id. -/
theorem not_sparesRest_of_id_read_as_place :
    ∃ s, openText {} "<svg><g id=\"a\"><circle id=\"rect-0\"/></g><rect id=\"r\"/></svg>" = .ok s ∧
      (s.run [.select "a", .toggle "rect-0"]).selection.ids = ["a", "rect-0"] ∧
      (s.run [.select "a", .toggle "rect-0"]).IsClean ∧
      ((all (s.run [.select "a", .toggle "rect-0"]).components).map Component.id).Nodup ∧
      ¬ (s.run [.select "a", .toggle "rect-0"]).SparesRest
        (s.run [.select "a", .toggle "rect-0"]).removeSelection.2 := by
  have hread : Markup.read "<svg><g id=\"a\"><circle id=\"rect-0\"/></g><rect id=\"r\"/></svg>"
      = .ok [.node (.element ⟨"svg", []⟩) [.node (.element ⟨"g", [("id", "a")]⟩)
        [.node (.element ⟨"circle", [("id", "rect-0")]⟩) []],
        .node (.element ⟨"rect", [("id", "r")]⟩) []]] := by cbv
  have hparse := Drawing.parse_of_read (by cbv) hread
  have hedit : Edit.forEach Edit.remove
      "<svg><g id=\"a\"><circle id=\"rect-0\"/></g><rect id=\"r\"/></svg>" ["a", "rect-0"]
      = "<svg id=\"svg-0\"/>" := by cbv
  have hleft : Drawing.componentsOf "<svg id=\"svg-0\"/>"
      = .ok [.node ⟨"svg-0", "svg", none, .ofList [("id", "svg-0")]⟩ []] := by cbv
  obtain ⟨s, hopen, hmarkup, hcomponents, hclean⟩ :=
    exists_isClean_openText hparse ⟨by decide, by decide⟩
  obtain ⟨a, ha, haid⟩ : ∃ a : Component, find? s.components "a" = some a ∧ a.id = "a" :=
    ⟨_, by rw [hcomponents]; cbv, rfl⟩
  obtain ⟨b, hb, hbid⟩ : ∃ b : Component, find? s.components "rect-0" = some b ∧ b.id = "rect-0" :=
    ⟨_, by rw [hcomponents]; cbv, rfl⟩
  refine ⟨s, hopen, ?_⟩
  rw [run_select_toggle ha hb haid hbid (by decide)]
  refine ⟨rfl, hclean _, ?_, fun hspares ↦ ?_⟩
  · show ((all s.components).map Component.id).Nodup
    rw [hcomponents, all_eq]
    decide
  · -- the rectangle is inside of nothing that is selected, and what is left is the root alone
    obtain ⟨r, hr, hrid⟩ : ∃ r : Component, find? s.components "r" = some r ∧ r.id = "r" :=
      ⟨_, by rw [hcomponents]; cbv, rfl⟩
    have hout : ∀ a ∈ subtreesAll s.components, Component.id a ∈ ["a", "rect-0"] →
        ∀ d ∈ subtrees a, Component.id d ≠ "r" := by
      rw [hcomponents]
      decide
    obtain ⟨p, hp, hpleft⟩ := Gate.map_eq_ok_iff.1 hleft
    have hr' := mem_of_find? hr
    rw [← all_eq] at hr' hout
    obtain ⟨c, hc, hkept⟩ := hspares r hr' fun a ha hid hin ↦ hout a ha hid r hin hrid
    simp only [removeSelection, commit, hmarkup, hedit] at hc
    rw [if_neg (by decide), hp] at hc
    simp only [record, install] at hc
    rw [hpleft, all_eq] at hc
    have hid := hkept.id_eq.trans hrid
    simp only [subtreesAll, subtrees, List.append_nil, List.mem_singleton] at hc
    rw [hc] at hid
    exact absurd hid (by decide)

end Session

end SvgWorkbench
