import SvgWorkbench.Proofs.Session.Drawn

/-!
# When text and components drift apart

A session is coherent if its components are those of its text, every committed text can be read, and
so every step back or forward that is offered is taken. After any actions it is coherent exactly if
no element of the texts it holds has its id under both of its names, `id` and `:id`: the check takes
these for one attribute twice, but it is not run on the ids that a commit gives out.

A session in which the key `:id` is never handed in stays coherent.
-/

namespace SvgWorkbench

open SvgWorkbench.Tree Xml

variable {legal : String → Prop}

/-! ## Texts without a clash -/

theorem Stands.hasNoClash_iff {text : String} {m : Markup} (h : Stands legal text m) :
    HasNoClash text ↔ m.IsClashFree := by
  refine ⟨fun hclash ↦ hclash m h.read, fun hfree m' hread ↦ ?_⟩
  cases h.read.symm.trans hread
  exact hfree

/-- A text that is read as ordinary markup is a drawing exactly if there is no clash in it. -/
theorem Stands.componentsOf_eq_ok_iff {text : String} {m : Markup} (h : Stands legal text m)
    {components : List Component} : Drawing.componentsOf text = .ok components ↔
      HasNoClash text ∧ components = (Drawing.ofDocument (.ofMarkup m)).components := by
  rw [h.hasNoClash_iff, Drawing.componentsOf, Gate.map_eq_ok_iff]
  simp only [h.parse_eq_ok_iff]
  constructor
  · rintro ⟨p, ⟨hfree, rfl⟩, rfl⟩
    exact ⟨hfree, rfl⟩
  · rintro ⟨hfree, rfl⟩
    exact ⟨_, ⟨hfree, rfl⟩, rfl⟩

namespace Session

/-! ## Coherent sessions -/

/-- Whether a session shows what its text holds, and all that was committed can be gone back to. -/
structure IsCoherent (s : Session) : Prop where
  /-- The components are those of the text. -/
  components : Drawing.componentsOf s.markup = .ok s.components
  /-- Every committed text is a drawing. -/
  entries : ∀ entry ∈ s.history.entries, ∃ components, Drawing.componentsOf entry = .ok components
  /-- A step back that is offered is taken. -/
  undo : s.history.canUndo = true → s.undo.1 = true
  /-- A step forward that is offered is taken. -/
  redo : s.history.canRedo = true → s.redo.1 = true

/-- A session whose present text is a drawing can go back to it. -/
theorem restore_eq_true {s : Session} (hsound : s.history.IsSound)
    (hentries : ∀ entry ∈ s.history.entries,
      ∃ components, Drawing.componentsOf entry = .ok components) : s.restore.1 = true := by
  obtain ⟨text, hcurrent⟩ := hsound.current?
  obtain ⟨components, hcomponents⟩ := hentries text (History.mem_entries_of_current? hcurrent)
  simp only [restore, hcurrent, hcomponents]

/-- **A drawn session is coherent exactly if there is no clash in its texts.** -/
theorem IsDrawn.isCoherent_iff {s : Session} (h : s.IsDrawn legal) :
    s.IsCoherent ↔ ∀ text ∈ s.markup :: s.history.entries, HasNoClash text := by
  obtain ⟨m, hm, hcomponents⟩ := h.markup
  rw [List.forall_mem_cons]
  constructor
  · intro hcoherent
    refine ⟨(hm.componentsOf_eq_ok_iff.1 hcoherent.components).1, fun entry hentry ↦ ?_⟩
    obtain ⟨m', hm'⟩ := h.entries entry hentry
    obtain ⟨components, hok⟩ := hcoherent.entries entry hentry
    exact (hm'.componentsOf_eq_ok_iff.1 hok).1
  · rintro ⟨hfree, hentries⟩
    -- a step that is offered leads to a committed text, and all of these can be read
    have hdrawings : ∀ entry ∈ s.history.entries,
        ∃ components, Drawing.componentsOf entry = .ok components := by
      intro entry hentry
      obtain ⟨m', hm'⟩ := h.entries entry hentry
      exact ⟨_, hm'.componentsOf_eq_ok_iff.2 ⟨hentries entry hentry, rfl⟩⟩
    refine ⟨hm.componentsOf_eq_ok_iff.2 ⟨hfree, hcomponents⟩, hdrawings, fun hcan ↦ ?_, fun hcan ↦ ?_⟩
    · have hundo : s.history.undo? = some { s.history with index := s.history.index - 1 } :=
        if_pos hcan
      obtain ⟨hsound, -⟩ := h.history.undo hundo
      simp only [Session.undo, hundo]
      exact restore_eq_true hsound hdrawings
    · have hredo : s.history.redo? = some { s.history with index := s.history.index + 1 } :=
        if_pos hcan
      obtain ⟨hsound, -⟩ := h.history.redo hredo
      simp only [Session.redo, hredo]
      exact restore_eq_true hsound hdrawings

/-! ## Runs -/

/-- Whether an action hands in no document type and names properties by the text, by declarations of
the style or by names of XML. -/
structure Action.IsProper (a : Action) : Prop where
  /-- No document type is handed in. -/
  doctype : ∀ text, a.markup? = some text → IsDoctypeFree text
  /-- Properties are named properly. -/
  key : ∀ key, a.key? = some key → IsPropertyKey (fun k ↦ IsName k.toList) key

/-- Whether an action does not bring in an id behind an empty prefix. -/
structure Action.AvoidsPrefixedId (a : Action) : Prop where
  /-- It is no key in what is handed in. -/
  keys : ∀ text, a.markup? = some text → HasKeys (· ≠ prefixedIdKey) text
  /-- It names no property. -/
  key : a.key? ≠ some prefixedIdKey

theorem keyRule_isName : KeyRule fun k ↦ IsName k.toList :=
  ⟨fun _ h ↦ h, by decide, by decide⟩

theorem keyRule_ne_prefixedIdKey : KeyRule fun k ↦ IsName k.toList ∧ k ≠ prefixedIdKey :=
  ⟨fun _ h ↦ h.1, by decide, by decide⟩

theorem Action.IsProper.keeps {a : Action} (h : a.IsProper) : a.Keeps fun k ↦ IsName k.toList :=
  ⟨h.doctype, fun _ _ _ _ _ _ _ _ hk ↦ hk, h.key⟩

theorem Action.IsProper.keeps_of_avoids {a : Action} (h : a.IsProper) (ha : a.AvoidsPrefixedId) :
    a.Keeps fun k ↦ IsName k.toList ∧ k ≠ prefixedIdKey := by
  refine ⟨h.doctype, fun text htext m hread e he k hk hname ↦
    ⟨hname, ha.keys text htext m hread e he k hk hname⟩, fun key hkey ↦ ?_⟩
  rcases h.key key hkey with htext | hstyle | hname
  · exact .inl htext
  · exact .inr (.inl hstyle)
  · exact .inr (.inr ⟨hname, fun heq ↦ ha.key (heq ▸ hkey)⟩)

/-- After any actions a session is drawn, if no document type is handed in and the properties are
named properly. -/
theorem isDrawn_run {config : Config} {text : String} {s : Session}
    (hopen : openText config text = .ok s)
    (hlimit : config.historyLimit.toNat + 1 < UInt64.size) (hdoctype : IsDoctypeFree text)
    {actions : List Action} (hactions : ∀ a ∈ actions, a.IsProper) :
    (s.run actions).IsDrawn fun k ↦ IsName k.toList := by
  have hdrawn : s.IsDrawn fun k ↦ IsName k.toList :=
    isDrawn_openText hopen hlimit hdoctype fun _ _ _ _ _ _ hk ↦ hk
  exact hdrawn.run keyRule_isName fun a ha ↦ (hactions a ha).keeps

/-- If the key of an id behind an empty prefix is never handed in, it is never there. -/
theorem isDrawn_run_of_avoids {config : Config} {text : String} {s : Session}
    (hopen : openText config text = .ok s)
    (hlimit : config.historyLimit.toNat + 1 < UInt64.size) (hdoctype : IsDoctypeFree text)
    {actions : List Action} (hactions : ∀ a ∈ actions, a.IsProper)
    (hkeys : HasKeys (· ≠ prefixedIdKey) text) (havoids : ∀ a ∈ actions, a.AvoidsPrefixedId) :
    (s.run actions).IsDrawn fun k ↦ IsName k.toList ∧ k ≠ prefixedIdKey := by
  have hdrawn : s.IsDrawn fun k ↦ IsName k.toList ∧ k ≠ prefixedIdKey :=
    isDrawn_openText hopen hlimit hdoctype fun m hread e he k hk hname ↦
      ⟨hname, hkeys m hread e he k hk hname⟩
  exact hdrawn.run keyRule_ne_prefixedIdKey fun a ha ↦ (hactions a ha).keeps_of_avoids (havoids a ha)

/-- Where the key of an id behind an empty prefix is not there, there is no clash. -/
theorem hasNoClash_of_stands {text : String} {m : Markup}
    (h : Stands (fun k ↦ IsName k.toList ∧ k ≠ prefixedIdKey) text m) : HasNoClash text :=
  h.hasNoClash_iff.2 fun _ he hclash ↦ ((h.ordinary _ he).keys _ hclash.2).2 rfl

/-- **After any actions a session is coherent exactly if there is no clash in its texts.** The steps
that are kept have to be fewer than the largest word, no document type may be handed in, and the
properties have to be named properly. There is no clash if the key of an id behind an empty prefix
is never handed in. -/
theorem isCoherent_run_iff {config : Config} {text : String} {s : Session}
    (hopen : openText config text = .ok s)
    (hlimit : config.historyLimit.toNat + 1 < UInt64.size) (hdoctype : IsDoctypeFree text)
    {actions : List Action} (hactions : ∀ a ∈ actions, a.IsProper) :
    ((s.run actions).IsCoherent ↔
      ∀ text ∈ (s.run actions).markup :: (s.run actions).history.entries, HasNoClash text) ∧
    (HasKeys (· ≠ prefixedIdKey) text → (∀ a ∈ actions, a.AvoidsPrefixedId) →
      (s.run actions).IsCoherent) := by
  refine ⟨(isDrawn_run hopen hlimit hdoctype hactions).isCoherent_iff, fun hkeys havoids ↦ ?_⟩
  have hrun := isDrawn_run_of_avoids hopen hlimit hdoctype hactions hkeys havoids
  refine hrun.isCoherent_iff.2 (List.forall_mem_cons.2 ⟨?_, fun entry hentry ↦ ?_⟩)
  · obtain ⟨m, hm, -⟩ := hrun.markup
    exact hasNoClash_of_stands hm
  · obtain ⟨m, hm⟩ := hrun.entries entry hentry
    exact hasNoClash_of_stands hm

theorem isDoctypeFree_of_read {text : String} {m : Markup} (hread : Markup.read text = .ok m)
    (h : ∀ s, .doctype s ∉ preorderAll m) : IsDoctypeFree text := by
  intro m' hread'
  cases hread.symm.trans hread'
  exact h

theorem hasKeys_of_read {text : String} {m : Markup} (hread : Markup.read text = .ok m)
    (h : ∀ e, .element e ∈ preorderAll m → ∀ k ∈ e.keys, legal k) : HasKeys legal text := by
  intro m' hread' e he k hk _
  cases hread.symm.trans hread'
  exact h e he k hk

/-- No document type is read where a rectangle is, nor the key of an id behind an empty prefix. -/
theorem isPlain_rect : IsDoctypeFree "<svg><rect/></svg>" ∧
    HasKeys (· ≠ prefixedIdKey) "<svg><rect/></svg>" := by
  have hread : Markup.read "<svg><rect/></svg>"
      = .ok [.node (.element ⟨"svg", []⟩) [.node (.element ⟨"rect", []⟩) []]] := by cbv
  exact ⟨isDoctypeFree_of_read hread (by simp [preorderAll, preorder]),
    hasKeys_of_read hread (by simp [preorderAll, preorder, Element.keys])⟩

/-- A property is set, taken back and set again. -/
theorem isCoherent_after_steps :
    ∃ s, openText {} "<svg><rect/></svg>" = .ok s ∧
      (s.run [.select "rect-0", .setPropertyOfSelection "fill" "red", .undo, .redo]).IsCoherent := by
  have hopen := @openText_eq_ok {} _ _ componentsOf_rect
  refine ⟨_, hopen, (isCoherent_run_iff hopen (by decide) isPlain_rect.1 ?_).2 isPlain_rect.2 ?_⟩
  · intro a ha
    simp only [List.mem_cons, List.not_mem_nil, or_false] at ha
    rcases ha with rfl | rfl | rfl | rfl
    all_goals refine ⟨by rintro _ ⟨⟩, fun key hkey ↦ ?_⟩; cases hkey
    exact .inr (.inr (by decide))
  · intro a ha
    simp only [List.mem_cons, List.not_mem_nil, or_false] at ha
    rcases ha with rfl | rfl | rfl | rfl <;> exact ⟨by rintro _ ⟨⟩, by decide⟩

/-- Taking away the id of an element that has its id behind an empty prefix commits a text that
cannot be read: the edit can be read, and the id that is given out then stands beside the other
one. -/
theorem exists_unreadable_commit :
    ∃ s text components, openText {} "<svg><rect :id=\"x\"/></svg>" = .ok s ∧
      IsDoctypeFree "<svg><rect :id=\"x\"/></svg>" ∧
      (Action.setProperty "rect-0" "id" "").IsProper ∧
      (s.perform (.setProperty "rect-0" "id" "")).2 = s.record text components ∧
      text ≠ s.markup ∧ ∀ components, Drawing.componentsOf text ≠ .ok components := by
  have hcomponents : Drawing.componentsOf "<svg><rect :id=\"x\"/></svg>" = .ok
      [.node ⟨"svg-0", "svg", none, .ofList [("id", "svg-0")]⟩
        [.node ⟨"rect-0", "rect", some "svg-0", .ofList [(":id", "x"), ("id", "rect-0")]⟩ []]] := by
    cbv
  have hread : Markup.read "<svg><rect :id=\"x\"/></svg>"
      = .ok [.node (.element ⟨"svg", []⟩) [.node (.element ⟨"rect", [(":id", "x")]⟩) []]] := by cbv
  have hedit : Edit.setProperty "<svg><rect :id=\"x\"/></svg>" "rect-0" "id" ""
      = .ok "<svg id=\"svg-0\"><rect :id=\"x\"/></svg>" := by cbv
  have hserialize : Drawing.serialize "<svg id=\"svg-0\"><rect :id=\"x\"/></svg>"
      = .ok "<svg id=\"svg-0\"><rect :id=\"x\" id=\"rect-0\"/></svg>" := by cbv
  have hrefused : Drawing.componentsOf "<svg id=\"svg-0\"><rect :id=\"x\" id=\"rect-0\"/></svg>"
      = .error (.malformed ⟨.repeatedAttribute "id", ⟨1, 31⟩⟩) := by cbv
  obtain ⟨p, hparse, htext⟩ := Gate.map_eq_ok_iff.1 hserialize
  refine ⟨_, p.text, p.components, openText_eq_ok hcomponents,
    isDoctypeFree_of_read hread (by simp [preorderAll, preorder]),
    ⟨by rintro _ ⟨⟩, fun key hkey ↦ ?_⟩, ?_, ?_, fun components hok ↦ ?_⟩
  · cases hkey
    exact .inr (.inr (by decide))
  · simp only [perform, Reply.ofOutcome, setProperty, hedit]
    rw [commit_of_parse (by decide) hparse]
  · rw [htext]
    decide
  · rw [htext] at hok
    cases hrefused.symm.trans hok

/-- **Text and components drift apart** when the id of an element that has its id behind an empty
prefix is taken away. -/
theorem not_isCoherent_of_prefixed_id :
    ∃ s, openText {} "<svg><rect :id=\"x\"/></svg>" = .ok s ∧
      IsDoctypeFree "<svg><rect :id=\"x\"/></svg>" ∧
      (Action.setProperty "rect-0" "id" "").IsProper ∧
      ¬ (s.run [.setProperty "rect-0" "id" ""]).IsCoherent := by
  obtain ⟨s, text, components, hopen, hdoctype, hproper, hperform, -, hrefused⟩ :=
    exists_unreadable_commit
  refine ⟨s, hopen, hdoctype, hproper, fun hcoherent ↦ ?_⟩
  have hmarkup := hcoherent.components
  rw [run, List.foldl_cons, List.foldl_nil, hperform] at hmarkup
  exact hrefused _ hmarkup

end Session

end SvgWorkbench
