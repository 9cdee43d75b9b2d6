import SvgWorkbench.Proofs.Component.Lookup
import SvgWorkbench.Proofs.Session.Step

/-!
# What a session derives is live

Beside its text a session holds much that is derived from it: the flat list, the selected ids, the
id under the pointer, and a history whose present text is the text itself. None of it is ever left
behind. The flat list is that of the components, whatever is selected or pointed at is there, and
the history holds the text that is shown, within the bounds of its limit and with no text twice in a
row.

The only thing that can get out of step is the history, by a step to a text that cannot be read: the
step is made, and the text stays. So runs are considered in which no such text is met.
-/

namespace SvgWorkbench

open SvgWorkbench.Tree

/-! ## Selections -/

namespace Selection

variable {s : Selection} {id id' : String}

theorem mem_add : id' ∈ (s.add id).ids ↔ id' ∈ s.ids ∨ id' = id := by
  rw [add]
  split
  · next h =>
    have hmem : id ∈ s.ids := List.contains_iff_mem.1 h
    refine ⟨.inl, fun h ↦ h.elim (·) fun heq ↦ ?_⟩
    rwa [heq]
  · rw [List.mem_append, List.mem_singleton]

theorem nodup_add (h : s.ids.Nodup) (id : String) : (s.add id).ids.Nodup := by
  rw [add]
  split
  · exact h
  · next hnot =>
    have hmem : id ∉ s.ids := fun hmem ↦ hnot (List.contains_iff_mem.2 hmem)
    rw [List.nodup_append]
    refine ⟨h, by simp, fun x hx y hy ↦ ?_⟩
    rw [List.mem_singleton.1 hy]
    exact fun heq ↦ hmem (heq ▸ hx)

theorem mem_of_mem_toggle (h : id' ∈ (s.toggle id).ids) : id' ∈ s.ids ∨ id' = id := by
  rw [toggle] at h
  split at h
  · exact .inl (List.mem_filter.1 h).1
  · exact mem_add.1 h

theorem nodup_toggle (h : s.ids.Nodup) (id : String) : (s.toggle id).ids.Nodup := by
  rw [toggle]
  split
  · exact h.filter _
  · exact nodup_add h id

theorem nodup_ofIds (ids : List String) : (ofIds ids).ids.Nodup := by
  have hfold : ∀ s : Selection, s.ids.Nodup → (ids.foldl add s).ids.Nodup := by
    induction ids with
    | nil => exact fun s hs ↦ hs
    | cons id ids ih => exact fun s hs ↦ ih _ (nodup_add hs id)
  exact hfold {} .nil

theorem mem_of_mem_ofIds {ids : List String} (h : id ∈ (ofIds ids).ids) : id ∈ ids := by
  have hfold : ∀ s : Selection, id ∈ (ids.foldl add s).ids → id ∈ s.ids ∨ id ∈ ids := by
    clear h
    induction ids with
    | nil => exact fun s hs ↦ .inl hs
    | cons x ids ih =>
      intro s hs
      rcases ih _ hs with hs | hs
      · exact (mem_add.1 hs).imp_right fun heq ↦ List.mem_cons.2 (.inl heq)
      · exact .inr (List.mem_cons_of_mem _ hs)
  exact (hfold {} h).resolve_left nofun

/-- Selecting distinct ids selects these. -/
theorem ids_ofIds {ids : List String} (h : ids.Nodup) : (ofIds ids).ids = ids := by
  have hfold : ∀ s : Selection, (s.ids ++ ids).Nodup → (ids.foldl add s).ids = s.ids ++ ids := by
    clear h
    induction ids with
    | nil => exact fun s _ ↦ (List.append_nil s.ids).symm
    | cons id ids ih =>
      intro s hs
      have hnot : s.contains id = false := by
        rw [contains, List.contains_eq_mem, decide_eq_false_iff_not]
        exact fun hmem ↦ (List.nodup_append.1 hs).2.2 id hmem id List.mem_cons_self rfl
      have hadd : s.add id = ⟨s.ids ++ [id]⟩ := by rw [add, hnot]; rfl
      rw [List.foldl_cons, hadd, ih _ (by rwa [List.append_assoc]), List.append_assoc,
        List.singleton_append]
  exact hfold {} h

end Selection

namespace Session

/-! ## What is selected and pointed at -/

/-- Whether the flat list of a session is that of its components, and the ids that are selected or
pointed at are in it, the selected ones once each. -/
structure IsPointed (s : Session) : Prop where
  /-- The flat list is that of the components. -/
  flat : s.flat = Component.flatten false s.components
  /-- No id is selected twice. -/
  nodup : s.selection.ids.Nodup
  /-- The selected ids are there. -/
  selected : ∀ id ∈ s.selection.ids, id ∈ s.ids
  /-- The id under the pointer is there. -/
  hovered : ∀ id, s.hovered = some id → id ∈ s.ids

variable {s : Session}

theorem ids_eq (hflat : s.flat = Component.flatten false s.components) :
    s.ids = (subtreesAll s.components).map Component.id := by
  rw [ids, hflat, Component.flatten, Component.all_eq, List.map_map]
  rfl

/-- The id of the component that an id means is there. -/
theorem mem_ids_of_resolve? (hflat : s.flat = Component.flatten false s.components)
    {id id' : String} (h : s.resolve? id = some id') : id' ∈ s.ids := by
  obtain ⟨c, hfind, rfl⟩ := Option.map_eq_some_iff.1 h
  rw [ids_eq hflat]
  exact List.mem_map_of_mem (Component.mem_of_find? hfind)

/-- Whatever a text is taken for the document, only what is there stays selected and pointed at. -/
theorem isPointed_install (hnodup : s.selection.ids.Nodup) (text : String)
    (components : List Component) : (s.install text components).IsPointed := by
  have hlive : ∀ id, ((Component.flatten false components).any fun entry ↦ entry.heading.id == id)
      = true → id ∈ (s.install text components).ids := by
    intro id hid
    obtain ⟨entry, hentry, heq⟩ := List.any_eq_true.1 hid
    exact List.mem_map.2 ⟨entry, hentry, by simpa using heq⟩
  refine ⟨rfl, hnodup.filter _, fun id hid ↦ ?_, fun id hid ↦ ?_⟩
  · exact hlive id (List.mem_filter.1 hid).2
  · exact hlive id (Option.filter_eq_some_iff.1 hid).2

namespace IsPointed

theorem record (h : s.IsPointed) (text : String) (components : List Component) :
    (s.record text components).IsPointed :=
  isPointed_install (s := { s with history := s.history.record text }) h.nodup text components

theorem commit (h : s.IsPointed) (result : Except EditError String) :
    (s.commit result).2.IsPointed := by
  rcases commit_eq_or s result with ⟨-, heq⟩ | ⟨w, p, -, -, -, heq⟩
  · rwa [heq]
  · rw [heq]
    exact h.record _ _

theorem commitAdding (h : s.IsPointed) (result : Except EditError String) :
    (s.commitAdding result).2.IsPointed := by
  have hcommit := h.commit result
  rcases commitAdding_eq_or s result with heq | ⟨added, hadded, heq⟩
  · rwa [heq]
  · rw [heq]
    exact ⟨hcommit.flat, Selection.nodup_ofIds added,
      fun id hid ↦ hadded id (Selection.mem_of_mem_ofIds hid), hcommit.hovered⟩

theorem restore (h : s.IsPointed) (history : History) :
    ({ s with history := history }.restore).2.IsPointed := by
  rcases restore_eq_or { s with history := history } with ⟨heq, -⟩ | ⟨text, components, -, -, heq⟩
  · rw [heq]
    exact ⟨h.flat, h.nodup, h.selected, h.hovered⟩
  · rw [heq]
    exact isPointed_install (s := { s with history }) h.nodup _ _

theorem setCode (h : s.IsPointed) (code : String) : (s.setCode code).2.IsPointed := by
  rw [Session.setCode]
  split
  · exact ⟨h.flat, h.nodup, h.selected, h.hovered⟩
  · split
    · exact ⟨h.flat, h.nodup, h.selected, h.hovered⟩
    · exact h.record _ _

theorem select (h : s.IsPointed) (id : String) : (s.select id).2.IsPointed := by
  rw [Session.select]
  split
  · exact h
  · next id' hresolve =>
    refine ⟨h.flat, List.pairwise_singleton _ id', fun x hx ↦ ?_, h.hovered⟩
    rw [List.mem_singleton.1 hx]
    exact mem_ids_of_resolve? h.flat hresolve

theorem toggle (h : s.IsPointed) (id : String) : (s.toggle id).2.IsPointed := by
  rw [Session.toggle]
  split
  · exact ⟨h.flat, h.nodup.filter _, fun x hx ↦ h.selected x (List.mem_filter.1 hx).1, h.hovered⟩
  · split
    · exact h
    · next id' hresolve =>
      refine ⟨h.flat, Selection.nodup_toggle h.nodup id', fun x hx ↦ ?_, h.hovered⟩
      rcases Selection.mem_of_mem_toggle hx with hx | rfl
      · exact h.selected x hx
      · exact mem_ids_of_resolve? h.flat hresolve

theorem hover (h : s.IsPointed) (id : Option String) : (s.hover id).IsPointed := by
  refine ⟨h.flat, h.nodup, h.selected, fun x hx ↦ ?_⟩
  obtain ⟨id', -, hresolve⟩ := Option.bind_eq_some_iff.1 hx
  exact mem_ids_of_resolve? h.flat hresolve

/-- **Every action selects and points at what is there.** -/
theorem perform (h : s.IsPointed) (a : Action) : (s.perform a).2.IsPointed := by
  cases a with
  | load text =>
    simp only [Session.perform]
    split
    · next loaded hload =>
      obtain ⟨components, -, rfl⟩ := exists_of_load hload
      -- a document that is opened starts with nothing selected
      exact isPointed_install (s := { s with history := _, selection := {}, hovered := none }) .nil
        _ _
    · exact h
  | setCode code => exact h.setCode code
  | setProperty | setPropertyOfSelection | reorder | reorderSelection | removeSelection
  | adjustSelection => exact h.commit _
  | duplicate | duplicateSelection => exact h.commitAdding _
  | copySelection =>
    show s.copySelection.IsPointed
    rw [copySelection]
    split
    · exact h
    · exact ⟨h.flat, h.nodup, h.selected, h.hovered⟩
  | paste =>
    show s.paste.2.IsPointed
    rw [paste]
    split
    · exact h
    · exact h.commitAdding _
  | undo =>
    show s.undo.2.IsPointed
    rw [undo]
    split
    · exact h
    · exact h.restore _
  | redo =>
    show s.redo.2.IsPointed
    rw [redo]
    split
    · exact h
    · exact h.restore _
  | select id => exact h.select id
  | toggle id => exact h.toggle id
  | clearSelection => exact ⟨h.flat, .nil, List.forall_mem_nil _, h.hovered⟩
  | hover id => exact h.hover id
  | toggleGrid => exact ⟨h.flat, h.nodup, h.selected, h.hovered⟩

/-- **After any actions a session selects and points at what is there.** -/
theorem run (h : s.IsPointed) (actions : List Action) : (s.run actions).IsPointed :=
  run_invariant (fun a _ _ h ↦ h.perform a) h

end IsPointed

theorem isPointed_openText {config : Config} {text : String}
    (hopen : openText config text = .ok s) : s.IsPointed := by
  obtain ⟨components, -, rfl⟩ := exists_of_openText hopen
  exact ⟨rfl, .nil, nofun, nofun⟩

/-! ## Live sessions -/

/-- Whether everything that a session derives from its text is that of its text, where so many texts
may be held by the history. -/
structure IsLive (kept : Nat) (s : Session) : Prop where
  /-- The flat list is that of the components. -/
  flat : s.flat = Component.flatten false s.components
  /-- The present text of the history is the text. -/
  current : s.history.current? = some s.markup
  /-- The history holds a text. -/
  length_pos : 1 ≤ s.history.entries.length
  /-- The history holds no more texts than it may. -/
  length_le : s.history.entries.length ≤ kept
  /-- The place of the present text is one in the history. -/
  index_lt : s.history.index < s.history.entries.length
  /-- No text stands next to itself. -/
  distinct : s.history.entries.IsChain (· ≠ ·)
  /-- No id is selected twice. -/
  nodup : s.selection.ids.Nodup
  /-- The selected ids are in the flat list. -/
  selected : ∀ id ∈ s.selection.ids, id ∈ s.flat.map fun entry ↦ entry.heading.id
  /-- The id under the pointer is in the flat list. -/
  hovered : ∀ id, s.hovered = some id → id ∈ s.flat.map fun entry ↦ entry.heading.id

/-- Whether the text that an action goes back or forward to, if there is one, can be read. -/
def Meets (s : Session) (a : Action) : Prop :=
  ∀ h, s.next? a = some h → ∀ text, h.current? = some text →
    ∃ components, Drawing.componentsOf text = .ok components

/-- Whether every step back or forward in a row of actions meets a text that can be read. -/
def MeetsAll (s : Session) : List Action → Prop
  | [] => True
  | a :: actions => s.Meets a ∧ (s.perform a).2.MeetsAll actions

/-- The invariant of a run: the history is tidy, its present text is shown, and what is selected and
pointed at is there. -/
private structure IsKept (kept : Nat) (s : Session) : Prop where
  tidy : s.history.IsTidy
  capacity : s.history.capacity = kept
  current : s.history.current? = some s.markup
  pointed : s.IsPointed

namespace IsKept

variable {kept : Nat}

/-- The step law: only a step to a text that cannot be read would leave the text of the history
behind. -/
private theorem perform (h : s.IsKept kept) {a : Action} (ha : s.Meets a) :
    (s.perform a).2.IsKept kept := by
  have hstep := step_perform s a
  refine ⟨hstep.isTidy h.tidy, hstep.capacity_eq.trans h.capacity, ?_, h.pointed.perform a⟩
  rcases hstep.current_or h.tidy.sound with hcurrent | ⟨hsame, hhistory | ⟨hnext, hrefused⟩⟩
  · exact hcurrent
  · rw [hhistory, hsame.markup]
    exact h.current
  · obtain ⟨text, htext⟩ := (isTidy_of_next? h.tidy hnext).sound.current?
    obtain ⟨components, hok⟩ := ha _ hnext text htext
    exact absurd hok (hrefused text htext components)

private theorem run (h : s.IsKept kept) {actions : List Action} (hmeets : s.MeetsAll actions) :
    (s.run actions).IsKept kept := by
  induction actions generalizing s with
  | nil => exact h
  | cons a actions ih => exact ih (h.perform hmeets.1) hmeets.2

private theorem isLive (h : s.IsKept kept) : s.IsLive kept where
  flat := h.pointed.flat
  current := h.current
  length_pos := Nat.one_le_of_lt h.tidy.sound.index_lt
  length_le := h.capacity ▸ h.tidy.length_le
  index_lt := h.tidy.sound.index_lt
  distinct := h.tidy.distinct
  nodup := h.pointed.nodup
  selected := h.pointed.selected
  hovered := h.pointed.hovered

end IsKept

private theorem isKept_openText {config : Config} {text : String}
    (hopen : openText config text = .ok s)
    (hlimit : config.historyLimit.toNat + 1 < UInt64.size) :
    s.IsKept (max config.historyLimit.toNat 1 + 1) := by
  have hpointed := isPointed_openText hopen
  obtain ⟨components, -, rfl⟩ := exists_of_openText hopen
  exact ⟨.reset (History.capacity_ofLimit_pos hlimit) text,
    (History.capacity_reset _ _).trans (History.capacity_ofLimit hlimit),
    History.current?_reset _ _, hpointed⟩

/-- **After any actions everything a session derives is live.** The steps that are kept have to be
fewer than the largest word, and no step back or forward may lead to a text that cannot be read. -/
theorem isLive_run {config : Config} {text : String} (hopen : openText config text = .ok s)
    (hlimit : config.historyLimit.toNat + 1 < UInt64.size) {actions : List Action}
    (hmeets : s.MeetsAll actions) :
    (s.run actions).IsLive (max config.historyLimit.toNat 1 + 1) :=
  ((isKept_openText hopen hlimit).run hmeets).isLive

/-- One step is kept; it is made, and an element that is there again is selected. -/
theorem isLive_after_step_back :
    ∃ s, openText { historyLimit := 1 } "<svg><rect/></svg>" = .ok s ∧
      (s.run [.setCode "<svg/>", .undo, .select "rect-0"]).IsLive 2 := by
  have hopen := @openText_eq_ok { historyLimit := 1 } _ _ componentsOf_rect
  refine ⟨_, hopen, isLive_run hopen (by decide) ?_⟩
  refine ⟨by rintro _ ⟨⟩, ?_, by rintro _ ⟨⟩, trivial⟩
  -- the step leads from the code that was typed to the text that was opened
  have hsound := History.isSound_reset (h := .ofLimit 1) (by decide) "<svg><rect/></svg>"
  have hne : (History.reset (.ofLimit 1) "<svg><rect/></svg>").current? ≠ some "<svg/>" := by decide
  obtain ⟨h', hundo, hcurrent⟩ := hsound.exists_undo?_record (by decide) hne
  intro h hh text htext
  simp only [next?, perform, Reply.ofOutcome, setCode, componentsOf_root] at hh
  rw [if_neg (by decide)] at hh
  cases hundo.symm.trans hh
  cases hcurrent.symm.trans htext
  exact ⟨_, componentsOf_rect⟩

end Session

end SvgWorkbench
