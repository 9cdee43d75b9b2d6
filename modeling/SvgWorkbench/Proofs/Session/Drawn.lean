import SvgWorkbench.Proofs.Edit.Written
import SvgWorkbench.Proofs.History
import SvgWorkbench.Session.Action

/-!
# Sessions show what they hold

A session keeps a text and the components of the text side by side and changes both at once, but it
does not read the text again that it commits. What every action preserves is that the text is read
as markup whose drawing has these components, and that every committed text is read as ordinary
markup. Whether the check lets such a text through is another matter: it does exactly if no element
has its id under both of its names.
-/

namespace SvgWorkbench

open SvgWorkbench.Tree Xml

variable {legal : String → Prop}

/-! ## What users hand in -/

/-- Whether no document type is read in a text. -/
def IsDoctypeFree (text : String) : Prop :=
  ∀ m, Markup.read text = .ok m → ∀ s, .doctype s ∉ preorderAll m

/-- Whether all names of XML that are keys in a text are legal. -/
def HasKeys (legal : String → Prop) (text : String) : Prop :=
  ∀ m, Markup.read text = .ok m → ∀ e, .element e ∈ preorderAll m →
    ∀ k ∈ e.keys, IsName k.toList → legal k

theorem exists_stands_of_componentsOf {text : String} (hdoctype : IsDoctypeFree text)
    (hkeys : HasKeys legal text) {components : List Component}
    (h : Drawing.componentsOf text = .ok components) :
    ∃ m, Stands legal text m ∧ components = (Drawing.ofDocument (.ofMarkup m)).components := by
  obtain ⟨p, hparse, rfl⟩ := Gate.map_eq_ok_iff.1 h
  obtain ⟨hcheck, m, hread, rfl⟩ := Drawing.exists_markup_of_parse hparse
  exact ⟨m, ⟨hread, Markup.isOrdinary_of_check hcheck hread (hdoctype m hread) (hkeys m hread),
    fun _ ↦ hcheck⟩, rfl⟩

namespace Session

/-- The text an action hands in. -/
def Action.markup? : Action → Option String
  | .load markup => some markup
  | .setCode code => some code
  | _ => none

/-- The key an action names a property by. -/
def Action.key? : Action → Option String
  | .setProperty _ key _ => some key
  | .setPropertyOfSelection key _ => some key
  | .adjustSelection key _ _ => some key
  | _ => none

/-- Whether an action hands in no document type, and whatever keys it uses are legal. -/
structure Action.Keeps (legal : String → Prop) (a : Action) : Prop where
  /-- No document type is handed in. -/
  doctype : ∀ text, a.markup? = some text → IsDoctypeFree text
  /-- The keys in what is handed in are legal. -/
  keys : ∀ text, a.markup? = some text → HasKeys legal text
  /-- Properties are named by legal keys. -/
  key : ∀ key, a.key? = some key → IsPropertyKey legal key

/-! ## Opening and running -/

/-- What a session is opened with. -/
theorem openText_eq_ok {config : Config} {text : String} {components : List Component}
    (h : Drawing.componentsOf text = .ok components) :
    openText config text = .ok {
      config, markup := text, components
      flat := Component.flatten false components
      showGrid := config.showGrid
      history := (History.ofLimit config.historyLimit).reset text } := by
  rw [openText, h]
  rfl

/-- A session can only be opened with a drawing. -/
theorem exists_of_openText {config : Config} {text : String} {s : Session}
    (hopen : openText config text = .ok s) :
    ∃ components, Drawing.componentsOf text = .ok components ∧ s = {
      config, markup := text, components
      flat := Component.flatten false components
      showGrid := config.showGrid
      history := (History.ofLimit config.historyLimit).reset text } := by
  obtain ⟨components, hcomponents, hs⟩ := Gate.bind_eq_ok_iff.1 hopen
  cases hs
  exact ⟨components, hcomponents, rfl⟩

/-- What opening another document leaves of a session. -/
theorem exists_of_load {s loaded : Session} {text : String} (hload : s.load text = .ok loaded) :
    ∃ components, Drawing.componentsOf text = .ok components ∧
      loaded = ({ s with
        history := s.history.reset text
        selection := {}
        hovered := none } : Session).install text components := by
  obtain ⟨components, hcomponents, hloaded⟩ := Gate.bind_eq_ok_iff.1 hload
  cases hloaded
  exact ⟨components, hcomponents, rfl⟩

/-- **Run law.** What each of some actions keeps is kept by all of them. -/
theorem run_invariant {P : Session → Prop} {actions : List Action}
    (hstep : ∀ a ∈ actions, ∀ s : Session, P s → P (s.perform a).2) {s : Session} (h : P s) :
    P (s.run actions) := by
  induction actions generalizing s with
  | nil => exact h
  | cons a actions ih =>
    obtain ⟨ha, hactions⟩ := List.forall_mem_cons.1 hstep
    exact ih hactions (ha s h)

/-! ## What committing does -/

/-- Another text that can be read is committed. -/
theorem commit_of_parse {s : Session} {w : String} {p : Drawing} (hne : w ≠ s.markup)
    (hparse : Drawing.parse w = .ok p) :
    s.commit (.ok w) = (.committed, s.record p.text p.components) := by
  simp only [commit, if_neg hne, hparse]

/-- Committing leaves the session as it is and says so, or takes the drawing of another text that was
made. -/
theorem commit_eq_or (s : Session) (result : Except EditError String) :
    (s.commit result).1 ≠ .committed ∧ (s.commit result).2 = s ∨ ∃ w p, result = .ok w ∧ w ≠ s.markup ∧
      Drawing.parse w = .ok p ∧ s.commit result = (.committed, s.record p.text p.components) := by
  cases result with
  | error cause =>
    refine .inl ⟨?_, rfl⟩
    simp only [commit]
    split <;> nofun
  | ok w =>
    by_cases hsame : w = s.markup
    · have hcommit : s.commit (.ok w) = (.unchanged, s) := by simp only [commit, if_pos hsame]
      exact .inl (hcommit ▸ ⟨nofun, rfl⟩)
    cases hparse : Drawing.parse w with
    | error cause =>
      have hcommit : s.commit (.ok w) = (.rejected (.unreadable cause), s) := by
        simp only [commit, if_neg hsame, hparse]
      exact .inl (hcommit ▸ ⟨nofun, rfl⟩)
    | ok p => exact .inr ⟨w, p, rfl, hsame, hparse, commit_of_parse hsame hparse⟩

/-- Selecting what was added changes nothing else, and selects what is there. -/
theorem commitAdding_eq_or (s : Session) (result : Except EditError String) :
    (s.commitAdding result).2 = (s.commit result).2 ∨
      ∃ added, (∀ id ∈ added, id ∈ (s.commit result).2.ids) ∧
        (s.commitAdding result).2 = { (s.commit result).2 with selection := .ofIds added } := by
  rw [commitAdding]
  split
  · next t heq =>
    rw [heq]
    split
    · exact .inl rfl
    · exact .inr ⟨_, fun id hid ↦ (List.mem_filter.1 hid).1, rfl⟩
  · exact .inl rfl

/-! ## The invariant -/

/-- Whether the components of a session are those of its text, every committed text can be read, the
history is in place, and the clipboard holds copies of ordinary elements. -/
structure IsDrawn (legal : String → Prop) (s : Session) : Prop where
  /-- The text is read as the markup of a drawing that has the components. -/
  markup : ∃ m, Stands legal s.markup m ∧
    s.components = (Drawing.ofDocument (.ofMarkup m)).components
  /-- The committed texts are read as ordinary markup. -/
  entries : ∀ entry ∈ s.history.entries, ∃ m, Stands legal entry m
  /-- There is a present text. -/
  history : s.history.IsSound
  /-- The copies are ordinary. -/
  clipboard : ∀ c ∈ s.clipboard, c.IsOrdinary legal

namespace IsDrawn

variable {s : Session}

theorem readsOrdinary (h : s.IsDrawn legal) : ReadsOrdinary legal s.markup := by
  obtain ⟨m, hm, -⟩ := h.markup
  exact hm.readsOrdinary

theorem install (h : s.IsDrawn legal) {text : String} {components : List Component}
    (htext : ∃ m, Stands legal text m ∧
      components = (Drawing.ofDocument (.ofMarkup m)).components) :
    (s.install text components).IsDrawn legal := ⟨htext, h.entries, h.history, h.clipboard⟩

theorem record (h : s.IsDrawn legal) {text : String} {components : List Component}
    (htext : ∃ m, Stands legal text m ∧
      components = (Drawing.ofDocument (.ofMarkup m)).components) :
    (s.record text components).IsDrawn legal := by
  refine ⟨htext, fun entry hentry ↦ ?_, h.history.record text, h.clipboard⟩
  rcases History.mem_entries_record hentry with rfl | hentry
  · obtain ⟨m, hm, -⟩ := htext
    exact ⟨m, hm⟩
  · exact h.entries entry hentry

/-! ## Committing edits -/

theorem commit (rule : KeyRule legal) (h : s.IsDrawn legal) {result : Except EditError String}
    (hresult : ∀ w, result = .ok w → w = s.markup ∨ IsWritten legal w) :
    (s.commit result).2.IsDrawn legal := by
  rcases commit_eq_or s result with ⟨-, hsame⟩ | ⟨w, p, hw, hne, hparse, heq⟩
  · rwa [hsame]
  · rw [heq]
    exact h.record (((hresult w hw).resolve_left hne).stands_text rule hparse)

theorem commitAdding (rule : KeyRule legal) (h : s.IsDrawn legal)
    {result : Except EditError String}
    (hresult : ∀ w, result = .ok w → w = s.markup ∨ IsWritten legal w) :
    (s.commitAdding result).2.IsDrawn legal := by
  have hcommit := h.commit rule hresult
  rcases commitAdding_eq_or s result with heq | ⟨added, -, heq⟩
  · rwa [heq]
  · rw [heq]
    exact ⟨hcommit.markup, hcommit.entries, hcommit.history, hcommit.clipboard⟩

/-- Whether a text is the one of a session or has been written. -/
private theorem readsOrdinary_of_or (rule : KeyRule legal) (h : s.IsDrawn legal) {w : String}
    (hw : w = s.markup ∨ IsWritten legal w) : ReadsOrdinary legal w := by
  rcases hw with rfl | hw
  · exact h.readsOrdinary
  · exact hw.readsOrdinary rule

/-- A row of edits leaves the text or writes one. -/
theorem forEach (rule : KeyRule legal) (h : s.IsDrawn legal) {α : Type}
    {edit : String → α → Except EditError String} {items : List α}
    (hedit : ∀ current item w, item ∈ items → ReadsOrdinary legal current →
      edit current item = .ok w → w = current ∨ IsWritten legal w) :
    ∀ w, Except.ok (Edit.forEach edit s.markup items) = (.ok w : Except EditError String) →
      w = s.markup ∨ IsWritten legal w := by
  rintro _ ⟨⟩
  -- the text is that of the session until an edit succeeds, and a written one from then on
  refine Edit.forEach_induction (P := fun w ↦ w = s.markup ∨ IsWritten legal w) ?_ (.inl rfl)
  intro current item w hitem hcurrent hw
  rcases hedit current item w hitem (readsOrdinary_of_or rule h hcurrent) hw with rfl | hw
  · exact hcurrent
  · exact .inr hw

/-! ## The document as a whole -/

/-- Whether a text that was handed in is committed. -/
theorem setCode (h : s.IsDrawn legal) {code : String} (hdoctype : IsDoctypeFree code)
    (hkeys : HasKeys legal code) : (s.setCode code).2.IsDrawn legal := by
  rw [Session.setCode]
  split
  · exact ⟨h.markup, h.entries, h.history, h.clipboard⟩
  · split
    · exact ⟨h.markup, h.entries, h.history, h.clipboard⟩
    · next components hcomponents =>
      exact h.record (exists_stands_of_componentsOf hdoctype hkeys hcomponents)

theorem load (h : s.IsDrawn legal) {text : String} (hdoctype : IsDoctypeFree text)
    (hkeys : HasKeys legal text) {loaded : Session} (hload : s.load text = .ok loaded) :
    loaded.IsDrawn legal := by
  obtain ⟨components, hcomponents, rfl⟩ := exists_of_load hload
  have htext := exists_stands_of_componentsOf hdoctype hkeys hcomponents
  refine ⟨htext, fun entry hentry ↦ ?_, History.isSound_reset h.history.capacity_pos text,
    h.clipboard⟩
  obtain rfl := List.mem_singleton.1 hentry
  obtain ⟨m, hm, -⟩ := htext
  exact ⟨m, hm⟩

/-- Going back to a committed text shows what it holds, or leaves the text as it is. -/
theorem restore (h : s.IsDrawn legal) : s.restore.2.IsDrawn legal := by
  rw [Session.restore]
  split
  · exact h
  next text hcurrent =>
  split
  · exact h
  next components hcomponents =>
  -- the components come from a text that was handed in or written, not from what is shown now
  obtain ⟨m, hm⟩ := h.entries text (History.mem_entries_of_current? hcurrent)
  obtain ⟨p, hparse, rfl⟩ := Gate.map_eq_ok_iff.1 hcomponents
  obtain ⟨-, rfl⟩ := hm.parse_eq_ok_iff.1 hparse
  exact h.install ⟨m, hm, rfl⟩

theorem undo (h : s.IsDrawn legal) : s.undo.2.IsDrawn legal := by
  rw [Session.undo]
  split
  · exact h
  next history hundo =>
  obtain ⟨hsound, hentries⟩ := h.history.undo hundo
  refine restore ⟨h.markup, ?_, hsound, h.clipboard⟩
  show ∀ entry ∈ history.entries, _
  rw [hentries]
  exact h.entries

theorem redo (h : s.IsDrawn legal) : s.redo.2.IsDrawn legal := by
  rw [Session.redo]
  split
  · exact h
  next history hredo =>
  obtain ⟨hsound, hentries⟩ := h.history.redo hredo
  refine restore ⟨h.markup, ?_, hsound, h.clipboard⟩
  show ∀ entry ∈ history.entries, _
  rw [hentries]
  exact h.entries

theorem copySelection (rule : KeyRule legal) (h : s.IsDrawn legal) :
    s.copySelection.IsDrawn legal := by
  rw [Session.copySelection]
  split
  · exact h
  · refine ⟨h.markup, h.entries, h.history, fun copy hcopy ↦ ?_⟩
    obtain ⟨id, -, hid⟩ := List.mem_filterMap.1 hcopy
    exact Edit.isOrdinary_copy? rule h.readsOrdinary hid

/-! ## Every action -/

/-- **Step law.** Every action keeps a session drawn. -/
theorem perform (rule : KeyRule legal) (h : s.IsDrawn legal) {a : Action} (ha : a.Keeps legal) :
    (s.perform a).2.IsDrawn legal := by
  cases a with
  | load text =>
    simp only [Session.perform]
    split
    · next loaded hload => exact h.load (ha.doctype text rfl) (ha.keys text rfl) hload
    · exact h
  | setCode code => exact h.setCode (ha.doctype code rfl) (ha.keys code rfl)
  | setProperty id key value =>
    exact h.commit rule fun w hw ↦ .inr (Edit.isWritten_setProperty rule h.readsOrdinary
      (ha.key key rfl) hw)
  | setPropertyOfSelection key value =>
    exact h.commit rule (h.forEach rule fun current id w _ hcurrent hw ↦
      .inr (Edit.isWritten_setProperty rule hcurrent (ha.key key rfl) hw))
  | duplicate id =>
    exact h.commitAdding rule fun w hw ↦ .inr (Edit.isWritten_duplicate rule h.readsOrdinary hw)
  | duplicateSelection =>
    exact h.commitAdding rule (h.forEach rule fun current id w _ hcurrent hw ↦
      .inr (Edit.isWritten_duplicate rule hcurrent hw))
  | reorder id direction =>
    exact h.commit rule fun w hw ↦ Edit.isWritten_reorder rule h.readsOrdinary hw
  | reorderSelection direction =>
    exact h.commit rule (h.forEach rule fun current id w _ hcurrent hw ↦
      Edit.isWritten_reorder rule hcurrent hw)
  | removeSelection =>
    exact h.commit rule (h.forEach rule fun current id w _ hcurrent hw ↦
      .inr (Edit.isWritten_remove rule hcurrent hw))
  | adjustSelection key op amount =>
    refine h.commit rule fun w hw ↦ ?_
    cases hw
    exact Edit.adjustAll_induction (P := fun w ↦ w = s.markup ∨ IsWritten legal w)
      (fun current id value w hcurrent hw ↦ .inr (Edit.isWritten_setProperty rule
        (readsOrdinary_of_or rule h hcurrent) (ha.key key rfl) hw)) (.inl rfl) _ op amount
  | copySelection => exact h.copySelection rule
  | paste =>
    show (s.paste).2.IsDrawn legal
    rw [Session.paste]
    split
    · exact h
    · exact h.commitAdding rule (h.forEach rule fun current copy w hcopy hcurrent hw ↦
        .inr (Edit.isWritten_paste rule hcurrent (h.clipboard copy hcopy) hw))
  | undo => exact h.undo
  | redo => exact h.redo
  | select id =>
    show (s.select id).2.IsDrawn legal
    rw [Session.select]
    split
    · exact h
    · exact ⟨h.markup, h.entries, h.history, h.clipboard⟩
  | toggle id =>
    show (s.toggle id).2.IsDrawn legal
    rw [Session.toggle]
    split
    · exact ⟨h.markup, h.entries, h.history, h.clipboard⟩
    · split
      · exact h
      · exact ⟨h.markup, h.entries, h.history, h.clipboard⟩
  | clearSelection => exact ⟨h.markup, h.entries, h.history, h.clipboard⟩
  | hover id => exact ⟨h.markup, h.entries, h.history, h.clipboard⟩
  | toggleGrid => exact ⟨h.markup, h.entries, h.history, h.clipboard⟩

/-- A drawn session stays drawn over any row of actions. -/
theorem run (rule : KeyRule legal) (h : s.IsDrawn legal) {actions : List Action}
    (hactions : ∀ a ∈ actions, a.Keeps legal) : (s.run actions).IsDrawn legal :=
  run_invariant (fun a ha _ h ↦ h.perform rule (hactions a ha)) h

end IsDrawn

/-- A session that is opened is drawn. -/
theorem isDrawn_openText {config : Config} {text : String} {s : Session}
    (hopen : openText config text = .ok s)
    (hlimit : config.historyLimit.toNat + 1 < UInt64.size) (hdoctype : IsDoctypeFree text)
    (hkeys : HasKeys legal text) : s.IsDrawn legal := by
  obtain ⟨components, hcomponents, rfl⟩ := exists_of_openText hopen
  have htext := exists_stands_of_componentsOf hdoctype hkeys hcomponents
  refine ⟨htext, fun entry hentry ↦ ?_,
    History.isSound_reset (History.capacity_ofLimit_pos hlimit) text, nofun⟩
  obtain rfl := List.mem_singleton.1 hentry
  obtain ⟨m, hm, -⟩ := htext
  exact ⟨m, hm⟩

/-! ## Small documents -/

/-- What a root without children is opened with. -/
theorem componentsOf_root : Drawing.componentsOf "<svg/>"
    = .ok [.node ⟨"svg-0", "svg", none, .ofList [("id", "svg-0")]⟩ []] := by cbv

/-- What a rectangle is opened with. -/
theorem componentsOf_rect : Drawing.componentsOf "<svg><rect/></svg>" = .ok
    [.node ⟨"svg-0", "svg", none, .ofList [("id", "svg-0")]⟩
      [.node ⟨"rect-0", "rect", some "svg-0", .ofList [("id", "rect-0")]⟩ []]] := by cbv

/-- What an empty group is opened with. -/
theorem componentsOf_group : Drawing.componentsOf "<svg><g/></svg>" = .ok
    [.node ⟨"svg-0", "svg", none, .ofList [("id", "svg-0")]⟩
      [.node ⟨"g-0", "g", some "svg-0", .ofList [("id", "g-0")]⟩ []]] := by cbv

end Session

end SvgWorkbench
