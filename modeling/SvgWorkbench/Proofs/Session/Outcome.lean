import SvgWorkbench.Proofs.Edit.Normal
import SvgWorkbench.Proofs.Session.Added
import SvgWorkbench.Proofs.Session.Refusal
import SvgWorkbench.Proofs.Session.Reversal

/-!
# Outcomes tell the truth

An edit reports a commit exactly if the text of the session is another one afterwards, and then a
step back leads to the text that was there before. What is compared, though, is the text the edit
wrote, and what is taken is the text of the drawing read in it. The two are the same if the edit
leaves all ids in place and puts no tab and no line break into an attribute. A copy that is put in
has no id yet, but then the drawing has a component more than before.

An id that is taken away comes back when the drawing is read, if it is the one that is given out
anyway: then a commit is reported and nothing has changed.
-/

namespace SvgWorkbench

open Xml SvgWorkbench.Tree Markup

namespace Session

variable {s t : Session} {a : Action}

/-! ## Names and properties -/

/-- Whether the names in the text of a session and in its clipboard are names of XML. -/
structure HasNames (s : Session) : Prop where
  /-- The names in the text are names of XML. -/
  markup : ∀ p, Drawing.parse s.markup = .ok p → ∀ c ∈ preorderAll p.document.markup, c.IsNamed
  /-- The names in the clipboard are names of XML. -/
  clipboard : ∀ copy ∈ s.clipboard, copy.IsOrdinary fun k ↦ IsName k.toList

theorem IsDrawn.hasNames (h : s.IsDrawn fun k ↦ IsName k.toList) : s.HasNames := by
  refine ⟨fun p hparse ↦ ?_, h.clipboard⟩
  obtain ⟨m, hm, -⟩ := h.markup
  obtain ⟨-, rfl⟩ := hm.parse_eq_ok_iff.1 hparse
  have hrel := Drawing.relAll_idGiven_ofDocument m
  exact hrel.forall_preorderAll (fun _ _ hgiven ↦ hgiven.isNamed)
    fun c hc ↦ (hm.ordinary c hc).isNamed keyRule_isName

/-- Whether an action that sets a property takes no id away and puts no tab and no line break into
an attribute. -/
def Action.IsPlain : Action → Prop
  | .setProperty _ key value => Edit.IsPlain key value
  | .setPropertyOfSelection key value => Edit.IsPlain key value
  | .adjustSelection key _ _ => key ≠ textKey → Unbroken key.toList
  | _ => True

/-! ## What is committed is new -/

/-- **What an edit commits is another text**, if its result is read as it was written, or has other
components than the text that was edited. -/
theorem commit_markup_ne (h : s.HasNames) {edit : String → Except EditError String}
    (hsound : Edit.WritesSound edit)
    (hnew : ∀ p q w, Drawing.parse s.markup = .ok p → p.document.IsNormal → p.text = s.markup →
      edit s.markup = .ok w → w ≠ s.markup → Drawing.parse w = .ok q →
      q.text = w ∨ q.components ≠ p.components)
    (hcommitted : (s.commit (edit s.markup)).1 = .committed) :
    (s.commit (edit s.markup)).2.markup ≠ s.markup := by
  generalize hresult : s.commit (edit s.markup) = result at hcommitted ⊢
  obtain ⟨outcome, t⟩ := result
  obtain rfl : outcome = .committed := hcommitted
  obtain ⟨w, q, hw, hne, hq, rfl⟩ := exists_of_commit_eq hresult
  show q.text ≠ s.markup
  intro hsame
  obtain ⟨p, hp, hwrites⟩ := (hsound s.markup w hw).resolve_left hne
  obtain ⟨d, hd, rfl⟩ := hwrites (h.markup p hp)
  -- the text was the one of a drawing all along, so it is read as it is written
  obtain ⟨hnormal, htext, hcomponents⟩ := Drawing.reparse_of_isSound hd hq (hsame ▸ hp)
  rcases hnew p q _ hp hnormal (htext.trans hsame) hw hne hq with hkept | hother
  · exact hne (hkept.symm.trans hsame)
  · exact hother hcomponents.symm

/-- What an edit commits that keeps texts normal is another text. -/
theorem commit_markup_ne_of_keepsNormal (h : s.HasNames) {edit : String → Except EditError String}
    (hsound : Edit.WritesSound edit) (hnormal : Edit.KeepsNormal edit)
    (hcommitted : (s.commit (edit s.markup)).1 = .committed) :
    (s.commit (edit s.markup)).2.markup ≠ s.markup := by
  refine commit_markup_ne h hsound (fun p q w hp hpnormal hptext hw _ hq ↦ ?_) hcommitted
  obtain ⟨q', hq', -, htext⟩ := hnormal s.markup p w hp hpnormal hptext hw
  cases hq.symm.trans hq'
  exact .inl htext

/-- What an edit commits that adds components is another text. -/
theorem commit_markup_ne_of_adds (h : s.HasNames) {edit : String → Except EditError String}
    (hsound : Edit.WritesSound edit)
    (hadds : ∀ p w, Drawing.parse s.markup = .ok p → p.IsClean → edit s.markup = .ok w →
      w ≠ s.markup → ∃ q n, Drawing.parse w = .ok q ∧ p.Adds q n ∧ 0 < n)
    (hcommitted : (s.commit (edit s.markup)).1 = .committed) :
    (s.commit (edit s.markup)).2.markup ≠ s.markup := by
  refine commit_markup_ne h hsound (fun p q w hp hnormal _ hw hne hq ↦ .inr fun hsame ↦ ?_)
    hcommitted
  have hclean : p.IsClean := ⟨hnormal.sound.isNamed, fun c hc ↦ (hnormal.kept c hc).1⟩
  obtain ⟨q', n, hq', hadds, hpos⟩ := hadds p w hp hclean hw hne
  cases hq.symm.trans hq'
  have hlength := hadds.length
  rw [hsame] at hlength
  omega

/-- A row of edits that changes the text adds components, if every one that is accepted adds one. -/
private theorem exists_adds_of_ne {α : Type} {edit : String → α → Except EditError String}
    {items : List α} (hadds : ∀ item ∈ items, Edit.AddsOne edit item) {p : Drawing}
    (hp : Drawing.parse s.markup = .ok p) (hclean : p.IsClean) {w : String}
    (hw : (.ok (Edit.forEach edit s.markup items) : Except EditError String) = .ok w)
    (hne : w ≠ s.markup) : ∃ q n, Drawing.parse w = .ok q ∧ p.Adds q n ∧ 0 < n := by
  cases hw
  obtain ⟨q, hq, -, hadds⟩ := Edit.exists_adds_forEach hadds hp hclean
  exact ⟨q, _, hq, hadds, List.length_pos_of_ne_nil (mt Edit.forEach_of_accepted_eq_nil hne)⟩

/-- Selecting what was added does not change the text. -/
theorem commitAdding_markup (s : Session) (result : Except EditError String) :
    (s.commitAdding result).2.markup = (s.commit result).2.markup := by
  rcases commitAdding_eq_or s result with heq | ⟨added, -, heq⟩ <;> rw [heq]

/-- Typed code that is committed is another text. -/
theorem setCode_markup_ne {code : String} (hcommitted : (s.setCode code).1 = .committed) :
    (s.setCode code).2.markup ≠ s.markup := by
  rw [setCode] at hcommitted ⊢
  split at hcommitted
  · cases hcommitted
  next hne =>
  rw [if_neg hne]
  split at hcommitted
  · cases hcommitted
  · exact hne

/-- **Whatever is committed is another text.** -/
theorem markup_ne_of_committed (h : s.HasNames)
    (hkey : ∀ key, a.key? = some key → IsPropertyKey (fun k ↦ IsName k.toList) key)
    (hplain : a.IsPlain) (hreply : (s.perform a).1 = .outcome .committed) :
    (s.perform a).2.markup ≠ s.markup := by
  cases a with
  | setCode code => exact setCode_markup_ne (Reply.outcome.inj hreply)
  | setProperty id key value =>
    exact commit_markup_ne_of_keepsNormal h (Edit.writesSound_setProperty (hkey key rfl) id value)
      (Edit.keepsNormal_setProperty (hkey key rfl) hplain id) (Reply.outcome.inj hreply)
  | setPropertyOfSelection key value =>
    exact commit_markup_ne_of_keepsNormal h
      (Edit.forEach_writesSound fun id _ ↦ Edit.writesSound_setProperty (hkey key rfl) id value)
      (Edit.forEach_keepsNormal fun id _ ↦ Edit.keepsNormal_setProperty (hkey key rfl) hplain id)
      (Reply.outcome.inj hreply)
  | adjustSelection key op amount =>
    exact commit_markup_ne_of_keepsNormal h
      (Edit.adjustAll_writesSound (hkey key rfl) s.selection.ids op amount)
      (Edit.adjustAll_keepsNormal (hkey key rfl) hplain s.selection.ids op amount)
      (Reply.outcome.inj hreply)
  | reorder id direction =>
    exact commit_markup_ne_of_keepsNormal h (Edit.writesSound_reorder direction id)
      (Edit.keepsNormal_reorder direction id) (Reply.outcome.inj hreply)
  | reorderSelection direction =>
    exact commit_markup_ne_of_keepsNormal h
      (Edit.forEach_writesSound fun id _ ↦ Edit.writesSound_reorder direction id)
      (Edit.forEach_keepsNormal fun id _ ↦ Edit.keepsNormal_reorder direction id)
      (Reply.outcome.inj hreply)
  | removeSelection =>
    exact commit_markup_ne_of_keepsNormal h
      (Edit.forEach_writesSound fun id _ ↦ Edit.writesSound_remove id)
      (Edit.forEach_keepsNormal fun id _ ↦ Edit.keepsNormal_remove id) (Reply.outcome.inj hreply)
  | duplicate id =>
    have hcommitted : (s.duplicate id).1 = .committed := Reply.outcome.inj hreply
    rw [duplicate, commitAdding_fst] at hcommitted
    show (s.duplicate id).2.markup ≠ s.markup
    rw [duplicate, commitAdding_markup]
    refine commit_markup_ne_of_adds h (Edit.writesSound_duplicate s.config id) ?_ hcommitted
    intro p w hp hclean hw _
    obtain ⟨q, hq, -, hadds⟩ := Edit.addsOne_duplicate s.config id s.markup w p hp hclean hw
    exact ⟨q, 1, hq, hadds, Nat.one_pos⟩
  | duplicateSelection =>
    have hcommitted : s.duplicateSelection.1 = .committed := Reply.outcome.inj hreply
    rw [duplicateSelection, commitAdding_fst] at hcommitted
    show s.duplicateSelection.2.markup ≠ s.markup
    rw [duplicateSelection, commitAdding_markup]
    refine commit_markup_ne_of_adds h
      (Edit.forEach_writesSound fun id _ ↦ Edit.writesSound_duplicate s.config id) ?_ hcommitted
    intro p w hp hclean hw hne
    exact exists_adds_of_ne (fun id _ ↦ Edit.addsOne_duplicate s.config id) hp hclean hw hne
  | paste =>
    have hcommitted : s.paste.1 = .committed := Reply.outcome.inj hreply
    show s.paste.2.markup ≠ s.markup
    rw [paste] at hcommitted ⊢
    split at hcommitted
    · cases hcommitted
    next hsome =>
    rw [commitAdding_fst] at hcommitted
    rw [if_neg hsome, commitAdding_markup]
    refine commit_markup_ne_of_adds h
      (Edit.forEach_writesSound fun copy hcopy ↦ Edit.writesSound_paste (h.clipboard copy hcopy) none)
      ?_ hcommitted
    intro p w hp hclean hw hne
    exact exists_adds_of_ne (fun copy hcopy ↦ Edit.addsOne_paste (h.clipboard copy hcopy)) hp hclean
      hw hne
  | load text =>
    simp only [perform] at hreply
    split at hreply <;> cases hreply
  | copySelection | undo | redo | select | toggle | clearSelection | hover | toggleGrid =>
    cases hreply

/-- What is not committed leaves the text as it was. -/
theorem markup_eq_of_ne_committed {outcome : Outcome} (hreply : (s.perform a).1 = .outcome outcome)
    (hne : outcome ≠ .committed) : (s.perform a).2.markup = s.markup := by
  by_cases hcode : ∃ code, a = .setCode code
  · obtain ⟨code, rfl⟩ := hcode
    cases hreply
    obtain ⟨refusedCode, heq, -⟩ := setCode_of_ne_committed hne
    show (s.setCode code).2.markup = s.markup
    rw [heq]
  · exact congrArg Session.markup
      (perform_of_ne_committed (fun code heq ↦ hcode ⟨code, heq⟩) hreply hne)

/-! ## The step back -/

/-- What has an outcome is an edit. -/
theorem isEdit_of_outcome {outcome : Outcome} (hreply : (s.perform a).1 = .outcome outcome) :
    a.isEdit = true := by
  cases a with
  | load text =>
    simp only [perform] at hreply
    split at hreply <;> cases hreply
  | undo | redo => cases hreply
  | _ => rfl

/-- A step back from a text that an edit has committed shows the text that was there before, if the
present text of the history could be read. -/
theorem Edited.undo_markup (hedited : s.Edited t) (hchanged : t.markup ≠ s.markup)
    (hsteady : s.IsSteady)
    (hreads : ∀ text, s.history.current? = some text →
      ∃ components, Drawing.componentsOf text = .ok components) :
    t.undo.1 = true ∧ t.undo.2.markup = s.markup := by
  cases hedited with
  | stays hsame => exact absurd hsame.markup hchanged
  | commits _ hhistory =>
  have hshown := hsteady.current?_eq hreads
  obtain ⟨components, hread⟩ := hreads s.markup hshown
  obtain ⟨h, hundo, hbefore⟩ := hsteady.exists_undo? hshown hhistory hchanged
  have hback : t.undo = (true, ({ t with history := h } : Session).install s.markup components) := by
    rw [undo, hundo]
    exact restore_eq hbefore hread
  rw [hback]
  exact ⟨rfl, rfl⟩

/-! ## After any actions -/

/-- After any actions the names are names of XML, if no document type is handed in and the
properties are named properly. -/
theorem hasNames_run {config : Config} {text : String} (hopen : openText config text = .ok s)
    (hlimit : config.historyLimit.toNat + 1 < UInt64.size) (hdoctype : IsDoctypeFree text)
    {actions : List Action} (hactions : ∀ b ∈ actions, b.IsProper) :
    (s.run actions).HasNames := (isDrawn_run hopen hlimit hdoctype hactions).hasNames

/-- **The outcome tells the truth**: a commit is reported exactly if the text is another one, and a
step back then leads to the text that was there before. -/
theorem tellsTruth_run {config : Config} {text : String} (hopen : openText config text = .ok s)
    (hlimit : config.historyLimit.toNat + 1 < UInt64.size) {actions : List Action}
    (hnames : (s.run actions).HasNames)
    (hkey : ∀ key, a.key? = some key → IsPropertyKey (fun k ↦ IsName k.toList) key)
    (hplain : a.IsPlain) {outcome : Outcome}
    (hreply : ((s.run actions).perform a).1 = .outcome outcome) :
    (outcome = .committed ↔
      ((s.run actions).perform a).2.markup ≠ (s.run actions).markup) ∧
    (outcome = .committed → (∀ text, (s.run actions).history.current? = some text →
        ∃ components, Drawing.componentsOf text = .ok components) →
      ((s.run actions).perform a).2.undo.1 = true ∧
        ((s.run actions).perform a).2.undo.2.markup = (s.run actions).markup) := by
  have hchanged : outcome = .committed →
      ((s.run actions).perform a).2.markup ≠ (s.run actions).markup := by
    rintro rfl
    exact markup_ne_of_committed hnames hkey hplain hreply
  refine ⟨⟨hchanged, not_imp_comm.1 fun hne ↦ ?_⟩, fun hcommitted ↦ ?_⟩
  · exact markup_eq_of_ne_committed hreply hne
  · have hedited := edited_perform (s.run actions) (isEdit_of_outcome hreply)
    exact hedited.undo_markup (hchanged hcommitted) ((isSteady_openText hopen hlimit).run actions)

/-- A square that is filled once the grid is off is committed as another text, and a step back
empties it again. -/
theorem tellsTruth_of_filled_square :
    ∃ s, openText {} "<svg><rect/></svg>" = .ok s ∧
      ((s.run [.toggleGrid]).perform (.setProperty "rect-0" "fill" "red")).2.markup
        ≠ (s.run [.toggleGrid]).markup ∧
      ((s.run [.toggleGrid]).perform (.setProperty "rect-0" "fill" "red")).2.undo.2.markup
        = (s.run [.toggleGrid]).markup := by
  have hedit : Edit.setProperty "<svg><rect/></svg>" "rect-0" "fill" "red"
      = .ok "<svg id=\"svg-0\"><rect id=\"rect-0\" fill=\"red\"/></svg>" := by cbv
  have hserialize : Drawing.serialize "<svg id=\"svg-0\"><rect id=\"rect-0\" fill=\"red\"/></svg>"
      = .ok "<svg id=\"svg-0\"><rect id=\"rect-0\" fill=\"red\"/></svg>" := by cbv
  obtain ⟨p, hparse, -⟩ := Gate.map_eq_ok_iff.1 hserialize
  have hopen := @openText_eq_ok {} _ _ componentsOf_rect
  have hproper : ∀ b ∈ [Action.toggleGrid], b.IsProper := by
    simpa using ⟨by rintro _ ⟨⟩, by rintro _ ⟨⟩⟩
  have hnames := hasNames_run hopen (by decide) isPlain_rect.1 hproper
  refine ⟨_, hopen, ?_⟩
  have hkey : ∀ key, (Action.setProperty "rect-0" "fill" "red").key? = some key →
      IsPropertyKey (fun k ↦ IsName k.toList) key := by
    rintro _ ⟨⟩
    exact .inr (.inr (by decide))
  have hplain : (Action.setProperty "rect-0" "fill" "red").IsPlain := ⟨by decide, by decide⟩
  obtain ⟨hiff, hback⟩ := tellsTruth_run hopen (by decide) hnames hkey hplain
    (show _ = Reply.outcome .committed by
      simp only [run, List.foldl_cons, List.foldl_nil, perform, Reply.ofOutcome, setProperty,
        toggleGrid, hedit]
      rw [commit_of_parse (by decide) hparse])
  refine ⟨hiff.1 rfl, (hback rfl fun text htext ↦ ?_).2⟩
  cases htext
  exact ⟨_, componentsOf_rect⟩

/-- **A commit is reported and nothing has changed** when the id that is taken away is the one that
is given out anyway. -/
theorem not_tellsTruth_of_given_id :
    ∃ s, openText {} "<svg id=\"svg-0\"><rect id=\"rect-0\"/></svg>" = .ok s ∧
      (s.perform (.setProperty "rect-0" "id" "")).1 = .outcome .committed ∧
      (s.perform (.setProperty "rect-0" "id" "")).2.markup = s.markup ∧
      (s.perform (.setProperty "rect-0" "id" "")).2.undo.1 = false := by
  have hopened : Drawing.componentsOf "<svg id=\"svg-0\"><rect id=\"rect-0\"/></svg>" = .ok
      [.node ⟨"svg-0", "svg", none, .ofList [("id", "svg-0")]⟩
        [.node ⟨"rect-0", "rect", some "svg-0", .ofList [("id", "rect-0")]⟩ []]] := by cbv
  have hedit : Edit.setProperty "<svg id=\"svg-0\"><rect id=\"rect-0\"/></svg>" "rect-0" "id" ""
      = .ok "<svg id=\"svg-0\"><rect/></svg>" := by cbv
  have hserialize : Drawing.serialize "<svg id=\"svg-0\"><rect/></svg>"
      = .ok "<svg id=\"svg-0\"><rect id=\"rect-0\"/></svg>" := by cbv
  obtain ⟨p, hparse, htext⟩ := Gate.map_eq_ok_iff.1 hserialize
  refine ⟨_, openText_eq_ok hopened, ?_⟩
  simp only [perform, Reply.ofOutcome, setProperty, hedit]
  rw [commit_of_parse (by decide) hparse, htext]
  exact ⟨rfl, rfl, rfl⟩

end Session

end SvgWorkbench
