import SvgWorkbench.Proofs.Session.Coherent
import SvgWorkbench.Proofs.Session.Step

/-!
# Edits that can be taken back

A step back right after an edit shows what was there before the edit, and a step forward again shows
what the edit made: the same text, the same components, the same flat list. The components were made
from another text than the one that is read when the step is taken, so this rests on a session
showing what its text holds.

It fails exactly if one of the two texts that are gone to cannot be read, because an element has its
id under both of its names there. No such text is ever committed if the key of an id behind an empty
prefix is never handed in.
-/

namespace SvgWorkbench.Session

open SvgWorkbench.Tree Xml

variable {s t : Session} {legal : String → Prop}

/-! ## The invariant -/

/-- Whether the flat list is that of the components, two texts or more are kept, and the present
text of the history is the one that is shown, unless it cannot be read. -/
structure IsSteady (s : Session) : Prop where
  /-- The flat list is that of the components. -/
  flat : s.flat = Component.flatten false s.components
  /-- The history is tidy. -/
  tidy : s.history.IsTidy
  /-- There may be a step back. -/
  capacity : 2 ≤ s.history.capacity
  /-- The text of the history is shown, or cannot be. -/
  current : s.history.current? = some s.markup ∨ ∀ text, s.history.current? = some text →
    ∀ components, Drawing.componentsOf text ≠ .ok components

theorem isSteady_openText {config : Config} {text : String} (hopen : openText config text = .ok s)
    (hlimit : config.historyLimit.toNat + 1 < UInt64.size) : s.IsSteady := by
  obtain ⟨components, -, rfl⟩ := exists_of_openText hopen
  refine ⟨rfl, .reset (History.capacity_ofLimit_pos hlimit) text, ?_,
    .inl (History.current?_reset _ _)⟩
  rw [History.capacity_reset, History.capacity_ofLimit hlimit]
  omega

namespace IsSteady

theorem perform (h : s.IsSteady) (a : Action) : (s.perform a).2.IsSteady := by
  have hstep := step_perform s a
  refine ⟨?_, hstep.isTidy h.tidy, hstep.capacity_eq ▸ h.capacity, ?_⟩
  · cases hstep with
    | edits hedited =>
      cases hedited with
      | stays hsame => rw [hsame.flat, hsame.components, h.flat]
      | commits hflat => exact hflat
    | opens hflat => exact hflat
    | goes _ hflat => exact hflat
    | fails _ hsame => rw [hsame.flat, hsame.components, h.flat]
  · rcases hstep.current_or h.tidy.sound with hcurrent | ⟨hsame, hhistory | ⟨-, hrefused⟩⟩
    · exact .inl hcurrent
    · rw [hhistory, hsame.markup]
      exact h.current
    · exact .inr hrefused

theorem run (h : s.IsSteady) (actions : List Action) : (s.run actions).IsSteady :=
  run_invariant (fun a _ _ h ↦ h.perform a) h

/-- The present text of the history is shown if it can be read. -/
theorem current?_eq (h : s.IsSteady) (hreads : ∀ text, s.history.current? = some text →
    ∃ components, Drawing.componentsOf text = .ok components) :
    s.history.current? = some s.markup := by
  refine h.current.resolve_right fun hrefused ↦ ?_
  obtain ⟨text, htext⟩ := h.tidy.sound.current?
  obtain ⟨components, hread⟩ := hreads text htext
  exact hrefused text htext components hread

/-- A step back from another text that has been committed leads to the text that was shown. -/
theorem exists_undo? (h : s.IsSteady) (hcurrent : s.history.current? = some s.markup)
    (hhistory : t.history = s.history.record t.markup) (hchanged : t.markup ≠ s.markup) :
    ∃ history, t.history.undo? = some history ∧ history.current? = some s.markup := by
  have hne : s.history.current? ≠ some t.markup :=
    fun hsame ↦ hchanged (Option.some.inj (hsame.symm.trans hcurrent))
  obtain ⟨history, hundo, hbefore⟩ := h.tidy.sound.exists_undo?_record h.capacity hne
  exact ⟨history, hhistory ▸ hundo, hbefore.trans hcurrent⟩

end IsSteady

/-! ## One edit -/

/-- Whether a step back from the session `t` shows what the session `s` does, and a step forward
again shows what `t` does. -/
structure TakesBack (s t : Session) : Prop where
  /-- There is a step back. -/
  undo : t.undo.1 = true
  /-- It shows what was there before. -/
  undone : s.ShowsSame t.undo.2
  /-- There is a step forward again. -/
  redo : t.undo.2.redo.1 = true
  /-- It shows what was there after. -/
  redone : t.ShowsSame t.undo.2.redo.2

/-- A text that a history leads to is taken for the document if it can be read. -/
theorem restore_eq {h : History} {text : String} {components : List Component}
    (hcurrent : h.current? = some text) (hread : Drawing.componentsOf text = .ok components) :
    ({ s with history := h } : Session).restore
      = (true, ({ s with history := h } : Session).install text components) := by
  simp only [restore, hcurrent, hread]

/-- A text that is taken for the document can be read. -/
private theorem exists_componentsOf_of_restore {h : History} {text : String}
    (hcurrent : h.current? = some text)
    (hrestore : ({ s with history := h } : Session).restore.1 = true) :
    ∃ components, Drawing.componentsOf text = .ok components := by
  rcases restore_eq_or { s with history := h } with
    ⟨heq, -⟩ | ⟨text', components, htext', hread, -⟩
  · rw [heq] at hrestore
    cases hrestore
  · cases hcurrent.symm.trans htext'
    exact ⟨components, hread⟩

/-- A drawn session without a clash in its text shows what the text holds. -/
private theorem componentsOf_markup (h : s.IsDrawn legal) (hfree : HasNoClash s.markup) :
    Drawing.componentsOf s.markup = .ok s.components := by
  obtain ⟨m, hm, hcomponents⟩ := h.markup
  exact hm.componentsOf_eq_ok_iff.2 ⟨hfree, hcomponents⟩

/-- The steps back and forward after a text was committed: where they lead in the history, and which
text is read there. -/
private theorem exists_steps (hsound : s.history.IsSound) {h : History}
    (hundo : s.history.undo? = some h) :
    s.undo = ({ s with history := h } : Session).restore ∧
      s.undo.2.redo = ({ s.undo.2 with history := s.history } : Session).restore := by
  have hback : s.undo = ({ s with history := h } : Session).restore := by rw [undo, hundo]
  have hhistory : s.undo.2.history = h := by rw [hback, history_restore]
  refine ⟨hback, ?_⟩
  rw [redo, hhistory, hsound.redo?_of_undo? hundo]

/-- If an edit can be taken back, there is a step back, which leads to a text that can be read, and
so can the text that the edit made. -/
theorem TakesBack.exists_componentsOf (htakes : s.TakesBack t) (hsound : t.history.IsSound) :
    ∃ h, t.history.undo? = some h ∧
      (∀ text, h.current? = some text → ∃ components, Drawing.componentsOf text = .ok components) ∧
      ∀ text, t.history.current? = some text →
        ∃ components, Drawing.componentsOf text = .ok components := by
  have hundone := htakes.undo
  cases hundo : t.history.undo? with
  | none =>
    rw [Session.undo, hundo] at hundone
    cases hundone
  | some h =>
    obtain ⟨hback, hforward⟩ := exists_steps hsound hundo
    exact ⟨h, rfl,
      fun text hcurrent ↦ exists_componentsOf_of_restore hcurrent (hback ▸ hundone),
      fun text hcurrent ↦ exists_componentsOf_of_restore hcurrent (hforward ▸ htakes.redo)⟩

/-- **An edit that changed the text can be taken back exactly if there is no clash in the text that
was there before or in the text that was made.** -/
theorem Edited.takesBack_iff (hedited : s.Edited t) (hchanged : t.markup ≠ s.markup)
    (hsteady : s.IsSteady) (hs : s.IsDrawn legal) (ht : t.IsDrawn legal) :
    s.TakesBack t ↔
      (∀ text, s.history.current? = some text → HasNoClash text) ∧ HasNoClash t.markup := by
  have hsound := hsteady.tidy.sound
  cases hedited with
  | stays hsame => exact absurd hsame.markup hchanged
  | commits hflat hhistory =>
  have hcurrent : t.history.current? = some t.markup := hhistory ▸ hsound.current?_record t.markup
  constructor
  · intro htakes
    obtain ⟨h, hundo, hback, hforward⟩ := htakes.exists_componentsOf ht.history
    obtain ⟨m, hm, -⟩ := ht.markup
    obtain ⟨components, hread⟩ := hforward _ hcurrent
    have hmade : HasNoClash t.markup := (hm.componentsOf_eq_ok_iff.1 hread).1
    refine ⟨fun text htext ↦ ?_, hmade⟩
    by_cases hsame : s.history.current? = some t.markup
    · cases htext.symm.trans hsame
      exact hmade
    · obtain ⟨h', hundo', hbefore⟩ := hsound.exists_undo?_record hsteady.capacity hsame
      rw [← hhistory, hundo] at hundo'
      cases hundo'
      obtain ⟨m, hm⟩ := hs.entries text (History.mem_entries_of_current? htext)
      obtain ⟨components, hread⟩ := hback text (hbefore.trans htext)
      exact (hm.componentsOf_eq_ok_iff.1 hread).1
  · rintro ⟨hfree, hmade⟩
    -- without a clash the present text of the history can be read, so it is the one that is shown
    have hshown : s.history.current? = some s.markup := by
      refine hsteady.current?_eq fun text htext ↦ ?_
      obtain ⟨m, hm⟩ := hs.entries text (History.mem_entries_of_current? htext)
      exact ⟨_, hm.componentsOf_eq_ok_iff.2 ⟨hfree text htext, rfl⟩⟩
    obtain ⟨h, hundo, hbefore⟩ := hsteady.exists_undo? hshown hhistory hchanged
    obtain ⟨hback, hforward⟩ := exists_steps ht.history hundo
    rw [restore_eq hbefore (componentsOf_markup hs (hfree _ hshown))] at hback
    rw [restore_eq hcurrent (componentsOf_markup ht hmade)] at hforward
    exact {
      undo := by rw [hback]
      undone := by rw [hback]; exact ⟨rfl, rfl, hsteady.flat.symm⟩
      redo := by rw [hforward]
      redone := by rw [hforward]; exact ⟨rfl, rfl, hflat.symm⟩ }

/-! ## Edits after any actions -/

/-- **After any actions an edit that changes the text can be taken back and made again, exactly if
there is no clash** in the present text of the history or in the text that the edit makes. The steps
that are kept have to be fewer than the largest word, no document type may be handed in, and the
properties have to be named properly. There is no clash if the key of an id behind an empty prefix
is never handed in. -/
theorem takesBack_perform_iff {config : Config} {text : String}
    (hopen : openText config text = .ok s)
    (hlimit : config.historyLimit.toNat + 1 < UInt64.size) (hdoctype : IsDoctypeFree text)
    {actions : List Action} (hactions : ∀ b ∈ actions, b.IsProper) {a : Action} (ha : a.IsProper)
    (hedit : a.isEdit = true)
    (hchanged : ((s.run actions).perform a).2.markup ≠ (s.run actions).markup) :
    ((s.run actions).TakesBack ((s.run actions).perform a).2 ↔
      (∀ text, (s.run actions).history.current? = some text → HasNoClash text) ∧
        HasNoClash ((s.run actions).perform a).2.markup) ∧
    (HasKeys (· ≠ prefixedIdKey) text → (∀ b ∈ a :: actions, b.AvoidsPrefixedId) →
      (s.run actions).TakesBack ((s.run actions).perform a).2) := by
  have hedited := edited_perform (s.run actions) hedit
  have hsteady := (isSteady_openText hopen hlimit).run actions
  have hdrawn := isDrawn_run hopen hlimit hdoctype hactions
  have hiff := hedited.takesBack_iff hchanged hsteady hdrawn (hdrawn.perform keyRule_isName ha.keeps)
  refine ⟨hiff, fun hkeys havoids ↦ hiff.2 ⟨fun text htext ↦ ?_, ?_⟩⟩
  all_goals
    obtain ⟨havoid, havoids⟩ := List.forall_mem_cons.1 havoids
    have hrun := isDrawn_run_of_avoids hopen hlimit hdoctype hactions hkeys havoids
  · obtain ⟨m, hm⟩ := hrun.entries text (History.mem_entries_of_current? htext)
    exact hasNoClash_of_stands hm
  · obtain ⟨m, hm, -⟩ := (hrun.perform keyRule_ne_prefixedIdKey (ha.keeps_of_avoids havoid)).markup
    exact hasNoClash_of_stands hm

/-- Code that can be read is shown once it is typed. -/
private theorem markup_setCode {code : String} {components : List Component}
    (hread : Drawing.componentsOf code = .ok components) : (s.setCode code).2.markup = code := by
  rw [setCode]
  split
  · next hsame => exact hsame.symm
  · rw [hread]
    rfl

/-- One step is kept. The code that is typed at last can be taken back, though it drops the text
that was opened from the history. -/
theorem takesBack_after_eviction :
    ∃ s, openText { historyLimit := 1 } "<svg/>" = .ok s ∧
      (s.run [.setCode "<svg><g/></svg>"]).TakesBack
        ((s.run [.setCode "<svg><g/></svg>"]).perform (.setCode "<svg/>")).2 := by
  have hread : Markup.read "<svg/>" = .ok [.node (.element ⟨"svg", []⟩) []] := by cbv
  have hcode : Markup.read "<svg><g/></svg>"
      = .ok [.node (.element ⟨"svg", []⟩) [.node (.element ⟨"g", []⟩) []]] := by cbv
  have hplain : ∀ code ∈ ["<svg/>", "<svg><g/></svg>"],
      IsDoctypeFree code ∧ HasKeys (· ≠ prefixedIdKey) code := by
    intro code hmem
    simp only [List.mem_cons, List.not_mem_nil, or_false] at hmem
    obtain rfl | rfl := hmem
    · exact ⟨isDoctypeFree_of_read hread (by simp [preorderAll, preorder]),
        hasKeys_of_read hread (by simp [preorderAll, preorder, Element.keys])⟩
    · exact ⟨isDoctypeFree_of_read hcode (by simp [preorderAll, preorder]),
        hasKeys_of_read hcode (by simp [preorderAll, preorder, Element.keys])⟩
  have hactions : ∀ a ∈ [Action.setCode "<svg/>", .setCode "<svg><g/></svg>"],
      a.IsProper ∧ a.AvoidsPrefixedId := by
    intro a ha
    obtain ⟨code, hmem, rfl⟩ : ∃ code ∈ ["<svg/>", "<svg><g/></svg>"], .setCode code = a :=
      List.mem_map.1 ha
    refine ⟨⟨fun text htext ↦ ?_, by rintro _ ⟨⟩⟩, ⟨fun text htext ↦ ?_, by rintro ⟨⟩⟩⟩ <;>
      cases htext
    · exact (hplain code hmem).1
    · exact (hplain code hmem).2
  have hopen : openText { historyLimit := 1 } "<svg/>" = .ok _ := openText_eq_ok componentsOf_root
  refine ⟨_, hopen, (takesBack_perform_iff hopen (by decide) (hplain _ (.head _)).1
    (fun a ha ↦ (hactions a (.tail _ ha)).1) (hactions _ (.head _)).1 rfl ?_).2
    (hplain _ (.head _)).2 fun a ha ↦ (hactions a ha).2⟩
  intro hsame
  refine absurd ?_ (by decide : "<svg/>" ≠ "<svg><g/></svg>")
  exact (markup_setCode componentsOf_root).symm.trans
    (hsame.trans (markup_setCode componentsOf_group))

/-- **An edit cannot be made again** when it takes away the id of an element that has its id behind
an empty prefix: the text that was committed cannot be read. -/
theorem not_takesBack_of_prefixed_id :
    ∃ s, openText {} "<svg><rect :id=\"x\"/></svg>" = .ok s ∧
      IsDoctypeFree "<svg><rect :id=\"x\"/></svg>" ∧
      (Action.setProperty "rect-0" "id" "").IsProper ∧
      (s.perform (.setProperty "rect-0" "id" "")).2.markup ≠ s.markup ∧
      ¬ s.TakesBack (s.perform (.setProperty "rect-0" "id" "")).2 := by
  obtain ⟨s, text, components, hopen, hdoctype, hproper, hperform, hne, hrefused⟩ :=
    exists_unreadable_commit
  refine ⟨s, hopen, hdoctype, hproper, ?_⟩
  rw [hperform]
  refine ⟨hne, fun htakes ↦ ?_⟩
  have hsound := (isSteady_openText hopen (by decide)).tidy.sound
  obtain ⟨h, -, -, hmade⟩ := htakes.exists_componentsOf (hsound.record text)
  obtain ⟨components', hread⟩ := hmade text (hsound.current?_record text)
  exact hrefused components' hread

end SvgWorkbench.Session
