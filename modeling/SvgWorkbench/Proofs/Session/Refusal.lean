import SvgWorkbench.Proofs.Session.Coherent
import SvgWorkbench.Proofs.Session.Step

/-!
# What is refused leaves no trace

An edit that is not made leaves the session exactly as it was, whatever the session and whatever the
edit was asked for: selection, pointer, clipboard and the place in the history included. Only typed
code leaves something behind, why it was not taken. A document that cannot be opened leaves nothing
behind either.

A step back or forward moves the history before the text it comes to is read. So a step that is
refused leaves the session alone exactly if there was no step in that direction, or its text can be
read, and then it is not refused at all. A text that cannot be read gets into the history where an
element has its id under both of its names.
-/

namespace SvgWorkbench

open SvgWorkbench.Tree

/-- Why a change was not made, in words. -/
def Outcome.message? : Outcome → Option String
  | .rejected cause => some cause.message
  | .committed | .unchanged => none

/-- A step leads to another place in the history. -/
theorem History.ne_of_undo? {h h' : History} (hundo : h.undo? = some h') : h' ≠ h := by
  rw [undo?] at hundo
  split at hundo <;> cases hundo
  next hcan =>
  intro heq
  have hpos : 0 < h.index := of_decide_eq_true hcan
  have hindex : h.index - 1 = h.index := congrArg History.index heq
  omega

/-- A step leads to another place in the history. -/
theorem History.ne_of_redo? {h h' : History} (hredo : h.redo? = some h') : h' ≠ h := by
  rw [redo?] at hredo
  split at hredo <;> cases hredo
  intro heq
  have hindex : h.index + 1 = h.index := congrArg History.index heq
  omega

namespace Session

variable {s : Session} {a : Action} {legal : String → Prop}

/-- Whether an action that is refused leaves a session as it was. -/
structure LeavesAlone (s : Session) (a : Action) : Prop where
  /-- An edit that is not made changes nothing. -/
  edit : (∀ code, a ≠ .setCode code) → ∀ outcome, (s.perform a).1 = .outcome outcome →
    outcome ≠ .committed → (s.perform a).2 = s
  /-- Code that is not taken changes nothing but the reason why it was not. -/
  code : ∀ code, a = .setCode code → ∀ outcome, (s.perform a).1 = .outcome outcome →
    outcome ≠ .committed → ∃ refusedCode, (s.perform a).2 = { s with refusedCode } ∧
      refusedCode.map ParseError.message = outcome.message?
  /-- A document that is not opened changes nothing. -/
  load : ∀ cause, (s.perform a).1 = .refused cause → (s.perform a).2 = s
  /-- A step that is not made changes nothing. -/
  step : a = .undo ∨ a = .redo → (s.perform a).1 = .flag false → (s.perform a).2 = s

/-! ## Edits and documents -/

theorem commit_of_ne_committed {result : Except EditError String}
    (h : (s.commit result).1 ≠ .committed) : (s.commit result).2 = s := by
  rcases commit_eq_or s result with ⟨-, hsame⟩ | ⟨w, p, -, -, -, heq⟩
  · exact hsame
  · exact absurd (congrArg Prod.fst heq) h

theorem commitAdding_of_ne_committed {result : Except EditError String}
    (h : (s.commitAdding result).1 ≠ .committed) : (s.commitAdding result).2 = s := by
  rw [commitAdding] at h ⊢
  split at h
  · split at h <;> exact absurd rfl h
  · exact commit_of_ne_committed h

/-- Code that is not taken is remembered by the reason for it. -/
theorem setCode_of_ne_committed {code : String} (h : (s.setCode code).1 ≠ .committed) :
    ∃ refusedCode, (s.setCode code).2 = { s with refusedCode } ∧
      refusedCode.map ParseError.message = (s.setCode code).1.message? := by
  rw [setCode] at h ⊢
  split at h
  · next hsame =>
    rw [if_pos hsame]
    exact ⟨none, rfl, rfl⟩
  next hne =>
  rw [if_neg hne]
  split at h
  · next cause _ => exact ⟨some cause, rfl, rfl⟩
  · exact absurd rfl h

/-- **An edit that is not made leaves any session alone.** -/
theorem perform_of_ne_committed (hcode : ∀ code, a ≠ .setCode code) {outcome : Outcome}
    (hreply : (s.perform a).1 = .outcome outcome) (hne : outcome ≠ .committed) :
    (s.perform a).2 = s := by
  have hreason : ∀ result : Outcome × Session, Reply.outcome result.1 = .outcome outcome →
      result.1 ≠ .committed := by
    rintro result ⟨⟩
    exact hne
  cases a with
  | setCode code => exact absurd rfl (hcode code)
  | setProperty | setPropertyOfSelection | reorder | reorderSelection | removeSelection
  | adjustSelection => exact commit_of_ne_committed (hreason _ hreply)
  | duplicate | duplicateSelection => exact commitAdding_of_ne_committed (hreason _ hreply)
  | paste =>
    have hpaste : s.paste.1 ≠ .committed := hreason _ hreply
    show s.paste.2 = s
    rw [paste] at hpaste ⊢
    split
    · rfl
    · next hsome =>
      rw [if_neg hsome] at hpaste
      exact commitAdding_of_ne_committed hpaste
  | load text =>
    simp only [perform] at hreply
    split at hreply <;> cases hreply
  | copySelection | undo | redo | select | toggle | clearSelection | hover | toggleGrid =>
    cases hreply

theorem perform_of_refused {cause : ParseError} (hreply : (s.perform a).1 = .refused cause) :
    (s.perform a).2 = s := by
  cases a with
  | load text =>
    simp only [perform] at hreply ⊢
    split at hreply
    · cases hreply
    · rfl
  | _ => cases hreply

/-- Whatever a session is asked for but a step, it is left alone if that is refused. -/
theorem leavesAlone_of_ne_step (hundo : a ≠ .undo) (hredo : a ≠ .redo) : s.LeavesAlone a where
  edit hcode _ hreply hne := perform_of_ne_committed hcode hreply hne
  code := by
    rintro code rfl outcome ⟨⟩ hne
    exact setCode_of_ne_committed hne
  load _ hreply := perform_of_refused hreply
  step hstep _ := (hstep.elim hundo hredo).elim

/-! ## Steps -/

/-- A step to a text is refused exactly if the text cannot be read, and then the history has
moved. -/
theorem restore_eq_self_iff {h : History} (hne : h ≠ s.history) :
    (({ s with history := h } : Session).restore.1 = false →
      ({ s with history := h } : Session).restore.2 = s) ↔
    ∃ text components, h.current? = some text ∧ Drawing.componentsOf text = .ok components := by
  rcases restore_eq_or { s with history := h } with
    ⟨heq, hrefused⟩ | ⟨text, components, hcurrent, hread, heq⟩
  · rw [heq]
    constructor
    · exact fun hsame ↦ absurd (congrArg Session.history (hsame rfl)) hne
    · rintro ⟨text, components, hcurrent, hread⟩
      exact absurd hread (hrefused text hcurrent components)
  · rw [heq]
    exact ⟨fun _ ↦ ⟨text, components, hcurrent, hread⟩, nofun⟩

/-- What a step does to a session, by the place in the history it leads to. -/
theorem leavesAlone_step_iff (hstep : a = .undo ∨ a = .redo) :
    s.LeavesAlone a ↔ ∀ h, s.next? a = some h →
      ∃ text components, h.current? = some text ∧ Drawing.componentsOf text = .ok components := by
  have hiff : s.LeavesAlone a ↔ ((s.perform a).1 = .flag false → (s.perform a).2 = s) := by
    refine ⟨fun h ↦ h.step hstep, fun h ↦ ⟨?_, ?_, fun _ hreply ↦ perform_of_refused hreply,
      fun _ ↦ h⟩⟩
    · rcases hstep with rfl | rfl <;> rintro - outcome ⟨⟩
    · rcases hstep with rfl | rfl <;> rintro code ⟨⟩
  rw [hiff]
  have hmoves : ∀ {h : History}, s.next? a = some h → h ≠ s.history := by
    rcases hstep with rfl | rfl
    · exact History.ne_of_undo?
    · exact History.ne_of_redo?
  have hperform : s.perform a = Reply.ofFlag
      ((s.next? a).elim (false, s) fun history ↦ ({ s with history } : Session).restore) := by
    rcases hstep with rfl | rfl
    · rw [perform, undo, next?]
      split <;> next heq => rw [heq]; rfl
    · rw [perform, redo, next?]
      split <;> next heq => rw [heq]; rfl
  rw [hperform]
  cases hnext : s.next? a with
  | none => exact ⟨fun _ _ ↦ by rintro ⟨⟩, fun _ _ ↦ rfl⟩
  | some h =>
    have hiff := restore_eq_self_iff (hmoves hnext)
    constructor
    · rintro hsame _ ⟨⟩
      exact hiff.1 fun hflag ↦ hsame (congrArg Reply.flag hflag)
    · exact fun hreads hreply ↦ hiff.2 (hreads h rfl) (Reply.flag.inj hreply)

/-- A step forward again to a text that cannot be read moves the history. -/
theorem not_leavesAlone_redo (hsound : s.history.IsSound) {h : History}
    (hundo : s.history.undo? = some h)
    (hrefused : ∀ text, s.history.current? = some text →
      ∀ components, Drawing.componentsOf text ≠ .ok components) :
    ¬ s.undo.2.LeavesAlone .redo := by
  intro halone
  have hhistory : s.undo.2.history = h := by rw [undo, hundo, history_restore]
  have hnext : s.undo.2.next? .redo = some s.history := by
    rw [next?, hhistory, hsound.redo?_of_undo? hundo]
  obtain ⟨text, components, hcurrent, hread⟩ :=
    (leavesAlone_step_iff (.inr rfl)).1 halone s.history hnext
  exact hrefused text hcurrent components hread

theorem entries_of_next? {h : History} (hsound : s.history.IsSound) (hnext : s.next? a = some h) :
    h.IsSound ∧ h.entries = s.history.entries := by
  cases a with
  | undo => exact hsound.undo hnext
  | redo => exact hsound.redo hnext
  | _ => cases hnext

/-- A drawn session is left alone by whatever it refuses, exactly if there is no clash in the text
that a step comes to. -/
theorem IsDrawn.leavesAlone_iff (h : s.IsDrawn legal) (a : Action) :
    s.LeavesAlone a ↔ ∀ history, s.next? a = some history →
      ∀ text, history.current? = some text → HasNoClash text := by
  by_cases hstep : a = .undo ∨ a = .redo
  · rw [leavesAlone_step_iff hstep]
    refine forall₂_congr fun history hnext ↦ ?_
    obtain ⟨hsound, hentries⟩ := entries_of_next? h.history hnext
    obtain ⟨text, hcurrent⟩ := hsound.current?
    obtain ⟨m, hm⟩ := h.entries text (hentries ▸ History.mem_entries_of_current? hcurrent)
    constructor
    · rintro ⟨text', components, hcurrent', hread⟩ text'' hcurrent''
      cases hcurrent'.symm.trans hcurrent''
      cases hcurrent'.symm.trans hcurrent
      exact (hm.componentsOf_eq_ok_iff.1 hread).1
    · exact fun hfree ↦
        ⟨text, _, hcurrent, hm.componentsOf_eq_ok_iff.2 ⟨hfree text hcurrent, rfl⟩⟩
  · have hnone : s.next? a = none := by
      cases a with
      | undo => exact absurd (.inl rfl) hstep
      | redo => exact absurd (.inr rfl) hstep
      | _ => rfl
    refine ⟨fun _ history hnext ↦ ?_, fun _ ↦ leavesAlone_of_ne_step (fun heq ↦ hstep (.inl heq))
      fun heq ↦ hstep (.inr heq)⟩
    cases hnone.symm.trans hnext

/-! ## After any actions -/

/-- **Whatever is refused leaves the session alone.** Of edits and documents that is so in every
session. Of steps it is so after any actions exactly if there is no clash in the text that the step
comes to; for this the steps that are kept have to be fewer than the largest word, no document type
may have been handed in, and the properties have to have been named properly. There is no clash if
the key of an id behind an empty prefix was never handed in. -/
theorem leavesAlone_run_iff (a : Action) :
    (∀ s : Session, a ≠ .undo → a ≠ .redo → s.LeavesAlone a) ∧
    ∀ {config : Config} {text : String} {s : Session}, openText config text = .ok s →
      config.historyLimit.toNat + 1 < UInt64.size → IsDoctypeFree text →
      ∀ {actions : List Action}, (∀ b ∈ actions, b.IsProper) →
        ((s.run actions).LeavesAlone a ↔ ∀ history, (s.run actions).next? a = some history →
          ∀ text, history.current? = some text → HasNoClash text) ∧
        (HasKeys (· ≠ prefixedIdKey) text → (∀ b ∈ actions, b.AvoidsPrefixedId) →
          (s.run actions).LeavesAlone a) := by
  refine ⟨fun s ↦ leavesAlone_of_ne_step, ?_⟩
  intro config text s hopen hlimit hdoctype actions hactions
  have hiff := (isDrawn_run hopen hlimit hdoctype hactions).leavesAlone_iff a
  refine ⟨hiff, fun hkeys havoids ↦ hiff.2 fun history hnext text htext ↦ ?_⟩
  have hrun := isDrawn_run_of_avoids hopen hlimit hdoctype hactions hkeys havoids
  obtain ⟨-, hentries⟩ := entries_of_next? hrun.history hnext
  obtain ⟨m, hm⟩ := hrun.entries text (hentries ▸ History.mem_entries_of_current? htext)
  exact hasNoClash_of_stands hm

/-- Code that is cut short is refused, and so is a step back from the text that was opened. -/
theorem leavesAlone_of_cut_code :
    ∃ s, openText {} "<svg><rect/></svg>" = .ok s ∧ s.LeavesAlone (.setCode "<svg>") ∧
      (s.run [.setProperty "rect-0" "fill" "red", .undo]).LeavesAlone .undo := by
  have hopen := @openText_eq_ok {} _ _ componentsOf_rect
  refine ⟨_, hopen, (leavesAlone_run_iff _).1 _ (by rintro ⟨⟩) (by rintro ⟨⟩),
    ((leavesAlone_run_iff .undo).2 hopen (by decide) isPlain_rect.1 ?_).2 isPlain_rect.2 ?_⟩
  · intro a ha
    simp only [List.mem_cons, List.not_mem_nil, or_false] at ha
    rcases ha with rfl | rfl
    all_goals refine ⟨by rintro _ ⟨⟩, fun key hkey ↦ ?_⟩; cases hkey
    exact .inr (.inr (by decide))
  · intro a ha
    simp only [List.mem_cons, List.not_mem_nil, or_false] at ha
    rcases ha with rfl | rfl <;> exact ⟨by rintro _ ⟨⟩, by decide⟩

/-- **A step forward that is refused moves the history** when an edit took away the id of an element
that has its id behind an empty prefix: the text that was committed cannot be read. -/
theorem not_leavesAlone_of_prefixed_id :
    ∃ s, openText {} "<svg><rect :id=\"x\"/></svg>" = .ok s ∧
      IsDoctypeFree "<svg><rect :id=\"x\"/></svg>" ∧
      (Action.setProperty "rect-0" "id" "").IsProper ∧
      ¬ (s.run [.setProperty "rect-0" "id" "", .undo]).LeavesAlone .redo := by
  obtain ⟨s, text, components, hopen, hdoctype, hproper, hperform, hne, hrefused⟩ :=
    exists_unreadable_commit
  refine ⟨s, hopen, hdoctype, hproper, ?_⟩
  obtain ⟨_, -, rfl⟩ := exists_of_openText hopen
  have hsound := History.isSound_reset (h := .ofLimit 100) (by decide)
    "<svg><rect :id=\"x\"/></svg>"
  obtain ⟨h, hundo, -⟩ := hsound.exists_undo?_record (by decide)
    (fun heq ↦ hne (Option.some.inj heq).symm)
  have hrun : ∀ t : Session, (t.perform .undo).2 = t.undo.2 := fun _ ↦ rfl
  rw [run, List.foldl_cons, List.foldl_cons, List.foldl_nil, hperform, hrun]
  refine not_leavesAlone_redo (s := Session.record _ _ _) (hsound.record text) hundo
    fun text' hcurrent components' hok ↦ ?_
  cases (hsound.current?_record text).symm.trans hcurrent
  exact hrefused components' hok

end Session

end SvgWorkbench
