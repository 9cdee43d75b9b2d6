import SvgWorkbench.Proofs.Session.Drawn

/-!
# What an action does

An action does one of four things to the text of a session and to its history. It leaves both as
they are, or commits the text that is shown afterwards; so does every edit, and everything that only
selects, points or copies. It opens a document, with which the history starts again. Or it goes one
step back or forward: then the text it comes to is shown if it can be read, and if it cannot, the
history has moved and the text has not.

What holds of the history and the text after any actions follows from this without another look at
the actions.
-/

namespace SvgWorkbench.Session

/-! ## Edits -/

/-- Whether an action keeps what was there as a step to go back to, if it changes the text: it opens
no other document and makes no step itself. -/
def Action.isEdit : Action → Bool
  | .load _ | .undo | .redo => false
  | _ => true

/-- Whether a session shows the same text as another one, with the same components. -/
structure ShowsSame (s t : Session) : Prop where
  /-- The text is the same. -/
  markup : t.markup = s.markup
  /-- The components are the same. -/
  components : t.components = s.components
  /-- The flat list is the same. -/
  flat : t.flat = s.flat

/-- What an edit does. -/
inductive Edited (s t : Session) : Prop where
  /-- The text and the history stay. -/
  | stays (hsame : s.ShowsSame t) (hhistory : t.history = s.history)
  /-- The text that is shown has been committed. -/
  | commits (hflat : t.flat = Component.flatten false t.components)
      (hhistory : t.history = s.history.record t.markup)

variable {s t : Session}

theorem Edited.refl (s : Session) : s.Edited s := .stays ⟨rfl, rfl, rfl⟩ rfl

/-- Selecting is not seen in the text or the history. -/
theorem Edited.withSelection (h : s.Edited t) (selection : Selection) :
    s.Edited { t with selection } := by
  cases h with
  | stays hsame hhistory => exact .stays ⟨hsame.markup, hsame.components, hsame.flat⟩ hhistory
  | commits hflat hhistory => exact .commits hflat hhistory

theorem edited_record (s : Session) (text : String) (components : List Component) :
    s.Edited (s.record text components) := .commits rfl rfl

theorem edited_commit (s : Session) (result : Except EditError String) :
    s.Edited (s.commit result).2 := by
  rcases commit_eq_or s result with ⟨-, heq⟩ | ⟨w, p, -, -, -, heq⟩
  · rw [heq]
    exact .refl s
  · rw [heq]
    exact edited_record s p.text p.components

theorem edited_commitAdding (s : Session) (result : Except EditError String) :
    s.Edited (s.commitAdding result).2 := by
  rcases commitAdding_eq_or s result with heq | ⟨added, -, heq⟩
  · rw [heq]
    exact edited_commit s result
  · rw [heq]
    exact (edited_commit s result).withSelection _

theorem edited_setCode (s : Session) (code : String) : s.Edited (s.setCode code).2 := by
  rw [setCode]
  split
  · exact .stays ⟨rfl, rfl, rfl⟩ rfl
  · split
    · exact .stays ⟨rfl, rfl, rfl⟩ rfl
    · exact edited_record s code _

/-- **An edit leaves text and history as they are**, or commits the text that is shown
afterwards. -/
theorem edited_perform (s : Session) {a : Action} (ha : a.isEdit = true) :
    s.Edited (s.perform a).2 := by
  cases a with
  | load | undo | redo => cases ha
  | setCode code => exact edited_setCode s code
  | setProperty | setPropertyOfSelection | reorder | reorderSelection | removeSelection
  | adjustSelection => exact edited_commit s _
  | duplicate | duplicateSelection => exact edited_commitAdding s _
  | paste =>
    show s.Edited s.paste.2
    rw [paste]
    split
    · exact .refl s
    · exact edited_commitAdding s _
  | copySelection =>
    show s.Edited s.copySelection
    rw [copySelection]
    split
    · exact .refl s
    · exact .stays ⟨rfl, rfl, rfl⟩ rfl
  | select id =>
    show s.Edited (s.select id).2
    rw [select]
    split <;> exact .stays ⟨rfl, rfl, rfl⟩ rfl
  | toggle id =>
    show s.Edited (s.toggle id).2
    rw [toggle]
    split
    · exact .stays ⟨rfl, rfl, rfl⟩ rfl
    · split <;> exact .stays ⟨rfl, rfl, rfl⟩ rfl
  | clearSelection | hover | toggleGrid => exact .stays ⟨rfl, rfl, rfl⟩ rfl

/-! ## Steps back and forward -/

/-- Taking the present text of the history for the document succeeds exactly if it can be read. -/
theorem restore_eq_or (s : Session) :
    (s.restore = (false, s) ∧ ∀ text, s.history.current? = some text →
      ∀ components, Drawing.componentsOf text ≠ .ok components) ∨
    ∃ text components, s.history.current? = some text ∧
      Drawing.componentsOf text = .ok components ∧
      s.restore = (true, s.install text components) := by
  rw [restore]
  split
  · next hcurrent => exact .inl ⟨rfl, fun text htext ↦ by cases hcurrent.symm.trans htext⟩
  next text hcurrent =>
  split
  · next cause hread =>
    refine .inl ⟨rfl, fun text' htext components hok ↦ ?_⟩
    cases hcurrent.symm.trans htext
    cases hread.symm.trans hok
  · next components hread => exact .inr ⟨text, components, hcurrent, hread, rfl⟩

/-- Going back or forward moves the history, whether its text can be read or not. -/
theorem history_restore (s : Session) : s.restore.2.history = s.history := by
  rcases restore_eq_or s with ⟨heq, -⟩ | ⟨text, components, -, -, heq⟩
  · rw [heq]
  · rw [heq]
    rfl

/-- The history that an action moves to, if it makes a step that there is. -/
def next? (s : Session) : Action → Option History
  | .undo => s.history.undo?
  | .redo => s.history.redo?
  | _ => none

/-- What an action does. -/
inductive Step (s : Session) (a : Action) (t : Session) : Prop where
  /-- What an edit does. -/
  | edits (h : s.Edited t)
  /-- The text that is shown is a document that has been opened. -/
  | opens (hflat : t.flat = Component.flatten false t.components)
      (hhistory : t.history = s.history.reset t.markup)
  /-- The history has moved by a step, and its text is shown. -/
  | goes (hstep : s.next? a = some t.history)
      (hflat : t.flat = Component.flatten false t.components)
      (hcurrent : t.history.current? = some t.markup)
  /-- The history has moved by a step, and its text cannot be read. -/
  | fails (hstep : s.next? a = some t.history) (hsame : s.ShowsSame t)
      (hrefused : ∀ text, t.history.current? = some text →
        ∀ components, Drawing.componentsOf text ≠ .ok components)

theorem step_restore {a : Action} {h : History} (hstep : s.next? a = some h) :
    s.Step a ({ s with history := h }.restore).2 := by
  rcases restore_eq_or { s with history := h } with
    ⟨heq, hrefused⟩ | ⟨text, components, hcurrent, -, heq⟩
  · rw [heq]
    exact .fails hstep ⟨rfl, rfl, rfl⟩ hrefused
  · rw [heq]
    exact .goes hstep rfl hcurrent

/-- **Every action does one of these four things.** -/
theorem step_perform (s : Session) (a : Action) : s.Step a (s.perform a).2 := by
  by_cases hedit : a.isEdit = true
  · exact .edits (edited_perform s hedit)
  cases a with
  | load text =>
    simp only [perform]
    split
    · next loaded hload =>
      obtain ⟨components, -, rfl⟩ := exists_of_load hload
      exact .opens rfl rfl
    · exact .edits (.refl s)
  | undo =>
    show s.Step .undo s.undo.2
    rw [undo]
    split
    · exact .edits (.refl s)
    · next h hundo => exact step_restore hundo
  | redo =>
    show s.Step .redo s.redo.2
    rw [redo]
    split
    · exact .edits (.refl s)
    · next h hredo => exact step_restore hredo
  | _ => exact absurd rfl hedit

/-! ## The history of a run -/

variable {a : Action}

theorem isTidy_of_next? (h : s.history.IsTidy) {history : History}
    (hstep : s.next? a = some history) : history.IsTidy := by
  cases a with
  | undo => exact h.undo hstep
  | redo => exact h.redo hstep
  | _ => cases hstep

theorem capacity_of_next? {history : History} (hstep : s.next? a = some history) :
    history.capacity = s.history.capacity := by
  cases a with
  | undo => exact History.capacity_undo hstep
  | redo => exact History.capacity_redo hstep
  | _ => cases hstep

/-- Every action keeps the history tidy. -/
theorem Step.isTidy (hstep : s.Step a t) (h : s.history.IsTidy) : t.history.IsTidy := by
  cases hstep with
  | edits hedited =>
    cases hedited with
    | stays _ hhistory => rwa [hhistory]
    | commits _ hhistory =>
      rw [hhistory]
      exact h.record _
  | opens _ hhistory =>
    rw [hhistory]
    exact .reset h.sound.capacity_pos _
  | goes hstep => exact isTidy_of_next? h hstep
  | fails hstep => exact isTidy_of_next? h hstep

/-- Every action keeps the number of texts that are kept. -/
theorem Step.capacity_eq (hstep : s.Step a t) : t.history.capacity = s.history.capacity := by
  cases hstep with
  | edits hedited =>
    cases hedited with
    | stays _ hhistory => rw [hhistory]
    | commits _ hhistory => rw [hhistory, History.capacity_record]
  | opens _ hhistory => rw [hhistory, History.capacity_reset]
  | goes hstep => exact capacity_of_next? hstep
  | fails hstep => exact capacity_of_next? hstep

/-- After every action the text of the history is shown, unless nothing was done to either, or a
step led to a text that cannot be read. -/
theorem Step.current_or (hstep : s.Step a t) (hsound : s.history.IsSound) :
    t.history.current? = some t.markup ∨
      s.ShowsSame t ∧ (t.history = s.history ∨ s.next? a = some t.history ∧
        ∀ text, t.history.current? = some text →
          ∀ components, Drawing.componentsOf text ≠ .ok components) := by
  cases hstep with
  | edits hedited =>
    cases hedited with
    | stays hsame hhistory => exact .inr ⟨hsame, .inl hhistory⟩
    | commits _ hhistory =>
      rw [hhistory]
      exact .inl (hsound.current?_record _)
  | opens _ hhistory =>
    rw [hhistory]
    exact .inl (History.current?_reset _ _)
  | goes _ _ hcurrent => exact .inl hcurrent
  | fails hstep hsame hrefused => exact .inr ⟨hsame, .inr ⟨hstep, hrefused⟩⟩

end SvgWorkbench.Session
