import SvgWorkbench.Bench.Call
import SvgWorkbench.Proofs.Session.Refusal

/-!
# What work leaves as it is

Work on the bench is made of steps, and each step is known by what it leaves as it is, always or if
it throws. Most steps write on the console and nowhere else. A step that writes elsewhere has to
come after every step that throws.
-/

namespace SvgWorkbench

/-- What a host page has on the bench: all but the time and the console. -/
def Bench.held (b : Bench) : Option Session × Store := (b.session, b.store)

/-- A bench with another line on its console. -/
def Bench.written (b : Bench) (channel : Channel) (text : String) : Bench :=
  { b with console := b.console ++ [⟨channel, text⟩] }

namespace Work

variable {α β τ : Type}

/-! ## Carrying out work -/

/-- What work gives that starts in a state, and the state afterwards. -/
def carryOut (w : Work α) (b : Bench) : Except String α × Bench := w.run.run b

@[simp] theorem carryOut_pure (a : α) (b : Bench) : (pure a : Work α).carryOut b = (.ok a, b) := rfl

@[simp] theorem carryOut_get (b : Bench) : (get : Work Bench).carryOut b = (.ok b, b) := rfl

@[simp] theorem carryOut_write (channel : Channel) (text : String) (b : Bench) :
    (write channel text).carryOut b = (.ok (), b.written channel text) := rfl

theorem carryOut_bind_of_ok {w : Work α} {f : α → Work β} {b b' : Bench} {a : α}
    (h : w.carryOut b = (.ok a, b')) : (w >>= f).carryOut b = (f a).carryOut b' := by
  show ExceptT.bindCont f (w.carryOut b).1 (w.carryOut b).2 = _
  rw [h]
  rfl

theorem carryOut_bind_of_error {w : Work α} {f : α → Work β} {b b' : Bench} {text : String}
    (h : w.carryOut b = (.error text, b')) : (w >>= f).carryOut b = (.error text, b') := by
  show ExceptT.bindCont f (w.carryOut b).1 (w.carryOut b).2 = _
  rw [h]
  rfl

theorem carryOut_finally_write (w : Work α) (channel : Channel) (text : String) (b : Bench) :
    (tryFinally w (write channel text)).carryOut b
      = ((w.carryOut b).1, (w.carryOut b).2.written channel text) := by
  cases h : w.carryOut b with
  | mk result b' =>
    have hw : w b = (result, b') := h
    simp only [carryOut, StateT.run, ExceptT.run, tryFinally, MonadFinally.tryFinally', ExceptT.mk,
      bind, StateT.bind, Functor.map, ExceptT.map, pure, hw]
    cases result <;> rfl

/-- Measured work does what it does without being measured, between two lines. -/
theorem carryOut_timed (label : String) (w : Work α) (b : Bench) :
    (timed label w).carryOut b = ((w.carryOut (b.written .time label)).1,
      (w.carryOut (b.written .time label)).2.written .timeEnd label) := by
  rw [timed, carryOut_bind_of_ok (carryOut_write ..), carryOut_finally_write]

/-! ## Work that leaves something as it is -/

/-- Whether work leaves a part of the state as it is, however it ends. -/
def Preserves (part : Bench → τ) (w : Work α) : Prop := ∀ b, part (w.carryOut b).2 = part b

/-- Whether work that starts in a state leaves a part of it as it is if it throws. -/
def Spares (part : Bench → τ) (w : Work α) (b : Bench) : Prop :=
  ∀ text, (w.carryOut b).1 = .error text → part (w.carryOut b).2 = part b

/-- Whether work that starts in a state does not throw. -/
def Succeeds (w : Work α) (b : Bench) : Prop := ∃ a b', w.carryOut b = (.ok a, b')

section Rules

variable {part : Bench → τ} {w : Work α} {f : α → Work β} {b : Bench}

theorem Preserves.pure (a : α) : Preserves part (Pure.pure a : Work α) := fun _ ↦ rfl

theorem Preserves.get : Preserves part (MonadState.get : Work Bench) := fun _ ↦ rfl

/-- Work ends in a way if it does so after a first step that leaves the part as it is, or at it. -/
theorem Preserves.carryOut_bind {P : Except String β × Bench → Prop} (hw : Preserves part w)
    (herror : ∀ text b', part b' = part b → P (.error text, b'))
    (hok : ∀ a b', w.carryOut b = (.ok a, b') → part b' = part b → P ((f a).carryOut b')) :
    P ((w >>= f).carryOut b) := by
  cases h : w.carryOut b with
  | mk result b' =>
    have hb' : part b' = part b := by rw [← hw b, h]
    cases result with
    | ok a =>
      rw [carryOut_bind_of_ok h]
      exact hok a b' h hb'
    | error text =>
      rw [carryOut_bind_of_error h]
      exact herror text b' hb'

theorem Preserves.bind (hw : Preserves part w) (hf : ∀ a, Preserves part (f a)) :
    Preserves part (w >>= f) := fun b ↦
  hw.carryOut_bind (P := fun r ↦ part r.2 = part b) (fun _ _ hb' ↦ hb')
    fun a b' _ hb' ↦ (hf a b').trans hb'

/-- Nothing is left behind if the first step never leaves anything behind, and the others do not if
they throw. -/
theorem Preserves.spares_bind (hw : Preserves part w)
    (hf : ∀ a b', w.carryOut b = (.ok a, b') → Spares part (f a) b') : Spares part (w >>= f) b := by
  refine hw.carryOut_bind (P := fun r ↦ ∀ text, r.1 = .error text → part r.2 = part b)
    (fun _ _ hb' _ _ ↦ hb') fun a b' h hb' text htext ↦ ?_
  rw [← hb']
  exact hf a b' h text htext

theorem Succeeds.ne_error (hw : Succeeds w b) (text : String) :
    (w.carryOut b).1 ≠ .error text := by
  obtain ⟨a, b', h⟩ := hw
  rw [h]
  exact nofun

/-- Nothing is left behind if the first step leaves nothing behind and the others do not throw. -/
theorem Spares.bind_of_succeeds (hw : Spares part w b)
    (hf : ∀ a b', w.carryOut b = (.ok a, b') → Succeeds (f a) b') : Spares part (w >>= f) b := by
  cases h : w.carryOut b with
  | mk result b' =>
    cases result with
    | ok a =>
      intro text htext
      rw [carryOut_bind_of_ok h] at htext
      exact absurd htext ((hf a b' h).ne_error text)
    | error text =>
      intro text' _
      rw [carryOut_bind_of_error h]
      simpa [h] using hw text

theorem Preserves.timed (hw : Preserves part w)
    (hpart : ∀ b channel text, part (Bench.written b channel text) = part b) (label : String) :
    Preserves part (Work.timed label w) := by
  intro b
  rw [carryOut_timed, hpart, hw, hpart]

theorem Spares.timed (hw : ∀ b, Spares part w b)
    (hpart : ∀ b channel text, part (Bench.written b channel text) = part b) (label : String) :
    Spares part (Work.timed label w) b := by
  intro text htext
  rw [carryOut_timed] at htext ⊢
  rw [hpart, hw _ _ htext, hpart]

end Rules

/-! ## Steps that write on the console only -/

theorem Preserves.store {w : Work α} (hw : Preserves Bench.held w) : Preserves Bench.store w :=
  fun b ↦ congrArg Prod.snd (hw b)

theorem preserves_log {text : String} : Preserves Bench.held (log text) := fun _ ↦ rfl

theorem preserves_info {text : String} : Preserves Bench.held (info text) := fun _ ↦ rfl

theorem preserves_warn {text : String} : Preserves Bench.held (warn text) := fun _ ↦ rfl

theorem preserves_fail {text : String} : Preserves Bench.held (fail text : Work α) := fun _ ↦ rfl

theorem preserves_orFail {ε : Type} {call : String} {message : ε → String} {result : Except ε α} :
    Preserves Bench.held (orFail call message result) := by
  cases result with
  | ok value => exact .pure value
  | error e => exact preserves_fail

theorem preserves_decoded {what : String} {argument : Option α} :
    Preserves Bench.held (decoded what argument) := by
  cases argument with
  | some value => exact .pure value
  | none => exact preserves_fail

theorem preserves_encoded {what : String} {saved : Saved} :
    Preserves Bench.held (encoded what saved) := by
  rw [encoded]
  split
  · exact .pure saved
  · exact preserves_fail

theorem preserves_openSession {call : String} : Preserves Bench.held (openSession call) := by
  refine Preserves.get.bind fun b ↦ ?_
  cases b.session with
  | some s => exact .pure s
  | none => exact preserves_fail

theorem Preserves.mapM {f : α → Work β} (hf : ∀ a, Preserves Bench.held (f a)) (as : List α) :
    Preserves Bench.held (as.mapM f) := by
  induction as with
  | nil => exact .pure []
  | cons a as ih =>
    rw [List.mapM_cons]
    exact (hf a).bind fun _ ↦ ih.bind fun _ ↦ .pure _

/-! ## What a step gives -/

theorem carryOut_openSession_of_some {b : Bench} {s : Session} (h : b.session = some s)
    (call : String) : (openSession call).carryOut b = (.ok s, b) := by
  rw [openSession, carryOut_bind_of_ok (carryOut_get b), h]
  rfl

theorem carryOut_openSession_of_none {b : Bench} (h : b.session = none) (call : String) :
    ∃ text b', (openSession call).carryOut b = (.error text, b') ∧ b'.held = b.held := by
  rw [openSession, carryOut_bind_of_ok (carryOut_get b), h]
  exact ⟨_, _, rfl, rfl⟩

theorem carryOut_orFail_ok {ε : Type} (call : String) (message : ε → String) (a : α) (b : Bench) :
    (orFail call message (.ok a)).carryOut b = (.ok a, b) := rfl

theorem eq_ok_of_carryOut_orFail {ε : Type} {call : String} {message : ε → String}
    {result : Except ε α} {b b' : Bench} {a : α}
    (h : (orFail call message result).carryOut b = (.ok a, b')) : result = .ok a ∧ b' = b := by
  cases result with
  | ok value => cases h; exact ⟨rfl, rfl⟩
  | error e => cases h

theorem carryOut_encoded_of_le {saved : Saved} (h : saved.id ≤ largestNumber) (what : String)
    (b : Bench) : (encoded what saved).carryOut b = (.ok saved, b) := by
  rw [encoded, if_pos h, carryOut_pure]

end Work

end SvgWorkbench
