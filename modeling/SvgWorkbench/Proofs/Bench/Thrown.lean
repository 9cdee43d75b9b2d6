import SvgWorkbench.Proofs.Bench.Work
import SvgWorkbench.Proofs.Store
import SvgWorkbench.Proofs.Transcript

/-!
# What is thrown leaves no trace

A call that throws leaves the open session and the saved documents exactly as they were. Calls on
markup touch neither. A call on the session throws if none is open, and otherwise only if a document
cannot be opened, which leaves the session alone. A session is opened, and a document saved, after
all that can be refused has been looked at.

One thing comes after the change: a saved document is handed over, and the host page has no numbers
beyond the largest one. A call gives out one number at most, so every document can be handed over
until there have been too many calls.
-/

namespace SvgWorkbench

open Work

namespace Call

variable {b : Bench}

/-- Work that leaves the documents as they are, and the session too if it throws. -/
structure IsSafe {α : Type} (w : Work α) : Prop where
  /-- The documents stay. -/
  store : Preserves Bench.store w
  /-- The session stays if the work throws. -/
  spares : ∀ b, Spares Bench.held w b

theorem preserves_componentsFor {call markup : String} :
    Preserves Bench.held (componentsFor call markup) := preserves_orFail

theorem preserves_idsOf {ids : Argument} : Preserves Bench.held (idsOf ids) := preserves_decoded

/-! ## Actions -/

theorem carryOut_act_of_some {s : Session} (h : b.session = some s) (call : String)
    (action : Session.Action) : (act call action).carryOut b
      = (.ok (s.perform action).1, { b with session := some (s.perform action).2 }) := by
  rw [act, carryOut_bind_of_ok (carryOut_openSession_of_some h call)]
  rfl

/-- An action throws only if no session is open. -/
theorem isSafe_act (call : String) (action : Session.Action) : IsSafe (act call action) where
  store := by
    refine preserves_openSession.store.bind fun s b ↦ ?_
    rfl
  spares b := by
    intro text htext
    cases hsession : b.session with
    | some s =>
      rw [carryOut_act_of_some hsession] at htext
      cases htext
    | none =>
      obtain ⟨text, b', hopen, hheld⟩ := carryOut_openSession_of_none hsession call
      rw [act, carryOut_bind_of_error hopen, hheld]

/-- An action that is done is done in the open session. -/
theorem eq_of_carryOut_act {call : String} {action : Session.Action} {b' : Bench}
    {reply : Session.Reply} (h : (act call action).carryOut b = (.ok reply, b')) :
    ∃ s, b.session = some s ∧ reply = (s.perform action).1 ∧
      b' = { b with session := some (s.perform action).2 } := by
  cases hsession : b.session with
  | some s =>
    rw [carryOut_act_of_some hsession] at h
    cases h
    exact ⟨s, rfl, rfl, rfl⟩
  | none =>
    obtain ⟨text, b', hopen, -⟩ := carryOut_openSession_of_none hsession call
    rw [act, carryOut_bind_of_error hopen] at h
    cases h

theorem preserves_valueOf {call : String} {reply : Session.Reply} :
    Preserves Bench.held (valueOf call reply) := by
  cases reply with
  | refused cause => exact preserves_fail
  | outcome outcome =>
    cases outcome with
    | rejected cause => exact preserves_log.bind fun _ ↦ .pure _
    | committed | unchanged => exact .pure _
  | done | flag _ | count _ => exact .pure _

/-- Only a reply that a document is refused is thrown. -/
theorem succeeds_valueOf {reply : Session.Reply} (h : ∀ cause, reply ≠ .refused cause)
    (call : String) (b : Bench) : Succeeds (valueOf call reply) b := by
  cases reply with
  | refused cause => exact absurd rfl (h cause)
  | outcome outcome =>
    cases outcome with
    | rejected cause => exact ⟨_, _, rfl⟩
    | committed | unchanged => exact ⟨_, _, rfl⟩
  | done | flag _ | count _ => exact ⟨_, _, rfl⟩

/-- A reply that is thrown comes from a session that has been left alone. -/
theorem isSafe_inSession (call : String) (action : Session.Action) :
    IsSafe (inSession call action) where
  store := (isSafe_act call action).store.bind fun _ ↦ preserves_valueOf.store
  spares b := by
    cases hsession : b.session with
    | none =>
      intro text _
      obtain ⟨text, b', hopen, hheld⟩ := carryOut_openSession_of_none hsession call
      rw [inSession, act, carryOut_bind_of_error (carryOut_bind_of_error hopen), hheld]
    | some s =>
      intro text htext
      have hact := carryOut_act_of_some hsession call action
      rw [inSession, carryOut_bind_of_ok hact] at htext ⊢
      rw [preserves_valueOf]
      by_cases hrefused : ∃ cause, (s.perform action).1 = .refused cause
      · obtain ⟨cause, hrefused⟩ := hrefused
        rw [Session.perform_of_refused hrefused, ← hsession]
      · exact absurd htext ((succeeds_valueOf (not_exists.1 hrefused) call _).ne_error text)

/-- After an action a session is open. -/
theorem exists_session_of_carryOut_inSession {call : String} {action : Session.Action} {b' : Bench}
    {value : Value} (h : (inSession call action).carryOut b = (.ok value, b')) :
    ∃ s, b'.session = some s := by
  cases hact : (act call action).carryOut b with
  | mk result b'' =>
    cases result with
    | error text =>
      rw [inSession, carryOut_bind_of_error hact] at h
      cases h
    | ok reply =>
      obtain ⟨s, -, -, rfl⟩ := eq_of_carryOut_act hact
      rw [inSession, carryOut_bind_of_ok hact] at h
      have hpreserves : Preserves Bench.held (valueOf call reply) := preserves_valueOf
      have hheld := hpreserves { b with session := some (s.perform action).2 }
      rw [h] at hheld
      exact ⟨_, congrArg Prod.fst hheld⟩

theorem isSafe_sessionLoad (markup : String) : IsSafe (sessionLoad markup).work where
  store := (isSafe_inSession _ _).store.bind fun _ ↦
    preserves_openSession.store.bind fun _ ↦ .pure _
  spares b := by
    refine Spares.bind_of_succeeds ((isSafe_inSession _ _).spares b) fun value b' h ↦ ?_
    obtain ⟨s, hs⟩ := exists_session_of_carryOut_inSession h
    exact ⟨.snapshot s.snapshot, b', carryOut_bind_of_ok (carryOut_openSession_of_some hs _)⟩

/-- Typed code that is not taken is a reply, so nothing is thrown once a session is open. -/
theorem isSafe_sessionSetCode (code : String) : IsSafe (sessionSetCode code).work where
  store := ((isSafe_act _ _).store.timed (fun _ _ _ ↦ rfl) _).bind fun _ ↦ preserves_valueOf.store
  spares b := by
    refine Spares.bind_of_succeeds (Spares.timed (isSafe_act _ _).spares (fun _ _ _ ↦ rfl) _)
      fun reply b' h ↦ ?_
    rw [carryOut_timed] at h
    obtain ⟨hreply, -⟩ := Prod.mk.inj h
    obtain ⟨s, -, rfl, -⟩ := eq_of_carryOut_act (Prod.ext hreply rfl)
    have hne : ∀ cause, (s.perform (.setCode code)).1 ≠ .refused cause := fun _ ↦ nofun
    exact succeeds_valueOf hne _ _

theorem isSafe_createSession (config : Argument) : IsSafe (createSession config).work where
  store := by
    refine preserves_decoded.store.bind fun config ↦ preserves_orFail.store.bind fun config ↦ ?_
    refine preserves_orFail.store.bind fun session b ↦ ?_
    rfl
  spares b := by
    refine preserves_decoded.spares_bind fun config b' _ ↦ ?_
    refine preserves_orFail.spares_bind fun config b' _ ↦ ?_
    refine preserves_orFail.spares_bind fun session b' _ text htext ↦ ?_
    cases htext

/-! ## Documents -/

/-- How a call may end that started in a state. -/
inductive Step (b : Bench) (r : Except String Value × Bench) : Prop where
  /-- The documents are as they were, and so is the session if the call throws. -/
  | kept (hstore : r.2.store = b.store) (hheld : ∀ text, r.1 = .error text → r.2.held = b.held)
  /-- A document has been saved, and the call throws only if its number is too large. -/
  | saved (change : Store.Call) (saved : Saved) (hstore : r.2.store = b.store.after change)
    (hsaved : saved ∈ r.2.store.documents)
    (hok : saved.id ≤ largestNumber → ∃ value, r.1 = .ok value)

theorem IsSafe.step {w : Work Value} (hw : IsSafe w) : Step b (w.carryOut b) :=
  .kept (hw.store b) (hw.spares b)

theorem Step.of_held {r : Except String Value × Bench} (h : r.2.held = b.held) : Step b r :=
  .kept (congrArg Prod.snd h) fun _ _ ↦ h

theorem Step.of_preserves {w : Work Value} (hw : Preserves Bench.held w) : Step b (w.carryOut b) :=
  .of_held (hw b)

theorem carryOut_keep (result : Saved × Store) (b : Bench) :
    (keep result).carryOut b = (.ok result.1, { b with store := result.2 }) := rfl

/-- A change of the documents ends well if nothing is thrown once it has been kept, but for a number
that is too large. -/
theorem step_keep {b' : Bench} (hheld : b'.held = b.held) {call : String}
    {result : Except StoreError (Saved × Store)} {f : Saved → Work Value} (change : Store.Call)
    (hresult : ∀ made, result = .ok made →
      made.2 = b.store.after change ∧ made.1 ∈ made.2.documents)
    (hstore : ∀ saved, Preserves Bench.store (f saved))
    (hok : ∀ saved b, saved.id ≤ largestNumber → Succeeds (f saved) b) :
    Step b ((orFail call StoreError.message result >>= (keep · >>= f)).carryOut b') := by
  refine preserves_orFail.carryOut_bind (fun _ _ h ↦ .of_held (h.trans hheld)) fun made b'' h _ ↦ ?_
  obtain ⟨hmade, rfl⟩ := eq_ok_of_carryOut_orFail h
  obtain ⟨hafter, hmem⟩ := hresult made hmade
  rw [carryOut_bind_of_ok (carryOut_keep made b'')]
  have hstore := hstore made.1 { b'' with store := made.2 }
  refine .saved change made.1 ?_ ?_ fun hsaved ↦ ?_
  · rw [hstore, ← hafter]
  · rw [hstore]
    exact hmem
  · obtain ⟨value, b', hvalue⟩ := hok made.1 { b'' with store := made.2 } hsaved
    exact ⟨value, congrArg Prod.fst hvalue⟩

theorem step_createDocument (document : Argument) (b : Bench) :
    Step b ((createDocument document).work.carryOut b) := by
  refine preserves_decoded.carryOut_bind (fun _ _ h ↦ .of_held h) fun given b₁ _ hb₁ ↦ ?_
  obtain ⟨name, content⟩ := given
  refine Preserves.get.carryOut_bind (fun _ _ h ↦ .of_held (h.trans hb₁)) fun bench b₂ h₂ _ ↦ ?_
  cases h₂
  have hstore : b₁.store = b.store := congrArg Prod.snd hb₁
  refine step_keep hb₁ (.create b₁.clock name content) (fun made hmade ↦ ?_) (fun saved ↦ ?_)
    fun saved b' hsaved ↦ ?_
  · rw [hstore] at hmade
    obtain ⟨doc, s'⟩ := made
    refine ⟨by rw [Store.after, hmade], ?_⟩
    obtain ⟨-, -, -, rfl⟩ := Store.create_eq_ok_iff.1 hmade
    exact List.mem_append_right _ List.mem_cons_self
  · exact (preserves_info.bind fun _ ↦ preserves_encoded.bind fun _ ↦ .pure _).store
  · exact ⟨.document saved, _, carryOut_bind_of_ok (carryOut_encoded_of_le hsaved _ _)⟩

theorem step_updateDocument (id : Nat) (content : String) (b : Bench) :
    Step b ((updateDocument id content).work.carryOut b) := by
  refine step_keep rfl (.update b.clock id content) (fun made hmade ↦ ?_) (fun saved ↦ ?_)
    fun saved b' hsaved ↦ ?_
  · obtain ⟨doc, s'⟩ := made
    refine ⟨by rw [Store.after, hmade], ?_⟩
    obtain ⟨-, old, hget, rfl, rfl⟩ := Store.update_eq_ok_iff.1 hmade
    obtain ⟨hmem, hid⟩ := Store.mem_of_get hget
    exact List.mem_map.2 ⟨old, hmem, if_pos hid⟩
  · exact (preserves_encoded.bind fun _ ↦ .pure _).store
  · exact ⟨.document saved, _, carryOut_bind_of_ok (carryOut_encoded_of_le hsaved _ _)⟩

/-- Every call ends in one of these ways. -/
theorem step_work (call : Call) (b : Bench) : Step b (call.work.carryOut b) := by
  cases call with
  | main => exact .of_preserves <| preserves_warn.bind fun _ ↦ .pure _
  | validateSvg markup =>
    refine .of_preserves ?_
    rw [work]
    split
    · exact .pure _
    · exact preserves_log.bind fun _ ↦ .pure _
  | parseSvg markup =>
    exact .of_preserves <| ((Preserves.pure _).timed (fun _ _ _ ↦ rfl) _).bind fun _ ↦
      preserves_orFail.bind fun _ ↦ preserves_log.bind fun _ ↦ .pure _
  | serializeSvg markup =>
    exact .of_preserves <| preserves_orFail.bind fun _ ↦ .pure _
  | flattenSvg markup withAttributes =>
    exact .of_preserves <| preserves_componentsFor.bind fun _ ↦ .pure _
  | findComponent markup id =>
    refine .of_preserves <| preserves_componentsFor.bind fun components ↦ ?_
    dsimp only
    split
    · exact preserves_log.bind fun _ ↦ .pure _
    · exact .pure _
  | reorderElements markup ids direction =>
    exact .of_preserves <| preserves_idsOf.bind fun _ ↦
      preserves_log.bind fun _ ↦ .pure _
  | commonProperties markup ids =>
    exact .of_preserves <| preserves_idsOf.bind fun _ ↦
      preserves_componentsFor.bind fun _ ↦ .pure _
  | batchUpdate markup ids key op amount =>
    exact .of_preserves <| preserves_idsOf.bind fun _ ↦
      preserves_info.bind fun _ ↦ .pure _
  | highlightSvg markup selected hovered style =>
    exact .of_preserves <| preserves_idsOf.bind fun _ ↦
      preserves_decoded.bind fun _ ↦ .pure _
  | sessionCommonProperties =>
    exact .of_preserves <| preserves_openSession.bind fun _ ↦ .pure _
  | sessionPreview =>
    exact .of_preserves <| preserves_openSession.bind fun _ ↦ .pure _
  | sessionSnapshot =>
    exact .of_preserves <| preserves_openSession.bind fun _ ↦ .pure _
  | listDocuments =>
    exact .of_preserves <| Preserves.get.bind fun b ↦
      (Preserves.mapM (fun _ ↦ preserves_encoded) b.store.list).bind fun _ ↦ .pure _
  | getDocument id =>
    exact .of_preserves <| Preserves.get.bind fun b ↦
      preserves_orFail.bind fun _ ↦ preserves_encoded.bind fun _ ↦ .pure _
  | updateProperty | duplicateElement | reorderElement | removeElement =>
    exact .of_preserves <| preserves_log.bind fun _ ↦ .pure _
  | sessionUpdateProperty id key value =>
    cases id <;> exact (isSafe_inSession _ _).step
  | sessionSelect | sessionToggle | sessionClearSelection | sessionHover | sessionDuplicate
  | sessionReorder | sessionBatchUpdate | sessionCopy | sessionPaste | sessionRemove | sessionUndo
  | sessionRedo | sessionToggleGrid => exact (isSafe_inSession _ _).step
  | createSession config => exact (isSafe_createSession config).step
  | sessionLoad markup => exact (isSafe_sessionLoad markup).step
  | sessionSetCode code => exact (isSafe_sessionSetCode code).step
  | createDocument document => exact step_createDocument document b
  | updateDocument id content => exact step_updateDocument id content b

end Call

/-! ## Runs -/

namespace Bench

variable {b : Bench} {n : Nat}

theorem step_make (b : Bench) (call : Call) :
    Call.Step { b with clock := b.clock + 1, console := [] } (b.make call) := Call.step_work call _

theorem isNumberedTo_make (h : b.store.IsNumberedTo n) (call : Call) :
    (b.make call).2.store.IsNumberedTo (n + 1) := by
  rcases b.step_make call with ⟨hstore, -⟩ | ⟨change, saved, hstore, -, -⟩
  · rw [hstore]
    exact h.mono (Nat.le_succ n)
  · rw [hstore]
    exact h.after change

theorem isNumberedTo_transcript (h : b.store.IsNumberedTo n) (calls : List Call) :
    (transcript make b calls).2.store.IsNumberedTo (n + calls.length) := by
  induction calls generalizing b n with
  | nil => exact h
  | cons call calls ih =>
    rw [transcript_cons, List.length_cons, Nat.add_comm calls.length, ← Nat.add_assoc]
    exact ih (isNumberedTo_make h call)

/-- **What is thrown leaves no trace**, neither in the session nor in the documents, whatever calls
were made before. With the one that throws they have to be fewer than the numbers, or a document may
be saved that cannot be handed over. -/
theorem held_of_thrown {calls before after : List Call} {call : Call} {text : String} {b : Bench}
    (hcalls : calls.length < 2 ^ 53) (hsplit : calls = before ++ call :: after)
    (hb : b = (transcript make {} before).2) (hthrown : (b.make call).1 = .error text) :
    (b.make call).2.session = b.session ∧ (b.make call).2.store = b.store := by
  have hstart : ({} : Bench).store.IsNumberedTo 0 := ⟨List.forall_mem_nil _, Nat.le_refl 1⟩
  have hnumbered : (b.make call).2.store.IsNumberedTo (0 + before.length + 1) := by
    rw [hb]
    exact isNumberedTo_make (isNumberedTo_transcript hstart before) call
  rcases b.step_make call with ⟨-, hheld⟩ | ⟨change, saved, -, hsaved, hok⟩
  · exact Prod.mk.inj (hheld text hthrown)
  · rw [hsplit, List.length_append, List.length_cons] at hcalls
    have hle : saved.id ≤ largestNumber := by
      refine (hnumbered.ids saved hsaved).trans ?_
      rw [largestNumber]
      omega
    obtain ⟨value, hvalue⟩ := hok hle
    cases hvalue.symm.trans hthrown

/-- A document that cannot be opened is thrown, whether a session is open or not. -/
theorem exists_thrown_of_load {markup : String} {cause : ParseError}
    (hrefused : Drawing.componentsOf markup = .error cause) (b : Bench) :
    ∃ text, (b.make (.sessionLoad markup)).1 = .error text := by
  have hthrown : ∀ b : Bench, ∃ text b',
      (Call.inSession "sessionLoad" (.load markup)).carryOut b = (.error text, b') := by
    intro b
    cases hsession : b.session with
    | none =>
      obtain ⟨text, b', hopen, -⟩ := carryOut_openSession_of_none hsession "sessionLoad"
      exact ⟨text, b', carryOut_bind_of_error (carryOut_bind_of_error hopen)⟩
    | some s =>
      have hperform : s.perform (.load markup) = (.refused cause, s) := by
        rw [Session.perform, Session.load, hrefused]
        rfl
      rw [Call.inSession, carryOut_bind_of_ok (Call.carryOut_act_of_some hsession _ _), hperform]
      exact ⟨_, _, rfl⟩
  obtain ⟨text, b', h⟩ := hthrown { b with clock := b.clock + 1, console := [] }
  exact ⟨text, congrArg Prod.fst (carryOut_bind_of_error h)⟩

/-- A document is saved, a session is asked for, and then a document that is cut short is thrown. -/
theorem held_of_cut_load : ∃ b text,
    b = (transcript make {} [.createDocument (some (.object
      [(some "name", .string "a"), (some "content", .string "<svg/>")])), .createSession none]).2 ∧
    (b.make (.sessionLoad "<svg>")).1 = .error text ∧
    (b.make (.sessionLoad "<svg>")).2.session = b.session ∧
    (b.make (.sessionLoad "<svg>")).2.store = b.store := by
  obtain ⟨cause, hrefused⟩ : ∃ cause, Drawing.componentsOf "<svg>" = .error cause := ⟨_, by cbv⟩
  generalize hcalls : ([.createDocument (some (.object
    [(some "name", .string "a"), (some "content", .string "<svg/>")])), .createSession none]
      : List Call) = calls
  have hlength : (calls ++ [Call.sessionLoad "<svg>"]).length < 2 ^ 53 := by
    rw [← hcalls]
    decide
  obtain ⟨text, hthrown⟩ := exists_thrown_of_load hrefused (transcript make {} calls).2
  exact ⟨_, text, rfl, hthrown, held_of_thrown hlength rfl rfl hthrown⟩

/-- A document that is accepted is saved under the next number, and thrown if that is too large. -/
theorem make_createDocument_of_accepted {document : Argument} {name content : String}
    (hdocument : Argument.newDocument? document = some (name, content))
    (hname : (Text.trim name).isEmpty = false) (hcheck : Gate.check content = .ok ()) (b : Bench) :
    (b.make (.createDocument document)).2.store
        = ⟨b.store.documents ++ [⟨b.store.next, Text.trim name, content, b.clock + 1⟩],
          b.store.next + 1⟩ ∧
      (largestNumber < b.store.next →
        ∃ text, (b.make (.createDocument document)).1 = .error text) := by
  have hcreate : b.store.create (b.clock + 1) name content = .ok (_, _) :=
    Store.create_eq_ok_iff.2 ⟨hname, hcheck, rfl, rfl⟩
  let start : Bench := { b with clock := b.clock + 1, console := [] }
  have hdecoded : (decoded "Invalid document" (some (name, content))).carryOut start
      = (.ok (name, content), start) := rfl
  have hmake : b.make (.createDocument document)
      = (Call.createDocument document).work.carryOut start := rfl
  rw [hmake, Call.work, hdocument, carryOut_bind_of_ok hdecoded]
  dsimp only
  rw [carryOut_bind_of_ok (carryOut_get start), hcreate,
    carryOut_bind_of_ok (carryOut_orFail_ok ..), carryOut_bind_of_ok (Call.carryOut_keep ..)]
  refine ⟨?_, fun hlarge ↦ ?_⟩
  · exact (preserves_info.bind fun _ ↦ preserves_encoded.bind fun _ ↦ .pure _).store _
  · rw [encoded, if_neg (Nat.not_le.2 hlarge)]
    exact ⟨_, rfl⟩

/-- Documents that are accepted one after the other take one number each. -/
theorem next_transcript_replicate {document : Argument} {name content : String}
    (hdocument : Argument.newDocument? document = some (name, content))
    (hname : (Text.trim name).isEmpty = false) (hcheck : Gate.check content = .ok ()) (b : Bench)
    (n : Nat) : (transcript make b (List.replicate n (.createDocument document))).2.store.next
      = b.store.next + n := by
  induction n generalizing b with
  | zero => rfl
  | succ n ih =>
    rw [List.replicate_succ, transcript_cons]
    show (transcript make _ (List.replicate n (.createDocument document))).2.store.next = _
    rw [ih, (make_createDocument_of_accepted hdocument hname hcheck b).1, Nat.add_assoc,
      Nat.add_comm 1]

/-- **The bound is exact**: when as many documents have been saved as the host page has numbers, the
next one is saved and thrown. -/
theorem saved_of_thrown {document : Argument} {name content : String}
    (hdocument : Argument.newDocument? document = some (name, content))
    (hname : (Text.trim name).isEmpty = false) (hcheck : Gate.check content = .ok ()) {n : Nat}
    (hn : 2 ^ 53 ≤ n + 1) {b : Bench}
    (hb : b = (transcript make {} (List.replicate n (.createDocument document))).2) :
    (∃ text, (b.make (.createDocument document)).1 = .error text) ∧
      (b.make (.createDocument document)).2.store ≠ b.store := by
  have hnext : b.store.next = 1 + n := by
    rw [hb]
    exact next_transcript_replicate hdocument hname hcheck {} n
  obtain ⟨hstore, hthrown⟩ := make_createDocument_of_accepted hdocument hname hcheck b
  refine ⟨hthrown ?_, fun hsame ↦ ?_⟩
  · rw [hnext, largestNumber]
    omega
  · rw [hstore] at hsame
    exact Nat.succ_ne_self _ (congrArg Store.next hsame)

end Bench

end SvgWorkbench
