import Mathlib.Data.List.Pairwise
import SvgWorkbench.Proofs.Store
import SvgWorkbench.Proofs.Transcript

/-!
# What a store keeps

The writes that a store has accepted are all there is to know about it. The log holds them in their
order. A document is found under the number of the write that created it, with the name given there
and the content of the last write of that number; the list holds every document once, the one
written last in front. A request that fails is not in the log and leaves no trace.

The number of the next document is one more than the number of documents that were created, so in
fewer requests than there are words no number is larger than a word.
-/

namespace SvgWorkbench.Store

/-! ## Requests -/

/-- What a store can be asked for. -/
inductive Request where
  /-- A new document under a name. -/
  | create (name content : String)
  /-- Other content for a document. -/
  | update (id : Nat) (content : String)
  /-- A document. -/
  | get (id : Nat)
  /-- All documents. -/
  | list
  deriving DecidableEq, Repr

/-- What a store answers. -/
inductive Answer where
  /-- A document. -/
  | document (doc : Saved)
  /-- All documents. -/
  | documents (docs : List Saved)
  /-- The request fails. -/
  | failed (cause : StoreError)
  deriving DecidableEq, Repr

/-- Whether a request creates a document. -/
def Request.isCreate : Request → Bool
  | .create .. => true
  | _ => false

/-- The answer to a request that is made at some time, and the store afterwards. -/
def answer (s : Store) : Nat × Request → Answer × Store
  | (now, .create name content) =>
    match s.create now name content with
    | .ok (doc, s') => (.document doc, s')
    | .error cause => (.failed cause, s)
  | (now, .update id content) =>
    match s.update now id content with
    | .ok (doc, s') => (.document doc, s')
    | .error cause => (.failed cause, s)
  | (_, .get id) =>
    match s.get id with
    | .ok doc => (.document doc, s)
    | .error cause => (.failed cause, s)
  | (_, .list) => (.documents s.list, s)

/-- A request that fails changes nothing. -/
theorem snd_answer_of_failed {s : Store} {request : Nat × Request} {cause : StoreError}
    (h : (s.answer request).1 = .failed cause) : (s.answer request).2 = s := by
  obtain ⟨now, request⟩ := request
  cases request with
  | create name content =>
    rw [answer] at h ⊢
    cases hcreate : s.create now name content with
    | ok made => rw [hcreate] at h; cases h
    | error cause => rfl
  | update id content =>
    rw [answer] at h ⊢
    cases hupdate : s.update now id content with
    | ok made => rw [hupdate] at h; cases h
    | error cause => rfl
  | get id =>
    rw [answer]
    cases s.get id <;> rfl
  | list => rfl

/-- A document is created if its name is not blank and the check lets its content through. -/
theorem exists_answer_create_iff {s : Store} {now : Nat} {name content : String} :
    (∃ doc, (s.answer (now, .create name content)).1 = .document doc) ↔
      (Text.trim name).isEmpty = false ∧ Gate.check content = .ok () := by
  rw [answer]
  constructor
  · rintro ⟨doc, h⟩
    cases hcreate : s.create now name content with
    | ok made =>
      obtain ⟨hname, hcheck, -, -⟩ := create_eq_ok_iff.1 hcreate
      exact ⟨hname, hcheck⟩
    | error cause => rw [hcreate] at h; cases h
  · rintro ⟨hname, hcheck⟩
    rw [create_eq_ok_iff.2 ⟨hname, hcheck, rfl, rfl⟩]
    exact ⟨_, rfl⟩

/-- A document is updated if the check lets the content through and the document is there. -/
theorem exists_answer_update_iff {s : Store} {now id : Nat} {content : String} :
    (∃ doc, (s.answer (now, .update id content)).1 = .document doc) ↔
      Gate.check content = .ok () ∧ ∃ doc, s.get id = .ok doc := by
  rw [answer]
  constructor
  · rintro ⟨doc, h⟩
    cases hupdate : s.update now id content with
    | ok made =>
      obtain ⟨hcheck, old, hold, -, -⟩ := update_eq_ok_iff.1 hupdate
      exact ⟨hcheck, old, hold⟩
    | error cause => rw [hupdate] at h; cases h
  · rintro ⟨hcheck, old, hold⟩
    rw [update_eq_ok_iff.2 ⟨hcheck, old, hold, rfl, rfl⟩]
    exact ⟨_, rfl⟩

/-! ## The log -/

/-- A write that was accepted. -/
structure Write where
  /-- The number of the document. -/
  id : Nat
  /-- The name, if the document was created by this write. -/
  name : Option String
  /-- The content. -/
  content : String
  /-- When it was written. -/
  time : Nat
  deriving DecidableEq, Repr

/-- The write of a request, if it is one and is accepted. -/
def Write.of? : (Nat × Request) × Answer → Option Write
  | ((now, .create name content), .document doc) => some ⟨doc.id, some name, content, now⟩
  | ((now, .update id content), .document _) => some ⟨id, none, content, now⟩
  | _ => none

/-- The accepted writes among some requests that were answered. -/
def written (requests : List (Nat × Request)) (answers : List Answer) : List Write :=
  (requests.zip answers).filterMap Write.of?

/-- The write that created the document of a number. -/
def creation? (log : List Write) (id : Nat) : Option Write :=
  log.find? fun w ↦ w.id == id && w.name.isSome

/-- The last write of the document of a number. -/
def lastWrite? (log : List Write) (id : Nat) : Option Write := log.reverse.find? (·.id == id)

/-- The document of a number as a log has it: under the name it was created with, with the content
of its last write. -/
def found (log : List Write) (id : Nat) : Except StoreError Saved :=
  match creation? log id, lastWrite? log id with
  | some created, some last =>
    .ok ⟨id, Text.trim (created.name.getD ""), last.content, last.time⟩
  | _, _ => .error (.notFound id)

/-- The documents that can be found are the ones that were created. -/
theorem exists_found_iff {log : List Write} {id : Nat} :
    (∃ doc, found log id = .ok doc) ↔ ∃ w ∈ log, w.id = id ∧ w.name.isSome = true := by
  constructor
  · rintro ⟨doc, h⟩
    rw [found] at h
    split at h
    · next created last hcreated hlast =>
      exact ⟨created, List.mem_of_find?_eq_some hcreated, by simpa using List.find?_some hcreated⟩
    · cases h
  · rintro ⟨w, hw, hid, hname⟩
    have hcreated : (creation? log id).isSome = true :=
      List.find?_isSome.2 ⟨w, hw, by rw [hname, Bool.and_true, beq_iff_eq, hid]⟩
    have hlast : (lastWrite? log id).isSome = true :=
      List.find?_isSome.2 ⟨w, List.mem_reverse.2 hw, by rw [beq_iff_eq, hid]⟩
    obtain ⟨created, hcreated⟩ := Option.isSome_iff_exists.1 hcreated
    obtain ⟨last, hlast⟩ := Option.isSome_iff_exists.1 hlast
    rw [found, hcreated, hlast]
    exact ⟨_, rfl⟩

/-! ## The log after a write -/

theorem lastWrite?_append (log : List Write) (w : Write) (id : Nat) :
    lastWrite? (log ++ [w]) id = if w.id = id then some w else lastWrite? log id := by
  rw [lastWrite?, List.reverse_append, List.reverse_singleton, List.singleton_append]
  by_cases hid : w.id = id
  · rw [List.find?_cons_of_pos (by simpa using hid), if_pos hid]
  · rw [List.find?_cons_of_neg (by simpa using hid), if_neg hid, lastWrite?]

theorem creation?_append (log : List Write) (w : Write) (id : Nat) :
    creation? (log ++ [w]) id
      = (creation? log id).or (if w.id = id ∧ w.name.isSome = true then some w else none) := by
  rw [creation?, List.find?_append, List.find?_singleton, creation?]
  simp only [Bool.and_eq_true, beq_iff_eq]

theorem found_append_of_ne {log : List Write} {w : Write} {id : Nat} (hne : w.id ≠ id) :
    found (log ++ [w]) id = found log id := by
  rw [found, found, creation?_append, lastWrite?_append, if_neg fun h ↦ hne h.1, if_neg hne,
    Option.or_none]

/-- A document that was not there is found as it was created. -/
theorem found_append_created {log : List Write} {w : Write} {name : String}
    (hname : w.name = some name) (hnew : ∀ v ∈ log, v.name.isSome = true → v.id ≠ w.id) :
    found (log ++ [w]) w.id = .ok ⟨w.id, Text.trim name, w.content, w.time⟩ := by
  have hnone : creation? log w.id = none := by
    refine List.find?_eq_none.2 fun v hv hcreates ↦ ?_
    rw [Bool.and_eq_true, beq_iff_eq] at hcreates
    exact hnew v hv hcreates.2 hcreates.1
  have hcreates : w.id = w.id ∧ w.name.isSome = true := ⟨rfl, by rw [hname]; rfl⟩
  rw [found, creation?_append, lastWrite?_append, hnone, if_pos hcreates, if_pos rfl, Option.none_or]
  show Except.ok (⟨w.id, Text.trim (w.name.getD ""), w.content, w.time⟩ : Saved) = _
  rw [hname, Option.getD_some]

/-- A document that was there is found with its name and what was written. -/
theorem found_append_updated {log : List Write} {w : Write} {old : Saved}
    (hold : found log w.id = .ok old) :
    found (log ++ [w]) w.id = .ok { old with content := w.content, updated := w.time } := by
  rw [found] at hold
  split at hold
  · next created last hcreated hlast =>
    rw [found, creation?_append, lastWrite?_append, hcreated, Option.some_or, if_pos rfl]
    cases hold
    rfl
  · cases hold

/-- The time of a document that is found is that of a write of its number. -/
theorem exists_write_of_found {log : List Write} {id : Nat} {doc : Saved}
    (h : found log id = .ok doc) : doc.id = id ∧ ∃ w ∈ log, w.id = id ∧ w.time = doc.updated := by
  rw [found] at h
  split at h
  · next created last hcreated hlast =>
    cases h
    exact ⟨rfl, last, List.mem_reverse.1 (List.mem_of_find?_eq_some hlast),
      by simpa using List.find?_some hlast, rfl⟩
  · cases h

/-! ## The store after a write -/

/-- A document that was created is found, and the others are found as before. -/
theorem get_of_create {s s' : Store} {now : Nat} {name content : String} {doc : Saved}
    (hcreate : s.create now name content = .ok (doc, s')) (hnew : ∀ d ∈ s.documents, d.id ≠ s.next)
    (id : Nat) : s'.get id = if s.next = id then .ok doc else s.get id := by
  obtain ⟨-, -, rfl, rfl⟩ := create_eq_ok_iff.1 hcreate
  rw [get, get, List.find?_append, List.find?_singleton]
  by_cases hid : s.next = id
  · subst hid
    have hnone : s.documents.find? (·.id == s.next) = none :=
      List.find?_eq_none.2 fun d hd heq ↦ hnew d hd (beq_iff_eq.1 heq)
    rw [hnone, if_pos (beq_self_eq_true _), if_pos rfl, Option.none_or]
  · rw [if_neg (ne_true_of_eq_false (beq_false_of_ne hid)), if_neg hid, Option.or_none]

/-- A document that was updated is found, and the others are found as before. -/
theorem get_of_update {s s' : Store} {now id : Nat} {content : String} {doc : Saved}
    (hupdate : s.update now id content = .ok (doc, s')) (id' : Nat) :
    s'.get id' = if id = id' then .ok doc else s.get id' := by
  obtain ⟨-, old, hget, rfl, rfl⟩ := update_eq_ok_iff.1 hupdate
  have hid : old.id = id := (mem_of_get hget).2
  have hsame : ((fun d : Saved ↦ d.id == id') ∘
      fun d : Saved ↦ if d.id = id then { old with content, updated := now } else d)
        = fun d ↦ d.id == id' := by
    funext d
    rw [Function.comp_apply]
    split
    · next hd => rw [hid, hd]
    · rfl
  rw [get, List.find?_map, hsame]
  by_cases hid' : id = id'
  · subst hid'
    rw [get] at hget
    split at hget
    · next d hd =>
      rw [hd, Option.map_some, if_pos rfl, if_pos (by simpa using List.find?_some hd)]
    · cases hget
  · rw [if_neg hid', get]
    cases hfind : s.documents.find? (·.id == id') with
    | none => rfl
    | some d =>
      have hd : d.id = id' := by simpa using List.find?_some hfind
      rw [Option.map_some, if_neg (fun heq ↦ hid' (heq.symm.trans hd))]

/-! ## A store follows its log -/

/-- Whether a store follows a log: its documents stand in the order they were created in. -/
structure Follows (log : List Write) (s : Store) : Prop where
  /-- The documents are numbered from one on. -/
  ids : s.documents.map Saved.id = List.range' 1 s.size
  /-- The number of the next document follows. -/
  next : s.next = s.size + 1
  /-- So are the writes that created them. -/
  created : (log.filter (·.name.isSome)).map Write.id = List.range' 1 s.size
  /-- What is found is what the log has. -/
  get_eq : ∀ id, s.get id = found log id
  /-- No two writes are at one time. -/
  times : log.Pairwise fun v w ↦ v.time < w.time

namespace Follows

variable {log : List Write} {s : Store}

theorem empty : Follows [] {} := ⟨rfl, rfl, rfl, fun _ ↦ rfl, .nil⟩

theorem nodup (h : Follows log s) : (s.documents.map Saved.id).Nodup :=
  h.ids ▸ List.nodup_range'

theorem pairwise_append {w : Write} (h : Follows log s) (hafter : ∀ v ∈ log, v.time < w.time) :
    (log ++ [w]).Pairwise fun v w ↦ v.time < w.time :=
  List.pairwise_append.2 ⟨h.times, List.pairwise_singleton _ _, fun v hv w' hw' ↦ by
    rw [List.mem_singleton.1 hw']
    exact hafter v hv⟩

/-- A store follows the log after a document was created. -/
theorem create (h : Follows log s) {now : Nat} {name content : String} {doc : Saved} {s' : Store}
    (hcreate : s.create now name content = .ok (doc, s')) (hafter : ∀ w ∈ log, w.time < now) :
    Follows (log ++ [⟨doc.id, some name, content, now⟩]) s' := by
  have hget := get_of_create hcreate fun d hd heq ↦ by
    have hmem := List.mem_map_of_mem (f := Saved.id) hd
    rw [h.ids, heq, h.next, List.mem_range'_1] at hmem
    omega
  obtain ⟨-, -, rfl, rfl⟩ := create_eq_ok_iff.1 hcreate
  have hsize : (⟨s.documents ++ [⟨s.next, Text.trim name, content, now⟩], s.next + 1⟩ : Store).size
      = s.size + 1 := by
    rw [size, List.length_append, List.length_singleton, size]
  have hids : List.range' 1 s.size ++ [s.next] = List.range' 1 (s.size + 1) := by
    rw [List.range'_1_concat, h.next, Nat.add_comm 1]
  refine ⟨?_, ?_, ?_, fun id ↦ ?_, h.pairwise_append hafter⟩
  · rw [hsize, ← hids, ← h.ids, List.map_append]
    rfl
  · rw [hsize, ← h.next]
  · rw [hsize, ← hids, ← h.created, List.filter_append, List.map_append]
    rfl
  · rw [hget, h.get_eq]
    by_cases hid : s.next = id
    · subst hid
      rw [if_pos rfl]
      refine (found_append_created (w := ⟨s.next, some name, content, now⟩) rfl
        fun v hv hname (heq : v.id = s.next) ↦ ?_).symm
      have hcreates : v ∈ log.filter (·.name.isSome) := List.mem_filter.2 ⟨hv, hname⟩
      have hmem := List.mem_map_of_mem (f := Write.id) hcreates
      rw [h.created, heq, List.mem_range'_1, h.next] at hmem
      omega
    · rw [if_neg hid, found_append_of_ne hid]

/-- A store follows the log after a document was updated. -/
theorem update (h : Follows log s) {now id : Nat} {content : String} {doc : Saved} {s' : Store}
    (hupdate : s.update now id content = .ok (doc, s')) (hafter : ∀ w ∈ log, w.time < now) :
    Follows (log ++ [⟨id, none, content, now⟩]) s' := by
  have hget := get_of_update hupdate
  obtain ⟨-, old, hold, rfl, rfl⟩ := update_eq_ok_iff.1 hupdate
  have hsize : ({ s with documents := s.documents.map fun d ↦
      if d.id = id then { old with content, updated := now } else d } : Store).size = s.size := by
    rw [size, List.length_map, size]
  refine ⟨?_, by rw [hsize, h.next], ?_, fun id' ↦ ?_, h.pairwise_append hafter⟩
  · rw [hsize, ← h.ids, List.map_map]
    refine List.map_congr_left fun d _ ↦ ?_
    rw [Function.comp_apply]
    split
    · next hd => exact (mem_of_get hold).2.trans hd.symm
    · rfl
  · rw [hsize, ← h.created, List.filter_append, List.map_append]
    exact List.append_nil _
  · rw [hget, h.get_eq]
    by_cases hid : id = id'
    · subst hid
      rw [if_pos rfl, found_append_updated ((h.get_eq id).symm.trans hold)]
    · rw [if_neg hid, found_append_of_ne hid]

/-- A store follows the log after any request. -/
theorem answer (h : Follows log s) {request : Nat × Request}
    (hafter : ∀ w ∈ log, w.time < request.1) :
    Follows (log ++ (Write.of? (request, (s.answer request).1)).toList) (s.answer request).2 := by
  obtain ⟨now, request⟩ := request
  have hsame : Follows (log ++ []) s := by rwa [List.append_nil]
  cases request with
  | create name content =>
    rw [Store.answer]
    cases hcreate : s.create now name content with
    | ok made => exact h.create hcreate hafter
    | error cause => exact hsame
  | update id content =>
    rw [Store.answer]
    cases hupdate : s.update now id content with
    | ok made => exact h.update hupdate hafter
    | error cause => exact hsame
  | get id =>
    rw [Store.answer]
    cases s.get id <;> exact hsame
  | list => exact hsame

/-- Two documents with different numbers were written last at different times. -/
theorem updated_ne (h : Follows log s) {id id' : Nat} {doc doc' : Saved}
    (hdoc : s.get id = .ok doc) (hdoc' : s.get id' = .ok doc') (hne : id ≠ id') :
    doc.updated ≠ doc'.updated := by
  obtain ⟨-, w, hw, rfl, htime⟩ := exists_write_of_found ((h.get_eq id).symm.trans hdoc)
  obtain ⟨-, w', hw', rfl, htime'⟩ := exists_write_of_found ((h.get_eq id').symm.trans hdoc')
  have hsymm : Std.Symm fun v w : Write ↦ v.time ≠ w.time := ⟨fun _ _ hne ↦ hne.symm⟩
  have htimes : log.Pairwise fun v w ↦ v.time ≠ w.time := h.times.imp Nat.ne_of_lt
  rw [← htime, ← htime']
  exact htimes.forall hw hw' fun hsame ↦ hne (congrArg Write.id hsame)

end Follows

/-- The accepted writes of a request and of the ones after it. -/
theorem written_cons (request : Nat × Request) (requests : List (Nat × Request)) (answer : Answer)
    (answers : List Answer) : written (request :: requests) (answer :: answers)
      = (Write.of? (request, answer)).toList ++ written requests answers := by
  rw [written, List.zip_cons_cons, List.filterMap_cons, written]
  cases Write.of? (request, answer) <;> rfl

/-- A write is made by a request at its time, and creates a document if the request does. -/
theorem Write.eq_of_of? {request : Nat × Request} {a : Answer} {w : Write}
    (h : Write.of? (request, a) = some w) :
    w.time = request.1 ∧ w.name.isSome = request.2.isCreate := by
  obtain ⟨now, request⟩ := request
  cases request with
  | create name content => cases a <;> cases h; exact ⟨rfl, rfl⟩
  | update id content => cases a <;> cases h; exact ⟨rfl, rfl⟩
  | get id => cases h
  | list => cases h

/-- No more documents are created than are asked for. -/
theorem length_created_le (requests : List (Nat × Request)) (answers : List Answer) :
    ((written requests answers).filter (·.name.isSome)).length
      ≤ requests.countP (·.2.isCreate) := by
  induction requests generalizing answers with
  | nil => exact Nat.le_refl 0
  | cons request requests ih =>
    cases answers with
    | nil => exact Nat.zero_le _
    | cons answer answers =>
      rw [written_cons, List.filter_append, List.length_append, List.countP_cons, Nat.add_comm]
      refine Nat.add_le_add (ih answers) ?_
      cases hwrite : Write.of? (request, answer) with
      | none => exact Nat.zero_le _
      | some w =>
        rw [Option.toList_some, List.filter_singleton, (Write.eq_of_of? hwrite).2]
        cases request.2.isCreate <;> exact Nat.le_refl _

/-- A store follows the log after any requests at increasing times. -/
theorem Follows.transcript {log : List Write} {s : Store} (h : Follows log s)
    {requests : List (Nat × Request)}
    (htimes : requests.Pairwise fun r r' ↦ r.1 < r'.1)
    (hafter : ∀ w ∈ log, ∀ r ∈ requests, w.time < r.1) :
    Follows (log ++ written requests (transcript Store.answer s requests).1)
      (transcript Store.answer s requests).2 := by
  induction requests generalizing log s with
  | nil => rwa [written, List.zip_nil_left, List.filterMap_nil, List.append_nil]
  | cons request requests ih =>
    obtain ⟨hbefore, htimes⟩ := List.pairwise_cons.1 htimes
    have hnext := h.answer fun w hw ↦ hafter w hw request List.mem_cons_self
    rw [transcript_cons, written_cons, ← List.append_assoc]
    refine ih hnext htimes fun w hw r hr ↦ ?_
    rcases List.mem_append.1 hw with hw | hw
    · exact hafter w hw r (List.mem_cons_of_mem _ hr)
    · rw [(Write.eq_of_of? (Option.mem_toList.1 hw)).1]
      exact hbefore r hr

/-! ## What is kept -/

theorem listedBefore_trans (a b c : Saved) (hab : listedBefore a b = true)
    (hbc : listedBefore b c = true) : listedBefore a c = true := by
  simp only [listedBefore, Bool.or_eq_true, Bool.and_eq_true, decide_eq_true_eq, beq_iff_eq] at *
  omega

theorem listedBefore_total (a b : Saved) : (listedBefore a b || listedBefore b a) = true := by
  simp only [listedBefore, Bool.or_eq_true, Bool.and_eq_true, decide_eq_true_eq, beq_iff_eq]
  omega

/-- A document is found under its number, if no number is repeated. -/
theorem get_of_mem {s : Store} (hnodup : (s.documents.map Saved.id).Nodup) {doc : Saved}
    (hdoc : doc ∈ s.documents) : s.get doc.id = .ok doc := by
  obtain ⟨before, after, hsplit⟩ := List.append_of_mem hdoc
  rw [hsplit, List.map_append, List.nodup_append] at hnodup
  have hnone : before.find? (·.id == doc.id) = none := by
    refine List.find?_eq_none.2 fun d hd heq ↦ ?_
    exact hnodup.2.2 _ (List.mem_map_of_mem hd) _ List.mem_cons_self (beq_iff_eq.1 heq)
  rw [get, hsplit, List.find?_append, hnone, Option.none_or, List.find?_cons_of_pos (by simp)]

/-- Whether a store keeps what is in a log. -/
structure Keeps (log : List Write) (s : Store) : Prop where
  /-- The documents that were created are numbered from one on. -/
  ids : (log.filter (·.name.isSome)).map Write.id = List.range' 1 s.size
  /-- A document is found as it was created and last written, and no other is found. -/
  get_eq : ∀ id, s.get id = found log id
  /-- Every document is listed once. -/
  list_perm : (s.list.map Saved.id).Perm (List.range' 1 s.size)
  /-- A document is listed as it is found. -/
  get_of_mem_list : ∀ doc ∈ s.list, s.get doc.id = .ok doc
  /-- What was written last is listed first. -/
  list_sorted : s.list.Pairwise fun a b ↦ b.updated < a.updated
  /-- A document can be created whatever the store holds. -/
  create_iff : ∀ now name content,
    (∃ doc, (s.answer (now, .create name content)).1 = .document doc) ↔
      (Text.trim name).isEmpty = false ∧ Gate.check content = .ok ()
  /-- A document can be updated if it was created. -/
  update_iff : ∀ now id content,
    (∃ doc, (s.answer (now, .update id content)).1 = .document doc) ↔
      Gate.check content = .ok () ∧ ∃ w ∈ log, w.id = id ∧ w.name.isSome = true

theorem Follows.keeps {log : List Write} {s : Store} (h : Follows log s) : Keeps log s := by
  have hperm : s.list.Perm s.documents := List.mergeSort_perm _ _
  have hget : ∀ doc ∈ s.list, s.get doc.id = .ok doc := fun doc hdoc ↦
    get_of_mem h.nodup (hperm.mem_iff.1 hdoc)
  refine ⟨h.created, h.get_eq, h.ids ▸ hperm.map _, hget, ?_,
    fun _ _ _ ↦ exists_answer_create_iff, fun now id content ↦ ?_⟩
  · have hsorted : s.list.Pairwise fun a b ↦ listedBefore a b = true :=
      List.pairwise_mergeSort listedBefore_trans listedBefore_total _
    have hnodup : s.list.Pairwise fun a b ↦ a.id ≠ b.id :=
      List.pairwise_map.1 ((hperm.map _).nodup_iff.2 h.nodup)
    refine (hsorted.and hnodup).imp_of_mem fun ha hb hab ↦ ?_
    have hne := h.updated_ne (hget _ ha) (hget _ hb) hab.2
    have hlisted := hab.1
    simp only [listedBefore, Bool.or_eq_true, Bool.and_eq_true, decide_eq_true_eq,
      beq_iff_eq] at hlisted
    exact hlisted.resolve_right fun heq ↦ hne heq.1
  · rw [exists_answer_update_iff, h.get_eq, exists_found_iff]

/-- **A store keeps what it has accepted**, under words, and no answer tells that a request that
failed was made. -/
theorem keeps_written {requests : List (Nat × Request)} {answers : List Answer} {s : Store}
    (hrun : transcript answer {} requests = (answers, s))
    (htimes : requests.Pairwise fun r r' ↦ r.1 < r'.1)
    (hcreates : requests.countP (·.2.isCreate) + 1 < UInt64.size) :
    Keeps (written requests answers) s ∧ s.next < UInt64.size ∧
      ∀ {before : List (Nat × Request)} {request : Nat × Request} {after : List (Nat × Request)}
        {cause : StoreError}, requests = before ++ request :: after →
        ((transcript answer {} before).2.answer request).1 = .failed cause →
        ∃ earlier later, earlier.length = before.length ∧
          answers = earlier ++ .failed cause :: later ∧
          transcript answer {} (before ++ after) = (earlier ++ later, s) := by
  have hfollows := Follows.empty.transcript htimes (List.forall_mem_nil _)
  rw [hrun, List.nil_append] at hfollows
  refine ⟨hfollows.keeps, ?_, fun {before request after cause} hsplit hfailed ↦ ?_⟩
  · have hsize := congrArg List.length hfollows.created
    rw [List.length_map, List.length_range'] at hsize
    calc s.next = s.size + 1 := hfollows.next
      _ ≤ requests.countP (·.2.isCreate) + 1 :=
        Nat.succ_le_succ (hsize ▸ length_created_le requests answers)
      _ < UInt64.size := hcreates
  · rw [hsplit, transcript_append, transcript_cons, hfailed, snd_answer_of_failed hfailed] at hrun
    obtain ⟨rfl, rfl⟩ := Prod.mk.inj hrun
    exact ⟨_, _, length_transcript _ _ _, rfl, transcript_append ..⟩

/-- A document is saved, another one is refused, a third one is saved and the first one is replaced:
the numbers have no gap, and the first document is in front with its old name. -/
theorem keeps_written_of_refused : ∃ refusal s,
    transcript answer {} [(1, .create " a " "<svg/>"), (2, .create "b" "<svg>"),
        (3, .create "c" "<svg/>"), (4, .update 1 "<svg><g/></svg>"), (5, .get 3)]
      = ([.document ⟨1, "a", "<svg/>", 1⟩, .failed (.invalidContent refusal),
          .document ⟨2, "c", "<svg/>", 3⟩, .document ⟨1, "a", "<svg><g/></svg>", 4⟩,
          .failed (.notFound 3)], s) ∧
      s.list = [⟨1, "a", "<svg><g/></svg>", 4⟩, ⟨2, "c", "<svg/>", 3⟩] ∧
      Keeps [⟨1, some " a ", "<svg/>", 1⟩, ⟨2, some "c", "<svg/>", 3⟩,
        ⟨1, none, "<svg><g/></svg>", 4⟩] s := by
  have ha : Text.trim " a " = "a" := by cbv
  have hb : Text.trim "b" = "b" := by cbv
  have hc : Text.trim "c" = "c" := by cbv
  have hcheck : Gate.check "<svg/>" = .ok () := by cbv
  have hcheck' : Gate.check "<svg><g/></svg>" = .ok () := by cbv
  obtain ⟨refusal, hrefused⟩ : ∃ refusal, Gate.check "<svg>" = .error refusal := ⟨_, by cbv⟩
  have hrun : transcript answer {} [(1, .create " a " "<svg/>"), (2, .create "b" "<svg>"),
        (3, .create "c" "<svg/>"), (4, .update 1 "<svg><g/></svg>"), (5, .get 3)]
      = ([.document ⟨1, "a", "<svg/>", 1⟩, .failed (.invalidContent refusal),
          .document ⟨2, "c", "<svg/>", 3⟩, .document ⟨1, "a", "<svg><g/></svg>", 4⟩,
          .failed (.notFound 3)],
        ⟨[⟨1, "a", "<svg><g/></svg>", 4⟩, ⟨2, "c", "<svg/>", 3⟩], 3⟩) := by
    simp [transcript, answer, create, update, get, ha, hb, hc, hcheck, hcheck', hrefused]
  refine ⟨refusal, _, hrun, ?_, (keeps_written hrun (by decide) (by decide)).1⟩
  simp [list, listedBefore, List.mergeSort]

end SvgWorkbench.Store
