import SvgWorkbench.Proofs.Gate.FollowDocument
import SvgWorkbench.Proofs.Session.Drawn
import SvgWorkbench.Store

/-!
# Saved documents can be opened

Content is checked before it is saved, but it is not read, which it has to be before it is opened.
So all that is known of a saved document is that the check has let it through. In a plain text this
is enough, as the reader then follows the check to the end.
-/

namespace SvgWorkbench

open Text Xml Markup

/-- Whether a text is a drawing, and a session can be opened with it under any settings. -/
def CanOpen (text : String) : Prop :=
  (∃ p, Drawing.parse text = .ok p) ∧ ∀ config, ∃ s, Session.openText config text = .ok s

/-- A text that has been checked can be opened if it can be read. -/
theorem canOpen_iff_of_check {text : String} (hcheck : Gate.check text = .ok ()) :
    CanOpen text ↔ ∃ m, Markup.read text = .ok m := by
  constructor
  · rintro ⟨⟨p, hparse⟩, -⟩
    obtain ⟨-, m, hread, -⟩ := Drawing.exists_markup_of_parse hparse
    exact ⟨m, hread⟩
  · rintro ⟨m, hread⟩
    have hparse := Drawing.parse_of_read hcheck hread
    exact ⟨⟨_, hparse⟩, fun config ↦
      ⟨_, Session.openText_eq_ok (by rw [Drawing.componentsOf, hparse]; rfl)⟩⟩

namespace Store

/-! ## Calls -/

/-- A call that may change what is saved. -/
inductive Call where
  /-- A document is created at some time, with a name. -/
  | create (now : Nat) (name content : String)
  /-- The content of a document is replaced at some time. -/
  | update (now id : Nat) (content : String)
  deriving DecidableEq, Repr

/-- The content that is handed in by a call. -/
def Call.content : Call → String
  | .create _ _ content => content
  | .update _ _ content => content

/-- The store after a call; one that is refused leaves it as it is. -/
def after (s : Store) : Call → Store
  | .create now name content =>
    match s.create now name content with
    | .ok (_, s') => s'
    | .error _ => s
  | .update now id content =>
    match s.update now id content with
    | .ok (_, s') => s'
    | .error _ => s

/-- The store after some calls. -/
def run (s : Store) (calls : List Call) : Store := calls.foldl after s

/-- What a document that has been created is, and that its content has been checked. -/
theorem create_eq_ok_iff {s s' : Store} {now : Nat} {name content : String} {doc : Saved} :
    s.create now name content = .ok (doc, s') ↔
      (Text.trim name).isEmpty = false ∧ Gate.check content = .ok () ∧
        doc = ⟨s.next, Text.trim name, content, now⟩ ∧
        s' = ⟨s.documents ++ [doc], s.next + 1⟩ := by
  rw [create]
  cases (Text.trim name).isEmpty with
  | true => simp
  | false =>
    cases Gate.check content with
    | error refusal => simp
    | ok _ =>
      simp only [Bool.false_eq_true, if_false, Except.ok.injEq, Prod.mk.injEq, true_and]
      constructor
      · rintro ⟨rfl, rfl⟩
        exact ⟨rfl, rfl⟩
      · rintro ⟨rfl, rfl⟩
        exact ⟨rfl, rfl⟩

/-- What a document that has been updated is, and that its content has been checked. -/
theorem update_eq_ok_iff {s s' : Store} {now id : Nat} {content : String} {doc : Saved} :
    s.update now id content = .ok (doc, s') ↔
      Gate.check content = .ok () ∧ ∃ old, s.get id = .ok old ∧
        doc = { old with content, updated := now } ∧
        s' = { s with documents := s.documents.map fun d ↦ if d.id = id then doc else d } := by
  rw [update]
  cases Gate.check content with
  | error refusal => simp
  | ok _ =>
    cases s.get id with
    | error e => simp
    | ok old =>
      simp only [Except.ok.injEq, Prod.mk.injEq, true_and, exists_eq_left']
      constructor
      · rintro ⟨rfl, rfl⟩
        exact ⟨rfl, rfl⟩
      · rintro ⟨rfl, rfl⟩
        exact ⟨rfl, rfl⟩

/-- A document that is found is there and has the number. -/
theorem mem_of_get {s : Store} {id : Nat} {doc : Saved} (h : s.get id = .ok doc) :
    doc ∈ s.documents ∧ doc.id = id := by
  rw [get] at h
  split at h
  · next d hd =>
    cases h
    exact ⟨List.mem_of_find?_eq_some hd, by simpa using List.find?_some hd⟩
  · cases h

/-! ## Numbers that are given out -/

/-- Whether the documents have numbers up to one, and the next number is at most one more. -/
structure IsNumberedTo (s : Store) (n : Nat) : Prop where
  /-- The numbers of the documents. -/
  ids : ∀ doc ∈ s.documents, doc.id ≤ n
  /-- The number of the next document. -/
  next : s.next ≤ n + 1

theorem IsNumberedTo.mono {s : Store} {n m : Nat} (h : s.IsNumberedTo n) (hle : n ≤ m) :
    s.IsNumberedTo m :=
  ⟨fun doc hdoc ↦ (h.ids doc hdoc).trans hle, h.next.trans (Nat.succ_le_succ hle)⟩

/-- A call gives out one number at most. -/
theorem IsNumberedTo.after {s : Store} {n : Nat} (h : s.IsNumberedTo n) (call : Call) :
    (s.after call).IsNumberedTo (n + 1) := by
  cases call with
  | create now name content =>
    rw [Store.after]
    split
    · next doc s' hcreate =>
      obtain ⟨-, -, rfl, rfl⟩ := create_eq_ok_iff.1 hcreate
      refine ⟨fun doc hdoc ↦ ?_, Nat.succ_le_succ h.next⟩
      rcases List.mem_append.1 hdoc with hdoc | hdoc
      · exact Nat.le_succ_of_le (h.ids doc hdoc)
      · obtain rfl := List.mem_singleton.1 hdoc
        exact h.next
    · exact h.mono (Nat.le_succ n)
  | update now id content =>
    rw [Store.after]
    split
    · next doc s' hupdate =>
      obtain ⟨-, old, hget, rfl, rfl⟩ := update_eq_ok_iff.1 hupdate
      refine ⟨fun doc hdoc ↦ ?_, Nat.le_succ_of_le h.next⟩
      obtain ⟨d, hd, rfl⟩ := List.mem_map.1 hdoc
      split
      · exact Nat.le_succ_of_le (h.ids old (mem_of_get hget).1)
      · exact Nat.le_succ_of_le (h.ids d hd)
    · exact h.mono (Nat.le_succ n)

/-! ## What is saved has been checked -/

/-- Whether the content of every saved document has been let through. -/
def IsChecked (s : Store) : Prop := ∀ doc ∈ s.documents, Gate.check doc.content = .ok ()

theorem IsChecked.after {s : Store} (h : s.IsChecked) (call : Call) : (s.after call).IsChecked := by
  cases call with
  | create now name content =>
    rw [Store.after]
    split
    · next doc s' hcreate =>
      obtain ⟨-, hcheck, rfl, rfl⟩ := create_eq_ok_iff.1 hcreate
      intro doc hdoc
      rcases List.mem_append.1 hdoc with hdoc | hdoc
      · exact h doc hdoc
      · obtain rfl := List.mem_singleton.1 hdoc
        exact hcheck
    · exact h
  | update now id content =>
    rw [Store.after]
    split
    · next doc s' hupdate =>
      obtain ⟨hcheck, old, -, rfl, rfl⟩ := update_eq_ok_iff.1 hupdate
      intro doc hdoc
      obtain ⟨d, hd, rfl⟩ := List.mem_map.1 hdoc
      split
      · exact hcheck
      · exact h d hd
    · exact h

theorem IsChecked.run {s : Store} (h : s.IsChecked) (calls : List Call) :
    (s.run calls).IsChecked := by
  induction calls generalizing s with
  | nil => exact h
  | cons call calls ih => exact ih (h.after call)

/-- **A saved document can be opened if it can be read**, and it can be read if it is plain and its
document type, if it has one, declares nothing and has no mark inside. -/
theorem canOpen_run {calls : List Call} {doc : Saved} (hdoc : doc ∈ (run {} calls).documents) :
    (CanOpen doc.content ↔ ∃ m, Markup.read doc.content = .ok m) ∧
      (Gate.IsPlain doc.content.toList → Gate.HasPlainDoctype doc.content.toList →
        CanOpen doc.content) := by
  have hstart : IsChecked {} := List.forall_mem_nil _
  have hcheck := hstart.run calls doc hdoc
  refine ⟨canOpen_iff_of_check hcheck, fun hplain hdoctype ↦ (canOpen_iff_of_check hcheck).2 ?_⟩
  obtain ⟨m, hread, -⟩ | ⟨hnot, -⟩ := Gate.read_of_check hcheck hdoctype
  · exact ⟨m, hread⟩
  · exact absurd hplain hnot

/-- A document is saved, another one is refused, and the first one is replaced. -/
theorem canOpen_of_replaced : ∃ doc ∈ (run {} [.create 0 " a " "<svg/>", .create 1 "b" "<svg>",
      .update 2 1 "<svg id=\"c\"><g/></svg>"]).documents,
    doc.name = "a" ∧ doc.content = "<svg id=\"c\"><g/></svg>" ∧ CanOpen doc.content := by
  have htrim : Text.trim " a " = "a" := by cbv
  have htrim' : Text.trim "b" = "b" := by cbv
  have hcheck : Gate.check "<svg/>" = .ok () := by cbv
  have hrefused : ∃ refusal, Gate.check "<svg>" = .error refusal := ⟨_, by cbv⟩
  have hcheck' : Gate.check "<svg id=\"c\"><g/></svg>" = .ok () := by cbv
  have hdoc : (⟨1, "a", "<svg id=\"c\"><g/></svg>", 2⟩ : Saved) ∈ (run {} [.create 0 " a " "<svg/>",
      .create 1 "b" "<svg>", .update 2 1 "<svg id=\"c\"><g/></svg>"]).documents := by
    obtain ⟨refusal, hrefused⟩ := hrefused
    simp [run, after, create, update, get, htrim, htrim', hcheck, hrefused, hcheck']
  have hopen := (canOpen_run hdoc).2
  refine ⟨_, hdoc, rfl, rfl, hopen ?_ ?_⟩
  · have hnone : ∀ {c : Char} {cs : List Char}, c ∈ cs →
        cs <:+: "<svg id=\"c\"><g/></svg>".toList → c ∉ "<svg id=\"c\"><g/></svg>".toList → False :=
      fun hc hcs hnot ↦ hnot (hcs.subset hc)
    refine ⟨fun body hbody ↦ (hnone List.mem_cons_self hbody (by decide)).elim, fun s _ hs ↦
      (hnone (c := '?') (by simp [Mark.openInstruction]) hs (by decide)).elim, by decide,
      fun key body parts _ hparts hwithin ↦ ?_, fun hdeclaration ↦ ?_⟩
    · -- there is one equals sign, so no tag has two attributes
      have hcount := hparts.length_le_count.trans
        (((List.sublist_append_right ('<' :: key) body).trans hwithin.sublist).count_le '=')
      have hlength : parts.length ≤ 1 := hcount
      cases parts with
      | nil => exact List.nodup_nil
      | cons part more =>
        obtain rfl := List.eq_nil_of_length_eq_zero (Nat.le_zero.1 (Nat.le_of_succ_le_succ hlength))
        exact List.nodup_singleton _
    · exact absurd hdeclaration (by decide)
  · intro after around inner hafter haround hinner
    have hoptional : Gate.optionalDeclaration "<svg id=\"c\"><g/></svg>".toList
        = .ok "<svg id=\"c\"><g/></svg>".toList := by cbv
    have hmisc : Gate.misc "<svg id=\"c\"><g/></svg>".toList
        = .ok "<svg id=\"c\"><g/></svg>".toList := by cbv
    cases hoptional.symm.trans hafter
    cases hmisc.symm.trans haround
    cases hinner

/-- **A saved document cannot be opened** if an instruction in it holds a greater-than sign: the check
looks for the end mark of the instruction, the reader for the sign. -/
theorem not_canOpen_of_signed_instruction :
    ∃ doc ∈ (run {} [.create 0 "a" "<svg><?b c>d?></svg>"]).documents, ¬ CanOpen doc.content := by
  have hdocuments : (run {} [.create 0 "a" "<svg><?b c>d?></svg>"]).documents
      = [⟨1, "a", "<svg><?b c>d?></svg>", 0⟩] := by cbv
  have hread : Markup.read "<svg><?b c>d?></svg>" = .error ⟨7, .unfinished .instruction⟩ := by cbv
  refine ⟨_, by rw [hdocuments]; exact List.mem_singleton.2 rfl, ?_⟩
  rintro ⟨⟨p, hparse⟩, -⟩
  obtain ⟨-, m, hm, -⟩ := Drawing.exists_markup_of_parse hparse
  cases hread.symm.trans hm

end Store

end SvgWorkbench
