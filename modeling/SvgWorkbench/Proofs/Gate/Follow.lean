import SvgWorkbench.Proofs.Gate.Shown
import SvgWorkbench.Proofs.Gate.WrittenDocument
import SvgWorkbench.Proofs.Markup.Contents
import SvgWorkbench.Proofs.Markup.RoundTrip

/-!
# The reader follows the check

On a text that the strict check lets through and that has no document type, the reader goes from
piece to piece as the check does, with the same elements open. On the way it finds only what the
check makes sure of, so in the end the check would let through what has been read.

There are places where the reader does not go on, though the check does: a number that refers to a
character may have too many digits, an instruction may hold a greater-than sign, two names may
be the same for the check only, and an attribute may stand twice in a tag. In a plain text there are
none of these. So the law of every step has two outcomes, and the second is for texts that are not
plain.
-/

namespace SvgWorkbench.Gate

open Text Xml Markup SvgWorkbench.Tree

/-! ## Where the two meet -/

/-- Whether an element that is open for the reader is one that is open for the check. -/
structure IsFrame (plain : Prop) (outer : List Binding) (o : OpenElement) (f : Frame) : Prop where
  /-- The check has shown the element. -/
  shows : Shows outer f.element o.qname o.scope
  /-- Its name is written in one way only. -/
  name : plain → f.element.name.toList.head? ≠ some ':'
  /-- The check has shown its children. -/
  children : ∀ t ∈ f.children, Admits o.scope t

/-- Whether the elements that are open for the reader are those that are open for the check. -/
inductive Stacked (plain : Prop) : List OpenElement → List Frame → Prop where
  /-- No element is open. -/
  | nil : Stacked plain [] []
  /-- The innermost elements are the same, and so are those around them. -/
  | cons {o : OpenElement} {os : List OpenElement} {f : Frame} {fs : List Frame}
    (hframe : IsFrame plain (scopeOf os) o f) (h : Stacked plain os fs) :
    Stacked plain (o :: os) (f :: fs)

/-- Whether the reader is where the check has some elements open, with some nodes finished. -/
structure Meets (plain : Prop) (top : List (Tree Content)) (os : List OpenElement) (r : Reading) :
    Prop where
  /-- No entities are declared. -/
  entities : r.entities = []
  /-- No document types wait. -/
  waiting : r.waiting = []
  /-- These nodes of the top level are finished. -/
  finished : r.finished = top
  /-- The same elements are open. -/
  stacked : Stacked plain os r.opened

namespace Meets

variable {plain : Prop} {top : List (Tree Content)} {o : OpenElement} {os : List OpenElement}
  {r : Reading} {t : Tree Content}

/-- A node that is known may be added to the innermost open element. -/
theorem add (h : Meets plain top (o :: os) r) (ht : Admits o.scope t) :
    Meets plain top (o :: os) (r.add t) := by
  obtain ⟨finished, opened, waiting, entities⟩ := r
  obtain ⟨hentities, hwaiting, hfinished, hstacked⟩ := h
  cases hstacked with
  | cons hframe hrest =>
    exact ⟨hentities, hwaiting, hfinished, .cons
      ⟨hframe.shows, hframe.name, List.forall_mem_cons.2 ⟨ht, hframe.children⟩⟩ hrest⟩

/-- A node that is added to the top level is finished. -/
theorem add_top (h : Meets plain top [] r) (t : Tree Content) :
    Meets plain (t :: top) [] (r.add t) := by
  obtain ⟨finished, opened, waiting, entities⟩ := r
  obtain ⟨hentities, hwaiting, rfl, hstacked⟩ := h
  cases hstacked
  exact ⟨hentities, hwaiting, rfl, .nil⟩

/-- An element that both open is open for both. -/
theorem openFrame (h : Meets plain top os r) {e : Element}
    (hframe : IsFrame plain (scopeOf os) o ⟨e, []⟩) :
    Meets plain top (o :: os) { r with opened := ⟨e, []⟩ :: r.opened } :=
  ⟨h.entities, h.waiting, h.finished, .cons hframe h.stacked⟩

/-- An element that is closed is a node of the one around it. -/
theorem close {o' : OpenElement} (h : Meets plain top (o :: o' :: os) r) :
    Meets plain top (o' :: os) r.close := by
  obtain ⟨finished, opened, waiting, entities⟩ := r
  obtain ⟨hentities, hwaiting, hfinished, hstacked⟩ := h
  cases hstacked with
  | cons hframe hrest =>
    cases hrest with
    | cons hframe' hrest =>
      refine ⟨hentities, hwaiting, hfinished, .cons
        ⟨hframe'.shows, hframe'.name, List.forall_mem_cons.2 ⟨?_, hframe'.children⟩⟩ hrest⟩
      exact .node hframe.shows fun t ht ↦ hframe.children t (List.mem_reverse.1 ht)

/-- When the outermost element is closed, it is finished. -/
theorem close_top (h : Meets plain top [o] r) :
    ∃ t, t.label.isElement = true ∧ Admits [] t ∧ Meets plain (t :: top) [] r.close := by
  obtain ⟨finished, opened, waiting, entities⟩ := r
  obtain ⟨hentities, rfl, rfl, hstacked⟩ := h
  cases hstacked with
  | @cons _ _ f _ hframe hrest =>
    cases hrest
    refine ⟨f.close, rfl, ?_, hentities, rfl, rfl, .nil⟩
    exact .node hframe.shows fun t ht ↦ hframe.children t (List.mem_reverse.1 ht)

theorem opened_eq_nil (h : Meets plain top [] r) : r.opened = [] := by
  obtain ⟨finished, opened, waiting, entities⟩ := r
  cases h.stacked
  rfl

/-- The innermost element that is open for the check is open for the reader. -/
theorem exists_innermost? (h : Meets plain top (o :: os) r) : ∃ f fs, r.opened = f :: fs ∧
    IsFrame plain (scopeOf os) o f := by
  obtain ⟨finished, opened, waiting, entities⟩ := r
  cases h.stacked with
  | cons hframe hrest => exact ⟨_, _, rfl, hframe⟩

end Meets

/-! ## Leading the reader -/

/-- Whether the reader gives up at a place. -/
def Stops (r : Reading) (cs : List Char) : Prop :=
  ∀ offset, ∃ fault, readFrom r offset cs = .error fault

/-- From a state of one kind the reader gets to a later place of the text and to a state of another
kind, or it stops, but not in a plain text. -/
def Leads (text : List Char) (P : Reading → Prop) (cs : List Char) (Q : Reading → Prop)
    (rest : List Char) : Prop :=
  cs <:+ text → rest <:+ text ∧ ∀ r, P r →
    (∃ r', Q r' ∧ Reads r cs r' rest) ∨ ¬ IsPlain text ∧ Stops r cs

theorem Stops.of_reads {r r' : Reading} {cs rest : List Char} (h : Stops r' rest)
    (hreads : Reads r cs r' rest) : Stops r cs := by
  intro offset
  obtain ⟨offset', heq⟩ := hreads offset
  obtain ⟨fault, hfault⟩ := h offset'
  exact ⟨fault, heq.trans hfault⟩

theorem stops_of_cut {r : Reading} {cs : List Char} (hne : cs ≠ []) (hsign : cs ≠ ['<'])
    (h : ∀ offset, ∃ fault, cut r.innermost? offset cs = .error fault) : Stops r cs := by
  intro offset
  obtain ⟨fault, hfault⟩ := h offset
  obtain ⟨c, cs, rfl⟩ := List.exists_cons_of_ne_nil hne
  rw [readFrom, if_neg fun hc ↦ hsign (by rw [hc.1, hc.2])]
  split
  · exact ⟨_, rfl⟩
  · next heq =>
    rw [hfault] at heq
    cases heq

theorem stops_of_step {r : Reading} {cs rest : List Char} {token : Token} {cause : Markup.Cause}
    (hne : cs ≠ []) (hcut : Cuts r.innermost? cs token rest) (h : r.step token = .error cause) :
    Stops r cs := by
  intro offset
  obtain ⟨size, hsize⟩ := hcut offset
  obtain ⟨c, cs, rfl⟩ := List.exists_cons_of_ne_nil hne
  have hend : ¬ (c = '<' ∧ cs = []) := by
    rintro ⟨rfl, rfl⟩
    cases hsize
  rw [readFrom, if_neg hend]
  split
  · next heq =>
    rw [hsize] at heq
    cases heq
  · next x heq =>
    rw [hsize] at heq
    cases heq
    simp only [h]
    exact ⟨_, rfl⟩

section

variable {text : List Char} {P Q R : Reading → Prop} {cs ds es : List Char}

theorem Leads.of_imp (h : ∀ r, P r → Q r) : Leads text P cs Q cs :=
  fun hcs ↦ ⟨hcs, fun r hr ↦ .inl ⟨r, h r hr, Reads.refl r cs⟩⟩

theorem Leads.trans (h : Leads text P cs Q ds) (h' : Leads text Q ds R es) :
    Leads text P cs R es := by
  intro hcs
  obtain ⟨hds, h⟩ := h hcs
  obtain ⟨hes, h'⟩ := h' hds
  refine ⟨hes, fun r hr ↦ ?_⟩
  obtain ⟨r₁, hr₁, hreads⟩ | hstops := h r hr
  · obtain ⟨r₂, hr₂, hreads'⟩ | ⟨hplain, hstops⟩ := h' r₁ hr₁
    · exact .inl ⟨r₂, hr₂, hreads.trans hreads'⟩
    · exact .inr ⟨hplain, hstops.of_reads hreads⟩
  · exact .inr hstops

/-- The reader may be led on from less and to more. -/
theorem Leads.imp {P' Q' : Reading → Prop} (h : Leads text P cs Q ds) (hP : ∀ r, P' r → P r)
    (hQ : ∀ r, Q r → Q' r) : Leads text P' cs Q' ds := by
  refine fun hcs ↦ ⟨(h hcs).1, fun r hr ↦ ?_⟩
  exact ((h hcs).2 r (hP r hr)).imp_left fun ⟨r', hr', hreads⟩ ↦ ⟨r', hQ r' hr', hreads⟩

/-- A parameter of both kinds may be whatever has some property. -/
theorem Leads.exists {α : Type} [Inhabited α] {p : α → Prop} {P Q : α → Reading → Prop}
    (h : ∀ a, Leads text (P a) cs (Q a) ds) :
    Leads text (fun r ↦ ∃ a, p a ∧ P a r) cs (fun r ↦ ∃ a, p a ∧ Q a r) ds := by
  refine fun hcs ↦ ⟨(h default hcs).1, ?_⟩
  rintro r ⟨a, ha, hr⟩
  exact ((h a hcs).2 r hr).imp_left fun ⟨r', hr', hreads⟩ ↦ ⟨r', ⟨a, ha, hr'⟩, hreads⟩

/-- One token leads the reader on if it is known and taken, and if the text is not plain it may also
be refused. -/
theorem leads_of_step (hne : cs ≠ []) (hsuffix : ds <:+ cs)
    (h : cs <:+ text → ∀ r, P r → ∃ token, Cuts r.innermost? cs token ds ∧
      ((∃ r', r.step token = .ok r' ∧ Q r') ∨
        ¬ IsPlain text ∧ ∃ cause, r.step token = .error cause)) :
    Leads text P cs Q ds := by
  refine fun hcs ↦ ⟨hsuffix.trans hcs, fun r hr ↦ ?_⟩
  obtain ⟨token, hcut, ⟨r', hstep, hr'⟩ | ⟨hplain, cause, hstep⟩⟩ := h hcs r hr
  · exact .inl ⟨r', hr', reads_of_cuts token hne hcut hstep⟩
  · exact .inr ⟨hplain, stops_of_step hne hcut hstep⟩

end

variable {text : List Char} {top : List (Tree Content)} {os : List OpenElement} {cs rest : List Char}

/-! ## Comments, sections, instructions and text -/

/-- What a comment is read as. -/
theorem leads_comment {s : List Char} (hs : IsStrictComment s) {P Q : Reading → Prop}
    (h : ∀ r, P r → Q (r.addLeaf (.comment (String.ofList s)))) :
    Leads text P (Mark.openComment ++ (s ++ (Mark.closeComment ++ rest))) Q rest := by
  have hpiece : IsPiece _ _ rest := .comment hs
  refine leads_of_step hpiece.ne_nil hpiece.suffix fun _ r hr ↦ ?_
  exact ⟨_, cuts_comment hs.not_closeComment_infix _ rest, .inl ⟨_, rfl, h r hr⟩⟩

/-- What an instruction is read as; one with a greater-than sign inside is not read. -/
theorem leads_instruction {s : List Char} (hs : IsStrictInstruction s) {P Q : Reading → Prop}
    (h : ∀ r, P r → Q (r.addLeaf (.instruction (String.ofList s)))) :
    Leads text P (Mark.openInstruction ++ (s ++ (Mark.closeInstruction ++ rest))) Q rest := by
  have hpiece : IsPiece _ _ rest := .instruction hs
  obtain ⟨c, more, heq, hc⟩ := hs.starts
  refine fun hcs ↦ ⟨hpiece.suffix.trans hcs, fun r hr ↦ ?_⟩
  by_cases hsign : '>' ∈ s
  · refine .inr ⟨fun hplain ↦ ?_, stops_of_cut hpiece.ne_nil (by simp [Mark.openInstruction])
      fun offset ↦ exists_fault_of_instruction hs.inside hsign _ offset _⟩
    refine hplain.instructions s hs.inside (List.IsInfix.trans ?_ hcs.isInfix) hsign
    exact ⟨[], rest, by simp⟩
  · exact .inl ⟨_, h r hr, reads_of_cuts _ hpiece.ne_nil
      (cuts_instruction ⟨by simp [heq], hsign⟩ _ rest) rfl⟩

/-- What a section is read as. -/
theorem leads_cdata {s : List Char} (hchars : ∀ c ∈ s, isDocumentChar c = true)
    (hs : ¬ Mark.closeSection <:+: s) {P Q : Reading → Prop}
    (h : ∀ r, P r → Q (r.addLeaf (.text (String.ofList s)))) :
    Leads text P (Mark.openSection ++ (s ++ (Mark.closeSection ++ rest))) Q rest := by
  have hpiece : IsPiece _ _ rest := .cdata hchars hs
  refine leads_of_step hpiece.ne_nil hpiece.suffix fun _ r hr ↦ ?_
  exact ⟨_, cuts_cdata hs _ rest, .inl ⟨_, rfl, h r hr⟩⟩

/-- What a run of text is read as, if its references can be resolved. -/
theorem leads_run {s : List Char} (hne : s ≠ []) (hsign : '<' ∉ s)
    (hrest : rest = [] ∨ rest.head? = some '<') {P Q : Reading → Prop}
    (hentities : ∀ r, P r → r.entities = [])
    (h : s ++ rest <:+ text → ∃ t, Resolves (IsPlain text) s t ∧
      ∀ r, P r → Q (r.addLeaf (.text (String.ofList t)))) :
    Leads text P (s ++ rest) Q rest := by
  refine leads_of_step (List.append_ne_nil_of_left_ne_nil hne _) (List.suffix_append _ _)
    fun hcs r hr ↦ ?_
  obtain ⟨t, ht, h⟩ := h hcs
  obtain ⟨honly, hplain⟩ := ht.unescape [] 0
  refine ⟨.text s, cuts_text hne hsign hrest _, ?_⟩
  rw [Reading.step, hentities r hr]
  cases htext : unescape [] 0 s with
  | ok t' =>
    obtain rfl := honly t' htext
    exact .inl ⟨_, rfl, h r hr⟩
  | error fault =>
    refine .inr ⟨fun hp ↦ ?_, _, rfl⟩
    rw [hplain hp] at htext
    cases htext

/-! ## Tags -/

/-- What the reader makes of a start tag with an end. -/
def taken (ending : TagEnd) (e : Element) (r : Reading) : Reading :=
  match ending with
  | .opened => { r with opened := ⟨e, []⟩ :: r.opened }
  | _ => r.addLeaf (.element e)

theorem exists_cuts_startTag {key body : List Char} {parts : List (List Char × List Char)}
    (hkey : IsName key) (hinside : TagParts body parts) {ending : TagEnd} (hcut : ending ≠ .cut)
    (rest : List Char) : ∃ token,
      (∀ innermost, Cuts innermost ('<' :: (key ++ (body ++ (ending.text ++ rest)))) token rest) ∧
      ∀ r : Reading, r.step token = (readElement r.entities (key ++ body)).map (taken ending · r) := by
  have hstep : ∀ {x : Except Markup.Cause Element} {f : Element → Reading},
      (x >>= fun e ↦ pure (f e)) = x.map f := by
    intro x f
    cases x <;> rfl
  cases ending with
  | empty => exact ⟨_, fun innermost ↦ cuts_emptyTag hkey hinside innermost rest, fun r ↦ hstep⟩
  | opened => exact ⟨_, fun innermost ↦ cuts_openTag hkey hinside innermost rest, fun r ↦ hstep⟩
  | cut => exact absurd rfl hcut

variable (text rest) in
/-- **A start tag that is let through** is read as an element that the check has shown. -/
theorem leads_startTag {tag : StartTag} {key body : List Char}
    {parts : List (List Char × List Char)} (htag : tag.IsWritten key body parts) {ending : TagEnd}
    (hending : tag.ending = .ok ending) (hcut : ending ≠ .cut) {st st' : State}
    (hpending : st.pending = {}) {depth after : Nat}
    (h : st.readStartTag [] depth false after tag = .ok st') {P : Reading → Prop}
    (hentities : ∀ r, P r → r.entities = []) :
    ∃ inner, st' = { st with
        tagSeen := true, rooted := true,
        opened := if ending = .opened then ⟨tag.qname, inner⟩ :: st.opened else st.opened } ∧
      Leads text P ('<' :: (key ++ (body ++ (ending.text ++ rest))))
        (fun r' ↦ ∃ e r, P r ∧ r' = taken ending e r ∧
          IsFrame (IsPlain text) st.scope ⟨tag.qname, inner⟩ ⟨e, []⟩) rest := by
  obtain ⟨inner, hst', hshows, hplain⟩ := htag.shows hending hcut hpending h
  obtain ⟨token, hcuts, hstep⟩ := exists_cuts_startTag htag.isName htag.inside hcut rest
  refine ⟨inner, hst', leads_of_step (List.cons_ne_nil _ _)
    ⟨'<' :: (key ++ (body ++ ending.text)), by simp⟩ fun hcs r hr ↦ ⟨token, hcuts _, ?_⟩⟩
  have hwithin : '<' :: (key ++ body) <:+: text :=
    List.IsInfix.trans ⟨[], ending.text ++ rest, by simp⟩ hcs.isInfix
  rw [hstep, hentities r hr]
  cases he : readElement [] (key ++ body) with
  | ok e =>
    obtain ⟨hname, hshows⟩ := hshows e he
    refine .inl ⟨_, rfl, e, r, hr, rfl, hshows, fun hp hhead ↦ hp.names.1 ?_, List.forall_mem_nil _⟩
    rw [hname, String.toList_ofList] at hhead
    obtain ⟨letters, rfl⟩ := List.head?_eq_some_iff.1 hhead
    exact List.IsInfix.trans ⟨[], letters ++ body, by simp⟩ hwithin
  | error cause =>
    refine .inr ⟨fun hp ↦ ?_, cause, rfl⟩
    obtain ⟨e, he'⟩ := hplain text hp hwithin
    rw [he] at he'
    cases he'

/-- Two ways to write a qualified name differ by a colon in front. -/
theorem eq_of_ofChars? {run run' : List Char} {q : QName} (h : QName.ofChars? run = some q)
    (h' : QName.ofChars? run' = some q) (hrun : run.head? ≠ some ':')
    (hrun' : run'.head? ≠ some ':') : run = run' := by
  have hwritten : ∀ {run}, QName.ofChars? run = some q → run.head? ≠ some ':' →
      run = if q.space = [] then q.base else q.space ++ ':' :: q.base := by
    intro run h hrun
    rw [QName.ofChars?] at h
    split at h
    · split at h <;> cases h
      rfl
    · next space base hsplit =>
      obtain rfl := splitFirst_eq_some hsplit
      split at h <;> cases h
      refine (if_neg ?_).symm
      rintro rfl
      exact hrun rfl
  rw [hwritten h hrun, hwritten h' hrun']

/-- A close tag that names the innermost open element closes it for the reader as well. -/
theorem leads_closeTag {key spaces : List Char} {o : OpenElement} (hkey : IsName key)
    (hq : QName.ofChars? key = some o.qname) (hspaces : ∀ c ∈ spaces, isSpace c = true)
    {Q : Reading → Prop} (h : ∀ r, Meets (IsPlain text) top (o :: os) r → Q r.close) :
    Leads text (Meets (IsPlain text) top (o :: os))
      (Mark.closeTag ++ (key ++ (spaces ++ '>' :: rest))) Q rest := by
  have hpiece : IsPiece _ _ rest := .closeTag hkey hq hspaces
  refine fun hcs ↦ ⟨hpiece.suffix.trans hcs, fun r hr ↦ ?_⟩
  obtain ⟨f, fs, hopened, hframe⟩ := hr.exists_innermost?
  have hinnermost : r.innermost? = some f.element.name := by
    rw [Reading.innermost?, hopened]
    rfl
  by_cases hname : f.element.name.toList = key
  · refine .inl ⟨_, h r hr, reads_of_cuts .closeTag hpiece.ne_nil ?_ rfl⟩
    rw [hinnermost]
    exact cuts_closeTag hname hkey hspaces rest
  · refine .inr ⟨fun hp ↦ hname ?_, stops_of_cut hpiece.ne_nil (by simp [Mark.closeTag])
      fun offset ↦ exists_fault_of_closeTag hkey hspaces ?_ offset rest⟩
    · refine eq_of_ofChars? hframe.shows.qname hq (hframe.name hp) fun hhead ↦ hp.names.2 ?_
      obtain ⟨letters, rfl⟩ := List.head?_eq_some_iff.1 hhead
      exact List.IsInfix.trans ⟨[], letters ++ (spaces ++ '>' :: rest), by simp [Mark.closeTag]⟩
        hcs.isInfix
    · rw [hinnermost]
      rintro heq
      exact hname (by rw [Option.some.inj heq, String.toList_ofList])

/-! ## Content -/

/-- Over a piece that means nothing to the check the reader stays inside the same elements. -/
private theorem leads_silent {o : OpenElement} (h : IsPiece cs .silent rest) :
    Leads text (Meets (IsPlain text) top (o :: os)) cs (Meets (IsPlain text) top (o :: os))
      rest := by
  cases h with
  | comment hs =>
    refine leads_comment hs fun r hr ↦ hr.add (.leaf trivial ?_)
    rwa [Accepts, String.toList_ofList]
  | cdata hchars hs =>
    refine leads_cdata hchars hs fun r hr ↦ hr.add (.leaf trivial ?_)
    rwa [Accepts, String.toList_ofList]
  | instruction hs =>
    refine leads_instruction hs fun r hr ↦ hr.add (.leaf trivial ?_)
    rwa [Accepts, String.toList_ofList]

/-- So it does over a run of text. -/
private theorem leads_readText {o : OpenElement} {s : List Char} {expand : ContentExpansion}
    {after : Nat} {st st' : State} (h : IsPiece cs (.run s) rest)
    (hst : st.readText [] expand false after s = .ok st') :
    st' = st ∧ Leads text (Meets (IsPlain text) top (o :: os)) cs
      (Meets (IsPlain text) top (o :: os)) rest := by
  cases h with
  | run hne hsign hchars hrest =>
    have hsame : st' = st ∧ ∃ t, Resolves False s t := resolves_of_readText hst False.elim
    refine ⟨hsame.1,
      leads_run hne hsign hrest (fun r hr ↦ hr.entities) fun hcs ↦ ?_⟩
    obtain ⟨-, t, ht⟩ := resolves_of_readText hst fun (hp : IsPlain text) body hbody ↦
      hp.references body (hbody.trans (List.IsInfix.trans ⟨[], rest, rfl⟩ hcs.isInfix))
    refine ⟨t, ht, fun r hr ↦ hr.add (.leaf trivial ?_)⟩
    rw [Accepts, String.toList_ofList]
    exact ht.forall_isDocumentChar hchars

/-- A start tag is cut by the end of the text, or the reader gets over it. -/
private theorem leads_readStartTag {o : OpenElement} {tag : StartTag} {depth after : Nat}
    {st st' : State} (h : IsPiece cs (.startTag tag) rest) (hinside : st = .inside (o :: os))
    (hst : st.readStartTag [] depth false after tag = .ok st') :
    (rest = [] ∧ st'.opened = o :: os) ∨
      (tag.opens = false ∧ st' = .inside (o :: os) ∧
        Leads text (Meets (IsPlain text) top (o :: os)) cs
          (Meets (IsPlain text) top (o :: os)) rest) ∨
      (tag.opens = true ∧ ∃ o', st' = .inside (o' :: o :: os) ∧
        Leads text (Meets (IsPlain text) top (o :: os)) cs
          (Meets (IsPlain text) top (o' :: o :: os)) rest) := by
  cases h with
  | @startTag _ key body _ parts ending htag hending hcut =>
    subst hinside
    by_cases hend : ending = .cut
    · subst hend
      refine .inl ⟨hcut rfl, ?_⟩
      obtain ⟨-, _, _, -, ⟨-, rfl⟩ | ⟨_, -, ⟨heq, -⟩ | ⟨heq, -⟩⟩⟩ := State.readStartTag_eq_ok_iff.1 hst
      · rfl
      · rw [hending] at heq
        cases heq
      · rw [hending] at heq
        cases heq
    · refine .inr ?_
      obtain ⟨inner, rfl, hleads⟩ := leads_startTag text rest htag hending hend rfl hst
        (P := Meets (IsPlain text) top (o :: os)) fun r hr ↦ hr.entities
      by_cases hopened : ending = .opened
      · subst hopened
        refine .inr ⟨StartTag.opens_iff.2 hending, ⟨tag.qname, inner⟩, rfl,
          hleads.imp (fun r hr ↦ hr) ?_⟩
        rintro _ ⟨e, r, hr, rfl, hframe⟩
        exact hr.openFrame hframe
      · obtain rfl : ending = .empty := by
          cases ending with
          | empty => rfl
          | opened => exact absurd rfl hopened
          | cut => exact absurd rfl hend
        refine .inl ⟨?_, rfl, hleads.imp (fun r hr ↦ hr) ?_⟩
        · rw [← Bool.not_eq_true, StartTag.opens_of_ending hending]
          exact hopened
        · rintro _ ⟨e, r, hr, rfl, hframe⟩
          exact hr.add (.node hframe.shows (List.forall_mem_nil _))

/-- Whether the root element is finished, with some nodes before it. -/
def Closes (text : List Char) (top : List (Tree Content)) (r : Reading) : Prop :=
  ∃ t, t.label.isElement = true ∧ Admits [] t ∧ Meets (IsPlain text) (t :: top) [] r

/-- **The reader follows over content.** -/
theorem leads_content {expand : ContentExpansion} {depth after level : Nat} {st st' : State}
    {o : OpenElement}
    (h : content [] expand depth false after level st cs = .ok (st', rest))
    (hst : st = .inside (o :: os)) (hlevel : os.length + 1 = level) (hend : st'.opened = []) :
    Leads text (Meets (IsPlain text) top (o :: os)) cs (Closes text top) rest := by
  fun_induction content [] expand depth false after level st cs generalizing o os with
  | case1 level st =>
    cases h
    rw [hst] at hend
    cases hend
  | case2 level st c cs fault hpiece => cases h
  | case3 level st c cs rest₁ hpiece ih =>
    have hpiece' := isPiece_of_piece (List.cons_ne_nil c cs) hpiece nofun
    exact (leads_silent hpiece').trans (ih h hst hlevel)
  | case4 level st c cs s rest₁ hpiece ih =>
    have hpiece' := isPiece_of_piece (List.cons_ne_nil c cs) hpiece nofun
    obtain ⟨st₁, hst₁, h⟩ := bind_eq_ok_iff.1 h
    obtain ⟨heq, hleads⟩ := leads_readText hpiece' hst₁
    exact hleads.trans (ih st₁ h (heq.trans hst) hlevel)
  | case5 level st c cs tag rest₁ hpiece ih =>
    obtain ⟨st₁, hst₁, h⟩ := bind_eq_ok_iff.1 h
    have hpiece' := isPiece_of_piece (List.cons_ne_nil c cs) hpiece fun tag' htag ↦ by
      cases htag
      exact State.exists_ending_of_readStartTag hst₁
    obtain ⟨rfl, hopened⟩ | ⟨hopens, hst', hleads⟩ | ⟨hopens, o', hst', hleads⟩ :=
      leads_readStartTag hpiece' hst hst₁
    · -- the text ends inside the tag, so the elements are still open
      rw [content] at h
      cases h
      rw [hopened] at hend
      cases hend
    · refine hleads.trans (ih st₁ h hst' ?_)
      rw [dif_neg (by simp [hopens]), hlevel]
    · refine hleads.trans (ih st₁ h hst' ?_)
      rw [dif_pos hopens, ← hlevel]
      rfl
  | case6 level st c cs q rest₁ hpiece ih =>
    have hpiece' := isPiece_of_piece (List.cons_ne_nil c cs) hpiece nofun
    obtain ⟨st₁, hst₁, h⟩ := bind_eq_ok_iff.1 h
    subst hst
    obtain ⟨-, -, e, more, hopened, rfl, rfl⟩ := State.readCloseTag_eq_ok_iff.1 hst₁
    cases hopened
    generalize c :: cs = ds at hpiece'
    cases hpiece' with
    | closeTag hkey hq hspaces =>
      split at h
      · next hle =>
        cases h
        cases os with
        | nil => exact leads_closeTag hkey hq hspaces fun r hr ↦ hr.close_top
        | cons o' os =>
          simp only [List.length_cons] at hlevel
          omega
      · next hlt =>
        cases os with
        | nil =>
          simp only [List.length_nil] at hlevel
          omega
        | cons o' os =>
          refine (leads_closeTag hkey hq hspaces fun r hr ↦ hr.close).trans (ih _ h rfl ?_)
          simp only [List.length_cons] at hlevel
          omega

end SvgWorkbench.Gate
