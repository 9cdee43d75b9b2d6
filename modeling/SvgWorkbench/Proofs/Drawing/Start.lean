import SvgWorkbench.Drawing
import SvgWorkbench.Proofs.Markup.RoundTrip
import SvgWorkbench.Proofs.Markup.Run

/-!
# What a drawing starts with

A byte order mark is dropped from the front of a text when it is read, so a document that starts
with one would lose it when it is written and read again. No drawing does: the strict check lets
nothing through but spaces before the first angle bracket, and none of what it lets through there is
a section of character data.
-/

namespace SvgWorkbench

open Text Xml

/-! ## The first characters of checked text -/

namespace Gate

/-- Whether a text starts with a construct other than a section of character data. -/
def StartsConstruct (cs : List Char) : Prop :=
  ∃ c more, cs = '<' :: c :: more ∧ (c = '!' → more.head? ≠ some '[')

private theorem startsConstruct_append {p : List Char} (hp : StartsConstruct p)
    (hlength : 3 ≤ p.length) (rest : List Char) : StartsConstruct (p ++ rest) := by
  obtain ⟨c, more, rfl, hmore⟩ := hp
  obtain ⟨x, xs, rfl⟩ := List.exists_cons_of_length_pos (l := more)
    (by simp only [List.length_cons] at hlength; omega)
  exact ⟨c, x :: xs ++ rest, rfl, hmore⟩

/-- What other pieces may stand around the root: nothing, or spaces and a construct. -/
private theorem startsConstruct_of_misc {cs rest : List Char} (h : misc cs = .ok rest) :
    StartsConstruct (skipSpaces cs) ∨ rest = skipSpaces cs := by
  unfold misc at h
  split at h
  · next hcomment =>
    obtain ⟨more, hmore⟩ := startsWith_iff.1 hcomment
    exact .inl (hmore ▸ startsConstruct_append ⟨_, _, rfl, by simp⟩ (by decide) more)
  split at h
  · next hinstruction =>
    obtain ⟨more, hmore⟩ := startsWith_iff.1 hinstruction
    exact .inl ⟨_, _, hmore.symm, by simp⟩
  · cases h
    exact .inr rfl

/-- A start tag starts with a name. -/
private theorem startsConstruct_of_startTag {cs : List Char} {r : StartTag × List Char}
    (h : startTag cs = .ok r) : StartsConstruct ('<' :: cs) := by
  cases cs with
  | nil => cases h
  | cons c cs =>
    refine ⟨c, cs, rfl, ?_⟩
    rintro rfl
    simp only [startTag, qname, bind, Except.bind] at h
    rw [List.takeWhile_cons_of_neg (by decide)] at h
    cases h

private theorem startTag_of_root {entities : List Entity} {cs : List Char}
    {r : State × List Char} (h : root entities cs = .ok r) : ∃ tag, startTag cs = .ok tag := by
  simp only [root, bind, Except.bind] at h
  split at h
  · cases h
  · next tag htag => exact ⟨tag, htag⟩

/-- Without a declaration, other pieces or a document type the text starts with the root. -/
private theorem startsConstruct_of_prolog {cs rest : List Char} {entities : List Entity}
    (h : prolog cs = .ok (entities, rest)) :
    StartsConstruct (skipSpaces ((afterPrefix? ['\uFEFF'] cs).getD cs)) ∨
      rest = skipSpaces ((afterPrefix? ['\uFEFF'] cs).getD cs) := by
  simp only [prolog, optionalDeclaration, bind, Except.bind] at h
  generalize (afterPrefix? ['\uFEFF'] cs).getD cs = cs' at h ⊢
  by_cases hdeclaration : startsWith Mark.declaration cs' = true
  · obtain ⟨more, rfl⟩ := startsWith_iff.1 hdeclaration
    exact .inl ⟨_, _, rfl, by simp⟩
  rw [if_neg hdeclaration] at h
  simp only at h
  split at h
  · cases h
  next rest' hmisc =>
  rcases startsConstruct_of_misc hmisc with hstart | rfl
  · exact .inl hstart
  split at h
  · cases h
    exact .inr rfl
  · next inner hdoctype =>
    rw [afterPrefix?_eq_some_iff.1 hdoctype]
    exact .inl (startsConstruct_append ⟨_, _, rfl, by simp⟩ (by decide) inner)

/-- Checked text starts with spaces and a construct. -/
theorem startsConstruct_of_document {cs : List Char} (h : document cs = .ok ()) :
    StartsConstruct (skipSpaces ((afterPrefix? ['\uFEFF'] cs).getD cs)) := by
  cases cs with
  | nil => cases h
  | cons c cs =>
    simp only [document, bind, Except.bind] at h
    split at h
    · cases h
    next r hprolog =>
    obtain ⟨entities, rest⟩ := r
    rcases startsConstruct_of_prolog hprolog with hstart | rfl
    · exact hstart
    simp only at h
    split at h
    · next tail heq =>
      rw [heq]
      split at h
      · cases h
      · next r hroot =>
        obtain ⟨tag, htag⟩ := startTag_of_root hroot
        exact startsConstruct_of_startTag htag
    · simp only [pure, Except.pure] at h
      split at h
      · cases h
      split at h <;> cases h

end Gate

/-! ## The first node that is read -/

namespace Markup

/-- Whether a node is something else than a text, or a text that starts with a space. -/
def StartsSpaced (t : Tree Content) : Prop :=
  ∀ s, t.label.text? = some s → ∃ c cs, s.toList = c :: cs ∧ isSpace c = true

/-- What is written for such a node does not start with a byte order mark. -/
theorem StartsSpaced.head?_ne {t : Tree Content} (h : StartsSpaced t) (rest : List Char) :
    (writeNode t ++ rest).head? ≠ some '\uFEFF' := by
  obtain ⟨c, ts⟩ := t
  cases htext : c.text? with
  | none =>
    rw [head?_writeNode (t := .node c ts) htext]
    decide
  | some s =>
    obtain rfl := Content.eq_text_of_text? htext
    obtain ⟨x, xs, hs, hx⟩ := h s rfl
    have hescape : escapeChar x = [x] := by
      rcases isSpace_cases hx with rfl | rfl | rfl | rfl <;> rfl
    rw [writeNode, hs, escape_cons, hescape, List.append_assoc, List.singleton_append,
      List.head?_cons, ne_eq, Option.some.injEq]
    rintro rfl
    cases hx

/-- Whether the first node of what has been read is finished and starts with a space if it is a
text, or is an element that is still open. -/
def Reading.HasStart (r : Reading) : Prop :=
  (∃ t, r.finished.getLast? = some t ∧ StartsSpaced t) ∨ r.finished = [] ∧ r.opened ≠ []

namespace Reading

theorem HasStart.add {r : Reading} (h : r.HasStart) (t : Tree Content) : (r.add t).HasStart := by
  unfold Reading.add
  split
  · next hopened =>
    obtain ⟨u, hlast, hu⟩ := h.resolve_right fun hr ↦ hr.2 hopened
    exact .inl ⟨u, by rw [List.getLast?_cons, hlast]; rfl, hu⟩
  · next f fs hopened =>
    exact h.imp id fun hr ↦ ⟨hr.1, by simp⟩

theorem HasStart.close {r : Reading} (h : r.HasStart) : r.close.HasStart := by
  unfold Reading.close
  split
  · exact h
  · next f hopened =>
    refine .inl ?_
    rcases h with ⟨u, hlast, hu⟩ | ⟨hfinished, -⟩
    · exact ⟨u, by simp [List.getLast?_append, List.getLast?_cons, hlast], hu⟩
    · refine ⟨f.close, by simp [hfinished], ?_⟩
      intro s hs
      cases hs
  · next f g fs hopened => exact h.imp id fun hr ↦ ⟨hr.1, by simp⟩

theorem HasStart.addDoctype {r : Reading} (h : r.HasStart) (cs : List Char) :
    (r.addDoctype cs).HasStart := by
  simp only [Reading.addDoctype]
  split
  · next hopened =>
    obtain ⟨u, hlast, hu⟩ := h.resolve_right fun hr ↦ hr.2 (List.isEmpty_iff.1 hopened)
    exact .inl ⟨u, by rw [List.getLast?_cons, hlast]; rfl, hu⟩
  · exact h

theorem HasStart.takes {r r' : Reading} {token : Token} (h : r.HasStart)
    (htakes : r.Takes token r') : r'.HasStart := by
  cases htakes with
  | leaf => exact h.add _
  | opened => exact h.imp id fun hr ↦ ⟨hr.1, by simp⟩
  | closed => exact h.close
  | doctype cs => exact h.addDoctype cs

theorem HasStart.closeAll {r : Reading} (h : r.HasStart) (n : Nat) : (r.closeAll n).HasStart :=
  closeAll_invariant (P := HasStart) HasStart.close h n

theorem HasStart.readFrom {r r' : Reading} {offset : Nat} {cs : List Char} (h : r.HasStart)
    (hread : Markup.readFrom r offset cs = .ok r') : r'.HasStart :=
  readFrom_invariant (fun _ htakes hr ↦ hr.takes htakes) h hread

/-- Whether a token is a tag that is not a close tag, a comment, an instruction or a document
type. -/
private def IsConstruct : Token → Prop
  | .text _ => False
  | .cdata _ => False
  | .closeTag => False
  | _ => True

private theorem isConstruct_of_cutConstruct {what : Construct} (hwhat : what ≠ .cdata)
    {closes : List Char → Bool} {offset : Nat} {cs : List Char} {x : Cut}
    (h : cutConstruct what closes offset cs = .ok x) : IsConstruct x.token := by
  unfold cutConstruct at h
  split at h
  · cases h
  simp only at h
  split at h
  · next token htoken =>
    cases h
    unfold Construct.token at htoken
    split at htoken
    · split at htoken <;> cases htoken
      exact trivial
    · exact absurd rfl hwhat
    · split at htoken
      · split at htoken <;> cases htoken
        exact trivial
      · cases htoken
    · cases htoken
  · cases h

private theorem isConstruct_of_cut {cs : List Char} (hcs : Gate.StartsConstruct cs) {offset : Nat}
    {x : Cut} (hcut : cut none offset cs = .ok x) : IsConstruct x.token := by
  obtain ⟨c, more, rfl, hmore⟩ := hcs
  unfold cut at hcut
  split at hcut
  · next rest heq =>
    cases heq
    unfold cutBang at hcut
    split at hcut
    · cases hcut
    next d ds heq =>
    rw [List.drop_one, List.tail_cons] at heq
    subst heq
    split at hcut
    · exact isConstruct_of_cutConstruct (by simp) hcut
    split at hcut
    · next hd => exact absurd (by rw [hd]; rfl) (hmore rfl)
    split at hcut
    · exact isConstruct_of_cutConstruct (by simp) hcut
    · cases hcut
  · cases hcut
  · simp only [cutInstruction] at hcut
    split at hcut <;> cases hcut
    exact trivial
  · unfold cutTag at hcut
    split at hcut
    · cases hcut
    simp only at hcut
    split at hcut <;> (cases hcut; exact trivial)
  · next hne => exact absurd rfl (hne _)

/-- A construct gives a document its start. -/
private theorem hasStart_of_isConstruct {token : Token} (h : IsConstruct token) {r : Reading}
    (htakes : Reading.Takes {} token r) : r.HasStart := by
  have hleaf : ∀ c : Content, c.text? = none → (Reading.addLeaf {} c).HasStart := by
    intro c hc
    refine .inl ⟨.node c [], rfl, fun s hs ↦ ?_⟩
    rw [Tree.label_node, hc] at hs
    cases hs
  cases htakes with
  | leaf hc =>
    refine hleaf _ ?_
    cases hc with
    | text | cdata => cases h
    | element | comment | instruction => rfl
  | opened => exact .inr ⟨rfl, by simp⟩
  | closed => cases h
  | doctype cs => exact hleaf (.doctype (String.ofList (trimStart cs))) rfl

end Reading

/-- Spaces hold no references. -/
private theorem unescape_of_isSpace {cs : List Char} (h : ∀ c ∈ cs, isSpace c = true)
    (entities : Entities) (offset : Nat) : unescape entities offset cs = .ok cs := by
  induction cs generalizing offset with
  | nil => rw [unescape]
  | cons c cs ih =>
    rw [unescape, ih fun x hx ↦ h x (List.mem_cons_of_mem c hx)]
    · rfl
    · rintro rfl
      cases h '&' List.mem_cons_self

private theorem hasStart_of_readFrom_start {cs : List Char}
    (hcs : Gate.StartsConstruct (skipSpaces cs)) {r : Reading}
    (hread : readFrom {} 0 cs = .ok r) : r.HasStart := by
  obtain ⟨spaces, hsplit, hspaces⟩ := exists_append_dropWhile isSpace cs
  rw [← skipSpaces] at hsplit
  -- spaces in front of the construct are read as a text of their own
  by_cases hempty : spaces = []
  · subst hempty
    obtain ⟨c, more, hstart, -⟩ := id hcs
    rw [hsplit, List.nil_append, hstart, readFrom, if_neg (by simp)] at hread
    rw [hstart] at hcs
    split at hread
    · cases hread
    next x hcut =>
    split at hread
    · cases hread
    next r₁ hstep =>
    exact (Reading.hasStart_of_isConstruct (Reading.isConstruct_of_cut hcs hcut)
      (Reading.step_eq_ok_iff.1 hstep)).readFrom hread
  · have hlt : '<' ∉ spaces := notMem_spaces hspaces rfl
    have hrest : (skipSpaces cs).head? = some '<' := by
      obtain ⟨c, more, hstart, -⟩ := hcs
      rw [hstart, List.head?_cons]
    have htext : Reads {} cs (Reading.addLeaf {} (.text (String.ofList spaces))) (skipSpaces cs) := by
      conv => arg 2; rw [hsplit]
      refine reads_of_cuts _ (by simp [hempty]) (cuts_text hempty hlt (.inr hrest) _) ?_
      simp [Reading.step, unescape_of_isSpace hspaces]
    obtain ⟨offset, hoffset⟩ := htext 0
    rw [hoffset] at hread
    have hstart : (Reading.addLeaf {} (.text (String.ofList spaces))).HasStart := by
      refine .inl ⟨_, rfl, fun s hs ↦ ?_⟩
      obtain ⟨x, xs, rfl⟩ := List.exists_cons_of_ne_nil hempty
      cases hs
      exact ⟨x, xs, String.toList_ofList, hspaces x List.mem_cons_self⟩
    exact hstart.readFrom hread

end Markup

/-- **The first node of a checked text** is no text, or a text that starts with a space. -/
theorem startsSpaced_of_read {s : String} {m : Markup} (hcheck : Gate.check s = .ok ())
    (hread : Markup.read s = .ok m) : ∃ t ts, m = t :: ts ∧ Markup.StartsSpaced t := by
  have hdocument : Gate.document s.toList = .ok () := by
    rw [Gate.check] at hcheck
    cases hd : Gate.document s.toList with
    | error =>
      rw [hd] at hcheck
      cases hcheck
    | ok => rfl
  obtain ⟨r, hr, rfl⟩ := Markup.read_eq_ok_iff.1 hread
  have hstart := Markup.hasStart_of_readFrom_start (Gate.startsConstruct_of_document hdocument) hr
  -- nothing is open in the end, so the first node is finished
  obtain ⟨t, hlast, ht⟩ := (hstart.closeAll r.opened.length).resolve_right fun hleft ↦
    hleft.2 r.opened_closeAll_length
  rw [List.getLast?_eq_head?_reverse, List.head?_eq_some_iff] at hlast
  obtain ⟨ts, hts⟩ := hlast
  exact ⟨t, ts, hts, ht⟩

end SvgWorkbench
