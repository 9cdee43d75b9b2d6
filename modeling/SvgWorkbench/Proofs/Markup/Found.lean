import SvgWorkbench.Proofs.Markup.Run
import SvgWorkbench.Proofs.Markup.Settled

/-!
# What the reader finds

Whatever text is read, the markup that comes out of it has a certain form: no element has an
attribute twice, only elements have children, document types stand at the top level, and comments,
instructions and document types hold nothing that would have ended them earlier. The only thing
that is missing for markup to be written and read again are names of XML, and a document type that
is not empty.
-/

namespace SvgWorkbench

namespace Content

/-- Whether the names of an element are names of XML, and a document type is not empty. Other
content has no names. -/
def IsNamed : Content → Prop
  | .element e => e.HasXmlNames
  | .doctype s => s ≠ ""
  | _ => True

instance : (c : Content) → Decidable c.IsNamed
  | .element e => inferInstanceAs (Decidable e.HasXmlNames)
  | .doctype s => inferInstanceAs (Decidable (s ≠ ""))
  | .text _ => inferInstanceAs (Decidable True)
  | .comment _ => inferInstanceAs (Decidable True)
  | .instruction _ => inferInstanceAs (Decidable True)

/-- Whether no attribute value of an element has a tab or a line break. Other content has none. -/
def IsUnbroken : Content → Prop
  | .element e => e.IsUnbroken
  | _ => True

instance : (c : Content) → Decidable c.IsUnbroken
  | .element e => inferInstanceAs (Decidable e.IsUnbroken)
  | .text _ => inferInstanceAs (Decidable True)
  | .comment _ => inferInstanceAs (Decidable True)
  | .instruction _ => inferInstanceAs (Decidable True)
  | .doctype _ => inferInstanceAs (Decidable True)

theorem IsUnbroken.spaced_eq {c : Content} (h : c.IsUnbroken) : c.spaced = c := by
  cases c with
  | element e => rw [spaced_element, Element.IsUnbroken.spaced_eq h]
  | _ => rfl

end Content

namespace Markup

open Text Xml SvgWorkbench.Tree

/-! ## The form of markup that was read -/

mutual

/-- Whether a node has the form of those that are read; `top` tells whether it stands at the top
level. -/
def IsRead (top : Bool) : Tree Content → Prop
  | .node (.element e) ts => e.keys.Nodup ∧ AreRead false ts
  | .node (.text _) ts => ts = []
  | .node (.comment s) ts => IsComment s.toList ∧ ts = []
  | .node (.instruction s) ts => IsInstruction s.toList ∧ ts = []
  | .node (.doctype s) ts => top = true ∧ (s = "" ∨ IsDoctype s.toList) ∧ ts = []

/-- Whether the nodes of a forest have the form of those that are read. -/
def AreRead (top : Bool) : List (Tree Content) → Prop
  | [] => True
  | t :: ts => IsRead top t ∧ AreRead top ts

end

theorem areRead_iff {top : Bool} {ts : List (Tree Content)} :
    AreRead top ts ↔ ∀ t ∈ ts, IsRead top t := by
  induction ts with
  | nil => simp [AreRead]
  | cons t ts ih => rw [AreRead, ih, List.forall_mem_cons]

theorem IsRead.of_false {t : Tree Content} (h : IsRead false t) (top : Bool) : IsRead top t := by
  match t, h with
  | .node (.element _) _, h => exact h
  | .node (.text _) _, h => exact h
  | .node (.comment _) _, h => exact h
  | .node (.instruction _) _, h => exact h
  | .node (.doctype _) _, h => cases h.1

/-- Only elements have children. -/
theorem IsRead.eq_nil {top : Bool} {c : Content} {ts : List (Tree Content)}
    (h : IsRead top (.node c ts)) (hc : c.isElement = false) : ts = [] := by
  cases c with
  | element e => cases hc
  | text s => exact h
  | comment s => exact h.2
  | instruction s => exact h.2
  | doctype s => exact h.2.2

mutual

/-- No element that was read has an attribute twice. -/
theorem IsRead.nodup_keys {top : Bool} {t : Tree Content} (h : IsRead top t) :
    ∀ e, .element e ∈ t.preorder → e.keys.Nodup := by
  intro e he
  match t with
  | .node c ts =>
    rw [preorder, List.mem_cons] at he
    cases c with
    | element e' =>
      rcases he with heq | he
      · cases heq
        exact h.1
      · exact AreRead.nodup_keys h.2 e he
    | text | comment | instruction | doctype =>
      obtain rfl := h.eq_nil rfl
      rcases he with heq | he
      · cases heq
      · cases he

theorem AreRead.nodup_keys {top : Bool} {ts : List (Tree Content)} (h : AreRead top ts) :
    ∀ e, .element e ∈ preorderAll ts → e.keys.Nodup := by
  intro e he
  match ts with
  | [] => cases he
  | t :: ts =>
    rcases List.mem_append.1 he with he | he
    · exact IsRead.nodup_keys h.1 e he
    · exact AreRead.nodup_keys h.2 e he

end

mutual

/-- Document types stand at the top level only. -/
theorem IsRead.doctype_notMem {t : Tree Content} (h : IsRead false t) (s : String) :
    .doctype s ∉ t.preorder := by
  match t, h with
  | .node (.element e) ts, h =>
    rw [preorder, List.mem_cons, not_or]
    exact ⟨nofun, AreRead.doctype_notMem h.2 s⟩
  | .node (.text _) _, rfl => exact fun hmem ↦ nomatch List.mem_singleton.1 hmem
  | .node (.comment _) _, ⟨_, rfl⟩ => exact fun hmem ↦ nomatch List.mem_singleton.1 hmem
  | .node (.instruction _) _, ⟨_, rfl⟩ => exact fun hmem ↦ nomatch List.mem_singleton.1 hmem
  | .node (.doctype _) _, h => cases h.1

theorem AreRead.doctype_notMem {ts : List (Tree Content)} (h : AreRead false ts) (s : String) :
    .doctype s ∉ preorderAll ts := by
  match ts with
  | [] => exact nofun
  | t :: ts =>
    rw [preorderAll, List.mem_append, not_or]
    exact ⟨IsRead.doctype_notMem h.1 s, AreRead.doctype_notMem h.2 s⟩

end

/-- So without one there is none. -/
theorem AreRead.of_label_ne {ts : List (Tree Content)} (h : AreRead true ts)
    (hdoctype : ∀ t ∈ ts, ∀ s, t.label ≠ .doctype s) : AreRead false ts := by
  rw [areRead_iff] at h ⊢
  intro t ht
  match t, h t ht, hdoctype t ht with
  | .node (.element _) _, h, _ => exact h
  | .node (.text _) _, h, _ => exact h
  | .node (.comment _) _, h, _ => exact h
  | .node (.instruction _) _, h, _ => exact h
  | .node (.doctype s) _, _, hne => exact absurd rfl (hne s)

mutual

/-- Markup that was read can be written and read again if its names are names of XML. -/
theorem IsRead.isWritable {top : Bool} {t : Tree Content} (h : IsRead top t)
    (hnamed : ∀ c ∈ t.preorder, c.IsNamed) : IsWritable top t := by
  match t, h with
  | .node (.element e) ts, h =>
    rw [preorder, List.forall_mem_cons] at hnamed
    exact ⟨⟨hnamed.1, h.1⟩, AreRead.areWritable h.2 hnamed.2⟩
  | .node (.text _) _, _ => exact trivial
  | .node (.comment _) _, h => exact h.1
  | .node (.instruction _) _, h => exact h.1
  | .node (.doctype s) ts, h =>
    rw [preorder, List.forall_mem_cons] at hnamed
    exact ⟨h.1, h.2.1.resolve_left hnamed.1⟩

theorem AreRead.areWritable {top : Bool} {ts : List (Tree Content)} (h : AreRead top ts)
    (hnamed : ∀ c ∈ preorderAll ts, c.IsNamed) : AreWritable top ts := by
  match ts, h with
  | [], _ => exact trivial
  | t :: ts, h =>
    rw [preorderAll, List.forall_mem_append] at hnamed
    exact ⟨IsRead.isWritable h.1 hnamed.1, AreRead.areWritable h.2 hnamed.2⟩

end

/-! ## Tokens -/

/-- Whether a token holds what the reader finds in a construct of its kind. -/
def Token.IsFound : Token → Prop
  | .comment cs => IsComment cs
  | .instruction cs => IsInstruction cs
  | .doctype cs => trimStart cs = [] ∨ IsDoctype (trimStart cs)
  | _ => True

private theorem isFound_comment {cs body rest : List Char} {token : Token}
    (hend : cutAtEnd endsComment [] cs = some (body, rest))
    (htoken : Construct.comment.token body = .ok token) : token.IsFound := by
  simp only [Construct.token] at htoken
  split at htoken
  · next text heq =>
    cases htoken
    obtain rfl := afterPrefix?_eq_some_iff.1 heq
    obtain ⟨inside, hinside, rfl, -⟩ := cutAtEnd_eq_some_iff.1 hend
    rw [List.reverse_nil, List.nil_append] at hinside
    rw [← hinside] at hend
    obtain ⟨s, hs, hbody, -⟩ := cutAtEnd_comment_iff.1 hend
    obtain rfl : text = s ++ ['-', '-'] := by simpa [Mark.openComment] using hbody
    simpa [Token.IsFound] using hs
  · cases htoken

/-- Angle brackets are neither blank nor letters of a word. -/
private theorem count_eq_zero {x : Char} (hx : x = '<' ∨ x = '>') {word front blanks : List Char}
    (hword : front.map asciiLower = (Mark.doctype.drop 1).map asciiLower)
    (hspaces : ∀ c ∈ word, isSpace c = true) (hblanks : ∀ c ∈ blanks, isBlank c = true) :
    (front ++ word ++ blanks).count x = 0 := by
  rw [List.count_eq_zero]
  intro hmem
  rcases List.mem_append.1 hmem with hmem | hmem
  · rcases List.mem_append.1 hmem with hmem | hmem
    · have hlower : asciiLower x ∈ (Mark.doctype.drop 1).map asciiLower :=
        hword ▸ List.mem_map_of_mem hmem
      rcases hx with rfl | rfl <;> (revert hlower; decide)
    · have := hspaces x hmem
      rcases hx with rfl | rfl <;> cases this
  · have := hblanks x hmem
    rcases hx with rfl | rfl <;> cases this

private theorem isFound_doctype {cs body rest : List Char} {token : Token}
    (hend : cutAtEnd endsDoctype [] cs = some (body, rest))
    (htoken : Construct.doctype.token body = .ok token) : token.IsFound := by
  simp only [Construct.token] at htoken
  split at htoken
  case h_2 => cases htoken
  next text heq =>
  split at htoken
  · cases htoken
  cases htoken
  rw [afterWord?] at heq
  split at heq
  case isFalse => cases heq
  next hword =>
  cases heq
  -- the word and the blanks after it have no brackets, so the balance is that of the rest
  obtain ⟨spaces, hspaces, hspaces'⟩ := exists_append_dropWhile isSpace
    (body.drop (Mark.doctype.drop 1).length)
  obtain ⟨blanks, hblanks, hblanks'⟩ := exists_append_dropWhile isBlank
    (skipSpaces (body.drop (Mark.doctype.drop 1).length))
  have hbody : body = body.take (Mark.doctype.drop 1).length ++ spaces ++ blanks
      ++ trimStart (skipSpaces (body.drop (Mark.doctype.drop 1).length)) := by
    rw [List.append_assoc _ blanks, trimStart, ← hblanks, List.append_assoc, skipSpaces, ← hspaces,
      List.take_append_drop]
  obtain ⟨inside, hinside, rfl, hcloses, hfirst⟩ := cutAtEnd_eq_some_iff.1 hend
  rw [List.reverse_nil, List.nil_append] at hinside
  subst hinside
  have hlt := count_eq_zero (.inl rfl) hword hspaces' hblanks'
  have hgt := count_eq_zero (.inr rfl) hword hspaces' hblanks'
  have hstart := List.head?_dropWhile_not isBlank
    (skipSpaces (body.drop (Mark.doctype.drop 1).length))
  rw [← trimStart] at hstart
  rw [Token.IsFound]
  generalize List.take _ body ++ spaces ++ blanks = front at hbody hlt hgt
  generalize trimStart _ = t at hbody hstart ⊢
  subst hbody
  have hfront : ∀ ds, endsDoctype ((front ++ ds).reverse ++ []) = endsDoctype ds.reverse := by
    intro ds
    rw [List.append_nil, List.reverse_append, endsDoctype_append]
    · rw [List.count_reverse, hlt]
    · rw [List.count_reverse, hgt]
  cases t with
  | nil => exact .inl rfl
  | cons c more =>
    refine .inr ⟨⟨c, more, rfl, hstart⟩, (hfront _).symm.trans hcloses, fun a b hab ↦ ?_⟩
    rw [← hfront]
    exact hfirst (front ++ a) b (by rw [hab, List.append_assoc])

private theorem isFound_instruction {cs : List Char} {offset : Nat} {x : Cut}
    (h : cutInstruction offset cs = .ok x) : x.token.IsFound := by
  simp only [cutInstruction] at h
  split at h
  · next hbody =>
    cases h
    rw [Bool.and_eq_true, decide_eq_true_eq] at hbody
    constructor
    · intro hnil
      have := congrArg List.length hnil
      simp only [List.length_dropLast, List.length_drop, List.length_nil] at this
      omega
    · intro hmem
      have hmem' := List.mem_of_mem_drop (List.dropLast_subset _ hmem)
      simpa using List.all_eq_true.1 List.all_takeWhile _ hmem'
  · cases h

private theorem isFound_cdata {body : List Char} {token : Token}
    (htoken : Construct.cdata.token body = .ok token) : token.IsFound := by
  simp only [Construct.token] at htoken
  split at htoken <;> cases htoken
  exact trivial

private theorem parts_of_cutConstruct {what : Construct} {closes : List Char → Bool} {offset : Nat}
    {cs : List Char} {x : Cut} (h : cutConstruct what closes offset cs = .ok x) :
    ∃ body, cutAtEnd closes [] cs = some (body, x.rest) ∧ what.token body = .ok x.token := by
  unfold cutConstruct at h
  split at h
  · cases h
  next body rest hend =>
  simp only at h
  split at h
  · next token htoken =>
    cases h
    exact ⟨body, hend, htoken⟩
  · cases h

private theorem isFound_bang {offset : Nat} {cs : List Char} {x : Cut}
    (h : cutBang offset cs = .ok x) : x.token.IsFound := by
  unfold cutBang at h
  split at h
  · cases h
  split at h
  · obtain ⟨body, hend, htoken⟩ := parts_of_cutConstruct h
    exact isFound_comment hend htoken
  split at h
  · obtain ⟨body, -, htoken⟩ := parts_of_cutConstruct h
    exact isFound_cdata htoken
  split at h
  · obtain ⟨body, hend, htoken⟩ := parts_of_cutConstruct h
    exact isFound_doctype hend htoken
  · cases h

private theorem isFound_closeTag {innermost : Option String} {offset : Nat} {cs : List Char}
    {x : Cut} (h : cutCloseTag innermost offset cs = .ok x) : x.token.IsFound := by
  simp only [cutCloseTag] at h
  split at h
  · cases h
  split at h <;> cases h
  exact trivial

private theorem isFound_tag {offset : Nat} {cs : List Char} {x : Cut}
    (h : cutTag offset cs = .ok x) : x.token.IsFound := by
  unfold cutTag at h
  split at h
  · cases h
  simp only at h
  split at h <;> (cases h; exact trivial)

/-- **Every token holds what the reader finds in a construct of its kind.** -/
theorem isFound_of_cut {innermost : Option String} {offset : Nat} {cs : List Char} {x : Cut}
    (h : cut innermost offset cs = .ok x) : x.token.IsFound := by
  unfold cut at h
  split at h
  · exact isFound_bang h
  · exact isFound_closeTag h
  · exact isFound_instruction h
  · exact isFound_tag h
  · cases h
    exact trivial

/-! ## Attributes -/

/-- No attribute that is read has a name that was there before, and none has that of another. -/
private theorem nodup_of_readAttributes {entities : Entities} {seen : List (List Char × Nat)}
    {offset : Nat} {cs : List Char} {as : List (String × String)}
    (h : readAttributes entities seen offset cs = .ok as) :
    (as.map Prod.fst).Nodup ∧ ∀ p ∈ seen, ∀ a ∈ as, p.1 ≠ a.1.toList := by
  fun_induction readAttributes entities seen offset cs generalizing as
  case case1 =>
    cases h
    simp
  case case7 hnew _ _ _ _ _ _ _ _ _ _ _ ih =>
    simp only [bind, Except.bind, pure, Except.pure] at h
    split at h
    · cases h
    next others hothers =>
    cases h
    obtain ⟨hnodup, hseen⟩ := ih hothers
    refine ⟨?_, fun p hp a ha ↦ ?_⟩
    · rw [List.map_cons, List.nodup_cons]
      refine ⟨fun hmem ↦ ?_, hnodup⟩
      obtain ⟨a, ha, heq⟩ := List.mem_map.1 hmem
      exact hseen _ List.mem_cons_self a ha (by rw [heq, String.toList_ofList])
    · rcases List.mem_cons.1 ha with rfl | ha
      · rw [List.find?_eq_none] at hnew
        simpa using hnew p hp
      · exact hseen p (List.mem_cons_of_mem _ hp) a ha
  all_goals cases h

/-- No element that is read has an attribute twice. -/
theorem nodup_keys_of_readElement {entities : Entities} {body : List Char} {e : Element}
    (h : readElement entities body = .ok e) : e.keys.Nodup := by
  simp only [readElement, bind, Except.bind, pure, Except.pure] at h
  split at h
  · cases h
  · next hattributes =>
    cases h
    exact (nodup_of_readAttributes hattributes).1

/-! ## States of the reader -/

/-- Whether everything that has been read so far has the form of what is read. -/
structure Reading.IsSound (r : Reading) : Prop where
  /-- The finished nodes have it. -/
  finished : AreRead true r.finished
  /-- The open elements and their children have it. -/
  opened : ∀ f ∈ r.opened, f.element.keys.Nodup ∧ AreRead false f.children
  /-- The document types that wait have it. -/
  waiting : AreRead true r.waiting

namespace Reading

theorem IsSound.add {r : Reading} (h : r.IsSound) {t : Tree Content} (ht : IsRead false t) :
    (r.add t).IsSound := by
  unfold Reading.add
  split
  · exact ⟨⟨ht.of_false true, h.finished⟩, h.opened, h.waiting⟩
  · next f fs hopened =>
    have hf := h.opened f (by rw [hopened]; exact List.mem_cons_self)
    refine ⟨h.finished, fun g hg ↦ ?_, h.waiting⟩
    rcases List.mem_cons.1 hg with rfl | hg
    · exact ⟨hf.1, ht, hf.2⟩
    · exact h.opened g (by rw [hopened]; exact List.mem_cons_of_mem f hg)

private theorem isRead_close {f : Frame} (h : f.element.keys.Nodup ∧ AreRead false f.children)
    (top : Bool) : IsRead top f.close := by
  refine ⟨h.1, areRead_iff.2 fun t ht ↦ areRead_iff.1 h.2 t (List.mem_reverse.1 ht)⟩

theorem IsSound.close {r : Reading} (h : r.IsSound) : r.close.IsSound := by
  unfold Reading.close
  split
  · exact h
  · next f hopened =>
    have hf := h.opened f (by rw [hopened]; exact List.mem_cons_self)
    refine ⟨areRead_iff.2 fun t ht ↦ ?_, by simp, trivial⟩
    rcases List.mem_append.1 ht with ht | ht
    · exact areRead_iff.1 h.waiting t ht
    · rcases List.mem_cons.1 ht with rfl | ht
      · exact isRead_close hf true
      · exact areRead_iff.1 h.finished t ht
  · next f g fs hopened =>
    have hf := h.opened f (by simp [hopened])
    have hg := h.opened g (by simp [hopened])
    refine ⟨h.finished, fun k hk ↦ ?_, h.waiting⟩
    rcases List.mem_cons.1 hk with rfl | hk
    · exact ⟨hg.1, isRead_close hf false, hg.2⟩
    · exact h.opened k (by simp [hopened, hk])

theorem IsSound.addDoctype {r : Reading} (h : r.IsSound) {cs : List Char}
    (hcs : trimStart cs = [] ∨ IsDoctype (trimStart cs)) : (r.addDoctype cs).IsSound := by
  have ht : IsRead true (.node (.doctype (String.ofList (trimStart cs))) []) := by
    refine ⟨rfl, hcs.imp (fun hnil ↦ by rw [hnil, String.ofList_nil]) fun hd ↦ ?_, rfl⟩
    rwa [String.toList_ofList]
  unfold Reading.addDoctype
  simp only
  split
  · exact ⟨⟨ht, h.finished⟩, h.opened, h.waiting⟩
  · exact ⟨h.finished, h.opened, ⟨ht, h.waiting⟩⟩

/-- A leaf has the form of what is read, inside an element as well. -/
private theorem isRead_leaf {entities : Entities} {token : Token} {c : Content}
    (h : token.IsLeaf entities c) (htoken : token.IsFound) : IsRead false (.node c []) := by
  cases h with
  | text | cdata => rfl
  | element he => exact ⟨nodup_keys_of_readElement he, trivial⟩
  | comment | instruction => exact ⟨by rwa [String.toList_ofList], rfl⟩

/-- **Step law.** A token keeps the form of what has been read. -/
theorem IsSound.takes {r r' : Reading} {token : Token} (h : r.IsSound) (htoken : token.IsFound)
    (htakes : r.Takes token r') : r'.IsSound := by
  cases htakes with
  | leaf hleaf => exact h.add (isRead_leaf hleaf htoken)
  | opened he =>
    refine ⟨h.finished, fun f hf ↦ ?_, h.waiting⟩
    rcases List.mem_cons.1 hf with rfl | hf
    · exact ⟨nodup_keys_of_readElement he, trivial⟩
    · exact h.opened f hf
  | closed => exact h.close
  | doctype => exact h.addDoctype htoken

theorem IsSound.closeAll {r : Reading} (h : r.IsSound) (n : Nat) : (r.closeAll n).IsSound :=
  closeAll_invariant (P := IsSound) IsSound.close h n

/-- What is read of a text keeps its form. -/
theorem IsSound.readFrom {r r' : Reading} {offset : Nat} {cs : List Char} (h : r.IsSound)
    (hread : Markup.readFrom r offset cs = .ok r') : r'.IsSound :=
  readFrom_invariant (fun hcut htakes hr ↦ hr.takes (isFound_of_cut hcut) htakes) h hread

end Reading

/-- **Markup that was read has the form of what is read.** -/
theorem areRead_of_read {s : String} {m : Markup} (h : read s = .ok m) : AreRead true m := by
  obtain ⟨r, hread, rfl⟩ := read_eq_ok_iff.1 h
  have hempty : Reading.IsSound {} := ⟨trivial, by simp, trivial⟩
  have hsound := (hempty.readFrom hread).closeAll r.opened.length
  exact areRead_iff.2 fun t ht ↦ areRead_iff.1 hsound.finished t (List.mem_reverse.1 ht)

end Markup

end SvgWorkbench
