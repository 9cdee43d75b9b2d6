import SvgWorkbench.Proofs.Gate.Lexeme
import SvgWorkbench.Proofs.Markup.Contents
import SvgWorkbench.Proofs.Markup.Cut

/-!
# Strange names in tags

A text that stands in a tag where the name of an attribute should stand may be more than a name: it
may start with the end of the tag, or with an attribute of its own. If it is not, it is a name with
spaces around it, or what is read has names that are no names of XML. This is about what can be read,
wherever it stands in the text, so the places of faults do not matter.
-/

namespace SvgWorkbench.Markup

open Text Xml

/-! ## Results have no place -/

section Places

variable {innermost : Option String} {offset : Nat} {cs : List Char} {x : Cut}

private theorem cutConstruct_eq_ok {what : Construct} {closes : List Char → Bool}
    (h : cutConstruct what closes offset cs = .ok x) (offset' : Nat) :
    cutConstruct what closes offset' cs = .ok x := by
  rw [cutConstruct] at h ⊢
  split at h
  · cases h
  · dsimp only at h ⊢
    split at h
    · exact h
    · cases h

private theorem cutBang_eq_ok (h : cutBang offset cs = .ok x) (offset' : Nat) :
    cutBang offset' cs = .ok x := by
  rw [cutBang] at h ⊢
  split at h
  · cases h
  split at h
  · next hc => rw [if_pos hc]; exact cutConstruct_eq_ok h offset'
  next hc =>
  rw [if_neg hc]
  split at h
  · next hc' => rw [if_pos hc']; exact cutConstruct_eq_ok h offset'
  next hc' =>
  rw [if_neg hc']
  split at h
  · next hc'' => rw [if_pos hc'']; exact cutConstruct_eq_ok h offset'
  · cases h

private theorem cutCloseTag_eq_ok (h : cutCloseTag innermost offset cs = .ok x) (offset' : Nat) :
    cutCloseTag innermost offset' cs = .ok x := by
  unfold cutCloseTag at h ⊢
  simp only at h ⊢
  split at h
  · cases h
  split at h
  · next hfound => rw [if_pos hfound]; exact h
  · cases h

private theorem cutInstruction_eq_ok (h : cutInstruction offset cs = .ok x) (offset' : Nat) :
    cutInstruction offset' cs = .ok x := by
  unfold cutInstruction at h ⊢
  simp only at h ⊢
  split at h
  · next hends => rw [if_pos hends]; exact h
  · cases h

private theorem cutTag_eq_ok (h : cutTag offset cs = .ok x) (offset' : Nat) :
    cutTag offset' cs = .ok x := by
  rw [cutTag] at h ⊢
  split at h
  · cases h
  · exact h

/-- What is cut off does not depend on where the text starts. -/
theorem cut_eq_ok (h : cut innermost offset cs = .ok x) (offset' : Nat) :
    cut innermost offset' cs = .ok x := by
  rw [cut.eq_def] at h ⊢
  split at h
  · exact cutBang_eq_ok h offset'
  · exact cutCloseTag_eq_ok h offset'
  · exact cutInstruction_eq_ok h offset'
  · exact cutTag_eq_ok h offset'
  · exact h

/-- What is read does not depend on where the text starts. -/
theorem readFrom_eq_ok {r r' : Reading} (h : readFrom r offset cs = .ok r') (offset' : Nat) :
    readFrom r offset' cs = .ok r' := by
  fun_induction readFrom r offset cs generalizing offset' with
  | case1 => rw [readFrom]; exact h
  | case2 r offset c rest hend => rw [readFrom, if_pos hend]; exact h
  | case3 => cases h
  | case4 => cases h
  | case5 r offset c rest hend x hcut r₁ hstep ih =>
    rw [readFrom, if_neg hend]
    split
    · next fault hfault => cases hfault.symm.trans (cut_eq_ok hcut offset')
    · next x' hcut' =>
      cases hcut'.symm.trans (cut_eq_ok hcut offset')
      rw [hstep]
      exact ih h _

end Places

/-! ## Names and more than names -/

/-- Whether a text is a name with nothing but spaces around it. -/
def IsPadded (name cs : List Char) : Prop :=
  ∃ left right, cs = left ++ name ++ right ∧ ∀ c ∈ left ++ right, isSpace c = true

theorem isPadded_self (name : List Char) : IsPadded name name := ⟨[], [], by simp, nofun⟩

/-- Spaces around the name of an attribute are no parts of a tag. -/
theorem IsPadded.tagParts {name key : String} (h : IsPadded name.toList key.toList)
    (hname : IsName name.toList) (value : String) :
    TagParts (writeAttribute (key, value)) [(name.toList, escape value.toList)] := by
  obtain ⟨left, right, hkey, hspaces⟩ := h
  rw [List.forall_mem_append] at hspaces
  have hleft : ∀ c ∈ ' ' :: left, isSpace c = true := List.forall_mem_cons.2 ⟨rfl, hspaces.1⟩
  have hparts := TagParts.cons hleft (List.cons_ne_nil _ _) hname hspaces.2 (List.forall_mem_nil _)
    (.inl rfl) (quote_notMem_escape value.toList) (.nil (List.forall_mem_nil _))
  simpa [writeAttribute, hkey] using hparts

/-- Whether a text starts with an attribute of a name, up to the quote of its value. -/
def StartsAttribute (name cs : List Char) : Prop :=
  ∃ left between after quote more, cs = left ++ name ++ between ++ '=' :: (after ++ quote :: more) ∧
    IsName name ∧ (∀ c ∈ left ++ between ++ after, isSpace c = true) ∧ (quote = '"' ∨ quote = '\x27')

/-- Whether a text is more than a name where it stands in a tag as one: after spaces it starts with
the end of the tag, or with an attribute and the quote of its value. -/
def BreaksOut (cs : List Char) : Prop :=
  (∃ left more, (cs = left ++ '>' :: more ∨ cs = left ++ '/' :: '>' :: more) ∧
    ∀ c ∈ left, isSpace c = true) ∨ ∃ name, StartsAttribute name cs

section Shapes

variable {name cs ds : List Char}

/-- Two signs are in every text that is more than a name. -/
theorem BreaksOut.mem (h : BreaksOut cs) : '=' ∈ cs ∨ '>' ∈ cs := by
  rcases h with ⟨left, more, rfl | rfl, -⟩ | ⟨name, left, between, after, quote, more, rfl, -⟩ <;> simp

theorem StartsAttribute.append (h : StartsAttribute name cs) (ds : List Char) :
    StartsAttribute name (cs ++ ds) := by
  obtain ⟨left, between, after, quote, more, rfl, h⟩ := h
  exact ⟨left, between, after, quote, more ++ ds, by simp, h⟩

theorem StartsAttribute.of_cons (h : StartsAttribute name (' ' :: cs)) : StartsAttribute name cs := by
  obtain ⟨left, between, after, quote, more, hcs, hname, hspaces, hquote⟩ := h
  cases left with
  | nil =>
    obtain ⟨c, rest, rfl, hc, -⟩ := hname
    cases (List.cons.inj hcs).1
    cases hc
  | cons c left =>
    exact ⟨left, between, after, quote, more, (List.cons.inj hcs).2, hname,
      fun x hx ↦ hspaces x (List.mem_cons_of_mem c hx), hquote⟩

/-- An attribute that starts before an equals sign is a name with spaces around it there, or has its
own equals sign and its quote before. -/
theorem StartsAttribute.of_append_equals (h : StartsAttribute name (cs ++ '=' :: ds)) :
    IsPadded name cs ∨ StartsAttribute name cs := by
  obtain ⟨left, between, after, quote, more, hcs, hname, hspaces, hquote⟩ := h
  obtain ⟨hsides, hafter⟩ := List.forall_mem_append.1 hspaces
  rw [List.forall_mem_append] at hsides
  have hequals : ∀ {xs : List Char}, (∀ c ∈ xs, isSpace c = true) → '=' ∉ xs :=
    fun hxs hmem ↦ Bool.false_ne_true (hxs '=' hmem)
  have hquote' : quote ≠ '=' := by rcases hquote with rfl | rfl <;> decide
  rcases List.append_eq_append_iff.1 hcs with ⟨as, hleft, has⟩ | ⟨bs, hleft, hbs⟩
  · cases as with
    | nil => exact .inl ⟨left, between, by simpa using hleft.symm, List.forall_mem_append.2 hsides⟩
    | cons a as =>
      -- the name and what is around it hold no equals sign
      obtain ⟨rfl, -⟩ := List.cons.inj has
      have hmem : '=' ∈ left ++ name ++ between := hleft ▸ List.mem_append_right _ List.mem_cons_self
      rw [List.mem_append, List.mem_append] at hmem
      rcases hmem with (hmem | hmem) | hmem
      · exact absurd hmem (hequals hsides.1)
      · exact absurd hmem (hname.notMem rfl)
      · exact absurd hmem (hequals hsides.2)
  · cases bs with
    | nil => exact .inl ⟨left, between, by simpa using hleft, List.forall_mem_append.2 hsides⟩
    | cons b bs =>
      rw [List.cons_append, List.cons.injEq] at hbs
      obtain ⟨rfl, hbs⟩ := hbs
      rcases List.append_eq_append_iff.1 hbs with ⟨as, rfl, has⟩ | ⟨bs', rfl, hbs'⟩
      · cases as with
        | nil => exact absurd (List.cons.inj has).1 hquote'
        | cons a as =>
          obtain ⟨rfl, -⟩ := List.cons.inj has
          exact .inr ⟨left, between, after, quote, as, hleft, hname, hspaces, hquote⟩
      · cases bs' with
        | nil => exact absurd (List.cons.inj hbs').1.symm hquote'
        | cons b bs' =>
          obtain ⟨rfl, -⟩ := List.cons.inj hbs'
          exact absurd (List.mem_append_right _ List.mem_cons_self) (hequals hafter)

end Shapes

/-! ## Strange names in tags -/

section Names

variable {entities : Entities} {seen : List (List Char × Nat)} {offset : Nat}
  {as bs : List (String × String)} {cs more : List Char}

/-- What is cut off ends at a greater-than sign. -/
private theorem eq_of_cutTagBody {quote : Option Char} {cs body rest : List Char}
    (h : cutTagBody quote cs = some (body, rest)) : cs = body ++ '>' :: rest := by
  induction cs generalizing quote body with
  | nil => cases h
  | cons c cs ih =>
    rw [cutTagBody.eq_def] at h
    dsimp only at h
    split at h
    · next hend =>
      cases h
      rw [hend.2, List.nil_append]
    · obtain ⟨⟨body, rest⟩, hcut, heq⟩ := Option.map_eq_some_iff.1 h
      cases heq
      rw [ih hcut, List.cons_append]

/-- A tag goes on behind what holds no greater-than sign and no slash at its end. -/
private theorem exists_of_cutTag_append {ds : List Char} {x : Cut} (hcs : '>' ∉ cs)
    (hlast : cs.getLast? ≠ some '/') (h : cutTag offset (cs ++ ds) = .ok x) :
    ∃ tail rest, (x.token = .openTag (cs ++ tail) ∧ ds = tail ++ '>' :: rest) ∨
      (x.token = .emptyTag (cs ++ tail) ∧ ds = tail ++ '/' :: '>' :: rest) := by
  rw [cutTag] at h
  split at h
  · cases h
  next body rest hcut =>
  obtain ⟨tail, rfl, rfl⟩ : ∃ tail, body = cs ++ tail ∧ ds = tail ++ '>' :: rest := by
    rcases List.append_eq_append_iff.1 (eq_of_cutTagBody hcut) with ⟨as, rfl, rfl⟩ | ⟨as, rfl, has⟩
    · exact ⟨as, rfl, rfl⟩
    · cases as with
      | nil => exact ⟨[], by simp, has.symm⟩
      | cons a as =>
        obtain ⟨rfl, -⟩ := List.cons.inj has
        exact absurd (List.mem_append_right _ List.mem_cons_self) hcs
  dsimp only at h
  split at h
  · next hslash =>
    cases h
    rcases List.eq_nil_or_concat tail with rfl | ⟨tail, c, rfl⟩
    · rw [List.append_nil, beq_iff_eq] at hslash
      exact absurd hslash hlast
    · obtain rfl : c = '/' := by simpa [← List.append_assoc] using hslash
      refine ⟨tail, rest, .inr ⟨?_, by simp⟩⟩
      simp [← List.append_assoc]
  · cases h
    exact ⟨tail, rest, .inl ⟨rfl, rfl⟩⟩

/-- **What is read as attributes** is nothing but spaces, or starts with an attribute whose name is
new, as far as what is read has names of XML. -/
private theorem startsAttribute_of_readAttributes
    (h : readAttributes entities seen offset cs = .ok bs) (hnames : ∀ b ∈ bs, IsName b.1.toList) :
    (∀ c ∈ cs, isSpace c = true) ∨
      ∃ name : String, StartsAttribute name.toList cs ∧ ∀ p ∈ seen, p.1 ≠ name.toList := by
  obtain ⟨left, hleft, hspaces⟩ := exists_append_dropWhile isSpace cs
  rw [readAttributes.eq_def] at h
  split at h
  · next hskip =>
    left
    rwa [hleft, show cs.dropWhile isSpace = [] from hskip, List.append_nil]
  next k tail hskip =>
  dsimp only at h
  split at h
  case h_2 => cases h
  next afterEquals hequals =>
  split at h
  · cases h
  next hnew =>
  have hnew' : ∀ p ∈ seen, p.1 ≠ k :: tail.takeWhile fun c ↦ c != '=' && !isSpace c := by
    simpa [List.find?_eq_none] using hnew
  split at h
  · cases h
  next q value hquote =>
  split at h
  · cases h
  next hq =>
  split at h
  · cases h
  split at h
  · cases h
  obtain ⟨others, -, hbs⟩ := Gate.bind_eq_ok_iff.1 h
  cases hbs
  have hname := hnames _ List.mem_cons_self
  obtain ⟨between, hbetween, hblank⟩ :=
    exists_append_dropWhile isSpace (tail.dropWhile fun c ↦ c != '=' && !isSpace c)
  obtain ⟨after, hafter, hblank'⟩ := exists_append_dropWhile isSpace afterEquals
  rw [show List.dropWhile isSpace _ = _ from hequals] at hbetween
  rw [show List.dropWhile isSpace _ = _ from hquote] at hafter
  refine .inr ⟨_, ⟨left, between, after, q, value, ?_, hname, ?_, ?_⟩, ?_⟩
  · rw [String.toList_ofList, hleft, show cs.dropWhile isSpace = k :: tail from hskip, ← hafter,
      List.append_assoc, List.append_assoc, List.cons_append, ← hbetween,
      List.takeWhile_append_dropWhile]
  · exact List.forall_mem_append.2 ⟨List.forall_mem_append.2 ⟨hspaces, hblank⟩, hblank'⟩
  · exact Decidable.or_iff_not_not_and_not.2 hq
  · rwa [String.toList_ofList]

/-- Written attributes are passed over, whatever follows them, and their names have been seen. -/
theorem exists_readAttributes_of_append (has : ∀ a ∈ as, IsName a.1.toList)
    (h : readAttributes entities seen offset (as.flatMap writeAttribute ++ more) = .ok bs) :
    ∃ seen' offset' cs, readAttributes entities seen' offset' more = .ok cs ∧ (∀ c ∈ cs, c ∈ bs) ∧
      seen ⊆ seen' ∧ ∀ a ∈ as, ∃ place, (a.1.toList, place) ∈ seen' := by
  induction as generalizing seen offset bs with
  | nil => exact ⟨seen, offset, bs, h, fun _ hc ↦ hc, List.Subset.refl _, List.forall_mem_nil _⟩
  | cons a as ih =>
    obtain ⟨ha, has⟩ := List.forall_mem_cons.1 has
    have hspace : ∀ c ∈ [' '], isSpace c = true := by simp [isSpace]
    obtain ⟨start, place, hiff⟩ := readAttributes_part entities seen offset hspace ha
      (List.forall_mem_nil _) (List.forall_mem_nil _) (.inl rfl) (quote_notMem_escape a.2.toList)
      (as.flatMap writeAttribute ++ more)
    have hwritten : (a :: as).flatMap writeAttribute ++ more = [' '] ++ a.1.toList ++ [] ++ '=' ::
        ([] ++ '"' :: (escape a.2.toList ++ '"' :: (as.flatMap writeAttribute ++ more))) := by
      simp [writeAttribute]
    rw [hwritten, hiff] at h
    obtain ⟨-, text, others, -, hothers, rfl⟩ := h
    obtain ⟨seen', offset', cs, hcs, hsub, hseen, hall⟩ := ih has hothers
    rw [List.cons_subset] at hseen
    exact ⟨seen', offset', cs, hcs, fun c hc ↦ List.mem_cons_of_mem _ (hsub c hc), hseen.2,
      List.forall_mem_cons.2 ⟨⟨start, hseen.1⟩, hall⟩⟩

/-- A written tag holds no greater-than sign. -/
theorem gt_notMem_writeTag {e : Element} (he : e.HasXmlNames) : '>' ∉ writeTag e := by
  rw [writeTag, List.mem_append, List.mem_flatMap, not_or, not_exists]
  refine ⟨he.1.notMem rfl, ?_⟩
  rintro a ⟨ha, hmem⟩
  have hname := he.2 a.1 (List.mem_map_of_mem ha)
  simp only [writeAttribute, List.mem_append, List.mem_cons, List.not_mem_nil, or_false] at hmem
  rcases hmem with (((hmem | hmem) | hmem | hmem) | hmem) | hmem
  · cases hmem
  · exact hname.notMem rfl hmem
  · cases hmem
  · cases hmem
  · exact ne_of_mem_escape hmem rfl (by decide) rfl
  · cases hmem

/-- Whether a text is the name of an attribute that an element has not, with spaces around it. -/
structure IsPaddedNew (e : Element) (name : String) (cs : List Char) : Prop where
  /-- The name is a name of XML. -/
  isName : IsName name.toList
  /-- The element has no attribute of the name. -/
  isNew : name ∉ e.keys
  /-- The text is the name with spaces around it. -/
  isPadded : IsPadded name.toList cs

/-- **A tag with something more behind written attributes** has nothing but spaces there, or an
attribute with a new name starts there, if it is read as an element with names of XML. -/
private theorem startsAttribute_of_readElement {e e' : Element} (he : e.HasXmlNames)
    (h : readElement entities (writeTag e ++ ' ' :: cs) = .ok e') (hnames : e'.HasXmlNames) :
    (∀ c ∈ cs, isSpace c = true) ∨ ∃ name, name ∉ e.keys ∧ StartsAttribute name.toList cs := by
  -- the name of the tag ends at the space before its first attribute
  obtain ⟨ds, hds⟩ : ∃ ds, e.attributes.flatMap writeAttribute ++ ' ' :: cs = ' ' :: ds := by
    cases e.attributes with
    | nil => exact ⟨cs, rfl⟩
    | cons a as => exact ⟨_, by rw [List.flatMap_cons, writeAttribute]; rfl⟩
  have hbody : writeTag e ++ ' ' :: cs = e.name.toList ++ ' ' :: ds := by
    rw [writeTag, List.append_assoc, hds]
  have htag : tagName (e.name.toList ++ ' ' :: ds) = e.name.toList :=
    takeWhile_until (fun c hc ↦ by simp [he.1.not_isSpace c hc]) rfl ds
  rw [hbody, readElement, htag, List.drop_left, ← hds] at h
  obtain ⟨bs, hattributes, hbs⟩ := Gate.bind_eq_ok_iff.1 h
  cases hbs
  obtain ⟨seen, place, cs', hcs, hsub, -, hseen⟩ := exists_readAttributes_of_append
    (fun a ha ↦ he.2 a.1 (List.mem_map_of_mem ha)) hattributes
  rcases startsAttribute_of_readAttributes hcs
    fun b hb ↦ hnames.2 b.1 (List.mem_map_of_mem (hsub b hb)) with hspaces | ⟨name, hstarts, hnew⟩
  · exact .inl fun c hc ↦ hspaces c (List.mem_cons_of_mem _ hc)
  · refine .inr ⟨name, fun hmem ↦ ?_, hstarts.of_cons⟩
    obtain ⟨a, ha, hab⟩ := List.mem_map.1 hmem
    obtain ⟨start, hstart⟩ := hseen a ha
    exact hnew _ hstart (congrArg String.toList hab)

/-- Where a tag ends after spaces, what stands before an equals sign in it is more than a name. -/
private theorem breaksOut_of_spaces {key tail ending : List Char} {rest : List Char}
    (hending : ending = ['>'] ∨ ending = ['/', '>'])
    (h : key ++ '=' :: more = tail ++ (ending ++ rest)) (hspaces : ∀ c ∈ tail, isSpace c = true) :
    BreaksOut key := by
  rcases List.append_eq_append_iff.1 h with ⟨as, rfl, has⟩ | ⟨as, rfl, has⟩
  · -- the equals sign is neither a space nor at the end of the tag
    cases as with
    | nil => rcases hending with rfl | rfl <;> cases has
    | cons a as =>
      obtain ⟨rfl, -⟩ := List.cons.inj has
      exact absurd (hspaces '=' (List.mem_append_right _ List.mem_cons_self)) (by decide)
  · refine .inl ⟨tail, ?_⟩
    rcases hending with rfl | rfl
    · cases as with
      | nil => cases has
      | cons a as =>
        obtain ⟨rfl, -⟩ := List.cons.inj has
        exact ⟨as, .inl rfl, hspaces⟩
    · rcases as with _ | ⟨a, _ | ⟨b, as⟩⟩
      · cases has
      · cases (List.cons.inj (List.cons.inj has).2).1
      · obtain ⟨rfl, has'⟩ := List.cons.inj has
        obtain ⟨rfl, -⟩ := List.cons.inj has'
        exact ⟨as, .inr rfl, hspaces⟩

/-- A tag that is added brings an element. -/
private theorem exists_readElement_of_step {r r' : Reading} {body : List Char} {token : Token}
    (htoken : token = .emptyTag body ∨ token = .openTag body) (h : r.step token = .ok r') :
    ∃ e, readElement r.entities body = .ok e ∧ .element e ∈ r'.contents := by
  rcases htoken with rfl | rfl
  · obtain ⟨e, he, hr'⟩ := Gate.bind_eq_ok_iff.1 h
    cases hr'
    exact ⟨e, he, Reading.mem_contents_add.2 (.inr List.mem_cons_self)⟩
  · obtain ⟨e, he, hr'⟩ := Gate.bind_eq_ok_iff.1 h
    cases hr'
    exact ⟨e, he, Reading.mem_contents.2 (.inr (.inl ⟨_, List.mem_cons_self, List.mem_cons_self⟩))⟩

/-- **What is read from a tag on that ends in an attribute with a strange name** has an element with
names that are no names of XML, unless the name is a new one with spaces around it, or more than a
name. -/
theorem exists_isPaddedNew_of_readFrom {r r' : Reading} {e : Element} (he : e.HasXmlNames)
    {key : List Char} (hkey : ¬ BreaksOut key)
    (h : readFrom r offset ('<' :: (writeTag e ++ ' ' :: (key ++ '=' :: more))) = .ok r') :
    ∃ e', .element e' ∈ r'.contents ∧ (e'.HasXmlNames → ∃ name, IsPaddedNew e name key) := by
  have hsplit : ∀ ds, writeTag e ++ ' ' :: ds = writeTag e ++ [' '] ++ ds := by simp
  have hsign : '>' ∉ writeTag e ++ [' '] := by simp [gt_notMem_writeTag he]
  have hlast : (writeTag e ++ [' ']).getLast? ≠ some '/' := by simp
  rw [readFrom, if_neg (by simp [writeTag])] at h
  split at h
  · cases h
  next x hcut =>
  rw [writeTag, List.append_assoc, cut_tag he.1, ← List.append_assoc, ← writeTag, hsplit] at hcut
  obtain ⟨tail, rest, htail⟩ := exists_of_cutTag_append hsign hlast hcut
  obtain ⟨ending, hending, hends, htoken⟩ : ∃ ending, (ending = ['>'] ∨ ending = ['/', '>']) ∧
      key ++ '=' :: more = tail ++ (ending ++ rest) ∧
      (x.token = .emptyTag (writeTag e ++ [' '] ++ tail) ∨
        x.token = .openTag (writeTag e ++ [' '] ++ tail)) := by
    rcases htail with ⟨htoken, hends⟩ | ⟨htoken, hends⟩
    · exact ⟨['>'], .inl rfl, hends, .inr htoken⟩
    · exact ⟨['/', '>'], .inr rfl, hends, .inl htoken⟩
  split at h
  · cases h
  next r₁ hstep =>
  obtain ⟨e', hread, hmem⟩ := exists_readElement_of_step htoken hstep
  refine ⟨e', Reading.mem_contents_of_readFrom h hmem, fun hnames ↦ ?_⟩
  rw [← hsplit] at hread
  rcases startsAttribute_of_readElement he hread hnames with hspaces | ⟨name, hnew, hstarts⟩
  · exact absurd (breaksOut_of_spaces hending hends hspaces) hkey
  · have hname : IsName name.toList := by
      obtain ⟨left, between, after, quote, more, -, hname, -⟩ := hstarts
      exact hname
    replace hstarts := hstarts.append (ending ++ rest)
    rw [← hends] at hstarts
    exact ⟨name, hname, hnew, hstarts.of_append_equals.resolve_right fun h ↦ hkey (.inr ⟨_, h⟩)⟩

end Names

end SvgWorkbench.Markup
