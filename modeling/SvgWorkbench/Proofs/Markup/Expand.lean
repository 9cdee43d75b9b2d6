import SvgWorkbench.Proofs.Gate.Lexeme
import SvgWorkbench.Proofs.Markup.Tag

/-!
# References replaced by what they stand for

In place of a reference to a declared entity the value of the first declaration of its name may be
written. If the values hold no mark, quote or break, the references of the text that comes out are
resolved to what those of the first text are resolved to, and tags stay tags.

In the value of an attribute line breaks are taken together before references are looked at. So a
carriage return and a line feed become one break where the references between them have vanished,
but two breaks before; in all other values breaks may be spaced before references are replaced or
afterwards.
-/

namespace SvgWorkbench.Markup

open Text Xml
open Gate (bind_eq_ok_iff pure_eq_ok_iff)

/-! ## Replacing references -/

/-- The value of the first declaration of a name; what is predefined is not declared. -/
def value? (ds : Entities) (name : List Char) : Option (List Char) :=
  if (resolve? [] name).isSome then none else (ds.find? (·.1 == name)).map (·.2)

/-- What stands in place of a reference: the value of its name, or else the reference itself. -/
def inserted (ds : Entities) (name : List Char) : List Char :=
  (value? ds name).getD ('&' :: (name ++ [';']))

/-- A text with the references to declared names replaced. -/
def expand (ds : Entities) (cs : List Char) : List Char :=
  match cs with
  | [] => []
  | '&' :: rest =>
    match _h : rest.dropWhile isReferenceChar with
    | ';' :: after => inserted ds (rest.takeWhile isReferenceChar) ++ expand ds after
    | _ => '&' :: expand ds rest
  | c :: rest => c :: expand ds rest
termination_by cs.length
decreasing_by
  · have h₁ := (List.dropWhile_suffix isReferenceChar : _ <:+ rest).length_le
    rw [_h] at h₁
    simp only [List.length_cons] at h₁ ⊢
    omega
  · simp
  · simp

/-- Whether an entity has a name of XML and a value that may be written anywhere: without marks,
quotes and breaks. -/
structure IsInert (d : List Char × List Char) : Prop where
  /-- The name is a name of XML. -/
  name : IsName d.1
  /-- The value holds nothing that could mean something else where it is written. -/
  value : ∀ c ∈ d.2, c ∉ ['&', '<', '>', '%', '"', '\x27', '\t', '\n', '\r']

theorem IsInert.ne {d : List Char × List Char} (h : IsInert d) {x : Char}
    (hx : x ∈ ['&', '<', '>', '%', '"', '\x27', '\t', '\n', '\r']) : x ∉ d.2 :=
  fun hmem ↦ h.value x hmem hx

theorem IsInert.unbroken {d : List Char × List Char} (h : IsInert d) : Unbroken d.2 := by
  intro c hc
  have := h.value c hc
  simp only [List.mem_cons, not_or] at this
  exact ⟨this.2.2.2.2.2.2.1, this.2.2.2.2.2.2.2.1, this.2.2.2.2.2.2.2.2.1⟩

/-! ## Steps over a text -/

section

variable {ds : Entities} {c : Char} {name cs : List Char}

@[simp] theorem expand_nil : expand ds [] = [] := by rw [expand]

theorem expand_cons (hc : c ≠ '&') (cs : List Char) : expand ds (c :: cs) = c :: expand ds cs := by
  rw [expand]
  exact hc

/-- A name ends at its semicolon. -/
private theorem splitAt_semicolon (hname : ∀ c ∈ name, isReferenceChar c = true) (cs : List Char) :
    (name ++ ';' :: cs).takeWhile isReferenceChar = name ∧
      (name ++ ';' :: cs).dropWhile isReferenceChar = ';' :: cs :=
  ⟨takeWhile_until hname rfl cs, dropWhile_until hname rfl cs⟩

theorem expand_reference (hname : ∀ c ∈ name, isReferenceChar c = true) (cs : List Char) :
    expand ds ('&' :: (name ++ ';' :: cs)) = inserted ds name ++ expand ds cs := by
  obtain ⟨htake, hdrop⟩ := splitAt_semicolon hname cs
  rw [expand]
  split
  · next heq =>
    rw [hdrop] at heq
    cases heq
    rw [htake]
  · next hne => exact absurd hdrop (hne cs)

/-- Nothing is replaced where no ampersand stands. -/
theorem expand_append_of_notMem {cs : List Char} (h : '&' ∉ cs) (rest : List Char) :
    expand ds (cs ++ rest) = cs ++ expand ds rest := by
  induction cs with
  | nil => rfl
  | cons c cs ih =>
    rw [List.mem_cons, not_or] at h
    rw [List.cons_append, expand_cons (Ne.symm h.1), ih h.2, List.cons_append]

end

/-! ## Values of declared names -/

section

variable {ds : Entities} {name value : List Char}

/-- Predefined names come first. -/
theorem resolve?_eq_or (ds : Entities) (name : List Char) :
    resolve? ds name = (resolve? [] name).or ((ds.find? (·.1 == name)).map (·.2)) := by
  simp only [resolve?]
  repeat' split
  all_goals rfl

/-- A declared name is resolved to its value. -/
theorem mem_of_value?_eq_some (h : value? ds name = some value) :
    resolve? ds name = some value ∧ (name, value) ∈ ds := by
  rw [value?] at h
  split at h
  · cases h
  next hpredefined =>
  rw [Option.not_isSome_iff_eq_none] at hpredefined
  refine ⟨by rw [resolve?_eq_or, hpredefined, Option.none_or, h], ?_⟩
  obtain ⟨d, hd, rfl⟩ := Option.map_eq_some_iff.1 h
  have hname := List.find?_some hd
  rw [beq_iff_eq] at hname
  rw [← hname]
  exact List.mem_of_find?_eq_some hd

/-- What is written in place of a reference is the value of a declaration, or the reference. -/
theorem inserted_cases (hds : ∀ d ∈ ds, IsInert d) (name : List Char) :
    (∃ value, value? ds name = some value ∧ inserted ds name = value ∧ IsInert (name, value)) ∨
      value? ds name = none ∧ inserted ds name = '&' :: (name ++ [';']) := by
  cases h : value? ds name with
  | none => exact .inr ⟨rfl, by rw [inserted, h, Option.getD_none]⟩
  | some value =>
    exact .inl ⟨value, rfl, by rw [inserted, h, Option.getD_some],
      hds _ (mem_of_value?_eq_some h).2⟩

end

/-! ## References that end -/

/-- Whether every ampersand of a text starts a reference. -/
inductive IsClosed : List Char → Prop where
  /-- There is no reference in nothing. -/
  | nil : IsClosed []
  /-- Other characters may stand anywhere. -/
  | char {c : Char} {cs : List Char} (hc : c ≠ '&') (h : IsClosed cs) : IsClosed (c :: cs)
  /-- A reference has a semicolon before any other ampersand. -/
  | reference {name cs : List Char} (hname : ∀ c ∈ name, isReferenceChar c = true)
    (h : IsClosed cs) : IsClosed ('&' :: (name ++ ';' :: cs))

section

variable {ds : Entities} {cs : List Char}

theorem IsClosed.expand_append (h : IsClosed cs) (rest : List Char) :
    expand ds (cs ++ rest) = expand ds cs ++ expand ds rest := by
  induction h with
  | nil => rw [expand_nil]; rfl
  | char hc _ ih => rw [List.cons_append, expand_cons hc, expand_cons hc, ih, List.cons_append]
  | reference hname _ ih =>
    rw [List.cons_append, List.append_assoc, List.cons_append, expand_reference hname,
      expand_reference hname, ih, List.append_assoc]

/-- No mark, quote or break comes in with the values. -/
theorem notMem_expand (hds : ∀ d ∈ ds, IsInert d) {x : Char}
    (hx : x ∈ ['&', '<', '>', '%', '"', '\x27', '\t', '\n', '\r']) (h : x ∉ cs) :
    x ∉ expand ds cs := by
  have hsemicolon : x ≠ ';' := by
    rintro rfl
    revert hx
    decide
  fun_induction expand ds cs with
  | case1 => exact h
  | case2 rest after hdrop ih =>
    rw [List.mem_cons, not_or] at h
    rw [← List.takeWhile_append_dropWhile (p := isReferenceChar) (l := rest), hdrop,
      List.mem_append, List.mem_cons, not_or, not_or] at h
    rw [List.mem_append, not_or]
    refine ⟨?_, ih h.2.2.2⟩
    rcases inserted_cases hds (rest.takeWhile isReferenceChar) with
      ⟨value, -, heq, hvalue⟩ | ⟨-, heq⟩
    · rw [heq]
      exact hvalue.ne hx
    · rw [heq]
      simp [h.1, h.2.1, hsemicolon]
  | case3 rest _ ih =>
    rw [List.mem_cons, not_or] at h ⊢
    exact ⟨h.1, ih h.2⟩
  | case4 c rest _ ih =>
    rw [List.mem_cons, not_or] at h ⊢
    exact ⟨h.1, ih h.2⟩

end

/-! ## What references are resolved to -/

/-- Whether the references of a text are resolved, and what comes out, wherever the text stands. -/
inductive Unescapes (entities : Entities) : List Char → List Char → Prop where
  /-- Nothing is resolved in nothing. -/
  | nil : Unescapes entities [] []
  /-- Other characters stay. -/
  | char {c : Char} {cs text : List Char} (hc : c ≠ '&') (h : Unescapes entities cs text) :
    Unescapes entities (c :: cs) (c :: text)
  /-- A reference stands for something. -/
  | reference {name cs front text : List Char} (hname : ∀ c ∈ name, isReferenceChar c = true)
    (hfront : ∀ first, replacement entities first name = .ok front)
    (h : Unescapes entities cs text) :
    Unescapes entities ('&' :: (name ++ ';' :: cs)) (front ++ text)

section

variable {entities ds : Entities} {name cs text : List Char}

/-- What a reference stands for does not depend on its place. -/
private theorem replacement_eq_ok {first : Nat} (h : replacement entities first name = .ok text)
    (first' : Nat) : replacement entities first' name = .ok text := by
  unfold replacement at h ⊢
  split
  · next digits =>
    simp only [bind, Except.bind] at h ⊢
    cases hn : characterNumber digits with
    | error fault =>
      rw [hn] at h
      cases h
    | ok n =>
      rw [hn] at h
      dsimp only at h ⊢
      unfold character at h ⊢
      by_cases hzero : n = 0
      · rw [if_pos hzero] at h
        cases h
      · by_cases hvalid : n.isValidChar
        · rw [if_neg hzero, if_pos hvalid] at h ⊢
          exact h
        · rw [if_neg hzero, if_neg hvalid] at h
          cases h
  · next hhash =>
    cases hname : resolve? entities name with
    | none =>
      simp only [hname] at h
      cases h
    | some text' =>
      simp only [hname] at h ⊢
      exact h

theorem unescape_eq_ok_iff {offset : Nat} :
    unescape entities offset cs = .ok text ↔ Unescapes entities cs text := by
  constructor
  · intro h
    fun_induction unescape entities offset cs generalizing text with
    | case1 =>
      cases h
      exact .nil
    | case2 offset rest body after hdrop =>
      rename_i ih
      obtain ⟨front, hfront, h⟩ := bind_eq_ok_iff.1 h
      obtain ⟨more, hmore, h⟩ := bind_eq_ok_iff.1 h
      obtain rfl := pure_eq_ok_iff.1 h
      have hrest : rest = rest.takeWhile isReferenceChar ++ ';' :: after := by
        rw [← hdrop, List.takeWhile_append_dropWhile]
      rw [hrest]
      exact .reference (fun c hc ↦ List.all_eq_true.1 List.all_takeWhile c hc)
        (replacement_eq_ok hfront) (ih hmore)
    | case3 => cases h
    | case4 offset c rest hc ih =>
      obtain ⟨more, hmore, h⟩ := bind_eq_ok_iff.1 h
      obtain rfl := pure_eq_ok_iff.1 h
      exact .char hc (ih hmore)
  · intro h
    induction h generalizing offset with
    | nil => rw [unescape]
    | char hc _ ih =>
      rw [unescape, ih]
      · rfl
      · exact hc
    | @reference name cs front text hname hfront _ ih =>
      obtain ⟨htake, hdrop⟩ := splitAt_semicolon hname cs
      rw [unescape]
      split
      · next heq =>
        rw [hdrop] at heq
        cases heq
        rw [htake, hfront, ih]
        rfl
      · next hne => exact absurd hdrop (hne cs)

namespace Unescapes

theorem isClosed (h : Unescapes entities cs text) : IsClosed cs := by
  induction h with
  | nil => exact .nil
  | char hc _ ih => exact .char hc ih
  | reference hname _ _ ih => exact .reference hname ih

/-- What holds no ampersand stays in front. -/
theorem append_of_notMem {front : List Char} (hfront : '&' ∉ front)
    (h : Unescapes entities cs text) : Unescapes entities (front ++ cs) (front ++ text) := by
  induction front with
  | nil => exact h
  | cons c front ih =>
    rw [List.mem_cons, not_or] at hfront
    exact .char (Ne.symm hfront.1) (ih hfront.2)

/-- A name of XML stands for what it is resolved to. -/
private theorem resolve?_of_replacement (hname : IsName name)
    (h : replacement entities 0 name = .ok text) : resolve? entities name = some text := by
  unfold replacement at h
  split at h
  · exact absurd List.mem_cons_self (hname.notMem (x := '#') rfl)
  · split at h
    · next heq =>
      cases h
      exact heq
    · cases h

/-- **Replaced references are resolved to the same.** -/
theorem expand (hds : ∀ d ∈ ds, IsInert d)
    (hentities : ∀ name value, resolve? entities name = some value → resolve? ds name = some value)
    (h : Unescapes entities cs text) : Unescapes entities (Markup.expand ds cs) text := by
  induction h with
  | nil =>
    rw [expand_nil]
    exact .nil
  | char hc _ ih =>
    rw [expand_cons hc]
    exact .char hc ih
  | @reference name cs front text hname hfront _ ih =>
    rw [expand_reference hname]
    rcases inserted_cases hds name with ⟨value, hvalue, heq, hinert⟩ | ⟨-, heq⟩
    · have hresolve := hentities name front (resolve?_of_replacement hinert.name (hfront 0))
      rw [(mem_of_value?_eq_some hvalue).1] at hresolve
      cases hresolve
      rw [heq]
      exact append_of_notMem (hinert.ne (by simp)) ih
    · rw [heq, List.cons_append, List.append_assoc]
      exact .reference hname hfront ih

end Unescapes

end

/-! ## Breaks -/

section

variable {ds : Entities} {cs : List Char}

/-- A character that is spaced goes on with a reference as before. -/
private theorem isReferenceChar_ite (c : Char) :
    isReferenceChar (if c = '\t' ∨ c = '\n' ∨ c = '\r' then ' ' else c) = isReferenceChar c := by
  split
  · next hc => rcases hc with rfl | rfl | rfl <;> rfl
  · rfl

/-- A break that is spaced goes on with a name, as it did before. -/
theorem takeWhile_spaced (cs : List Char) :
    (spaced cs).takeWhile isReferenceChar = spaced (cs.takeWhile isReferenceChar) := by
  fun_induction spaced cs with
  | case1 => rfl
  | case2 cs ih => simpa [isReferenceChar, spaced] using ih
  | case3 c cs hc ih =>
    rw [List.takeWhile_cons, List.takeWhile_cons, isReferenceChar_ite, ih]
    split
    · rw [spaced]
      intro rest hreturn htake
      obtain ⟨after, hafter⟩ := htake ▸ List.takeWhile_prefix (l := cs) isReferenceChar
      exact hc (rest ++ after) hreturn hafter.symm
    · rfl

theorem dropWhile_spaced (cs : List Char) :
    (spaced cs).dropWhile isReferenceChar = spaced (cs.dropWhile isReferenceChar) := by
  fun_induction spaced cs with
  | case1 => rfl
  | case2 cs ih => simpa [isReferenceChar, spaced] using ih
  | case3 c cs hc ih =>
    rw [List.dropWhile_cons, List.dropWhile_cons, isReferenceChar_ite, ih]
    split
    · rfl
    · rw [spaced]
      exact hc

/-- A semicolon is not spaced. -/
private theorem spaced_eq_semicolon {cs after : List Char} (h : spaced cs = ';' :: after) :
    ∃ rest, cs = ';' :: rest ∧ spaced rest = after := by
  revert h
  fun_cases spaced cs with
  | case1 => exact fun h ↦ by cases h
  | case2 cs => exact fun h ↦ absurd (List.cons.inj h).1 (by decide)
  | case3 c cs _ =>
    intro h
    obtain ⟨hc, rfl⟩ := List.cons.inj h
    split at hc
    · cases hc
    · exact ⟨cs, by rw [hc], rfl⟩

/-- **Breaks do not matter for where references end.** -/
theorem isClosed_of_spaced (h : IsClosed (spaced cs)) : IsClosed cs := by
  generalize hspaced : spaced cs = ss at h
  induction h generalizing cs with
  | nil =>
    rw [spaced_eq_nil_iff.1 hspaced]
    exact .nil
  | @char c rest hc _ ih =>
    revert hspaced
    fun_cases spaced cs with
    | case1 => exact fun h ↦ by cases h
    | case2 cs => exact fun h ↦ .char (by decide) (.char (by decide) (ih (List.cons.inj h).2))
    | case3 d cs _ =>
      intro h
      obtain ⟨hd, hrest⟩ := List.cons.inj h
      refine .char ?_ (ih hrest)
      rintro rfl
      exact hc hd.symm
  | @reference name rest hname _ ih =>
    revert hspaced
    fun_cases spaced cs with
    | case1 => exact fun h ↦ by cases h
    | case2 cs => exact fun h ↦ absurd (List.cons.inj h).1 (by decide)
    | case3 d cs _ =>
      intro h
      obtain ⟨hd, hrest⟩ := List.cons.inj h
      obtain rfl : d = '&' := by
        split at hd
        · cases hd
        · exact hd
      obtain ⟨htake, hdrop⟩ := splitAt_semicolon hname rest
      rw [← hrest, dropWhile_spaced] at hdrop
      obtain ⟨after, hafter, hspaced⟩ := spaced_eq_semicolon hdrop
      have hcs : cs = cs.takeWhile isReferenceChar ++ ';' :: after := by
        rw [← hafter, List.takeWhile_append_dropWhile]
      rw [hcs]
      exact .reference (fun c hc ↦ List.all_eq_true.1 List.all_takeWhile c hc) (ih hspaced)

/-- Whether no carriage return and line feed that stand apart come together when references are
replaced: some characters of what is between them stay. -/
def KeepsBreaks (ds : Entities) (cs : List Char) : Prop :=
  ∀ between, '\r' :: (between ++ ['\n']) <:+: cs → expand ds between = [] → between = []

theorem KeepsBreaks.of_suffix {cs' : List Char} (h : KeepsBreaks ds cs) (hsuffix : cs' <:+ cs) :
    KeepsBreaks ds cs' := fun between hbetween ↦ h between (hbetween.trans hsuffix.isInfix)

/-- A line feed comes first only if the references before it vanish. -/
private theorem exists_of_expand_eq (hds : ∀ d ∈ ds, IsInert d) {text : List Char}
    (h : expand ds cs = '\n' :: text) :
    ∃ between after, cs = between ++ '\n' :: after ∧ expand ds between = [] := by
  fun_induction expand ds cs generalizing text with
  | case1 => cases h
  | case2 rest after hdrop ih =>
    rcases inserted_cases hds (rest.takeWhile isReferenceChar) with
      ⟨value, -, heq, hvalue⟩ | ⟨-, heq⟩
    · rw [heq] at h
      cases value with
      | nil =>
        obtain ⟨between, after', rfl, hbetween⟩ := ih h
        refine ⟨'&' :: (rest.takeWhile isReferenceChar ++ ';' :: between), after', ?_, ?_⟩
        · rw [List.cons_append, List.append_assoc, List.cons_append, ← hdrop,
            List.takeWhile_append_dropWhile]
        · rw [expand_reference fun c hc ↦ List.all_eq_true.1 List.all_takeWhile c hc, heq, hbetween]
          rfl
      | cons c value =>
        exact absurd (List.cons.inj h).1 (hvalue.unbroken c List.mem_cons_self).2.1
    · rw [heq] at h
      exact absurd (List.cons.inj h).1 (by decide)
  | case3 => exact absurd (List.cons.inj h).1 (by decide)
  | case4 c rest _ ih =>
    obtain rfl := (List.cons.inj h).1
    exact ⟨[], rest, rfl, expand_nil⟩

/-- A character that is no break parts the breaks before it from those behind it. -/
private theorem spaced_append_cons {c : Char} (hc : c ≠ '\t' ∧ c ≠ '\n' ∧ c ≠ '\r')
    (cs rest : List Char) : spaced (cs ++ c :: rest) = spaced cs ++ c :: spaced rest := by
  fun_induction spaced cs with
  | case1 => exact spaced_cons hc rest
  | case2 cs ih =>
    rw [List.cons_append, List.cons_append, spaced, ih]
    rfl
  | case3 d cs hd ih =>
    rw [List.cons_append, spaced, ih, List.cons_append]
    intro more hreturn heq
    cases cs with
    | nil => exact hc.2.1 (List.cons.inj heq).1
    | cons x cs => exact hd cs hreturn (by rw [(List.cons.inj heq).1])

/-- A text in which no break became a space had none. -/
private theorem unbroken_of_notMem_spaced (h : ' ' ∉ spaced cs) : Unbroken cs := by
  fun_induction spaced cs with
  | case1 => exact unbroken_nil
  | case2 => exact absurd List.mem_cons_self h
  | case3 c cs _ ih =>
    rw [List.mem_cons, not_or] at h
    refine List.forall_mem_cons.2 ⟨?_, ih h.2⟩
    rw [← not_or, ← not_or]
    intro hc
    exact h.1 (if_pos hc).symm

/-- A name of an inert entity has no breaks. -/
private theorem value?_spaced (hds : ∀ d ∈ ds, IsInert d) (name : List Char) :
    value? ds (spaced name) = value? ds name := by
  by_cases hname : Unbroken name
  · rw [hname.spaced_eq]
  · have hbroken : ¬ IsName (spaced name) := fun h ↦
      hname (unbroken_of_notMem_spaced (h.notMem rfl))
    have hnone : ∀ {n}, ¬ IsName n → value? ds n = none := fun hn ↦
      Option.eq_none_iff_forall_ne_some.2 fun value hvalue ↦
        hn (hds _ (mem_of_value?_eq_some hvalue).2).name
    rw [hnone hbroken, hnone fun h ↦ hname (unbroken_of_forall_isNameChar h.forall_isNameChar)]

private theorem spaced_inserted_append (hds : ∀ d ∈ ds, IsInert d) (name rest : List Char) :
    spaced (inserted ds name ++ rest) = inserted ds (spaced name) ++ spaced rest := by
  rcases inserted_cases hds name with ⟨value, hvalue, heq, hinert⟩ | ⟨hnone, heq⟩
  · have heq' : inserted ds (spaced name) = value := by
      rw [inserted, value?_spaced hds, hvalue, Option.getD_some]
    rw [heq, heq', spaced_append hinert.unbroken]
  · have heq' : inserted ds (spaced name) = '&' :: (spaced name ++ [';']) := by
      rw [inserted, value?_spaced hds, hnone, Option.getD_none]
    rw [heq, heq', List.cons_append, List.append_assoc, List.cons_append, List.nil_append,
      spaced_cons (by decide), spaced_append_cons (by decide)]
    simp

/-- **Breaks may be spaced before references are replaced or afterwards**, if no two come
together. -/
theorem spaced_expand (hds : ∀ d ∈ ds, IsInert d) (h : KeepsBreaks ds cs) :
    spaced (expand ds cs) = expand ds (spaced cs) := by
  fun_induction expand ds cs with
  | case1 => rw [spaced, expand_nil]
  | case2 rest after hdrop ih =>
    have hafter : after <:+ '&' :: rest := by
      have hsuffix := List.dropWhile_suffix isReferenceChar (l := rest)
      rw [hdrop] at hsuffix
      exact (List.suffix_cons ';' after).trans (hsuffix.trans (List.suffix_cons '&' rest))
    have hname : ∀ c ∈ spaced (rest.takeWhile isReferenceChar), isReferenceChar c = true := by
      rw [← takeWhile_spaced]
      exact fun c hc ↦ List.all_eq_true.1 List.all_takeWhile c hc
    have hspaced : spaced ('&' :: rest)
        = '&' :: (spaced (rest.takeWhile isReferenceChar) ++ ';' :: spaced after) := by
      rw [spaced_cons (by decide), ← spaced_append_cons (by decide), ← hdrop,
        List.takeWhile_append_dropWhile]
    rw [spaced_inserted_append hds, ih (h.of_suffix hafter), hspaced, expand_reference hname]
  | case3 rest hdrop ih =>
    have hopen : expand ds ('&' :: spaced rest) = '&' :: expand ds (spaced rest) := by
      rw [expand]
      split
      · next heq =>
        -- a semicolon that ends a reference afterwards ended one before
        rw [dropWhile_spaced] at heq
        obtain ⟨after, hafter, -⟩ := spaced_eq_semicolon heq
        exact absurd hafter (hdrop after)
      · rfl
    rw [spaced_cons (by decide), spaced_cons (by decide),
      ih (h.of_suffix (List.suffix_cons '&' rest)), hopen]
  | case4 c rest hc ih =>
    specialize ih (h.of_suffix (List.suffix_cons c rest))
    by_cases hbreak : ∃ after, c = '\r' ∧ rest = '\n' :: after
    · obtain ⟨after, rfl, rfl⟩ := hbreak
      rw [expand_cons (by decide)] at ih ⊢
      have hfeed : ∀ more, spaced ('\r' :: '\n' :: more) = spaced ('\n' :: more) := by
        intro more
        rw [spaced, spaced]
        · rfl
        · exact fun _ hreturn ↦ absurd hreturn (by decide)
      rw [hfeed, hfeed, ih]
    · have hsplit : ∀ more, (c = '\r' → ∀ after, more ≠ '\n' :: after) → spaced (c :: more)
          = (if c = '\t' ∨ c = '\n' ∨ c = '\r' then ' ' else c) :: spaced more := by
        intro more hmore
        rw [spaced]
        exact fun after hreturn heq ↦ hmore hreturn after heq
      rw [hsplit, hsplit, ih, expand_cons]
      · split
        · decide
        · exact hc
      · exact fun hreturn after heq ↦ hbreak ⟨after, hreturn, heq⟩
      · rintro rfl after heq
        -- a feed that comes next now came next before, or the two would have stood apart
        obtain ⟨between, more, rfl, hbetween⟩ := exists_of_expand_eq hds heq
        obtain rfl := h between ⟨[], more, by simp⟩ hbetween
        exact hbreak ⟨more, rfl, rfl⟩

end

/-! ## Tags -/

namespace TagParts

variable {entities ds : Entities} {key body : List Char} {parts : List (List Char × List Char)}

/-- The inside of a tag stays one, with the references in its values replaced. -/
theorem exists_expand (hds : ∀ d ∈ ds, IsInert d) (h : TagParts body parts)
    (hclosed : ∀ part ∈ parts, IsClosed part.2) : ∃ body',
      TagParts body' (parts.map fun part ↦ (part.1, Markup.expand ds part.2)) ∧
      ∀ rest, Markup.expand ds (body ++ rest) = body' ++ Markup.expand ds rest := by
  induction h with
  | @nil spaces hspaces =>
    exact ⟨spaces, .nil hspaces, fun rest ↦ expand_append_of_notMem (notMem_spaces hspaces rfl) rest⟩
  | @cons spaces key before after value more quote parts hspaces hne hkey hbefore hafter hquote
      hvalue hmore ih =>
    obtain ⟨hvalue', hparts⟩ := List.forall_mem_cons.1 hclosed
    obtain ⟨more', hmore', hexpand⟩ := ih hparts
    have hquote' : quote ∈ ['&', '<', '>', '%', '"', '\x27', '\t', '\n', '\r'] := by
      rcases hquote with rfl | rfl <;> simp
    have hamp : '&' ≠ quote := by rcases hquote with rfl | rfl <;> decide
    refine ⟨spaces ++ key ++ before ++ '=' :: (after ++ quote :: (Markup.expand ds value ++
      quote :: more')), .cons hspaces hne hkey hbefore hafter hquote
        (notMem_expand hds hquote' hvalue) hmore', fun rest ↦ ?_⟩
    have hfront : '&' ∉ spaces ++ key ++ before ++ '=' :: (after ++ [quote]) := by
      simp only [List.mem_append, List.mem_cons, List.not_mem_nil, or_false, not_or]
      exact ⟨⟨⟨notMem_spaces hspaces rfl, hkey.notMem rfl⟩, notMem_spaces hbefore rfl⟩, by decide,
        notMem_spaces hafter rfl, hamp⟩
    calc Markup.expand ds (spaces ++ key ++ before ++ '=' :: (after ++ quote :: (value ++
            quote :: more)) ++ rest)
        = Markup.expand ds ((spaces ++ key ++ before ++ '=' :: (after ++ [quote])) ++
            (value ++ quote :: (more ++ rest))) := by simp
      _ = (spaces ++ key ++ before ++ '=' :: (after ++ [quote])) ++ (Markup.expand ds value ++
            quote :: (more' ++ Markup.expand ds rest)) := by
          rw [expand_append_of_notMem hfront, hvalue'.expand_append, expand_cons (Ne.symm hamp),
            hexpand]
      _ = _ := by simp

/-- The references in the values of a tag that is read are resolved. -/
private theorem Yields.exists_unescapes {as : List (String × String)}
    (h : Yields entities parts as) :
    ∀ part ∈ parts, ∃ text, Unescapes entities (spaced part.2) text := by
  intro part hpart
  have hmem := List.mem_map_of_mem
    (f := fun part : List Char × List Char ↦ (part.1, unescape entities 0 (spaced part.2))) hpart
  rw [h] at hmem
  obtain ⟨a, -, ha⟩ := List.mem_map.1 hmem
  exact ⟨a.2.toList, unescape_eq_ok_iff.1 (Prod.mk.inj ha).2.symm⟩

/-- **A tag is read as the same element** after the references in its values have been replaced. -/
theorem exists_readElement_expand (hds : ∀ d ∈ ds, IsInert d)
    (hentities : ∀ name value, resolve? entities name = some value → resolve? ds name = some value)
    (h : TagParts body parts) (hkey : IsName key)
    (hbreaks : ∀ part ∈ parts, KeepsBreaks ds part.2) {e : Element}
    (he : readElement entities (key ++ body) = .ok e) : ∃ body' parts', TagParts body' parts' ∧
      (∀ rest, Markup.expand ds (body ++ rest) = body' ++ Markup.expand ds rest) ∧
      readElement entities (key ++ body') = .ok e := by
  obtain ⟨hname, hnodup, hyields⟩ := (h.readElement_eq_ok_iff hkey).1 he
  have hunescapes := hyields.exists_unescapes
  obtain ⟨body', hparts, hexpand⟩ := h.exists_expand hds fun part hpart ↦ by
    obtain ⟨text, htext⟩ := hunescapes part hpart
    exact isClosed_of_spaced htext.isClosed
  refine ⟨body', _, hparts, hexpand, (hparts.readElement_eq_ok_iff hkey).2 ⟨hname, ?_, ?_⟩⟩
  · rw [List.map_map]
    exact hnodup
  · rw [Yields, ← hyields, List.map_map]
    refine List.map_congr_left fun part hpart ↦ Prod.ext rfl ?_
    obtain ⟨text, htext⟩ := hunescapes part hpart
    show unescape entities 0 (spaced (Markup.expand ds part.2)) = unescape entities 0 (spaced part.2)
    rw [spaced_expand hds (hbreaks part hpart), unescape_eq_ok_iff.2 htext,
      unescape_eq_ok_iff.2 (htext.expand hds hentities)]

end TagParts

end SvgWorkbench.Markup
