import SvgWorkbench.Gate.Content
import SvgWorkbench.Markup.Reference
import SvgWorkbench.Proofs.Gate.Lexeme
import SvgWorkbench.Proofs.Markup.Escape

/-!
# References mean the same to the check and the reader

Where no entity is declared, a reference that the strict check takes stands for a character, by its
number or by a predefined name. The reader resolves it to the same character, if it resolves it at
all: it gives up on numbers with many digits, leading zeros included, and on numbers that are no
character's, for which the check has the replacement character.

What the check makes of a text or of an attribute value is described by the text alone, so that the
two can be compared without a word about either.
-/

namespace SvgWorkbench

open Text Xml

/-! ## Digits -/

namespace Text

/-- The digits have values, so they are ASCII characters. -/
theorem utf8Size_of_isDigit {radix : Nat} {c : Char} (h : isDigit radix c = true) :
    c.utf8Size = 1 := by
  have hsmall : c.val ≤ 0x7F := by
    rw [isDigit, digitValue?] at h
    split at h
    case h_2 => cases h
    next heq =>
    have hle : ∀ d : Char, d.val ≤ 0x7F → c ≤ d → c.val ≤ 0x7F :=
      fun d hd hcd ↦ UInt32.le_trans hcd hd
    split at heq
    · next hc => exact hle '9' (by decide) hc.2
    split at heq
    · next hc => exact hle 'f' (by decide) hc.2
    split at heq
    · next hc => exact hle 'F' (by decide) hc.2
    · cases heq
  simp [Char.utf8Size, hsmall]

theorem octets_of_isDigit {radix : Nat} {ds : List Char} (h : ∀ d ∈ ds, isDigit radix d = true) :
    octets ds = ds.length := by
  induction ds with
  | nil => rfl
  | cons d ds ih =>
    obtain ⟨hd, hds⟩ := List.forall_mem_cons.1 h
    rw [octets_cons, utf8Size_of_isDigit hd, ih hds, List.length_cons, Nat.add_comm]

end Text

namespace Markup

/-- A run of digits is read as the number it denotes. -/
theorem digits_eq_numeral {radix : Nat} {ds : List Char} (h : ∀ d ∈ ds, isDigit radix d = true) :
    digits radix 0 ds = .ok (numeral radix ds) := by
  have hfold : ∀ n, digits radix n ds
      = .ok (ds.foldl (fun n c ↦ n * radix + (digitValue? c).getD 0) n) := by
    induction ds with
    | nil => exact fun n ↦ rfl
    | cons d ds ih =>
      obtain ⟨hd, hds⟩ := List.forall_mem_cons.1 h
      intro n
      rw [digits, if_pos hd, ih hds, List.foldl_cons]
  exact hfold 0

end Markup

namespace Gate

open Markup

/-! ## What stands between ampersand and semicolon -/

/-- What stands between the ampersand and the semicolon of a reference that the check takes. -/
inductive IsReference : List Char → Reference → Prop where
  /-- A number in radix sixteen. -/
  | hexadecimal {ds : List Char} {r : Reference} (hne : ds ≠ [])
    (hds : ∀ d ∈ ds, isDigit 16 d = true) (hr : Reference.ofNumber? (numeral 16 ds) = some r) :
    IsReference ('#' :: 'x' :: ds) r
  /-- A number in radix ten. -/
  | decimal {ds : List Char} {r : Reference} (hne : ds ≠ [])
    (hds : ∀ d ∈ ds, isDigit 10 d = true) (hr : Reference.ofNumber? (numeral 10 ds) = some r) :
    IsReference ('#' :: ds) r
  /-- A name. -/
  | name {n : List Char} (hname : IsName n) : IsReference n ((predefined? n).elim (.entity n) .char)

private theorem numeral?_eq_some {radix : Nat} {cs : List Char} {n : Nat}
    (h : numeral? radix cs = some n) :
    cs ≠ [] ∧ (∀ d ∈ cs, isDigit radix d = true) ∧ numeral radix cs = n := by
  rw [numeral?] at h
  split at h
  · cases h
  next hcs =>
  rw [Bool.or_eq_true, not_or, Bool.not_eq_true', Bool.not_eq_false, List.all_eq_true] at hcs
  exact ⟨fun hnil ↦ hcs.1 (hnil ▸ rfl), hcs.2, Option.some.inj h⟩

/-- **A reference that the check takes** stands between an ampersand and a semicolon. -/
theorem exists_of_reference? {cs rest : List Char} {r : Reference}
    (h : reference? cs = some (r, rest)) : ∃ body, cs = body ++ ';' :: rest ∧ IsReference body r := by
  rw [reference?] at h
  split at h
  case h_2 => cases h
  next r rest' hbody =>
  cases h
  unfold referenceBody? at hbody
  split at hbody
  · next cs =>
    simp only [bind, Option.bind_eq_some_iff, pure, Option.some.injEq, Prod.mk.injEq] at hbody
    obtain ⟨n, hn, _, hr, rfl, hrest⟩ := hbody
    obtain ⟨hne, hds, rfl⟩ := numeral?_eq_some hn
    refine ⟨'#' :: 'x' :: cs.takeWhile (isDigit 16), ?_, .hexadecimal hne hds hr⟩
    rw [← hrest, List.cons_append, List.cons_append, List.takeWhile_append_dropWhile]
  · next cs _ =>
    simp only [bind, Option.bind_eq_some_iff, pure, Option.some.injEq, Prod.mk.injEq] at hbody
    obtain ⟨n, hn, _, hr, rfl, hrest⟩ := hbody
    obtain ⟨hne, hds, rfl⟩ := numeral?_eq_some hn
    refine ⟨'#' :: cs.takeWhile (isDigit 10), ?_, .decimal hne hds hr⟩
    rw [← hrest, List.cons_append, List.takeWhile_append_dropWhile]
  · split at hbody
    case h_2 => cases hbody
    next n after hname =>
    cases hbody
    obtain ⟨c, more, rfl, hc, rfl, hrest⟩ := name_eq_ok_iff.1 hname
    refine ⟨c :: more.takeWhile isNameChar, ?_, .name ⟨c, _, rfl, hc, ?_⟩⟩
    · rw [hrest, List.cons_append, List.takeWhile_append_dropWhile]
    · exact fun d hd ↦ List.all_eq_true.1 List.all_takeWhile d hd

theorem isNameChar_of_isDigit {radix : Nat} {c : Char} (h : isDigit radix c = true) :
    isNameChar c = true := by
  rw [isDigit, digitValue?] at h
  have hsub : ('0' ≤ c ∧ c ≤ '9') ∨ ('a' ≤ c ∧ c ≤ 'z') ∨ ('A' ≤ c ∧ c ≤ 'Z') := by
    split at h
    case h_2 => cases h
    next heq =>
    split at heq
    · next hc => exact .inl hc
    split at heq
    · next hc => exact .inr (.inl ⟨hc.1, Char.le_trans hc.2 (by decide)⟩)
    split at heq
    · next hc => exact .inr (.inr ⟨hc.1, Char.le_trans hc.2 (by decide)⟩)
    · cases heq
  rcases hsub with hc | hc | hc <;> simp [isNameChar, isNameStart, hc]

namespace IsReference

variable {body : List Char} {r : Reference} {c : Char}

/-- A reference is made of characters of names and perhaps a hash sign. -/
theorem chars (h : IsReference body r) : ∀ x ∈ body, x = '#' ∨ isNameChar x = true := by
  cases h with
  | hexadecimal _ hds _ =>
    intro x hx
    rw [List.mem_cons, List.mem_cons] at hx
    rcases hx with rfl | rfl | hx
    · exact .inl rfl
    · exact .inr rfl
    · exact .inr (isNameChar_of_isDigit (hds x hx))
  | decimal _ hds _ =>
    intro x hx
    rcases List.mem_cons.1 hx with rfl | hx
    · exact .inl rfl
    · exact .inr (isNameChar_of_isDigit (hds x hx))
  | name hname => exact fun x hx ↦ .inr (hname.forall_isNameChar x hx)

theorem ne (h : IsReference body r) {y : Char} (hhash : y ≠ '#') (hy : isNameChar y = false) :
    ∀ x ∈ body, x ≠ y := by
  rintro x hx rfl
  rcases h.chars x hx with heq | hname
  · exact hhash heq
  · rw [hname] at hy
    cases hy

theorem unbroken (h : IsReference body r) : Unbroken body := fun x hx ↦
  ⟨h.ne (by decide) rfl x hx, h.ne (by decide) rfl x hx, h.ne (by decide) rfl x hx⟩

theorem forall_isReferenceChar (h : IsReference body r) : ∀ x ∈ body, isReferenceChar x = true := by
  intro x hx
  simp [isReferenceChar, h.ne (y := '&') (by decide) rfl x hx, h.ne (y := ';') (by decide) rfl x hx]

end IsReference

/-! ## What a reference stands for -/

/-- Whether the reader takes the number of a reference: it has few digits and is that of a
character. -/
structure IsShort (body : List Char) : Prop where
  /-- A number in radix sixteen has six digits at most. -/
  hexadecimal : ∀ ds, (∀ d ∈ ds, isDigit 16 d = true) → body = '#' :: 'x' :: ds →
    ds.length ≤ 6 ∧ (numeral 16 ds).isValidChar
  /-- A number in radix ten has seven digits at most. -/
  decimal : ∀ ds, (∀ d ∈ ds, isDigit 10 d = true) → body = '#' :: ds →
    ds.length ≤ 7 ∧ (numeral 10 ds).isValidChar

private theorem of_ofNumber? {n : Nat} {r : Reference} (h : Reference.ofNumber? n = some r) :
    n ≠ 0 ∧ r = .char (charOfNumber n) ∧ isDocumentChar (charOfNumber n) = true := by
  rw [Reference.ofNumber?] at h
  split at h
  case isFalse => cases h
  next hn =>
  rw [Bool.and_eq_true] at hn
  cases h
  refine ⟨?_, rfl, hn.2⟩
  rintro rfl
  cases hn.2

private theorem predefined?_of_elim {n : List Char} {c : Char}
    (h : (predefined? n).elim (.entity n) Reference.char = .char c) : predefined? n = some c := by
  cases hn : predefined? n with
  | none =>
    rw [hn] at h
    cases h
  | some d =>
    rw [hn] at h
    cases h
    rfl

/-- The predefined names stand for the same characters. -/
private theorem resolve?_of_predefined? {n : List Char} {c : Char} (h : predefined? n = some c)
    (entities : Entities) : resolve? entities n = some [c] := by
  unfold predefined? at h
  repeat' split at h
  all_goals cases h
  all_goals subst_vars; rfl

theorem IsReference.isDocumentChar {body : List Char} {c : Char}
    (h : IsReference body (.char c)) : isDocumentChar c = true := by
  generalize hr : Reference.char c = r at h
  cases h with
  | hexadecimal _ _ hn =>
    obtain ⟨-, heq, hc⟩ := of_ofNumber? hn
    cases hr.trans heq
    exact hc
  | decimal _ _ hn =>
    obtain ⟨-, heq, hc⟩ := of_ofNumber? hn
    cases hr.trans heq
    exact hc
  | name =>
    have hc := predefined?_of_elim hr.symm
    unfold predefined? at hc
    repeat' split at hc
    all_goals cases hc
    all_goals rfl

/-- The reader finds the character of a number, or none. -/
private theorem character_of_ofNumber? {n : Nat} {r : Reference} {c : Char}
    (h : Reference.ofNumber? n = some r) (hr : .char c = r) (first last : Nat) :
    (∀ a, character first last n = .ok a → a = c) ∧
      (n.isValidChar → character first last n = .ok c) := by
  obtain ⟨hne, heq, -⟩ := of_ofNumber? h
  cases hr.trans heq
  rw [character, if_neg hne, charOfNumber]
  split
  · exact ⟨fun a ha ↦ (Except.ok.inj ha).symm, fun _ ↦ rfl⟩
  · next hvalid => exact ⟨nofun, fun hvalid' ↦ absurd hvalid' hvalid⟩

/-- **A reference is resolved to the character it stands for**, if it is resolved, and it is if it is
short. -/
theorem IsReference.replacement {body : List Char} {c : Char} (h : IsReference body (.char c))
    (entities : Entities) (offset : Nat) :
    (∀ text, Markup.replacement entities offset body = .ok text → text = [c]) ∧
      (IsShort body → Markup.replacement entities offset body = .ok [c]) := by
  -- a number is read, and then there is the character or none
  have hnumber : ∀ {number : List Char} {n length bound : Nat} {fault : ReferenceFault},
      characterNumber number = (if bound < length then .error fault else .ok n) →
      Reference.ofNumber? n = some (.char c) →
      (∀ text, Markup.replacement entities offset ('#' :: number) = .ok text → text = [c]) ∧
        (length ≤ bound ∧ n.isValidChar →
          Markup.replacement entities offset ('#' :: number) = .ok [c]) := by
    intro number n length bound fault hread hn
    simp only [Markup.replacement, hread]
    split
    · next hlong => exact ⟨nofun, fun h ↦ absurd h.1 (Nat.not_le.2 hlong)⟩
    · obtain ⟨honly, hvalid⟩ := character_of_ofNumber? hn rfl offset
        (offset + 1 + octets ('#' :: number))
      refine ⟨fun text htext ↦ ?_, fun h ↦ ?_⟩
      · obtain ⟨_, ⟨⟩, htext⟩ := bind_eq_ok_iff.1 htext
        obtain ⟨a, ha, htext⟩ := bind_eq_ok_iff.1 htext
        rw [honly a ha] at htext
        exact (pure_eq_ok_iff.1 htext).symm
      · exact bind_eq_ok_iff.2 ⟨n, rfl, bind_eq_ok_iff.2 ⟨c, hvalid h.2, rfl⟩⟩
  generalize hr : Reference.char c = r at h
  cases h with
  | @hexadecimal ds _ _ hds hn =>
    have hread : characterNumber ('x' :: ds)
        = if 6 < ds.length then .error .longHexadecimal else .ok (numeral 16 ds) := by
      rw [characterNumber, octets_of_isDigit hds, digits_eq_numeral hds]
      rfl
    obtain ⟨honly, hshort⟩ := hnumber hread (hr ▸ hn)
    exact ⟨honly, fun h ↦ hshort (h.hexadecimal ds hds rfl)⟩
  | @decimal ds _ hne hds hn =>
    have hread : characterNumber ds
        = if 7 < ds.length then .error .longDecimal else .ok (numeral 10 ds) := by
      unfold characterNumber
      split
      · cases hds 'x' List.mem_cons_self
      · rw [octets_of_isDigit hds, digits_eq_numeral hds]
        rfl
    obtain ⟨honly, hshort⟩ := hnumber hread (hr ▸ hn)
    exact ⟨honly, fun h ↦ hshort (h.decimal ds hds rfl)⟩
  | name hname =>
    have hpredefined := predefined?_of_elim hr.symm
    have hresolve := resolve?_of_predefined? hpredefined entities
    have hreplacement : Markup.replacement entities offset body = .ok [c] := by
      unfold Markup.replacement
      split
      · next digits =>
        obtain ⟨_, _, heq, hstart, -⟩ := hname
        cases heq
        cases hstart
      · rw [hresolve]
    rw [hreplacement]
    exact ⟨fun text htext ↦ (Except.ok.inj htext).symm, fun _ ↦ rfl⟩

/-! ## Texts with references -/

/-- Whether a text stands for another once its references are resolved; if it is plain, all of them
are short. -/
inductive Resolves (plain : Prop) : List Char → List Char → Prop where
  /-- Nothing stands for itself. -/
  | nil : Resolves plain [] []
  /-- A character stands for itself. -/
  | char {c : Char} {cs text : List Char} (hc : c ≠ '&') (h : Resolves plain cs text) :
    Resolves plain (c :: cs) (c :: text)
  /-- A reference stands for a character. -/
  | reference {body cs text : List Char} {c : Char} (hbody : IsReference body (.char c))
    (hshort : plain → IsShort body) (h : Resolves plain cs text) :
    Resolves plain ('&' :: (body ++ ';' :: cs)) (c :: text)

namespace Resolves

variable {plain : Prop} {cs text : List Char}

/-- Without a reference a text stands for itself. -/
theorem of_notMem (h : '&' ∉ cs) : Resolves plain cs cs := by
  induction cs with
  | nil => exact .nil
  | cons c cs ih =>
    rw [List.mem_cons, not_or] at h
    exact .char (fun hc ↦ h.1 hc.symm) (ih h.2)

/-- The characters it stands for may stand in a document if its own may. -/
theorem forall_isDocumentChar (h : Resolves plain cs text)
    (hcs : ∀ c ∈ cs, isDocumentChar c = true) : ∀ c ∈ text, isDocumentChar c = true := by
  induction h with
  | nil => exact hcs
  | char hc h ih =>
    obtain ⟨hc, hcs⟩ := List.forall_mem_cons.1 hcs
    exact List.forall_mem_cons.2 ⟨hc, ih hcs⟩
  | @reference body cs text c hbody hshort h ih =>
    refine List.forall_mem_cons.2 ⟨hbody.isDocumentChar, ih fun x hx ↦ hcs x ?_⟩
    exact List.mem_cons_of_mem _ (List.mem_append_right _ (List.mem_cons_of_mem _ hx))

private theorem unescape_reference {entities : Entities} {body : List Char}
    (hbody : ∀ x ∈ body, isReferenceChar x = true) (offset : Nat) (cs : List Char) :
    unescape entities offset ('&' :: (body ++ ';' :: cs))
      = Markup.replacement entities offset body >>= fun text ↦
          unescape entities (offset + 2 + octets body) cs >>= fun more ↦ pure (text ++ more) := by
  have hend : isReferenceChar ';' = false := rfl
  rw [unescape.eq_def]
  simp only [takeWhile_until hbody hend]
  split
  · next heq =>
    rw [dropWhile_until hbody hend] at heq
    cases heq
    rfl
  · next hne =>
    exact absurd (dropWhile_until hbody hend cs) (hne cs)

/-- **The reader takes a text for what it stands for**, or does not take it; if it is plain it does. -/
theorem unescape (h : Resolves plain cs text) (entities : Entities) (offset : Nat) :
    (∀ text', Markup.unescape entities offset cs = .ok text' → text' = text) ∧
      (plain → Markup.unescape entities offset cs = .ok text) := by
  induction h generalizing offset with
  | nil =>
    rw [Markup.unescape]
    exact ⟨fun text' h ↦ (Except.ok.inj h).symm, fun _ ↦ rfl⟩
  | @char c cs text hc h ih =>
    obtain ⟨honly, hplain⟩ := ih (offset + c.utf8Size)
    have hstep : Markup.unescape entities offset (c :: cs)
        = Markup.unescape entities (offset + c.utf8Size) cs >>= fun more ↦ pure (c :: more) := by
      rw [Markup.unescape]
      exact hc
    rw [hstep]
    refine ⟨fun text' htext ↦ ?_, fun hp ↦ bind_eq_ok_iff.2 ⟨text, hplain hp, rfl⟩⟩
    obtain ⟨more, hmore, htext⟩ := bind_eq_ok_iff.1 htext
    rw [← honly more hmore]
    exact (pure_eq_ok_iff.1 htext).symm
  | @reference body cs text c hbody hshort h ih =>
    obtain ⟨honly, hplain⟩ := ih (offset + 2 + octets body)
    obtain ⟨hone, hone'⟩ := hbody.replacement entities offset
    rw [unescape_reference hbody.forall_isReferenceChar]
    refine ⟨fun text' htext ↦ ?_, fun hp ↦ bind_eq_ok_iff.2 ⟨_, hone' (hshort hp),
      bind_eq_ok_iff.2 ⟨text, hplain hp, rfl⟩⟩⟩
    obtain ⟨first, hfirst, htext⟩ := bind_eq_ok_iff.1 htext
    obtain ⟨more, hmore, htext⟩ := bind_eq_ok_iff.1 htext
    rw [hone first hfirst, honly more hmore] at htext
    exact (pure_eq_ok_iff.1 htext).symm

end Resolves

/-! ## What the check makes of texts -/

section

variable {plain : Prop} {nested : Bool} {after : Nat}

/-- **A run of text in a document without entities** stands for a text, and leaves the state of the
check as it is. -/
theorem resolves_of_readText {expand : ContentExpansion} {st st' : State} {cs : List Char}
    (h : st.readText [] expand nested after cs = .ok st')
    (hplain : plain → ∀ body, '&' :: (body ++ [';']) <:+: cs → IsShort body) :
    st' = st ∧ ∃ text, Resolves plain cs text := by
  fun_induction State.readText [] expand nested after st cs with
  | case1 st =>
    cases h
    exact ⟨rfl, [], .nil⟩
  | case2 st rest hnone => cases h
  | case3 st rest c rest' hreference ih =>
    obtain ⟨body, rfl, hbody⟩ := exists_of_reference? hreference
    obtain ⟨rfl, text, htext⟩ := ih h fun hp body' hwithin ↦ hplain hp body'
      (hwithin.trans ⟨'&' :: (body ++ [';']), [], by simp⟩)
    exact ⟨rfl, c :: text, .reference hbody (fun hp ↦ hplain hp body ⟨[], rest', by simp⟩) htext⟩
  | case4 st rest name rest' hreference hnone => cases h
  | case5 st rest name rest' hreference entity hentity => cases hentity
  | case6 st c rest hc ih =>
    obtain ⟨rfl, text, htext⟩ := ih h fun hp body' hwithin ↦ hplain hp body'
      (hwithin.trans (List.suffix_cons c rest).isInfix)
    exact ⟨rfl, c :: text, .char (fun heq ↦ hc heq) htext⟩

/-- **An attribute value in a document without entities** stands for its text once its breaks are
turned into spaces. -/
theorem resolves_of_valueText {expand : ValueExpansion} {references references' : Nat}
    {cs value : List Char}
    (h : valueText [] expand false after references cs = .ok (value, references'))
    (hplain : plain → ∀ body, '&' :: (body ++ [';']) <:+: cs → IsShort body) :
    references' = references ∧ Resolves plain (spaced cs) value := by
  fun_induction valueText [] expand false after references cs generalizing value references' with
  | case1 references =>
    cases h
    exact ⟨rfl, .nil⟩
  | case2 references rest ih =>
    obtain ⟨rfl, hvalue⟩ := ih h fun hp body' hwithin ↦ hplain hp body'
      (hwithin.trans (List.suffix_cons '\r' _).isInfix)
    exact ⟨rfl, hvalue⟩
  | case3 references rest hnone => cases h
  | case4 => cases h
  | case5 references rest c rest' hreference hless ih =>
    obtain ⟨body, rfl, hbody⟩ := exists_of_reference? hreference
    obtain ⟨⟨text, references₁⟩, htext, h⟩ := bind_eq_ok_iff.1 h
    obtain ⟨rfl, rfl⟩ := Prod.mk.inj (pure_eq_ok_iff.1 h)
    obtain ⟨rfl, hvalue⟩ := ih htext fun hp body' hwithin ↦ hplain hp body'
      (hwithin.trans ⟨'&' :: (body ++ [';']), [], by simp⟩)
    have hspaced : spaced ('&' :: (body ++ ';' :: rest')) = '&' :: (body ++ ';' :: spaced rest') := by
      rw [spaced_cons (by decide), spaced_append hbody.unbroken, spaced_cons (by decide)]
    rw [hspaced]
    exact ⟨rfl, .reference hbody (fun hp ↦ hplain hp body ⟨[], rest', by simp⟩) hvalue⟩
  | case6 references rest name rest' hreference hnone => cases h
  | case7 references rest name rest' hreference entity hentity => cases hentity
  | case8 references c rest hbreak hc ih =>
    obtain ⟨⟨text, references₁⟩, htext, h⟩ := bind_eq_ok_iff.1 h
    obtain ⟨rfl, rfl⟩ := Prod.mk.inj (pure_eq_ok_iff.1 h)
    obtain ⟨rfl, hvalue⟩ := ih htext fun hp body' hwithin ↦ hplain hp body'
      (hwithin.trans (List.suffix_cons c rest).isInfix)
    have hspaced : spaced (c :: rest) = blankToSpace c :: spaced rest := by
      rw [spaced, blankToSpace]
      · by_cases hc : c = ' '
        · rw [hc]
          rfl
        · simp [isSpace, hc, or_assoc]
      · exact hbreak
    have hc' : blankToSpace c ≠ '&' := by
      rw [blankToSpace]
      split
      · decide
      · exact hc
    rw [hspaced]
    exact ⟨rfl, .char hc' hvalue⟩

end

end Gate

end SvgWorkbench
