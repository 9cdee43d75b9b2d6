import SvgWorkbench.Markup.Reference
import SvgWorkbench.Markup.Writer

/-!
# Escapes are undone by reading

The writer replaces five characters by references to predefined names, and the reader resolves these
names before it looks at declared entities. So what was escaped is read back as it was, whatever the
document declares.

In attribute values the reader also turns tabs and line breaks into spaces, and it does so before it
resolves references. None of the characters of an escape is affected, so the two steps may be
exchanged: an escaped value is read back as the *spaced* value.
-/

namespace SvgWorkbench.Markup

/-! ## Escaping character by character -/

@[simp] theorem escape_nil : escape [] = [] := rfl

theorem escape_cons (c : Char) (cs : List Char) : escape (c :: cs) = escapeChar c ++ escape cs := by
  rw [escape, List.flatMap_cons, escape]

@[simp] theorem escape_append (cs ds : List Char) : escape (cs ++ ds) = escape cs ++ escape ds := by
  rw [escape, List.flatMap_append, escape, escape]

/-- Characters the writer escapes. -/
def isEscaped (c : Char) : Bool := c == '<' || c == '>' || c == '&' || c == '\x27' || c == '"'

theorem escapeChar_of_not_isEscaped {c : Char} (h : isEscaped c = false) : escapeChar c = [c] := by
  unfold escapeChar
  split <;> simp_all [isEscaped]

theorem isEscaped_cases {c : Char} (h : isEscaped c = true) :
    c = '<' ∨ c = '>' ∨ c = '&' ∨ c = '\x27' ∨ c = '"' := by
  simpa [isEscaped, or_assoc] using h

/-- A character an escape is made of is not one that has to be escaped, ampersands apart. -/
theorem mem_escapeChar {c x : Char} (h : x ∈ escapeChar c) :
    x = c ∧ isEscaped c = false ∨ x ∈ ['&', 'l', 't', ';', 'g', 'a', 'm', 'p', 'o', 's', 'q', 'u'] := by
  by_cases hc : isEscaped c = true
  · right
    suffices hletters : escapeChar c ⊆ ['&', 'l', 't', ';', 'g', 'a', 'm', 'p', 'o', 's', 'q', 'u'] from
      hletters h
    rcases isEscaped_cases hc with rfl | rfl | rfl | rfl | rfl <;> decide
  · have hc' : isEscaped c = false := by simpa using hc
    rw [escapeChar_of_not_isEscaped hc', List.mem_singleton] at h
    exact .inl ⟨h, hc'⟩

/-- Of the escaped characters only the ampersand occurs in an escaped text. -/
theorem ne_of_mem_escape {x y : Char} {cs : List Char} (h : x ∈ escape cs) (hy : isEscaped y = true)
    (hamp : y ≠ '&') : x ≠ y := by
  obtain ⟨c, -, hx⟩ := List.mem_flatMap.1 h
  rcases mem_escapeChar hx with ⟨rfl, hc⟩ | hmem
  · rintro rfl
    rw [hc] at hy
    cases hy
  · rintro rfl
    rcases isEscaped_cases hy with rfl | rfl | rfl | rfl | rfl
    all_goals first | exact hamp rfl | (revert hmem; decide)

theorem escape_eq_nil_iff {cs : List Char} : escape cs = [] ↔ cs = [] := by
  cases cs with
  | nil => simp
  | cons c cs =>
    have hne : escapeChar c ≠ [] := by
      by_cases hc : isEscaped c = true
      · rcases isEscaped_cases hc with rfl | rfl | rfl | rfl | rfl <;> simp [escapeChar]
      · rw [escapeChar_of_not_isEscaped (by simpa using hc)]
        simp
    simp [escape_cons, hne]

/-- A character that is not escaped stands first in an escaped text only if it did before. -/
theorem exists_of_escape_eq_cons {x : Char} (hx : isEscaped x = false) {cs rest : List Char}
    (h : escape cs = x :: rest) : ∃ more, cs = x :: more := by
  cases cs with
  | nil => cases h
  | cons c cs =>
    rw [escape_cons] at h
    by_cases hc : isEscaped c = true
    · have hamp : x = '&' := by
        rcases isEscaped_cases hc with rfl | rfl | rfl | rfl | rfl <;> exact (List.cons.inj h).1.symm
      rw [hamp] at hx
      cases hx
    · rw [escapeChar_of_not_isEscaped (by simpa using hc)] at h
      exact ⟨cs, by rw [(List.cons.inj h).1]⟩

/-! ## Resolving what was escaped -/

private theorem unescape_escapeChar (entities : Entities) (c : Char) (offset : Nat)
    (rest : List Char) : ∃ offset', unescape entities offset (escapeChar c ++ rest)
      = (unescape entities offset' rest).map (c :: ·) := by
  by_cases hc : isEscaped c = true
  · refine ⟨offset + (escapeChar c).length, ?_⟩
    rcases isEscaped_cases hc with rfl | rfl | rfl | rfl | rfl
    all_goals
      rw [unescape.eq_def]
      rfl
  · have hc' : isEscaped c = false := by simpa using hc
    refine ⟨offset + c.utf8Size, ?_⟩
    rw [escapeChar_of_not_isEscaped hc', List.cons_append, List.nil_append, unescape]
    · cases unescape entities (offset + c.utf8Size) rest <;> rfl
    · rintro rfl
      cases hc'

/-- **Escapes are undone.** The declared entities do not matter. -/
theorem unescape_escape (entities : Entities) (cs : List Char) (offset : Nat) :
    unescape entities offset (escape cs) = .ok cs := by
  induction cs generalizing offset with
  | nil => rw [escape_nil, unescape]
  | cons c cs ih =>
    obtain ⟨offset', h⟩ := unescape_escapeChar entities c offset (escape cs)
    rw [escape_cons, h, ih offset']
    rfl

/-! ## Tabs and line breaks of attribute values -/

/-- Whether a text has no tab, line feed or carriage return. -/
def Unbroken (cs : List Char) : Prop := ∀ c ∈ cs, c ≠ '\t' ∧ c ≠ '\n' ∧ c ≠ '\r'

instance (cs : List Char) : Decidable (Unbroken cs) :=
  List.decidableBAll _ cs

theorem unbroken_nil : Unbroken [] := by simp [Unbroken]

theorem Unbroken.append {cs ds : List Char} (hc : Unbroken cs) (hd : Unbroken ds) :
    Unbroken (cs ++ ds) := by
  intro c h
  rcases List.mem_append.1 h with h | h
  · exact hc c h
  · exact hd c h

theorem Unbroken.tail {c : Char} {cs : List Char} (h : Unbroken (c :: cs)) : Unbroken cs :=
  fun x hx ↦ h x (List.mem_cons_of_mem c hx)

theorem spaced_cons {c : Char} (h : c ≠ '\t' ∧ c ≠ '\n' ∧ c ≠ '\r') (cs : List Char) :
    spaced (c :: cs) = c :: spaced cs := by
  rw [spaced.eq_def]
  split
  · next heq => cases heq
  · next heq =>
    rw [List.cons.injEq] at heq
    exact absurd heq.1 h.2.2
  · next heq =>
    rw [List.cons.injEq] at heq
    obtain ⟨rfl, rfl⟩ := heq
    rw [if_neg (by simp [h])]

theorem spaced_append {cs : List Char} (h : Unbroken cs) (ds : List Char) :
    spaced (cs ++ ds) = cs ++ spaced ds := by
  induction cs with
  | nil => rfl
  | cons c cs ih =>
    rw [List.cons_append, spaced_cons (h c List.mem_cons_self), ih h.tail, List.cons_append]

theorem Unbroken.spaced_eq {cs : List Char} (h : Unbroken cs) : spaced cs = cs := by
  have := spaced_append h []
  rwa [List.append_nil, spaced, List.append_nil] at this

theorem spaced_eq_nil_iff {cs : List Char} : spaced cs = [] ↔ cs = [] := by
  fun_cases spaced cs <;> simp

theorem unbroken_spaced (cs : List Char) : Unbroken (spaced cs) := by
  fun_induction spaced cs with
  | case1 => exact unbroken_nil
  | case2 cs ih =>
    intro c hc
    rcases List.mem_cons.1 hc with rfl | hc
    · decide
    · exact ih c hc
  | case3 c cs _ ih =>
    intro x hx
    rcases List.mem_cons.1 hx with rfl | hx
    · split
      · decide
      · next h => simpa only [not_or] using h
    · exact ih x hx

private theorem unbroken_escapeChar {c : Char} (h : c ≠ '\t' ∧ c ≠ '\n' ∧ c ≠ '\r') :
    Unbroken (escapeChar c) := by
  intro x hx
  rcases mem_escapeChar hx with ⟨rfl, -⟩ | hmem
  · exact h
  · have hletters : Unbroken ['&', 'l', 't', ';', 'g', 'a', 'm', 'p', 'o', 's', 'q', 'u'] := by decide
    exact hletters x hmem

/-- Turning breaks into spaces and escaping may be exchanged. -/
theorem spaced_escape (cs : List Char) : spaced (escape cs) = escape (spaced cs) := by
  fun_induction spaced cs with
  | case1 => rw [escape_nil, spaced]
  | case2 cs ih =>
    have hcrlf : escape ('\r' :: '\n' :: cs) = '\r' :: '\n' :: escape cs := by
      rw [escape_cons, escape_cons]
      rfl
    rw [hcrlf, spaced, ih, escape_cons]
    rfl
  | case3 c cs hcrlf ih =>
    split
    · next hc =>
      have hesc : escapeChar c = [c] :=
        escapeChar_of_not_isEscaped (by rcases hc with rfl | rfl | rfl <;> rfl)
      have hspace : escapeChar ' ' = [' '] := rfl
      rw [escape_cons, hesc, escape_cons, hspace, ← ih, List.cons_append, List.nil_append,
        List.cons_append, List.nil_append, spaced, if_pos hc]
      -- a carriage return is not followed by a line feed, escaped or not
      rintro rest rfl hrest
      obtain ⟨more, rfl⟩ := exists_of_escape_eq_cons rfl hrest
      exact hcrlf more rfl rfl
    · next hc =>
      have hc' : c ≠ '\t' ∧ c ≠ '\n' ∧ c ≠ '\r' := by simpa only [not_or] using hc
      rw [escape_cons, escape_cons, spaced_append (unbroken_escapeChar hc'), ih]

/-- An escaped attribute value is read back with its breaks turned into spaces. -/
theorem unescape_spaced_escape (entities : Entities) (cs : List Char) (offset : Nat) :
    unescape entities offset (spaced (escape cs)) = .ok (spaced cs) := by
  rw [spaced_escape, unescape_escape]

end SvgWorkbench.Markup
