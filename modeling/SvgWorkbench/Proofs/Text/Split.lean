import SvgWorkbench.Text.Split

/-!
# Beginnings, occurrences and runs

The readers test whether a text begins with a mark, whether a mark occurs in it, and where the first
run of characters of one class ends. Here these tests are tied to the relations of lists.
-/

namespace SvgWorkbench.Text

/-! ## Beginnings and occurrences -/

theorem startsWith_iff {p cs : List Char} : startsWith p cs = true ↔ p <+: cs := by
  rw [startsWith, Option.isSome_iff_exists]
  simp only [afterPrefix?_eq_some_iff]
  exact exists_congr fun _ ↦ eq_comm

theorem occursIn_iff {p cs : List Char} : occursIn p cs = true ↔ p <:+: cs := by
  induction cs with
  | nil => simp [occursIn]
  | cons c cs ih =>
    rw [occursIn, Bool.or_eq_true, startsWith_iff, ih, List.infix_cons_iff]

/-- Whether a text occurs does not depend on what follows, as long as its last character does not
occur there. -/
theorem infix_of_infix_append {p cs ds : List Char} {x : Char} (h : p ++ [x] <:+: cs ++ ds)
    (hx : x ∉ ds) : p ++ [x] <:+: cs := by
  obtain ⟨a, b, hab⟩ := h
  rcases List.append_eq_append_iff.1 hab with ⟨ds', rfl, -⟩ | ⟨more, hmore, rfl⟩
  · exact ⟨a, ds', rfl⟩
  · rcases List.eq_nil_or_concat more with rfl | ⟨init, y, rfl⟩
    · rw [List.append_nil] at hmore
      exact ⟨a, [], by rw [← hmore, List.append_nil]⟩
    · rw [List.concat_eq_append, ← List.append_assoc, ← List.append_assoc] at hmore
      have hy := (List.append_inj_right' hmore rfl)
      rw [List.cons.injEq] at hy
      exact absurd (by simp [hy.1]) hx

/-- Nor does it depend on what stands before, as long as its first character does not occur
there. -/
theorem infix_of_append_of_notMem {p cs front : List Char} {x : Char} (h : x :: p <:+: front ++ cs)
    (hx : x ∉ front) : x :: p <:+: cs := by
  induction front with
  | nil => exact h
  | cons c front ih =>
    rcases List.infix_cons_iff.1 h with ⟨more, hmore⟩ | h
    · exact absurd ((List.cons.inj hmore).1 ▸ List.mem_cons_self) hx
    · exact ih h fun hmem ↦ hx (List.mem_cons_of_mem c hmem)

/-! ## Runs -/

/-- A run ends at the first character that is not of its class. -/
theorem takeWhile_until {p : Char → Bool} {cs : List Char} (h : ∀ c ∈ cs, p c = true)
    {x : Char} (hx : p x = false) (ds : List Char) : (cs ++ x :: ds).takeWhile p = cs := by
  rw [List.takeWhile_append_of_pos h, List.takeWhile_cons_of_neg (by simp [hx]), List.append_nil]

theorem dropWhile_until {p : Char → Bool} {cs : List Char} (h : ∀ c ∈ cs, p c = true)
    {x : Char} (hx : p x = false) (ds : List Char) : (cs ++ x :: ds).dropWhile p = x :: ds := by
  rw [List.dropWhile_append_of_pos h, List.dropWhile_cons_of_neg (by simp [hx])]

/-- What follows a character that is not of the class does not matter for a run. -/
theorem takeWhile_append_cons {p : Char → Bool} {x : Char} (hx : p x = false) (cs ds : List Char) :
    (cs ++ x :: ds).takeWhile p = cs.takeWhile p := by
  induction cs with
  | nil => rw [List.nil_append, List.takeWhile_cons_of_neg (by simp [hx]), List.takeWhile_nil]
  | cons c cs ih =>
    rw [List.cons_append, List.takeWhile_cons, List.takeWhile_cons, ih]

theorem dropWhile_append_cons {p : Char → Bool} {x : Char} (hx : p x = false) (cs ds : List Char) :
    (cs ++ x :: ds).dropWhile p = cs.dropWhile p ++ x :: ds := by
  induction cs with
  | nil => rw [List.nil_append, List.dropWhile_cons_of_neg (by simp [hx]), List.dropWhile_nil,
      List.nil_append]
  | cons c cs ih =>
    rw [List.cons_append, List.dropWhile_cons, List.dropWhile_cons, ih]
    split <;> rfl

/-- What is dropped from the front of a text is of the class it is dropped for. -/
theorem exists_append_dropWhile (p : Char → Bool) (cs : List Char) :
    ∃ front, cs = front ++ cs.dropWhile p ∧ ∀ c ∈ front, p c = true :=
  ⟨cs.takeWhile p, List.takeWhile_append_dropWhile.symm,
    fun c hc ↦ List.all_eq_true.1 List.all_takeWhile c hc⟩

end SvgWorkbench.Text
