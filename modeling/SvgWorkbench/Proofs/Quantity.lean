import SvgWorkbench.Proofs.Style
import SvgWorkbench.Proofs.Style.RoundTrip
import SvgWorkbench.Quantity

/-!
# Numbers as texts

The text of a number has no blank characters, so trimming leaves it as it is and an attribute or the
text of an element gives it back as it was written.
-/

namespace SvgWorkbench

open Text Markup

/-! ## Texts without blanks -/

namespace Text

/-- Whether no character is blank. -/
def IsSolid (cs : List Char) : Prop := ∀ c ∈ cs, isBlank c = false

instance (cs : List Char) : Decidable (IsSolid cs) := List.decidableBAll _ cs

variable {cs ds : List Char}

theorem IsSolid.append (hcs : IsSolid cs) (hds : IsSolid ds) : IsSolid (cs ++ ds) :=
  List.forall_mem_append.2 ⟨hcs, hds⟩

theorem IsSolid.isTrimmed (h : IsSolid cs) : IsTrimmed cs := by
  have hself : ∀ {ds}, IsSolid ds → ds.dropWhile isBlank = ds := fun {ds} hds ↦ by
    cases ds with
    | nil => rfl
    | cons c ds => exact List.dropWhile_cons_of_neg (by simp [hds c List.mem_cons_self])
  refine ⟨hself h, ?_⟩
  rw [trimEnd, hself fun c hc ↦ h c (List.mem_reverse.1 hc), List.reverse_reverse]

/-- A text without blanks has no tabs and no line breaks. -/
theorem IsSolid.unbroken (h : IsSolid cs) : Unbroken cs := by
  intro c hc
  have hsolid := h c hc
  refine ⟨?_, ?_, ?_⟩ <;> rintro rfl <;> exact absurd hsolid (by decide)

end Text

/-! ## Decimals -/

namespace Decimal

private theorem isSolid_toDigits (n : Nat) : IsSolid (Nat.toDigits 10 n) := by
  intro c hc
  have hdigit := Nat.isDigit_of_mem_toDigits (by decide) (by decide) hc
  have hdigits : ∀ k < 58, 48 ≤ k → isBlank (Char.ofNat k) = false := by decide
  obtain ⟨hlow, hhigh⟩ : 48 ≤ c.toNat ∧ c.toNat ≤ 57 := by
    simpa [Char.isDigit, UInt32.le_iff_toNat_le] using hdigit
  have hc := hdigits c.toNat (Nat.lt_succ_of_le hhigh) hlow
  rwa [Char.ofNat_toNat] at hc

private theorem isSolid_replicate (n : Nat) : IsSolid (List.replicate n '0') := by
  intro c hc
  rw [List.eq_of_mem_replicate hc]
  decide

/-- A decimal in positional notation is written without blanks, and not empty. -/
private theorem Digits.isSolid_positional (d : Digits) :
    IsSolid d.positional ∧ d.positional ≠ [] := by
  rw [positional]
  cases d.exponent with
  | ofNat n =>
    exact ⟨(isSolid_toDigits _).append (isSolid_replicate n),
      List.append_ne_nil_of_left_ne_nil Nat.toDigits_ne_nil _⟩
  | negSucc n =>
    simp only
    have hpadded : IsSolid (paddedDigits (n + 2) d.digits) :=
      (isSolid_replicate _).append (isSolid_toDigits _)
    have hlength : n + 2 ≤ (paddedDigits (n + 2) d.digits).length := by
      rw [paddedDigits, List.length_append, List.length_replicate]
      omega
    generalize paddedDigits (n + 2) d.digits = ds at hpadded hlength
    have hwhole : ds.take (ds.length - (n + 1)) ≠ [] := by
      rw [ne_eq, List.take_eq_nil_iff, not_or]
      exact ⟨by omega, fun heq ↦ by rw [heq] at hlength; exact absurd hlength (by simp)⟩
    have hwholes : IsSolid (ds.take (ds.length - (n + 1))) :=
      fun c hc ↦ hpadded c (List.mem_of_mem_take hc)
    split
    · exact ⟨hwholes, hwhole⟩
    · refine ⟨hwholes.append (List.forall_mem_cons.2 ⟨by decide, fun c hc ↦ ?_⟩),
        List.append_ne_nil_of_left_ne_nil hwhole _⟩
      have hfraction := (List.dropWhile_sublist _).subset (List.mem_reverse.1 hc)
      exact hpadded c (List.mem_of_mem_drop (List.mem_reverse.1 hfraction))

end Decimal

namespace Quantity

/-- The text of a number has no blanks, and is not empty. -/
theorem isSolid_text (x : Float) : IsSolid (text x).toList ∧ text x ≠ "" := by
  rw [text]
  split
  · decide
  rw [Decimal.text]
  split
  · decide
  have hpositional := (Decimal.Binary.ofBits x.toBits).shortest.isSolid_positional
  have hsize : ∀ size : String, IsSolid size.toList ∧ size ≠ "" →
      IsSolid (if Decimal.signBit ≤ x.toBits.toNat then "-" ++ size else size).toList ∧
        (if Decimal.signBit ≤ x.toBits.toNat then "-" ++ size else size) ≠ "" := by
    intro size h
    split
    · rw [String.toList_append]
      refine ⟨.append (by decide) h.1, fun heq ↦ h.2 (String.append_eq_empty_iff.1 heq).2⟩
    · exact h
  refine hsize _ ?_
  split
  · decide
  split
  · decide
  · rw [String.toList_ofList]
    refine ⟨hpositional.1, fun heq ↦ hpositional.2 ?_⟩
    rw [← String.toList_ofList (l := Decimal.Digits.positional _), heq]
    rfl

/-- The text of a number has no tab and no line break, and is not empty. -/
theorem unbroken_text (x : Float) : Unbroken (text x).toList ∧ text x ≠ "" :=
  ⟨(isSolid_text x).1.unbroken, (isSolid_text x).2⟩

theorem trim_text (x : Float) : trim (text x) = text x := Style.trim_eq (isSolid_text x).1.isTrimmed

end Quantity

end SvgWorkbench
