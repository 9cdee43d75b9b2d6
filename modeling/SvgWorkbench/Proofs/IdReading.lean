import SvgWorkbench.Proofs.Naming

/-!
# Generated names can be read back

A generated name ends in a hyphen and a number, and what stands before that hyphen is the type,
perhaps behind a scope and one more hyphen. Cutting a name at its last hyphen therefore gives the
number back. The rest can be cut at each of its hyphens: at one inside the type, at the one between
scope and type, or at one inside the scope, and the readings come in this order.
-/

namespace SvgWorkbench

open Text

/-! ## Cutting at hyphens -/

namespace Text

variable {sep : Char}

theorem splits_of_notMem {cs : List Char} (h : sep ∉ cs) : splits sep cs = [] := by
  induction cs with
  | nil => rfl
  | cons c cs ih =>
    rw [List.mem_cons, not_or] at h
    rw [splits, ih h.2, if_neg (Ne.symm h.1), List.map_nil]

/-- A text with a separator inside is cut behind it first, then at it, then before it. -/
theorem splits_append_cons (cs ds : List Char) :
    splits sep (cs ++ sep :: ds) = (splits sep ds).map (fun p ↦ (cs ++ sep :: p.1, p.2)) ++
      (cs, ds) :: (splits sep cs).map fun p ↦ (p.1, p.2 ++ sep :: ds) := by
  induction cs with
  | nil => simp [splits]
  | cons c cs ih =>
    rw [List.cons_append, splits, ih, splits]
    by_cases hc : c = sep
    · simp [hc, Function.comp_def]
    · simp [hc, Function.comp_def]

theorem mem_splits {cs before after : List Char} (h : (before, after) ∈ splits sep cs) :
    cs = before ++ sep :: after := by
  induction cs generalizing before with
  | nil => cases h
  | cons c cs ih =>
    rw [splits] at h
    have hlater : ∀ p ∈ (splits sep cs).map (fun p ↦ (c :: p.1, p.2)), p = (before, after) →
        c :: cs = before ++ sep :: after := by
      rintro _ hp rfl
      obtain ⟨⟨before', after'⟩, hmem, heq⟩ := List.mem_map.1 hp
      cases heq
      rw [ih hmem, List.cons_append]
    split at h
    · next hc =>
      rcases List.mem_append.1 h with h | h
      · exact hlater _ h rfl
      · cases List.mem_singleton.1 h
        rw [hc, List.nil_append]
    · exact hlater _ h rfl

theorem splitLast_append_cons {cs ds : List Char} (h : sep ∉ ds) :
    splitLast sep (cs ++ sep :: ds) = some (cs, ds) := by
  rw [splitLast, splits_append_cons, splits_of_notMem h]
  rfl

end Text

/-! ## Numbers -/

private theorem toList_toString (n : Nat) : (toString n).toList = Nat.toDigits 10 n := by
  rw [Nat.toString_eq_repr, Nat.toList_repr]

private theorem isDigit_iff {c : Char} : c.isDigit = true ↔ '0' ≤ c ∧ c ≤ '9' := by
  simp [Char.isDigit, Char.le_def]

/-- No character of a number is a hyphen or a plus sign. -/
theorem notMem_toDigits {c : Char} (hc : c.toNat < '0'.toNat) (n : Nat) :
    c ∉ Nat.toDigits 10 n := by
  intro hmem
  have hdigit := Nat.isDigit_of_mem_toDigits (by decide) (by decide) hmem
  have hlow : '0'.toNat ≤ c.toNat := (isDigit_iff.1 hdigit).1
  omega

theorem digitValue?_of_isDigit {c : Char} (h : c.isDigit = true) :
    digitValue? c = some (c.toNat - '0'.toNat) := by
  rw [digitValue?, if_pos (isDigit_iff.1 h)]

/-- The letters among the digits count from ten. -/
theorem isDigit_ten_iff {c : Char} : Text.isDigit 10 c = true ↔ c.isDigit = true := by
  constructor
  · intro h
    by_contra hdigit
    rw [Text.isDigit, digitValue?, if_neg (isDigit_iff.not.1 hdigit)] at h
    split at h
    · next hvalue =>
      split at hvalue
      · cases hvalue
        rw [decide_eq_true_eq] at h
        omega
      · split at hvalue
        · cases hvalue
          rw [decide_eq_true_eq] at h
          omega
        · cases hvalue
    · cases h
  · intro h
    have hlow : '0'.toNat ≤ c.toNat := (isDigit_iff.1 h).1
    have hhigh : c.toNat ≤ '9'.toNat := (isDigit_iff.1 h).2
    rw [Text.isDigit, digitValue?_of_isDigit h]
    simp only [Char.reduceToNat, decide_eq_true_eq] at hlow hhigh ⊢
    omega

private theorem foldl_digits {cs : List Char}
    (h : ∀ c ∈ cs, digitValue? c = some (c.toNat - '0'.toNat)) (init : Nat) :
    cs.foldl (fun n c ↦ n * 10 + (digitValue? c).getD 0) init = Nat.ofDigitChars 10 cs init := by
  induction cs generalizing init with
  | nil => rfl
  | cons c cs ih =>
    rw [List.forall_mem_cons] at h
    rw [List.foldl_cons, ih h.2, h.1, Option.getD_some, Nat.ofDigitChars_cons, Nat.mul_comm init]

/-- A text denotes a number if it is a run of digits with that value. -/
theorem numeral?_eq_some_iff {cs : List Char} {n : Nat} : numeral? 10 cs = some n ↔
    cs ≠ [] ∧ (∀ c ∈ cs, c.isDigit = true) ∧ Nat.ofDigitChars 10 cs 0 = n := by
  have hall : cs.all (Text.isDigit 10) = true ↔ ∀ c ∈ cs, c.isDigit = true := by
    rw [List.all_eq_true]
    exact forall₂_congr fun c _ ↦ isDigit_ten_iff
  have hguard : (cs.isEmpty || !cs.all (Text.isDigit 10)) = true ↔
      ¬ (cs ≠ [] ∧ ∀ c ∈ cs, c.isDigit = true) := by
    rw [Bool.or_eq_true, List.isEmpty_iff, Bool.not_eq_true', ← Bool.not_eq_true, hall]
    tauto
  rw [numeral?, Option.ite_none_left_eq_some, hguard, not_not, Option.some.injEq, and_assoc]
  refine and_congr_right fun _ ↦ and_congr_right fun hdigits ↦ ?_
  rw [numeral, foldl_digits fun c hc ↦ digitValue?_of_isDigit (hdigits c hc)]

/-- The digits of a number denote it. -/
theorem numeral?_toDigits (n : Nat) : numeral? 10 (Nat.toDigits 10 n) = some n :=
  numeral?_eq_some_iff.2 ⟨Nat.toDigits_ne_nil,
    fun _ hc ↦ Nat.isDigit_of_mem_toDigits (by decide) (by decide) hc,
    Nat.ofDigitChars_toDigits (by decide) (by decide)⟩

/-- **The number of a name is read back** if it has 64 bits. -/
theorem IdReading.index?_toDigits {n : Nat} (h : n < UInt64.size) :
    index? (Nat.toDigits 10 n) = some n.toUInt64 := by
  rw [index?]
  · rw [numeral?_toDigits, Option.bind_some, if_pos h]
  · intro rest hplus
    exact notMem_toDigits (by decide) n (hplus ▸ List.mem_cons_self)

/-! ## Names -/

/-- A type behind its scope, as it stands in a generated name. -/
def inScope (scope : Option String) (kind : String) : String :=
  match scope with
  | some group => group ++ "-" ++ kind
  | none => kind

theorem formatId_eq (kind : String) (scope : Option String) (ordinal : Nat) :
    formatId kind scope ordinal = inScope scope kind ++ "-" ++ toString ordinal := by
  cases scope <;> rfl

theorem toList_formatId (kind : String) (scope : Option String) (ordinal : Nat) :
    (formatId kind scope ordinal).toList
      = (inScope scope kind).toList ++ '-' :: Nat.toDigits 10 ordinal := by
  rw [formatId_eq, String.toList_append, String.toList_append, toList_toString, List.append_assoc]
  rfl

theorem toList_inScope_some (group kind : String) :
    (inScope (some group) kind).toList = group.toList ++ '-' :: kind.toList := by
  rw [inScope, String.toList_append, String.toList_append, List.append_assoc]
  rfl

theorem splitLast_formatId (kind : String) (scope : Option String) (ordinal : Nat) :
    splitLast '-' (formatId kind scope ordinal).toList
      = some ((inScope scope kind).toList, Nat.toDigits 10 ordinal) := by
  rw [toList_formatId, splitLast_append_cons (notMem_toDigits (by decide) ordinal)]

private theorem inScope_inj {kind kind' : String} {scope scope' : Option String}
    (hkind : '-' ∉ kind.toList) (hkind' : '-' ∉ kind'.toList)
    (h : inScope scope kind = inScope scope' kind') : scope = scope' ∧ kind = kind' := by
  have hlist := congrArg String.toList h
  -- a name with a scope has a hyphen, and its last one stands between scope and type
  cases scope with
  | none =>
    cases scope' with
    | none => exact ⟨rfl, h⟩
    | some group' =>
      rw [toList_inScope_some] at hlist
      exact absurd (hlist ▸ by simp) hkind
  | some group =>
    cases scope' with
    | none =>
      rw [toList_inScope_some] at hlist
      exact absurd (hlist ▸ by simp) hkind'
    | some group' =>
      rw [toList_inScope_some, toList_inScope_some] at hlist
      have hcut := congrArg (splitLast '-') hlist
      rw [splitLast_append_cons hkind, splitLast_append_cons hkind', Option.some.injEq,
        Prod.mk.injEq, String.toList_inj, String.toList_inj] at hcut
      exact ⟨congrArg some hcut.1, hcut.2⟩

/-- **Names of types without hyphens can be read in one way only.** -/
theorem formatId_inj {kind kind' : String} {scope scope' : Option String} {m n : Nat}
    (hkind : '-' ∉ kind.toList) (hkind' : '-' ∉ kind'.toList)
    (h : formatId kind scope m = formatId kind' scope' n) :
    scope = scope' ∧ kind = kind' ∧ m = n := by
  have hcut := splitLast_formatId kind scope m
  rw [h, splitLast_formatId, Option.some.injEq, Prod.mk.injEq, String.toList_inj] at hcut
  obtain ⟨rfl, rfl⟩ := inScope_inj hkind' hkind hcut.1
  exact ⟨rfl, rfl, formatId_injective _ _ h⟩

namespace IdReading

/-- The readings of a name: those with a group, and the one without. -/
theorem all_formatId {kind : String} {scope : Option String} {ordinal : Nat}
    (h : ordinal < UInt64.size) :
    all (formatId kind scope ordinal) =
      grouped ordinal.toUInt64 (inScope scope kind).toList ++
        if (inScope scope kind).toList.isEmpty then []
        else [⟨none, inScope scope kind, ordinal.toUInt64⟩] := by
  rw [all, splitLast_formatId]
  simp only [index?_toDigits h, String.ofList_toList]

/-- A reading with a group cuts the name at a hyphen, and neither side is empty. -/
theorem mem_grouped {index : UInt64} {name : List Char} {r : IdReading}
    (h : r ∈ grouped index name) :
    ∃ group kind, r = ⟨some group, kind, index⟩ ∧ name = (group ++ "-" ++ kind).toList ∧
      group ≠ "" ∧ kind ≠ "" := by
  obtain ⟨⟨before, after⟩, hmem, hr⟩ := List.mem_filterMap.1 h
  simp only [Option.ite_none_left_eq_some, Option.some.injEq, Bool.or_eq_true, not_or,
    List.isEmpty_iff] at hr
  obtain ⟨⟨hbefore, hafter⟩, rfl⟩ := hr
  refine ⟨_, _, rfl, ?_, ?_, ?_⟩
  · rw [mem_splits hmem]
    simp
  · simpa using hbefore
  · simpa using hafter

/-- A type behind a group is read with the cuts of the type first, then as that type in that
group. -/
theorem grouped_inScope (index : UInt64) {group kind : String} (hgroup : group ≠ "")
    (hkind : kind ≠ "") :
    ∃ inner outer, grouped index (inScope (some group) kind).toList
        = inner ++ ⟨some group, kind, index⟩ :: outer ∧
      ∀ r ∈ inner, ∃ a b, kind = a ++ "-" ++ b ∧ b ≠ "" ∧ r.group = some (group ++ "-" ++ a) := by
  have hmiddle : group.toList.isEmpty = false ∧ kind.toList.isEmpty = false := by
    simp [hgroup, hkind]
  rw [toList_inScope_some, grouped, splits_append_cons, List.filterMap_append, List.filterMap_cons]
  simp only [hmiddle, Bool.or_self, Bool.false_eq_true, if_false, String.ofList_toList]
  refine ⟨_, _, rfl, ?_⟩
  intro r hr
  obtain ⟨⟨before, after⟩, hmem, hr⟩ := List.mem_filterMap.1 hr
  obtain ⟨⟨a, b⟩, hcut, heq⟩ := List.mem_map.1 hmem
  cases heq
  simp only [Option.ite_none_left_eq_some, Option.some.injEq, Bool.or_eq_true, not_or,
    List.isEmpty_iff] at hr
  obtain ⟨⟨-, hb⟩, rfl⟩ := hr
  refine ⟨String.ofList a, String.ofList b, ?_, by simpa using hb, ?_⟩
  · rw [← String.toList_inj, mem_splits hcut]
    simp
  · rw [Option.some.injEq, ← String.toList_inj]
    simp

end IdReading

end SvgWorkbench
