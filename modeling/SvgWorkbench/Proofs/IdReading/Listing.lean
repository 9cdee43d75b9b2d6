import SvgWorkbench.Proofs.IdReading

/-!
# All readings of an id are listed

An id that ends in a hyphen and a number can have been made in several ways: what stands before that
hyphen is a type, or it is a group and a type at each hyphen with something on both sides. The
readings of the id are these, each once, the longest group first and the type alone last. An id
without a hyphen cannot be read as a name, nor can one that ends in no number of 64 bits.
-/

namespace SvgWorkbench

open Text

/-! ## Every cut, in order -/

namespace Text

variable {sep : Char} {cs before after : List Char}

theorem mem_splits_iff : (before, after) ∈ splits sep cs ↔ cs = before ++ sep :: after := by
  constructor
  · exact mem_splits
  · rintro rfl
    rw [splits_append_cons]
    exact List.mem_append_right _ List.mem_cons_self

/-- **A later cut has less before it**: what stands before it is a beginning of what stood before
the cuts listed earlier. -/
theorem pairwise_splits (sep : Char) (cs : List Char) :
    (splits sep cs).Pairwise fun p q ↦ ∃ c rest, p.1 = q.1 ++ c :: rest := by
  induction cs with
  | nil => exact .nil
  | cons c cs ih =>
    have hlater : ((splits sep cs).map fun p ↦ (c :: p.1, p.2)).Pairwise
        fun p q ↦ ∃ c rest, p.1 = q.1 ++ c :: rest := by
      refine List.pairwise_map.2 (ih.imp ?_)
      rintro p q ⟨c', rest, heq⟩
      exact ⟨c', rest, by rw [heq, List.cons_append]⟩
    rw [splits]
    split
    · -- the cut at the first character has nothing before it
      refine List.pairwise_append.2 ⟨hlater, List.pairwise_singleton _ _, fun p hp q hq ↦ ?_⟩
      obtain ⟨p, -, rfl⟩ := List.mem_map.1 hp
      obtain rfl := List.mem_singleton.1 hq
      exact ⟨c, p.1, rfl⟩
    · exact hlater

end Text

/-! ## Numbers that can be read -/

/-- Whether a text spells a number of 64 bits: by digits, perhaps behind a plus sign. -/
def SpellsWord (cs : List Char) (n : Nat) : Prop :=
  n < UInt64.size ∧ ∃ digits, (cs = digits ∨ cs = '+' :: digits) ∧ digits ≠ [] ∧
    (∀ c ∈ digits, c.isDigit = true) ∧ Nat.ofDigitChars 10 digits 0 = n

namespace IdReading

/-- **An index is read where a number of 64 bits is spelled.** -/
theorem index?_eq_some_iff {cs : List Char} {i : UInt64} :
    index? cs = some i ↔ SpellsWord cs i.toNat := by
  have hread : ∀ digits : List Char, ((numeral? 10 digits).bind fun n ↦
      if n < UInt64.size then some n.toUInt64 else none) = some i ↔
        numeral? 10 digits = some i.toNat := by
    intro digits
    cases numeral? 10 digits with
    | none => simp
    | some n =>
      rw [Option.bind_some, Option.some.injEq]
      constructor
      · intro h
        split at h
        · next hlt =>
          cases h
          exact (UInt64.toNat_ofNat_of_lt' hlt).symm
        · cases h
      · rintro rfl
        rw [if_pos i.toNat_lt]
        simp
  by_cases hplus : ∃ rest, cs = '+' :: rest
  · obtain ⟨rest, rfl⟩ := hplus
    rw [index?, hread, numeral?_eq_some_iff]
    constructor
    · exact fun h ↦ ⟨i.toNat_lt, rest, .inr rfl, h⟩
    · rintro ⟨-, digits, rfl | heq, hdigits⟩
      · exact absurd (hdigits.2.1 '+' List.mem_cons_self) (by decide)
      · cases heq
        exact hdigits
  · rw [not_exists] at hplus
    rw [index?, hread, numeral?_eq_some_iff]
    · constructor
      · exact fun h ↦ ⟨i.toNat_lt, cs, .inl rfl, h⟩
      · rintro ⟨-, digits, rfl | heq, hdigits⟩
        · exact hdigits
        · exact absurd heq (hplus digits)
    · exact hplus

theorem index?_eq_none_iff {cs : List Char} : index? cs = none ↔ ∀ n, ¬ SpellsWord cs n := by
  rw [Option.eq_none_iff_forall_ne_some]
  constructor
  · intro h n hspells
    refine h n.toUInt64 (index?_eq_some_iff.2 ?_)
    rwa [Nat.toUInt64_eq, UInt64.toNat_ofNat_of_lt' hspells.1]
  · exact fun h i hi ↦ h i.toNat (index?_eq_some_iff.1 hi)

/-! ## The readings of an id -/

variable {index : UInt64} {name : List Char} {r : IdReading}

/-- **Every cut with something on both sides is a reading.** -/
theorem mem_grouped_iff : r ∈ grouped index name ↔ ∃ group kind, group ≠ "" ∧ kind ≠ "" ∧
    r = ⟨some group, kind, index⟩ ∧ name = (group ++ "-" ++ kind).toList := by
  constructor
  · intro h
    obtain ⟨group, kind, rfl, hname, hgroup, hkind⟩ := mem_grouped h
    exact ⟨group, kind, hgroup, hkind, rfl, hname⟩
  · rintro ⟨group, kind, hgroup, hkind, rfl, rfl⟩
    refine List.mem_filterMap.2 ⟨(group.toList, kind.toList), mem_splits_iff.2 ?_, ?_⟩
    · simp
    · simp [hgroup, hkind]

/-- Whether a reading has a longer group than another one, in characters and in bytes. -/
def HasLonger (r s : IdReading) : Prop := ∃ group group', r.group = some group ∧
  s.group = some group' ∧ group'.length < group.length ∧
    group'.utf8ByteSize < group.utf8ByteSize

/-- **The longest group comes first.** -/
theorem pairwise_grouped (index : UInt64) (name : List Char) :
    (grouped index name).Pairwise HasLonger := by
  refine (pairwise_splits '-' name).filterMap _ ?_
  rintro ⟨before, after⟩ ⟨before', after'⟩ ⟨c, rest, hbefore⟩ r hr s hs
  obtain rfl : before = before' ++ c :: rest := hbefore
  simp only [Option.ite_none_left_eq_some, Option.some.injEq] at hr hs
  obtain ⟨-, rfl⟩ := hr
  obtain ⟨-, rfl⟩ := hs
  have hrest : (String.ofList (c :: rest)).utf8ByteSize ≠ 0 := by
    rw [Ne, String.utf8ByteSize_eq_zero_iff]
    simp
  refine ⟨_, _, rfl, rfl, ?_, ?_⟩
  · simp only [String.length_ofList, List.length_append, List.length_cons]
    omega
  · rw [String.ofList_append, String.utf8ByteSize_append]
    omega

/-- Whether a list holds the ways in which an id can have been made of a group, a type and a number:
each once, the longest group first. -/
structure AreReadings (id : String) (n : Nat) (readings : List IdReading) : Prop where
  /-- What is listed are the ways to make the id. -/
  mem_iff : ∀ r, r ∈ readings ↔ ∃ group kind, group ≠ "" ∧ kind ≠ "" ∧
    r = ⟨some group, kind, n.toUInt64⟩ ∧ formatId kind (some group) n = id
  /-- Nothing is listed twice. -/
  nodup : readings.Nodup
  /-- The groups grow shorter. -/
  descending : readings.Pairwise HasLonger

theorem areReadings_grouped {id name : String} {n : Nat} (hid : id = name ++ "-" ++ toString n) :
    AreReadings id n (grouped n.toUInt64 name.toList) := by
  have hpairwise := pairwise_grouped n.toUInt64 name.toList
  refine ⟨fun r ↦ ?_, hpairwise.imp ?_, hpairwise⟩
  · rw [mem_grouped_iff]
    refine exists₂_congr fun group kind ↦ ?_
    have hname : formatId kind (some group) n = id ↔ name = group ++ "-" ++ kind := by
      rw [hid, formatId_eq, inScope, String.append_left_inj, String.append_left_inj]
      exact eq_comm
    rw [hname, String.toList_inj]
  · rintro r s ⟨group, group', hgroup, hgroup', hlt, -⟩ rfl
    cases hgroup.symm.trans hgroup'
    exact Nat.lt_irrefl _ hlt

/-- **The readings of an id are the ways to make it**: those with a group and then, as the last one,
the one without. An id that does not end in a hyphen and a number of 64 bits has none. -/
theorem exists_areReadings_all (id : String) :
    (∀ name n, name ≠ "" → n < UInt64.size → id = name ++ "-" ++ toString n →
      ∃ readings, AreReadings id n readings ∧
        all id = readings ++ [⟨none, name, n.toUInt64⟩] ∧ formatId name none n = id) ∧
    ('-' ∉ id.toList → all id = []) ∧
    ∀ name digits, id = name ++ "-" ++ digits → '-' ∉ digits.toList →
      (∀ n, ¬ SpellsWord digits.toList n) → all id = [] := by
  refine ⟨fun name n hname hlt hid ↦ ?_, fun hdash ↦ ?_, fun name digits hid hdash hnone ↦ ?_⟩
  · refine ⟨_, areReadings_grouped hid, ?_, hid.symm⟩
    have hname' : name.toList.isEmpty = false := by simpa using hname
    have hformat : formatId name none n = id := hid.symm
    rw [← hformat, all_formatId hlt, inScope, hname']
    rfl
  · rw [all, splitLast, splits_of_notMem hdash]
    rfl
  · have hcut : splitLast '-' id.toList = some (name.toList, digits.toList) := by
      rw [hid, ← splitLast_append_cons hdash]
      simp
    simp only [all, hcut, index?_eq_none_iff.2 hnone]

/-- A group that ends in a hyphen comes before one that leaves the hyphen to the type. -/
theorem exists_areReadings_all_of_hyphens :
    ("é--ü" ≠ "" ∧ 2 < UInt64.size ∧ "é--ü-2" = "é--ü" ++ "-" ++ toString 2 ∧
      ∃ readings, AreReadings "é--ü-2" 2 readings ∧
        all "é--ü-2" = readings ++ [⟨none, "é--ü", 2⟩] ∧ formatId "é--ü" none 2 = "é--ü-2") ∧
    ('-' ∉ "rect".toList ∧ all "rect" = []) ∧
    ("rect-18446744073709551616" = "rect" ++ "-" ++ "18446744073709551616" ∧
      '-' ∉ "18446744073709551616".toList ∧
      (∀ n, ¬ SpellsWord "18446744073709551616".toList n) ∧
      all "rect-18446744073709551616" = []) := by
  have hlt : 2 < UInt64.size := by decide
  have hid : "é--ü-2" = "é--ü" ++ "-" ++ toString 2 := by decide
  have hbig : "rect-18446744073709551616" = "rect" ++ "-" ++ "18446744073709551616" := by decide
  have hnone : ∀ n, ¬ SpellsWord "18446744073709551616".toList n :=
    index?_eq_none_iff.1 (by decide +kernel)
  exact ⟨⟨by decide, hlt, hid, (exists_areReadings_all _).1 _ 2 (by decide) hlt hid⟩,
    ⟨by decide, (exists_areReadings_all _).2.1 (by decide)⟩,
    ⟨hbig, by decide, hnone, (exists_areReadings_all _).2.2 _ _ hbig (by decide) hnone⟩⟩

end IdReading

end SvgWorkbench
