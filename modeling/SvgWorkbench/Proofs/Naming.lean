import Mathlib.Data.List.Forall2
import Mathlib.Data.List.Nodup
import Mathlib.Data.List.Perm.Subperm
import Mathlib.Data.List.ReduceOption
import SvgWorkbench.Naming
import SvgWorkbench.Proofs.Markup.Name

/-!
# Generated names are new

Of the names for a type in a scope no two are the same, so of one more numbers than there are names
taken one gives a name that is free. A walk that keeps the ids that are there and gives out names
where there are none is a sequence of such steps. If every id that is kept has been taken from the
start, and none is kept twice, then no two of the ids are the same in the end.
-/

namespace SvgWorkbench

/-! ## Free names -/

theorem formatId_ne_empty (kind : String) (scope : Option String) (ordinal : Nat) :
    formatId kind scope ordinal ≠ "" := by
  intro h
  have hlength := congrArg String.length h
  cases scope <;> simp [formatId] at hlength

/-- Names of different numbers are different. -/
theorem formatId_injective (kind : String) (scope : Option String) :
    Function.Injective (formatId kind scope) := by
  intro m n h
  have htext : Nat.repr m = Nat.repr n := by
    cases scope with
    | none => exact (String.append_right_inj _).1 h
    | some group => exact (String.append_right_inj _).1 h
  have hdigits : Nat.toDigits 10 m = Nat.toDigits 10 n := by
    rw [← Nat.toList_repr, ← Nat.toList_repr, htext]
  have hread : ∀ k, Nat.ofDigitChars 10 (Nat.toDigits 10 k) 0 = k :=
    fun k ↦ Nat.ofDigitChars_toDigits (by decide) (by decide)
  rw [← hread m, ← hread n, hdigits]

private theorem isNameChar_toString (n : Nat) :
    ∀ c ∈ (toString n).toList, Xml.isNameChar c = true := by
  intro c hc
  rw [Nat.toString_eq_repr, Nat.toList_repr] at hc
  have hdigit := Nat.isDigit_of_mem_toDigits (by decide) (by decide) hc
  have hrange : '0' ≤ c ∧ c ≤ '9' := by simpa [Char.isDigit, Char.le_def] using hdigit
  simp [Xml.isNameChar, hrange.1, hrange.2]

/-- A generated name adds characters of names to the scope, so it has what the scope has and what
all texts of such characters have, if that is handed on to texts put together. -/
theorem formatId_of_append {P : String → Prop} (happend : ∀ s t, P s → P t → P (s ++ t))
    (hname : ∀ s : String, (∀ c ∈ s.toList, Xml.isNameChar c = true) → P s) {kind : String}
    (hkind : Xml.IsName kind.toList) {scope : Option String} (hscope : ∀ g, scope = some g → P g)
    (ordinal : Nat) : P (formatId kind scope ordinal) := by
  have hdash : P "-" := hname _ (List.all_eq_true.1 rfl)
  have hkind' := hname kind hkind.forall_isNameChar
  have hordinal := hname (toString ordinal) (isNameChar_toString ordinal)
  cases scope with
  | none => exact happend _ _ (happend _ _ hkind' hdash) hordinal
  | some g =>
    have hgroup := happend _ _ (hscope g rfl) hdash
    exact happend _ _ (happend _ _ (happend _ _ hgroup hkind') hdash) hordinal

namespace Naming

/-- **The number that is found gives a name that is free.** -/
theorem formatId_freeOrdinal_notMem (n : Naming) (kind : String) (scope : Option String) :
    formatId kind scope (n.freeOrdinal kind scope) ∉ n.reserved := by
  rw [freeOrdinal]
  cases hfind : (List.range' (n.count kind scope) (n.reserved.length + 1)).find? fun ordinal ↦
      !n.reserved.contains (formatId kind scope ordinal) with
  | some ordinal => simpa using List.find?_some hfind
  | none =>
    -- otherwise more names would be taken than there are
    exfalso
    have htaken : ((List.range' (n.count kind scope) (n.reserved.length + 1)).map
        (formatId kind scope)) ⊆ n.reserved := by
      intro id hid
      obtain ⟨ordinal, hmem, rfl⟩ := List.mem_map.1 hid
      simpa using List.find?_eq_none.1 hfind ordinal hmem
    have hnodup := List.Nodup.map (formatId_injective kind scope)
      (List.nodup_range' (s := n.count kind scope) (n := n.reserved.length + 1))
    have hlength := (List.subperm_of_subset hnodup htaken).length_le
    rw [List.length_map, List.length_range'] at hlength
    omega

theorem allocate_fst_notMem (n : Naming) (kind : String) (scope : Option String) :
    (n.allocate kind scope).1 ∉ n.reserved := n.formatId_freeOrdinal_notMem kind scope

end Naming

/-! ## Walks that give out names -/

/-- What a walk does that meets some ids that are kept, and some places without one: it goes from
names that are taken to more names that are taken, and has an id for every place in the end. -/
inductive Draws : List String → List (Option String) → List String → List String → Prop where
  /-- Nothing is met. -/
  | nil (taken : List String) : Draws taken [] [] taken
  /-- An id is kept. -/
  | keeps {taken taken' : List String} {owns : List (Option String)} {id : String}
    {ids : List String} (hne : id ≠ "") (h : Draws taken owns ids taken') :
    Draws taken (some id :: owns) (id :: ids) taken'
  /-- A name is given out that is free, and is taken from then on. -/
  | gives {taken taken' : List String} {owns : List (Option String)} {id : String}
    {ids : List String} (hne : id ≠ "") (hfree : id ∉ taken)
    (h : Draws (id :: taken) owns ids taken') :
    Draws taken (none :: owns) (id :: ids) taken'

namespace Draws

variable {taken taken' taken'' : List String} {owns owns' : List (Option String)}
  {ids ids' : List String}

/-- Two walks make one. -/
theorem append (h : Draws taken owns ids taken') (h' : Draws taken' owns' ids' taken'') :
    Draws taken (owns ++ owns') (ids ++ ids') taken'' := by
  induction h with
  | nil => exact h'
  | keeps hne _ ih => exact .keeps hne (ih h')
  | gives hne hfree _ ih => exact .gives hne hfree (ih h')

theorem ne_empty (h : Draws taken owns ids taken') : ∀ id ∈ ids, id ≠ "" := by
  induction h with
  | nil => exact nofun
  | keeps hne _ ih => exact List.forall_mem_cons.2 ⟨hne, ih⟩
  | gives hne _ _ ih => exact List.forall_mem_cons.2 ⟨hne, ih⟩

/-- Ids are kept, and the names that are given out were free at the start. -/
theorem forall₂ (h : Draws taken owns ids taken') :
    List.Forall₂ (fun own id ↦ own = some id ∨ own = none ∧ id ∉ taken) owns ids := by
  induction h with
  | nil => exact .nil
  | keeps _ _ ih => exact .cons (.inl rfl) ih
  | gives _ hfree _ ih =>
    refine .cons (.inr ⟨rfl, hfree⟩) (ih.imp fun own id hid ↦ hid.imp_right ?_)
    exact fun ⟨hnone, hnot⟩ ↦ ⟨hnone, fun hmem ↦ hnot (List.mem_cons_of_mem _ hmem)⟩

theorem mem_or_notMem (h : Draws taken owns ids taken') :
    ∀ id ∈ ids, some id ∈ owns ∨ id ∉ taken := by
  induction h with
  | nil => exact nofun
  | keeps _ _ ih =>
    rw [List.forall_mem_cons]
    exact ⟨.inl List.mem_cons_self, fun id hid ↦ (ih id hid).imp_left (List.mem_cons_of_mem _)⟩
  | gives _ hfree _ ih =>
    rw [List.forall_mem_cons]
    refine ⟨.inr hfree, fun id hid ↦ (ih id hid).imp (List.mem_cons_of_mem _) ?_⟩
    exact fun hnot hmem ↦ hnot (List.mem_cons_of_mem _ hmem)

/-- **No id occurs twice** if the ids that are kept are taken from the start and none of them is
kept twice. -/
theorem nodup (h : Draws taken owns ids taken') (htaken : ∀ id, some id ∈ owns → id ∈ taken)
    (hnodup : owns.reduceOption.Nodup) : ids.Nodup := by
  induction h with
  | nil => exact .nil
  | @keeps taken taken' owns id ids hne h ih =>
    rw [List.reduceOption_cons_of_some, List.nodup_cons] at hnodup
    refine List.nodup_cons.2 ⟨fun hmem ↦ ?_, ih (fun x hx ↦ htaken x (List.mem_cons_of_mem _ hx))
      hnodup.2⟩
    -- the id is met once more, or it is new, and neither is the case
    rcases h.mem_or_notMem id hmem with hagain | hnew
    · exact hnodup.1 (List.reduceOption_mem_iff.2 hagain)
    · exact hnew (htaken id List.mem_cons_self)
  | @gives taken taken' owns id ids hne hfree h ih =>
    rw [List.reduceOption_cons_of_none] at hnodup
    have htail : ∀ x, some x ∈ owns → x ∈ taken :=
      fun x hx ↦ htaken x (List.mem_cons_of_mem _ hx)
    refine List.nodup_cons.2 ⟨fun hmem ↦ ?_, ih (fun x hx ↦ List.mem_cons_of_mem _ (htail x hx))
      hnodup⟩
    rcases h.mem_or_notMem id hmem with hagain | hnew
    · exact hfree (htail id hagain)
    · exact hnew List.mem_cons_self

end Draws

end SvgWorkbench
