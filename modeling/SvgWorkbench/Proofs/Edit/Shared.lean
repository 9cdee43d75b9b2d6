import SvgWorkbench.Edit.Group
import SvgWorkbench.Proofs.SortedMap

/-!
# What the selected elements have in common

The common properties are read off one component after another. The walk over the components may
leave a property out or mark it as different, and neither is undone later: after any number of them
the map holds what all components so far have in common. That is a statement about the set of the
components, so neither their order nor how often one of them is named makes a difference.
-/

namespace SvgWorkbench

namespace SharedProperties

/-! ## The properties of a set of components -/

/-- A component that one of some ids means. -/
def IsMeant (forest : List Component) (ids : List String) (c : Component) : Prop :=
  ∃ id ∈ ids, Component.find? forest id = some c

/-- A map has the properties that all components of a set have, each with the value on which they
agree, or with no value where two of them differ. -/
structure IsIntersection (s : Component → Prop) (p : SharedProperties) : Prop where
  /-- A property is there if and only if every component has it. -/
  mem_iff (key : String) : p.get? key ≠ none ↔ ∀ c, s c → c.attribute? key ≠ none
  /-- It has a value if and only if that is its value on every component. -/
  value_iff (key value : String) :
    p.get? key = some (some value) ↔ ∀ c, s c → c.attribute? key = some value
  /-- It has none if and only if every component has it and two of them differ. -/
  mixed_iff (key : String) : p.get? key = some none ↔ (∀ c, s c → c.attribute? key ≠ none) ∧
    ∃ c d, s c ∧ s d ∧ c.attribute? key ≠ d.attribute? key

variable {s : Component → Prop} {p q : SharedProperties} {c : Component}

/-- What the elements have in common is determined by the set of their components. -/
theorem IsIntersection.eq (hp : IsIntersection s p) (hq : IsIntersection s q) : p = q := by
  refine SortedMap.ext_get? fun key ↦ ?_
  cases hget : p.get? key with
  | none => exact (not_not.1 fun h ↦ (hp.mem_iff key).2 ((hq.mem_iff key).1 h) hget).symm
  | some value =>
    cases value with
    | none => exact ((hq.mixed_iff key).2 ((hp.mixed_iff key).1 hget)).symm
    | some value => exact ((hq.value_iff key value).2 ((hp.value_iff key value).1 hget)).symm

/-- Of a set that is not empty, the mixed properties are those that are there without a value. -/
private theorem isIntersection_of_mem (hc : s c)
    (hmem : ∀ key, p.get? key ≠ none ↔ ∀ c, s c → c.attribute? key ≠ none)
    (hvalue : ∀ key value,
      p.get? key = some (some value) ↔ ∀ c, s c → c.attribute? key = some value) :
    IsIntersection s p := by
  refine ⟨hmem, hvalue, fun key ↦ ⟨fun hget ↦ ?_, ?_⟩⟩
  · have hall := (hmem key).1 (by rw [hget]; exact Option.some_ne_none none)
    obtain ⟨value, hown⟩ := Option.ne_none_iff_exists'.1 (hall c hc)
    -- the value of one component is not that of all, or the property would have it
    have hsome : ¬ ∀ d, s d → d.attribute? key = some value := fun hagree ↦ by
      simpa [hget] using (hvalue key value).2 hagree
    simp only [not_forall] at hsome
    obtain ⟨d, hd, hne⟩ := hsome
    exact ⟨hall, c, d, hc, hd, fun heq ↦ hne (heq ▸ hown)⟩
  · rintro ⟨hall, a, b, ha, hb, hne⟩
    obtain ⟨value, hget⟩ := Option.ne_none_iff_exists'.1 ((hmem key).2 hall)
    cases value with
    | none => exact hget
    | some value =>
      have hagree := (hvalue key value).1 hget
      exact absurd ((hagree a ha).trans (hagree b hb).symm) hne

/-! ## One component more -/

theorem get?_ofComponent (c : Component) (key : String) :
    (ofComponent c).get? key = (c.attribute? key).map some :=
  SortedMap.get?_mapValues _ _ key

theorem get?_meet (p : SharedProperties) (c : Component) (key : String) :
    (p.meet c).get? key = ((p.get? key).filter fun _ ↦ (c.attribute? key).isSome).map
      fun value ↦ if c.attribute? key = value then value else none := by
  rw [meet, SortedMap.get?_mapValues, SortedMap.get?_filter]

theorem get?_meet_ne_none_iff {key : String} :
    (p.meet c).get? key ≠ none ↔ p.get? key ≠ none ∧ c.attribute? key ≠ none := by
  rw [get?_meet]
  cases p.get? key <;> cases c.attribute? key <;> simp

theorem get?_meet_eq_some_iff {key value : String} : (p.meet c).get? key = some (some value) ↔
    p.get? key = some (some value) ∧ c.attribute? key = some value := by
  rw [get?_meet]
  cases p.get? key with
  | none => simp
  | some own =>
    cases hc : c.attribute? key with
    | none => simp
    | some other =>
      by_cases heq : some other = own
      · simp [← heq]
      · refine iff_of_false (by simp [heq]) ?_
        rintro ⟨hown, hother⟩
        exact heq (hother.trans (Option.some.inj hown).symm)

theorem isIntersection_ofComponent (c : Component) : IsIntersection (· = c) (ofComponent c) := by
  refine isIntersection_of_mem rfl (fun key ↦ ?_) fun key value ↦ ?_ <;> simp [get?_ofComponent]

theorem IsIntersection.meet (h : IsIntersection s p) (c : Component) :
    IsIntersection (fun d ↦ s d ∨ d = c) (p.meet c) := by
  refine isIntersection_of_mem (.inr rfl) (fun key ↦ ?_) fun key value ↦ ?_
  · rw [get?_meet_ne_none_iff, h.mem_iff]
    simp only [or_imp, forall_and, forall_eq]
  · rw [get?_meet_eq_some_iff, h.value_iff]
    simp only [or_imp, forall_and, forall_eq]

/-! ## Any number of components -/

theorem IsIntersection.foldl_meet (h : IsIntersection s p) (cs : List Component) :
    IsIntersection (fun d ↦ s d ∨ d ∈ cs) (cs.foldl SharedProperties.meet p) := by
  induction cs generalizing s p with
  | nil => simpa using h
  | cons c cs ih => simpa [or_assoc] using ih (h.meet c)

theorem of?_eq_none_iff {forest : List Component} {ids : List String} :
    of? forest ids = none ↔ ∀ id ∈ ids, Component.find? forest id = none := by
  rw [← List.filterMap_eq_nil_iff, of?]
  cases ids.filterMap (Component.find? forest) <;> simp

theorem of?_eq_none_iff_isMeant {forest : List Component} {ids : List String} :
    of? forest ids = none ↔ ∀ c, ¬ IsMeant forest ids c := by
  rw [of?_eq_none_iff]
  simp only [Option.eq_none_iff_forall_ne_some, IsMeant, not_exists, not_and]
  exact ⟨fun h c id hid ↦ h id hid c, fun h id hid c ↦ h c id hid⟩

theorem isIntersection_of? {forest : List Component} {ids : List String}
    (h : of? forest ids = some p) : IsIntersection (IsMeant forest ids) p := by
  have hmeant : IsMeant forest ids = (· ∈ ids.filterMap (Component.find? forest)) :=
    funext fun c ↦ propext List.mem_filterMap.symm
  rw [of?] at h
  rw [hmeant]
  cases hcs : ids.filterMap (Component.find? forest) with
  | nil => simp [hcs] at h
  | cons c cs =>
    simp only [hcs, Option.some.injEq] at h
    simpa [← h] using (isIntersection_ofComponent c).foldl_meet cs

/-- **What the elements have in common is the intersection of their properties.** There is none if
and only if no id means a component, and it is the same for any ids that mean the same components. -/
theorem common_of? (forest : List Component) (ids : List String) :
    (of? forest ids = none ↔ ∀ id ∈ ids, Component.find? forest id = none) ∧
      (∀ p, of? forest ids = some p → IsIntersection (IsMeant forest ids) p) ∧
      ∀ forest' ids', (∀ c, IsMeant forest ids c ↔ IsMeant forest' ids' c) →
        of? forest ids = of? forest' ids' := by
  refine ⟨of?_eq_none_iff, fun p ↦ isIntersection_of?, fun forest' ids' hsame ↦ ?_⟩
  have hset : IsMeant forest' ids' = IsMeant forest ids := funext fun c ↦ propext (hsame c).symm
  cases hp : of? forest ids with
  | none => exact (of?_eq_none_iff_isMeant.2 (hset ▸ of?_eq_none_iff_isMeant.1 hp)).symm
  | some p =>
    cases hq : of? forest' ids' with
    | none => simp [of?_eq_none_iff_isMeant.2 (hset ▸ of?_eq_none_iff_isMeant.1 hq)] at hp
    | some q => exact congrArg some ((isIntersection_of? hp).eq (hset ▸ isIntersection_of? hq))

theorem common_of?_two :
    let r : Component := ⟨⟨"a", "rect", none, .ofList [("fill", "red"), ("x", "5")]⟩, []⟩
    let c : Component := ⟨⟨"b", "circle", none, .ofList [("fill", "red"), ("x", "6")]⟩, []⟩
    of? [r, c] ["b", "gone", "a"] = some (.ofList [("fill", some "red"), ("x", none)]) ∧
      IsIntersection (IsMeant [r, c] ["b", "gone", "a"])
        (.ofList [("fill", some "red"), ("x", none)]) ∧
      of? [r, c] ["gone"] = none := by
  intro r c
  obtain ⟨-, hsome, -⟩ := common_of? [r, c] ["b", "gone", "a"]
  have heq : of? [r, c] ["b", "gone", "a"] = some (.ofList [("fill", some "red"), ("x", none)]) := by
    decide +kernel
  refine ⟨heq, hsome _ heq, (common_of? [r, c] ["gone"]).1.2 fun id hid ↦ ?_⟩
  rw [List.mem_singleton.1 hid]
  decide +kernel

end SharedProperties

end SvgWorkbench
