import SvgWorkbench.Proofs.Component.Outline

/-!
# Outlines of any flat list

The entries of a flat list name their parents as they like: an id may be missing or repeated, and
entries may be their own ancestors. The nesting starts at the entries without a parent and goes from
an entry to those that have it as their parent, so what it reaches has a level, the number of steps
back up to the top. The entries on the way up have smaller levels and are distinct; hence no level
is as large as the list is long, and the depth to which the nesting goes is never used up. What
stands below an entry is then all that belongs there, and an entry that is reached appears as often
as its parent, which is once.
-/

namespace SvgWorkbench

open SvgWorkbench.Tree

namespace Outline

section

variable {parents : List (Option Nat)} {i j k l : Nat}

/-! ## Levels -/

/-- The number of steps from a place up to the top. A place that is its own ancestor has none. -/
inductive HasLevel (parents : List (Option Nat)) : Nat → Nat → Prop where
  /-- A place at the top. -/
  | top {i : Nat} (h : parents[i]? = some none) : HasLevel parents 0 i
  /-- A place under another one. -/
  | under {level i parent : Nat} (h : parents[i]? = some (some parent))
      (hparent : HasLevel parents level parent) : HasLevel parents (level + 1) i

theorem HasLevel.lt_length_parents (h : HasLevel parents k i) : i < parents.length := by
  cases h with
  | top h => exact (List.getElem?_eq_some_iff.1 h).choose
  | under h => exact (List.getElem?_eq_some_iff.1 h).choose

theorem HasLevel.unique (hk : HasLevel parents k i) (hl : HasLevel parents l i) : k = l := by
  induction hk generalizing l with
  | top h =>
    cases hl with
    | top => rfl
    | under h' => cases h.symm.trans h'
  | under h _ ih =>
    cases hl with
    | top h' => cases h.symm.trans h'
    | under h' hparent =>
      cases h.symm.trans h'
      rw [ih hparent]

/-- The places on the way up are distinct. -/
theorem HasLevel.exists_chain (h : HasLevel parents k i) :
    ∃ chain : List Nat, chain.length = k + 1 ∧ chain.Nodup ∧
      ∀ j ∈ chain, ∃ l ≤ k, HasLevel parents l j := by
  induction h with
  | top h => exact ⟨[_], rfl, List.nodup_singleton _, by simpa using .top h⟩
  | @under k i parent h hparent ih =>
    obtain ⟨chain, hlength, hnodup, hlevels⟩ := ih
    have hlevel := HasLevel.under h hparent
    refine ⟨i :: chain, by rw [List.length_cons, hlength], List.nodup_cons.2 ⟨fun hi ↦ ?_, hnodup⟩,
      List.forall_mem_cons.2 ⟨⟨k + 1, Nat.le_refl _, hlevel⟩, fun j hj ↦ ?_⟩⟩
    · obtain ⟨l, hl, hi⟩ := hlevels i hi
      have := hlevel.unique hi
      omega
    · obtain ⟨l, hl, hj⟩ := hlevels j hj
      exact ⟨l, Nat.le_succ_of_le hl, hj⟩

/-- **A level is smaller than the number of places.** -/
theorem HasLevel.lt_length (h : HasLevel parents k i) : k < parents.length := by
  obtain ⟨chain, hlength, hnodup, hlevels⟩ := h.exists_chain
  have hle : chain.length ≤ (List.range parents.length).length :=
    hnodup.length_le_of_subset fun j hj ↦
      have ⟨_, _, hj⟩ := hlevels j hj
      List.mem_range.2 hj.lt_length_parents
  rw [List.length_range, hlength] at hle
  exact hle

/-- **Going down from a place with a level comes to an end.** -/
theorem HasLevel.acc (h : HasLevel parents k i) :
    Acc (fun child parent ↦ parents[child]? = some (some parent)) i := by
  -- the levels grow on the way down and are bounded
  obtain ⟨left, hleft⟩ : ∃ left, parents.length ≤ left + k := ⟨_, Nat.le_add_right _ k⟩
  induction left generalizing k i with
  | zero => exact absurd h.lt_length (by omega)
  | succ left ih => exact .intro i fun child hchild ↦ ih (.under hchild h) (by omega)

/-! ## Complete forests -/

/-- Whether below each place of a forest stand all places that are under it. -/
def AreComplete (parents : List (Option Nat)) (ts : List (Tree Nat)) : Prop :=
  ∀ t ∈ subtreesAll ts, t.children.map label = placesUnder parents (some t.label)

theorem areComplete_cons {a : Nat} {us ts : List (Tree Nat)} :
    AreComplete parents (.node a us :: ts) ↔
      us.map label = placesUnder parents (some a) ∧ AreComplete parents us ∧
        AreComplete parents ts := by
  simp only [AreComplete, subtreesAll, subtrees, List.cons_append, List.forall_mem_cons,
    List.forall_mem_append, children_node, label_node]

theorem areComplete_iff_forall {ts : List (Tree Nat)} :
    AreComplete parents ts ↔ ∀ t ∈ ts, AreComplete parents [t] := by
  simp only [AreComplete, subtreesAll_eq_flatMap, List.mem_flatMap, List.flatMap_singleton]
  exact ⟨fun h t ht s hs ↦ h s ⟨t, ht, hs⟩, fun h s ⟨t, ht, hs⟩ ↦ h t ht s hs⟩

@[simp] theorem label_nest (parents : List (Option Nat)) (depth i : Nat) :
    (nest parents depth i).label = i := by cases depth <;> rfl

theorem map_label_nest (parents : List (Option Nat)) (depth : Nat) (is : List Nat) :
    (is.map (nest parents depth)).map label = is := by
  rw [List.map_map]
  exact (List.map_congr_left fun i _ ↦ label_nest parents depth i).trans (List.map_id is)

/-- A nesting is complete if its depth reaches beyond the largest level. -/
theorem areComplete_nest {depth : Nat} (h : HasLevel parents k i)
    (hdepth : parents.length ≤ depth + k) : AreComplete parents [nest parents depth i] := by
  induction depth generalizing k i with
  | zero => exact absurd h.lt_length (by omega)
  | succ depth ih =>
    refine areComplete_cons.2 ⟨map_label_nest parents depth _, ?_, nofun⟩
    refine areComplete_iff_forall.2 (List.forall_mem_map.2 fun child hchild ↦ ?_)
    exact ih (.under (mem_placesUnder.1 hchild) h) (by omega)

/-- Of complete forests there is only one with given roots. -/
theorem AreComplete.eq {ts us : List (Tree Nat)} (hts : AreComplete parents ts)
    (hus : AreComplete parents us) (hroots : ts.map label = us.map label) : ts = us := by
  induction ts using forest_induction generalizing us with
  | nil => exact (List.map_eq_nil_iff.1 hroots.symm).symm
  | cons a below rest ihbelow ihrest =>
    cases us with
    | nil => cases hroots
    | cons u us =>
      obtain ⟨b, below'⟩ := u
      obtain ⟨hlabel, htail⟩ := List.cons.inj hroots
      obtain rfl : a = b := hlabel
      obtain ⟨hchildren, hbelow, hrest⟩ := areComplete_cons.1 hts
      obtain ⟨hchildren', hbelow', hrest'⟩ := areComplete_cons.1 hus
      rw [ihbelow hbelow hbelow' (hchildren.trans hchildren'.symm), ihrest hrest hrest' htail]

/-! ## How often a place appears -/

theorem AreComplete.followsParent {ts : List (Tree Nat)} (h : AreComplete parents ts) (i : Nat) :
    FollowsParent parents i (ts.map label) (preorderAll ts) := by
  induction ts using forest_induction with
  | nil => exact followsParent_nil i
  | cons a below rest ihbelow ihrest =>
    obtain ⟨hchildren, hbelow, hrest⟩ := areComplete_cons.1 h
    have hunder := ihbelow hbelow
    rw [hchildren] at hunder
    exact hunder.cons.append (ihrest hrest)

/-- What stands below places with levels has a level. -/
theorem AreComplete.exists_hasLevel {ts : List (Tree Nat)} (h : AreComplete parents ts)
    (hroots : ∀ j ∈ ts.map label, ∃ k, HasLevel parents k j) :
    ∀ j ∈ preorderAll ts, ∃ k, HasLevel parents k j := by
  induction ts using forest_induction with
  | nil => nofun
  | cons a below rest ihbelow ihrest =>
    obtain ⟨hchildren, hbelow, hrest⟩ := areComplete_cons.1 h
    obtain ⟨⟨k, ha⟩, hroots⟩ := List.forall_mem_cons.1 hroots
    have hunder : ∀ j ∈ below.map label, ∃ k, HasLevel parents k j := fun j hj ↦
      ⟨k + 1, .under (mem_placesUnder.1 (hchildren ▸ hj)) ha⟩
    refine List.forall_mem_append.2 ⟨List.forall_mem_cons.2 ⟨⟨k, ha⟩, ?_⟩, ihrest hrest hroots⟩
    exact ihbelow hbelow hunder

/-- A place with a level appears once below the top. -/
theorem AreComplete.count_of_hasLevel {ts : List (Tree Nat)} (h : AreComplete parents ts)
    (hroots : ts.map label = placesUnder parents none) (hi : HasLevel parents k i) :
    (preorderAll ts).count i = 1 := by
  induction hi with
  | @top i hplace =>
    have hfollows := h.followsParent i
    rw [FollowsParent, hroots, count_placesUnder, hplace] at hfollows
    simpa using hfollows
  | @under k i parent hplace _ ih =>
    have hfollows := h.followsParent i
    rw [FollowsParent, hroots, count_placesUnder, hplace] at hfollows
    simpa [ih] using hfollows

end

/-! ## The parent of an entry -/

/-- Whether an entry goes under another one: this is the first entry with the id that it names, and
not the entry itself. -/
def IsParent (flat : List Flat) (i parent : Nat) : Prop :=
  ∃ e p : Flat, flat[i]? = some e ∧ flat[parent]? = some p ∧
    e.heading.parent = some p.heading.id ∧
    (∀ k < parent, ∀ q : Flat, flat[k]? = some q → q.heading.id ≠ p.heading.id) ∧ parent ≠ i

/-- Whether going from an entry to its parent, and on from there, leads to one without a parent. -/
inductive ReachesTop (flat : List Flat) : Nat → Prop where
  /-- An entry without a parent. -/
  | top {i : Nat} (hi : i < flat.length) (h : ∀ parent, ¬ IsParent flat i parent) :
      ReachesTop flat i
  /-- An entry whose parent reaches the top. -/
  | under {i parent : Nat} (h : IsParent flat i parent) (hparent : ReachesTop flat parent) :
      ReachesTop flat i

variable {flat : List Flat} {i parent : Nat}

theorem parentIndex?_eq_some_iff :
    parentIndex? flat i = some parent ↔ IsParent flat i parent := by
  simp only [parentIndex?, Option.bind_eq_some_iff, Option.filter_eq_some_iff,
    List.findIdx?_eq_some_iff_getElem, bne_iff_ne, beq_iff_eq]
  constructor
  · rintro ⟨id, ⟨e, he, hid⟩, ⟨hlt, hfound, hbefore⟩, hne⟩
    refine ⟨e, flat[parent], he, List.getElem?_eq_getElem hlt, by rw [hid, hfound], ?_, hne⟩
    intro k hk q hq
    obtain ⟨hklt, rfl⟩ := List.getElem?_eq_some_iff.1 hq
    exact fun heq ↦ hbefore k hk (heq.trans hfound)
  · rintro ⟨e, p, he, hp, hid, hbefore, hne⟩
    obtain ⟨hlt, rfl⟩ := List.getElem?_eq_some_iff.1 hp
    refine ⟨_, ⟨e, he, hid⟩, ⟨hlt, rfl, fun k hk ↦ ?_⟩, hne⟩
    exact hbefore k hk _ (List.getElem?_eq_getElem (Nat.lt_trans hk hlt))

theorem IsParent.lt_length (h : IsParent flat i parent) : i < flat.length := by
  obtain ⟨e, -, he, -⟩ := h
  exact (List.getElem?_eq_some_iff.1 he).choose

theorem getElem?_parents_eq_some_iff :
    (parents flat)[i]? = some (some parent) ↔ IsParent flat i parent := by
  constructor
  · intro h
    have hi : i < flat.length := length_parents flat ▸ (List.getElem?_eq_some_iff.1 h).choose
    exact parentIndex?_eq_some_iff.1 (Option.some.inj ((getElem?_parents hi).symm.trans h))
  · intro h
    rw [getElem?_parents h.lt_length, parentIndex?_eq_some_iff.2 h]

theorem getElem?_parents_eq_none_iff : (parents flat)[i]? = some none ↔
    i < flat.length ∧ ∀ parent, ¬ IsParent flat i parent := by
  by_cases hi : i < flat.length
  · simp only [getElem?_parents hi, Option.some_inj, Option.eq_none_iff_forall_ne_some, hi,
      true_and, ne_eq, parentIndex?_eq_some_iff]
  · rw [List.getElem?_eq_none (by rw [length_parents]; exact Nat.le_of_not_lt hi)]
    exact iff_of_false nofun fun h ↦ hi h.1

theorem reachesTop_iff : ReachesTop flat i ↔ ∃ k, HasLevel (parents flat) k i := by
  constructor
  · intro h
    induction h with
    | top hi h => exact ⟨0, .top (getElem?_parents_eq_none_iff.2 ⟨hi, h⟩)⟩
    | under h _ ih =>
      obtain ⟨k, hk⟩ := ih
      exact ⟨k + 1, .under (getElem?_parents_eq_some_iff.2 h) hk⟩
  · rintro ⟨k, hk⟩
    induction hk with
    | top h =>
      obtain ⟨hi, h⟩ := getElem?_parents_eq_none_iff.1 h
      exact .top hi h
    | under h _ ih => exact .under (getElem?_parents_eq_some_iff.1 h) ih

/-! ## Nestings -/

/-- What it means for a forest of places to nest the entries of a flat list: the roots are the
entries without a parent, and the children of an entry are those that have it as their parent, both
in the order of the list. -/
structure IsNesting (flat : List Flat) (ts : List (Tree Nat)) : Prop where
  /-- An entry is a root if and only if it has no parent. -/
  mem_roots_iff (i : Nat) :
    i ∈ ts.map label ↔ i < flat.length ∧ ∀ parent, ¬ IsParent flat i parent
  /-- The roots are in the order of the list. -/
  sorted_roots : (ts.map label).Pairwise (· < ·)
  /-- An entry is a child of another one if and only if that is its parent. -/
  mem_children_iff : ∀ t ∈ subtreesAll ts, ∀ i, i ∈ t.children.map label ↔ IsParent flat i t.label
  /-- Children are in the order of the list. -/
  sorted_children : ∀ t ∈ subtreesAll ts, (t.children.map label).Pairwise (· < ·)

theorem pairwise_placesUnder (parents : List (Option Nat)) (parent : Option Nat) :
    (placesUnder parents parent).Pairwise (· < ·) := by
  rw [placesUnder_eq_filter]
  exact List.pairwise_lt_range.filter _

/-- The places at the top, nested to a depth that reaches beyond the last place, are complete. -/
theorem areComplete_top (flat : List Flat) {depth : Nat} (hdepth : flat.length ≤ depth) :
    AreComplete (parents flat)
      ((placesUnder (parents flat) none).map (nest (parents flat) depth)) := by
  refine areComplete_iff_forall.2 (List.forall_mem_map.2 fun i hi ↦ ?_)
  exact areComplete_nest (.top (mem_placesUnder.1 hi)) (by rwa [length_parents])

theorem areComplete_places (flat : List Flat) : AreComplete (parents flat) (places flat) :=
  areComplete_top flat (Nat.le_refl _)

theorem map_label_places (flat : List Flat) :
    (places flat).map label = placesUnder (parents flat) none := map_label_nest _ _ _

theorem isNesting_places (flat : List Flat) : IsNesting flat (places flat) where
  mem_roots_iff i := by
    rw [map_label_places, mem_placesUnder, getElem?_parents_eq_none_iff]
  sorted_roots := map_label_places flat ▸ pairwise_placesUnder _ _
  mem_children_iff t ht i := by
    rw [areComplete_places flat t ht, mem_placesUnder, getElem?_parents_eq_some_iff]
  sorted_children t ht := areComplete_places flat t ht ▸ pairwise_placesUnder _ _

theorem reachesTop_of_mem_preorderAll (h : i ∈ preorderAll (places flat)) : ReachesTop flat i := by
  refine reachesTop_iff.2 ((areComplete_places flat).exists_hasLevel (fun j hj ↦ ?_) i h)
  exact ⟨0, .top (mem_placesUnder.1 (map_label_places flat ▸ hj))⟩

theorem ReachesTop.lt_length (h : ReachesTop flat i) : i < flat.length := by
  obtain ⟨k, hk⟩ := reachesTop_iff.1 h
  exact length_parents flat ▸ hk.lt_length_parents

theorem ReachesTop.acc (h : ReachesTop flat i) : Acc (IsParent flat) i := by
  obtain ⟨k, hk⟩ := reachesTop_iff.1 h
  exact Subrelation.accessible getElem?_parents_eq_some_iff.2 hk.acc

/-- **Any flat list is nested, and nothing of it appears twice.** The outline shows the headings of
a nesting of the places; going down from an entry that reaches the top comes to an end, so that no
larger depth gives another outline; and an entry appears once if it reaches the top, and otherwise
not at all. -/
theorem build_nests (flat : List Flat) :
    build flat = mapAll (headingAt flat) (places flat) ∧
      (∀ i ∈ preorderAll (places flat), flat[i]?.map (·.heading) = some (headingAt flat i)) ∧
      IsNesting flat (places flat) ∧
      (∀ i, ReachesTop flat i → Acc (IsParent flat) i) ∧
      (∀ depth, flat.length ≤ depth →
        (placesUnder (parents flat) none).map (nest (parents flat) depth) = places flat) ∧
      ∀ i, (ReachesTop flat i → (preorderAll (places flat)).count i = 1) ∧
        (¬ ReachesTop flat i → (preorderAll (places flat)).count i = 0) := by
  refine ⟨(mapAll_eq_map _ _).symm, fun i hi ↦ ?_, isNesting_places flat, fun i ↦ ReachesTop.acc,
    fun depth hdepth ↦ ?_, fun i ↦ ⟨fun hi ↦ ?_, fun hi ↦ ?_⟩⟩
  · rw [headingAt, List.getElem?_eq_getElem (reachesTop_of_mem_preorderAll hi).lt_length]
    rfl
  · refine (areComplete_top flat hdepth).eq (areComplete_places flat) ?_
    rw [map_label_nest, map_label_places]
  · obtain ⟨k, hk⟩ := reachesTop_iff.1 hi
    exact (areComplete_places flat).count_of_hasLevel (map_label_places flat) hk
  · exact List.count_eq_zero.2 fun hmem ↦ hi (reachesTop_of_mem_preorderAll hmem)

/-- A repeated id, a parent that is missing, two entries in a circle and one that names itself. -/
example :
    let entry (id : String) (parent : Option String) : Flat := ⟨⟨id, "g", parent⟩, none⟩
    places [entry "a" none, entry "b" (some "a"), entry "a" (some "gone"), entry "c" (some "d"),
        entry "d" (some "c"), entry "e" (some "e")]
      = [.node 0 [.node 1 []], .node 2 [], .node 5 []] := by decide

end Outline

end SvgWorkbench
