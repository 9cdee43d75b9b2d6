import SvgWorkbench.Proofs.Component.Lookup
import SvgWorkbench.Proofs.IdReading

/-!
# Places of components

A component stands at a place: among the components of its type around it, in the scope of the
component it is in. The root and its children share the scope without a name, in which the root
comes first. A place has a name, which is the generated name of its type, scope and number, whatever
the id of the component is. Looking up the name of a place finds the component there, unless the
name is an id or can be read as a place in a component that exists.
-/

namespace SvgWorkbench

open Text SvgWorkbench.Tree

namespace Component

/-! ## Places -/

/-- Where a component stands. -/
structure Place where
  /-- The component. -/
  component : Component
  /-- The id of the component around, none at the root and right below it. -/
  scope : Option String
  /-- How many components of its type come before it in the scope. -/
  ordinal : Nat
  deriving DecidableEq

namespace Place

/-- What a place counts for: a scope and a type. -/
def key (x : Place) : Option String × String := (x.scope, x.component.kind)

/-- The generated name of a place. -/
def name (x : Place) : String := formatId x.component.kind x.scope x.ordinal

end Place

mutual

/-- The places of a component and of what is inside, where components of some types come before it
in its scope. -/
def placesAt (scope : Option String) (before : List String) : Component → List Place
  | .node e cs =>
    ⟨.node e cs, scope, before.count e.kind⟩ :: placesAmong (some e.id) [] cs

/-- The places of some siblings and of what is inside. -/
def placesAmong (scope : Option String) (before : List String) : List Component → List Place
  | [] => []
  | c :: cs => placesAt scope before c ++ placesAmong scope (c.label.kind :: before) cs

end

/-- The places of a forest, each tree of which has a root. -/
def places (forest : List Component) : List Place :=
  forest.flatMap fun root ↦
    ⟨root, none, 0⟩ :: placesAmong none [root.label.kind] (Tree.children root)

mutual

theorem map_component_placesAt (c : Component) (scope : Option String) (before : List String) :
    (placesAt scope before c).map Place.component = c.subtrees := by
  match c with
  | .node e cs => rw [placesAt, subtrees, List.map_cons, map_component_placesAmong cs]

theorem map_component_placesAmong (cs : List Component) (scope : Option String)
    (before : List String) :
    (placesAmong scope before cs).map Place.component = subtreesAll cs := by
  match cs with
  | [] => rfl
  | c :: cs =>
    rw [placesAmong, subtreesAll, List.map_append, map_component_placesAt c,
      map_component_placesAmong cs]

end

/-- **Every component has its place**, in document order. -/
theorem map_component_places (forest : List Component) :
    (places forest).map Place.component = all forest := by
  rw [all_eq, places, List.map_flatMap, subtreesAll_eq_flatMap]
  refine congrArg (List.flatMap · forest) (funext fun root ↦ ?_)
  obtain ⟨e, cs⟩ := root
  rw [List.map_cons, map_component_placesAmong]
  rfl

theorem placesAmong_append (cs ds : List Component) (scope : Option String)
    (before : List String) :
    placesAmong scope before (cs ++ ds)
      = placesAmong scope before cs ++ placesAmong scope ((cs.map kind).reverse ++ before) ds := by
  induction cs generalizing before with
  | nil => rfl
  | cons c cs ih =>
    rw [List.cons_append, placesAmong, placesAmong, ih, List.append_assoc, List.map_cons,
      List.reverse_cons, List.append_assoc]
    rfl

/-! ## Where a place is -/

/-- Whether a place is among some siblings, where components of some types come before these in
their scope. -/
def Place.IsAmong (scope : Option String) (before : List String) (siblings : List Component)
    (x : Place) : Prop :=
  x.scope = scope ∧ ∃ left right, siblings = left ++ x.component :: right ∧
    x.ordinal = before.count x.component.kind + (left.map kind).count x.component.kind

mutual

private theorem mem_placesAt {c : Component} {scope : Option String} {before : List String}
    {x : Place} (h : x ∈ placesAt scope before c) :
    x = ⟨c, scope, before.count c.kind⟩ ∨
      ∃ d ∈ c.subtrees, x.IsAmong (some (Component.id d)) [] (Tree.children d) := by
  match c with
  | .node e cs =>
    rcases List.mem_cons.1 h with rfl | h
    · exact .inl rfl
    · rcases mem_placesAmong h with h | ⟨d, hd, h⟩
      · exact .inr ⟨.node e cs, mem_subtrees_self _, h⟩
      · exact .inr ⟨d, List.mem_cons_of_mem _ hd, h⟩

/-- A place among some siblings is that of one of them, or stands right below some component in
them. -/
theorem mem_placesAmong {cs : List Component} {scope : Option String} {before : List String}
    {x : Place} (h : x ∈ placesAmong scope before cs) :
    x.IsAmong scope before cs ∨
      ∃ d ∈ subtreesAll cs, x.IsAmong (some (Component.id d)) [] (Tree.children d) := by
  match cs with
  | [] => cases h
  | c :: cs =>
    rcases List.mem_append.1 h with h | h
    · rcases mem_placesAt h with rfl | ⟨d, hd, h⟩
      · exact .inl ⟨rfl, [], cs, rfl, rfl⟩
      · exact .inr ⟨d, List.mem_append_left _ hd, h⟩
    · rcases mem_placesAmong h with ⟨hscope, left, right, rfl, hordinal⟩ | ⟨d, hd, h⟩
      · refine .inl ⟨hscope, c :: left, right, rfl, ?_⟩
        rw [hordinal, List.map_cons, List.count_cons, List.count_cons]
        exact (Nat.add_assoc _ _ _).trans (congrArg _ (Nat.add_comm _ _))
      · exact .inr ⟨d, List.mem_append_right _ hd, h⟩

end

/-- **A place is the root, right below the root, or right below another component.** -/
theorem mem_places {forest : List Component} {x : Place} (h : x ∈ places forest) :
    ∃ root ∈ forest, x = ⟨root, none, 0⟩ ∨
      x.IsAmong none [root.kind] (Tree.children root) ∨
        ∃ d ∈ subtreesAll (Tree.children root),
          x.IsAmong (some (Component.id d)) [] (Tree.children d) := by
  obtain ⟨root, hroot, h⟩ := List.mem_flatMap.1 h
  exact ⟨root, hroot, (List.mem_cons.1 h).imp_right mem_placesAmong⟩

/-! ## Places are counted through -/

/-- Whether the number of each place is how many places of its scope and type come before it, where
some come before the first. -/
def AreNumbered (before : List (Option String × String)) : List Place → Prop
  | [] => True
  | x :: xs => x.ordinal = before.count x.key ∧ AreNumbered (x.key :: before) xs

theorem areNumbered_append {before : List (Option String × String)} {xs ys : List Place}
    (hxs : AreNumbered before xs) (hys : AreNumbered ((xs.map Place.key).reverse ++ before) ys) :
    AreNumbered before (xs ++ ys) := by
  induction xs generalizing before with
  | nil => exact hys
  | cons x xs ih =>
    refine ⟨hxs.1, ih hxs.2 ?_⟩
    rwa [List.map_cons, List.reverse_cons, List.append_assoc] at hys

mutual

private theorem scope_placesAt (c : Component) (scope : Option String) (before : List String) :
    ∃ xs, placesAt scope before c = ⟨c, scope, before.count c.kind⟩ :: xs ∧
      ∀ x ∈ xs, ∃ d ∈ c.subtrees, x.scope = some (Component.id d) := by
  match c with
  | .node e cs =>
    refine ⟨_, rfl, fun x hx ↦ ?_⟩
    rcases scope_placesAmong hx with hscope | ⟨d, hd, hscope⟩
    · exact ⟨.node e cs, mem_subtrees_self _, hscope⟩
    · exact ⟨d, List.mem_cons_of_mem _ hd, hscope⟩

private theorem scope_placesAmong {cs : List Component} {scope : Option String}
    {before : List String} {x : Place} (hx : x ∈ placesAmong scope before cs) :
    x.scope = scope ∨ ∃ d ∈ subtreesAll cs, x.scope = some (Component.id d) := by
  match cs with
  | [] => cases hx
  | c :: cs =>
    rcases List.mem_append.1 hx with hx | hx
    · obtain ⟨xs, heq, hxs⟩ := scope_placesAt c scope before
      rcases List.mem_cons.1 (heq ▸ hx) with rfl | hx
      · exact .inl rfl
      · obtain ⟨d, hd, hscope⟩ := hxs x hx
        exact .inr ⟨d, List.mem_append_left _ hd, hscope⟩
    · refine (scope_placesAmong hx).imp_right fun ⟨d, hd, hscope⟩ ↦ ?_
      exact ⟨d, List.mem_append_right _ hd, hscope⟩

end

/-- What a component and what is inside counts for in a scope: itself, if it is in it. -/
private theorem count_map_key_placesAt {c : Component} {scope : Option String}
    (before : List String) (hscope : ∀ d ∈ c.subtrees, scope ≠ some (Component.id d))
    (kind : String) :
    ((placesAt scope before c).map Place.key).count (scope, kind) = [c.kind].count kind := by
  obtain ⟨xs, heq, hxs⟩ := scope_placesAt c scope before
  have hrest : (xs.map Place.key).count (scope, kind) = 0 := by
    refine List.count_eq_zero.2 fun hmem ↦ ?_
    obtain ⟨x, hx, hkey⟩ := List.mem_map.1 hmem
    obtain ⟨d, hd, hscope'⟩ := hxs x hx
    exact hscope d hd ((congrArg Prod.fst hkey).symm.trans hscope')
  rw [heq, List.map_cons, List.count_cons, hrest, Place.key, List.count_singleton]
  simp

mutual

private theorem areNumbered_placesAt {c : Component} {scope : Option String}
    {before : List String} {keys : List (Option String × String)}
    (hnodup : (c.subtrees.map Component.id).Nodup)
    (hscope : ∀ d ∈ c.subtrees, scope ≠ some (Component.id d))
    (hnew : ∀ d ∈ c.subtrees, ∀ kind, (some (Component.id d), kind) ∉ keys)
    (hkeys : ∀ kind, keys.count (scope, kind) = before.count kind) :
    AreNumbered keys (placesAt scope before c) := by
  match c with
  | .node e cs =>
    rw [subtrees, List.map_cons, List.nodup_cons] at hnodup
    rw [subtrees, List.forall_mem_cons] at hscope hnew
    refine ⟨(hkeys _).symm, areNumbered_placesAmong hnodup.2 (fun d hd hid ↦ ?_)
      (fun d hd kind hmem ↦ ?_) fun kind ↦ ?_⟩
    · exact hnodup.1 (List.mem_map.2 ⟨d, hd, (Option.some.inj hid).symm⟩)
    · rcases List.mem_cons.1 hmem with heq | hmem
      · exact hscope.2 d hd (congrArg Prod.fst heq).symm
      · exact hnew.2 d hd kind hmem
    · refine List.count_eq_zero.2 fun hmem ↦ ?_
      rcases List.mem_cons.1 hmem with heq | hmem
      · exact hscope.1 (congrArg Prod.fst heq).symm
      · exact hnew.1 kind hmem

/-- The places among siblings are counted through, if no two ids are the same and no place before
them is inside of one of them. -/
private theorem areNumbered_placesAmong {cs : List Component} {scope : Option String}
    {before : List String} {keys : List (Option String × String)}
    (hnodup : ((subtreesAll cs).map Component.id).Nodup)
    (hscope : ∀ d ∈ subtreesAll cs, scope ≠ some (Component.id d))
    (hnew : ∀ d ∈ subtreesAll cs, ∀ kind, (some (Component.id d), kind) ∉ keys)
    (hkeys : ∀ kind, keys.count (scope, kind) = before.count kind) :
    AreNumbered keys (placesAmong scope before cs) := by
  match cs with
  | [] => trivial
  | c :: cs =>
    rw [subtreesAll, List.map_append, List.nodup_append] at hnodup
    rw [subtreesAll, List.forall_mem_append] at hscope hnew
    refine areNumbered_append (areNumbered_placesAt hnodup.1 hscope.1 hnew.1 hkeys)
      (areNumbered_placesAmong hnodup.2.1 hscope.2 (fun d hd kind hmem ↦ ?_) fun kind ↦ ?_)
    · -- a place inside the first sibling is in the scope of one of its components
      rcases List.mem_append.1 hmem with hmem | hmem
      · obtain ⟨x, hx, hkey⟩ := List.mem_map.1 (List.mem_reverse.1 hmem)
        have hx' : x ∈ placesAmong scope before [c] := by
          rwa [placesAmong, placesAmong, List.append_nil]
        rcases scope_placesAmong hx' with hxscope | ⟨d', hd', hxscope⟩
        · exact hscope.2 d hd (hxscope.symm.trans (congrArg Prod.fst hkey))
        · rw [subtreesAll, subtreesAll, List.append_nil] at hd'
          have hid : some (Component.id d') = some (Component.id d) :=
            hxscope.symm.trans (congrArg Prod.fst hkey)
          exact hnodup.2.2 _ (List.mem_map_of_mem hd') _ (List.mem_map_of_mem hd)
            (Option.some.inj hid)
      · exact hnew.2 d hd kind hmem
    · rw [List.count_append, List.count_reverse, count_map_key_placesAt before hscope.1, hkeys,
        ← List.count_append]
      rfl

end

/-- **The number of a place is how many places of its scope and type come before it** in the whole
tree, if no two ids are the same. -/
theorem areNumbered_places {root : Component}
    (h : ((all [root]).map Component.id).Nodup) : AreNumbered [] (places [root]) := by
  obtain ⟨e, cs⟩ := root
  rw [all_eq, subtreesAll, subtreesAll, List.append_nil, subtrees, List.map_cons,
    List.nodup_cons] at h
  rw [places, List.flatMap_cons, List.flatMap_nil, List.append_nil]
  refine ⟨rfl, areNumbered_placesAmong h.2 (fun _ _ ↦ Option.some_ne_none _ |>.symm) ?_ ?_⟩
  · intro d _ kind hmem
    cases List.mem_singleton.1 hmem
  · intro kind
    simp [Place.key, Component.kind, List.count_singleton]

/-! ## Looking places up -/

theorem findExact?_eq_none {forest : List Component} {id : String}
    (h : ∀ c ∈ all forest, Component.id c ≠ id) : findExact? forest id = none :=
  List.find?_eq_none.2 fun c hc ↦ by simpa using h c hc

/-- Where no two ids are the same, each means the component that has it. -/
theorem findExact?_id {forest : List Component}
    (hnodup : ((all forest).map Component.id).Nodup) {c : Component} (hc : c ∈ all forest) :
    findExact? forest c.id = some c := by
  obtain ⟨left, right, heq⟩ := List.append_of_mem hc
  rw [heq, List.map_append, List.map_cons, List.nodup_middle, List.nodup_cons] at hnodup
  rw [findExact?, heq, List.find?_append, List.find?_eq_none.2, Option.none_or,
    List.find?_cons_of_pos (by simp)]
  intro d hd
  have hne : Component.id d ≠ c.id := fun hid ↦
    hnodup.1 (List.mem_append_left _ (hid ▸ List.mem_map_of_mem hd))
  simpa using hne

/-- Whether types that agree up to letter case are the same. -/
def AreLowered (forest : List Component) : Prop :=
  ∀ c ∈ all forest, ∀ d ∈ all forest, eqIgnoringAsciiCase c.kind d.kind = true → c.kind = d.kind

section

variable {root : Component} {x : Place}

private theorem eqIgnoringAsciiCase_eq (hlowered : AreLowered [root]) {c d : Component}
    (hc : c ∈ all [root]) (hd : d ∈ all [root]) :
    eqIgnoringAsciiCase c.kind d.kind = (c.kind == d.kind) := by
  by_cases heq : c.kind = d.kind
  · rw [heq, eqIgnoringAsciiCase, beq_self_eq_true, beq_self_eq_true]
  · rw [beq_eq_false_iff_ne.2 heq, Bool.eq_false_iff]
    exact fun hcase ↦ heq (hlowered c hc d hd hcase)

/-- Counting through the children of a type finds each of them at its number. -/
theorem nthChild?_eq (hlowered : AreLowered [root]) {c child : Component}
    {left right : List Component} (hc : c ∈ all [root])
    (hchildren : c.children = left ++ child :: right) :
    nthChild? c child.kind ((left.map kind).count child.kind) = some child := by
  have hmem : ∀ d ∈ c.children, d ∈ all [root] := by
    rw [all_eq] at hc ⊢
    exact fun d hd ↦ mem_subtreesAll_of_mem_children hc hd
  have hchild := hmem child (hchildren ▸ List.mem_append_right _ List.mem_cons_self)
  have hfilter : (c.children.filter fun d ↦ eqIgnoringAsciiCase (kind d) child.kind)
      = c.children.filter fun d ↦ kind d == child.kind :=
    List.filter_congr fun d hd ↦ eqIgnoringAsciiCase_eq hlowered (hmem d hd) hchild
  have hlength : (left.filter fun d ↦ kind d == child.kind).length
      = (left.map kind).count child.kind := by
    rw [← List.countP_eq_length_filter, List.count, List.countP_map]
    rfl
  rw [nthChild?, hfilter, hchildren, List.filter_append, List.filter_cons_of_pos (by simp),
    ← hlength, List.getElem?_append_right (Nat.le_refl _), Nat.sub_self, List.getElem?_cons_zero]

theorem nthFromRoot?_eq (hlowered : AreLowered [root]) {child : Component}
    {left right : List Component} (hchildren : root.children = left ++ child :: right) :
    nthFromRoot? root child.kind
      ([root.kind].count child.kind + (left.map kind).count child.kind) = some child := by
  have hroot : root ∈ all [root] := by
    rw [all_eq]
    exact mem_subtreesAll_of_mem List.mem_cons_self
  have hchild : child ∈ all [root] := by
    rw [all_eq] at hroot ⊢
    exact mem_subtreesAll_of_mem_children hroot
      (hchildren ▸ List.mem_append_right _ List.mem_cons_self)
  have hnth := nthChild?_eq hlowered hroot hchildren
  rw [nthFromRoot?.eq_def, eqIgnoringAsciiCase_eq hlowered hroot hchild, List.count_singleton]
  by_cases hkind : root.kind = child.kind
  · rw [if_pos (by simpa using hkind), if_pos (by simpa using hkind), Nat.add_comm]
    exact hnth
  · rw [if_neg (by simpa using hkind), if_neg (by simpa using hkind), Nat.zero_add]
    exact hnth

theorem nthFromRoot?_self (root : Component) : nthFromRoot? root root.kind 0 = some root := by
  rw [nthFromRoot?.eq_def, if_pos (by simp [eqIgnoringAsciiCase])]

/-- The readings of the name of a place in a component: those that cut the type mean nothing, and
then comes the place itself. -/
private theorem resolve?_grouped {d : Component} (hnodup : ((all [root]).map Component.id).Nodup)
    (hne : d.id ≠ "") (hd : d ∈ all [root]) (hscope : x.scope = some d.id)
    (hkind : x.component.kind ≠ "") (hsize : x.ordinal < UInt64.size)
    (hapart : ∀ a b, x.component.kind = a ++ "-" ++ b → b ≠ "" →
      ∀ c ∈ all [root], Component.id c ≠ inScope x.scope a) :
    resolve? [root] (IdReading.all x.name) = nthChild? d x.component.kind x.ordinal := by
  obtain ⟨inner, outer, hgrouped, hinner⟩ :=
    IdReading.grouped_inScope x.ordinal.toUInt64 hne hkind
  have hnone : inner.findSome? (fun r ↦ (r.group.bind (findExact? [root])).map (·, r)) = none := by
    refine List.findSome?_eq_none_iff.2 fun r hr ↦ ?_
    obtain ⟨a, b, hcut, hb, hgroup⟩ := hinner r hr
    have hfree : ∀ c ∈ all [root], Component.id c ≠ d.id ++ "-" ++ a := by
      have := hapart a b hcut hb
      rwa [hscope] at this
    rw [hgroup, Option.bind_some, findExact?_eq_none hfree, Option.map_none]
  have hplace : x.ordinal.toUInt64.toNat = x.ordinal := Nat.mod_eq_of_lt hsize
  rw [Place.name, IdReading.all_formatId hsize, hscope, hgrouped, resolve?]
  simp only [List.append_assoc, List.findSome?_append, hnone, Option.none_or, List.cons_append,
    List.findSome?_cons, Option.bind_some, findExact?_id hnodup hd, Option.map_some, hplace]

/-- The readings of the name of a place without a scope: those with a group mean nothing, and the
last one is the place. -/
private theorem resolve?_ungrouped (hscope : x.scope = none)
    (hkind : x.component.kind ≠ "") (hsize : x.ordinal < UInt64.size)
    (hapart : ∀ a b, x.component.kind = a ++ "-" ++ b → b ≠ "" →
      ∀ c ∈ all [root], Component.id c ≠ inScope x.scope a) :
    resolve? [root] (IdReading.all x.name)
      = nthFromRoot? root x.component.kind x.ordinal := by
  have hempty : x.component.kind.toList.isEmpty = false := by simpa using hkind
  have hplace : x.ordinal.toUInt64.toNat = x.ordinal := Nat.mod_eq_of_lt hsize
  have hcuts : ∀ r ∈ IdReading.grouped x.ordinal.toUInt64 x.component.kind.toList,
      r.group.isSome ∧ (r.group.bind (findExact? [root])).map (·, r) = none := by
    intro r hr
    obtain ⟨a, b, rfl, hcut, -, hb⟩ := IdReading.mem_grouped hr
    have hfree : ∀ c ∈ all [root], Component.id c ≠ a := by
      have := hapart a b (String.toList_inj.1 hcut) hb
      rwa [hscope] at this
    exact ⟨rfl, by rw [Option.bind_some, findExact?_eq_none hfree, Option.map_none]⟩
  have hnone : (IdReading.grouped x.ordinal.toUInt64 x.component.kind.toList).findSome?
      (fun r ↦ (r.group.bind (findExact? [root])).map (·, r)) = none :=
    List.findSome?_eq_none_iff.2 fun r hr ↦ (hcuts r hr).2
  have hgrouped : (IdReading.grouped x.ordinal.toUInt64 x.component.kind.toList).find?
      (·.group.isNone) = none :=
    List.find?_eq_none.2 fun r hr ↦ by simpa [Option.isSome_iff_ne_none] using (hcuts r hr).1
  rw [Place.name, IdReading.all_formatId hsize, hscope, inScope, resolve?]
  simp only [hempty, Bool.false_eq_true, if_false, List.findSome?_append, hnone, Option.none_or,
    List.findSome?_cons, List.findSome?_nil, Option.bind_none, Option.map_none,
    List.find?_append, hgrouped, List.find?_cons, Option.isNone_none, Option.bind_some, hplace]
  cases nthFromRoot? root x.component.kind x.ordinal <;> rfl

/-- **The name of a place means the component there**, if it is no id, and none of the cuts of the
type behind the scope is one. -/
theorem find?_place (hnodup : ((all [root]).map Component.id).Nodup)
    (hids : ∀ c ∈ all [root], Component.id c ≠ "") (hlowered : AreLowered [root])
    (hx : x ∈ places [root]) (hkind : x.component.kind ≠ "") (hsize : x.ordinal < UInt64.size)
    (hfree : ∀ c ∈ all [root], Component.id c ≠ x.name)
    (hapart : ∀ a b, x.component.kind = a ++ "-" ++ b → b ≠ "" →
      ∀ c ∈ all [root], Component.id c ≠ inScope x.scope a) :
    find? [root] x.name = some x.component := by
  rw [find?, findExact?_eq_none hfree]
  simp only
  obtain ⟨_, hroot, hplace⟩ := mem_places hx
  cases List.mem_singleton.1 hroot
  rcases hplace with rfl | ⟨hscope, left, right, hchildren, hordinal⟩ | ⟨d, hd, hscope, left,
    right, hchildren, hordinal⟩
  · rw [resolve?_ungrouped rfl hkind hsize hapart]
    exact nthFromRoot?_self root
  · rw [resolve?_ungrouped hscope hkind hsize hapart, hordinal]
    exact nthFromRoot?_eq hlowered hchildren
  · have hmem : d ∈ all [root] := by
      obtain ⟨e, cs⟩ := root
      rw [all_eq]
      exact List.mem_cons_of_mem _ (List.mem_append_left _ hd)
    rw [resolve?_grouped hnodup (hids d hmem) hmem hscope hkind hsize hapart, hordinal,
      List.count_nil, Nat.zero_add]
    exact nthChild?_eq hlowered hmem hchildren

end

end Component

end SvgWorkbench
