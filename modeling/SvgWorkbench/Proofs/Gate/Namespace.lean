import SvgWorkbench.Gate.Namespace
import SvgWorkbench.Proofs.Gate.Tag
import SvgWorkbench.Proofs.Markup.Element

/-!
# Which elements the namespaces allow

A fault of a name is reported at its place, but whether there is one does not depend on places. So
an element alone says whether its tag is let through in a scope of declared prefixes, and which
prefixes are declared inside.

An attribute without a prefix belongs to no namespace, and a prefix may be empty: `:id` and `id` are
two names for the reader but the same expanded name for the check. An element that is given an id is
still let through unless it has an attribute of the former name.
-/

namespace SvgWorkbench

open Text Xml

/-! ## Names that clash -/

/-- The key of an id behind an empty prefix. -/
def prefixedIdKey : String := ":id"

/-- Whether an element does not have its id under both names. -/
def Element.IsClashFree (e : Element) : Prop := ¬ ("id" ∈ e.keys ∧ prefixedIdKey ∈ e.keys)

instance (e : Element) : Decidable e.IsClashFree :=
  inferInstanceAs (Decidable ¬ ("id" ∈ e.keys ∧ prefixedIdKey ∈ e.keys))

namespace Gate

/-- The qualified name of an id. -/
def idName : QName := ⟨[], ['i', 'd']⟩

theorem ofChars?_id : QName.ofChars? "id".toList = some idName := by decide

theorem ofChars?_prefixedId : QName.ofChars? prefixedIdKey.toList = some idName := by decide

/-- A name without a prefix is written with a colon before it or without. -/
theorem eq_or_of_ofChars? {run base : List Char} (h : QName.ofChars? run = some ⟨[], base⟩) :
    run = base ∨ run = ':' :: base := by
  rw [QName.ofChars?] at h
  split at h
  · split at h <;> cases h
    exact .inl rfl
  · next hsplit =>
    split at h <;> cases h
    exact .inr (splitFirst_eq_some hsplit)

/-! ## Places do not matter -/

/-- Whether the attributes of two tags are the same but for places. -/
structure Sorted.Agrees (s t : Sorted) : Prop where
  /-- They declare the same. -/
  declared : s.declared = t.declared
  /-- The other names are the same. -/
  names : s.plain.map Prod.fst = t.plain.map Prod.fst

theorem Sorted.Agrees.refl (s : Sorted) : s.Agrees s := ⟨rfl, rfl⟩

theorem Sorted.Agrees.symm {s t : Sorted} (h : s.Agrees t) : t.Agrees s :=
  ⟨h.declared.symm, h.names.symm⟩

theorem Sorted.Agrees.add {s t s' : Sorted} (h : s.Agrees t) {q : QName} {value : List Char}
    {place : Nat} (hs : s.add q value place = .ok s') (place' : Nat) :
    ∃ t', t.add q value place' = .ok t' ∧ s'.Agrees t' := by
  -- every test looks at the name or at what is declared, never at a place in the text
  unfold Sorted.add at hs ⊢
  rw [← h.declared]
  split at hs
  · next hq =>
    rw [if_pos hq]
    split at hs
    · cases hs
    next h₁ =>
    rw [if_neg h₁]
    split at hs
    · cases hs
    next h₂ =>
    rw [if_neg h₂]
    split at hs
    · cases hs
    next h₃ =>
    rw [if_neg h₃]
    split at hs
    · cases hs
    next h₄ =>
    rw [if_neg h₄]
    split at hs
    · next h₅ =>
      cases hs
      exact ⟨t, if_pos h₅, h⟩
    · next h₅ =>
      cases hs
      exact ⟨_, if_neg h₅, rfl, h.names⟩
  · next hq =>
    rw [if_neg hq]
    split at hs
    · next hq' =>
      rw [if_pos hq']
      split at hs
      · cases hs
      next h₁ =>
      rw [if_neg h₁]
      split at hs
      · cases hs
      next h₂ =>
      cases hs
      exact ⟨t, if_neg h₂, h⟩
    · next hq' =>
      cases hs
      exact ⟨_, if_neg hq', rfl, by simp [h.names]⟩

/-- Whether an attribute has a namespace depends on its name alone. -/
private theorem attributeNamespace_eq_ok {scope : List Binding} {q : QName} {place place' : Nat}
    {uri : Option (List Char)} (h : attributeNamespace scope q place = .ok uri) :
    attributeNamespace scope q place' = .ok uri := by
  unfold attributeNamespace at h ⊢
  split
  · next hq => rwa [if_pos hq] at h
  · next hq =>
    rw [if_neg hq] at h
    split
    · next hempty => rwa [if_pos hempty] at h
    · next hempty =>
      rw [if_neg hempty] at h
      cases hns : namespaceOf? scope q.space with
      | none => rw [hns] at h; cases h
      | some uri' => rwa [hns] at h

private theorem checkNames_of_names_eq {scope : List Binding}
    {seen : List (Option (List Char) × List Char)} {names names' : List (QName × Nat)}
    (hnames : names.map Prod.fst = names'.map Prod.fst)
    (h : checkNames scope seen names = .ok ()) : checkNames scope seen names' = .ok () := by
  induction names generalizing seen names' with
  | nil =>
    cases names' with
    | nil => rfl
    | cons a as => cases hnames
  | cons a as ih =>
    obtain ⟨q, place⟩ := a
    cases names' with
    | nil => cases hnames
    | cons b bs =>
      obtain ⟨q', place'⟩ := b
      obtain ⟨rfl, hrest⟩ : q = q' ∧ as.map Prod.fst = bs.map Prod.fst := by simpa using hnames
      rw [checkNames] at h ⊢
      split at h
      · cases h
      next uri huri =>
      rw [attributeNamespace_eq_ok huri]
      simp only
      split at h
      · cases h
      next hseen =>
      rw [if_neg hseen]
      exact ih hrest h

theorem Sorted.Agrees.resolve {s t : Sorted} (h : s.Agrees t) {outer scope : List Binding}
    (hs : s.resolve outer = .ok scope) : t.resolve outer = .ok scope := by
  simp only [Sorted.resolve, bind_eq_ok_iff, pure_eq_ok_iff] at hs ⊢
  obtain ⟨_, hnames, rfl⟩ := hs
  rw [← h.declared]
  exact ⟨(), checkNames_of_names_eq h.names hnames, rfl⟩

theorem Sorted.Agrees.closeScope {s t : Sorted} (h : s.Agrees t) {outer scope : List Binding}
    {q : QName} {place : Nat} (hs : closeScope outer s q place = .ok scope) (place' : Nat) :
    Gate.closeScope outer t q place' = .ok scope := by
  simp only [Gate.closeScope, bind_eq_ok_iff, pure_eq_ok_iff] at hs ⊢
  obtain ⟨scope', hscope, _, helement, rfl⟩ := hs
  refine ⟨scope', h.resolve hscope, (), ?_, rfl⟩
  unfold checkElement at helement ⊢
  split at helement
  · next hspace => exact if_pos hspace
  · cases helement

/-! ## Names without a prefix -/

/-- Whether an attribute declares no namespace. -/
def QName.isPlain (q : QName) : Bool := q.space != Mark.xmlns && q.base != Mark.xmlns

theorem Sorted.map_fst_add {s s' : Sorted} {q : QName} {value : List Char} {place : Nat}
    (h : s.add q value place = .ok s') :
    s'.plain.map Prod.fst = s.plain.map Prod.fst ++ [q].filter QName.isPlain := by
  unfold Sorted.add at h
  split at h
  · next hq =>
    have hplain : [q].filter QName.isPlain = [] := by simp [QName.isPlain, hq]
    rw [hplain, List.append_nil]
    repeat' split at h
    all_goals cases h
    all_goals rfl
  · next hq =>
    split at h
    · next hq' =>
      have hplain : [q].filter QName.isPlain = [] := by simp [QName.isPlain, hq']
      rw [hplain, List.append_nil]
      repeat' split at h
      all_goals cases h
      all_goals rfl
    · next hq' =>
      have hplain : [q].filter QName.isPlain = [q] := by simp [QName.isPlain, hq, hq']
      cases h
      rw [hplain, List.map_append]
      rfl

/-- The value of an attribute that declares nothing is not looked at. -/
theorem Sorted.add_of_isPlain {q : QName} (hq : q.isPlain = true) (s : Sorted) (value : List Char)
    (place : Nat) : s.add q value place = .ok { s with plain := s.plain ++ [(q, place)] } := by
  obtain ⟨hspace, hbase⟩ : q.space ≠ Mark.xmlns ∧ q.base ≠ Mark.xmlns := by
    simpa [QName.isPlain] using hq
  rw [Sorted.add, if_neg hspace, if_neg hbase]

/-- An attribute has no namespace exactly if it has no prefix. -/
private theorem attributeNamespace_of_space_eq_nil {q : QName} (hq : q.space = [])
    (scope : List Binding) (place : Nat) : attributeNamespace scope q place = .ok none := by
  rw [attributeNamespace, if_neg (by rw [hq]; decide), if_pos (by rw [hq]; rfl)]

private theorem ne_none_of_attributeNamespace {q : QName} (hq : q.space ≠ []) {scope : List Binding}
    {place : Nat} {uri : Option (List Char)} (h : attributeNamespace scope q place = .ok uri) :
    uri ≠ none := by
  unfold attributeNamespace at h
  split at h
  · cases h
    exact nofun
  · rw [if_neg (by simpa using hq)] at h
    split at h
    · cases h
      exact nofun
    · cases h

/-- Names that pass are still let through with one more name that has no prefix, if it is new. -/
theorem checkNames_append_iff {scope : List Binding} {seen : List (Option (List Char) × List Char)}
    {names : List (QName × Nat)} {q : QName} (hq : q.space = []) {place : Nat} :
    checkNames scope seen (names ++ [(q, place)]) = .ok () ↔
      checkNames scope seen names = .ok () ∧ (none, q.base) ∉ seen ∧
        q ∉ names.map Prod.fst := by
  induction names generalizing seen with
  | nil =>
    simp only [List.nil_append, checkNames, attributeNamespace_of_space_eq_nil hq]
    simp
  | cons a as ih =>
    obtain ⟨r, place'⟩ := a
    rw [List.cons_append, checkNames, checkNames]
    cases hns : attributeNamespace scope r place' with
    | error fault => simp
    | ok uri =>
      simp only
      by_cases hseen : (uri, r.base) ∈ seen
      · simp [hseen]
      rw [if_neg (by simpa using hseen), if_neg (by simpa using hseen), ih, List.map_cons,
        List.mem_cons, List.mem_cons, not_or, not_or]
      -- the names differ exactly if the expanded names do
      have hiff : (none, q.base) = (uri, r.base) ↔ q = r := by
        constructor
        · intro heq
          obtain ⟨rfl, hbase⟩ := Prod.mk.inj heq
          have hr : r.space = [] := by
            by_cases hr : r.space = []
            · exact hr
            · exact absurd rfl (ne_none_of_attributeNamespace hr hns)
          cases q
          cases r
          simp_all
        · rintro rfl
          rw [attributeNamespace_of_space_eq_nil hq] at hns
          cases hns
          rfl
      rw [hiff]
      constructor
      · rintro ⟨hnames, ⟨hne, hnew⟩, hmem⟩
        exact ⟨hnames, hnew, hne, hmem⟩
      · rintro ⟨hnames, hnew, hne, hmem⟩
        exact ⟨hnames, ⟨hne, hnew⟩, hmem⟩

/-- No name without a prefix passes twice, nor does one that was seen before. -/
theorem count_le_of_checkNames {scope : List Binding}
    {seen : List (Option (List Char) × List Char)} {names : List (QName × Nat)} {q : QName}
    (hq : q.space = []) (h : checkNames scope seen names = .ok ()) :
    (names.map Prod.fst).count q ≤ 1 ∧
      ((none, q.base) ∈ seen → (names.map Prod.fst).count q = 0) := by
  induction names generalizing seen with
  | nil => simp
  | cons a as ih =>
    obtain ⟨r, place⟩ := a
    rw [checkNames] at h
    split at h
    · cases h
    next uri huri =>
    split at h
    · cases h
    next hseen =>
    obtain ⟨hcount, hzero⟩ := ih h
    rw [List.map_cons]
    by_cases hr : r = q
    · subst hr
      rw [attributeNamespace_of_space_eq_nil hq] at huri
      cases huri
      rw [List.count_cons_self, hzero List.mem_cons_self]
      exact ⟨Nat.le_refl 1, fun hmem ↦ absurd (by simpa using hmem) hseen⟩
    · rw [List.count_cons_of_ne hr]
      exact ⟨hcount, fun hmem ↦ hzero (List.mem_cons_of_mem _ hmem)⟩

/-! ## Elements in a scope -/

/-- Adds attributes whose places do not matter. -/
def Sorted.addAll (tag : Sorted) : List (QName × List Char) → Except Fault Sorted
  | [] => .ok tag
  | (q, value) :: rest => do
    let tag ← tag.add q value 0
    tag.addAll rest

/-- The parts of an attribute the check looks at: its qualified name, if it is one, and its value
with tabs and line breaks turned into spaces. -/
def attributeParts (a : String × String) : Option QName × List Char :=
  (QName.ofChars? a.1.toList, Markup.spaced a.2.toList)

/-- Whether the tag of an element is let through in a scope, and the scope inside. -/
def Opens (outer : List Binding) (e : Element) (q : QName) (inner : List Binding) : Prop :=
  QName.ofChars? e.name.toList = some q ∧ q.space ≠ Mark.xmlns ∧
    ∃ parts sorted, e.attributes.map attributeParts = parts.map (fun p ↦ (some p.1, p.2)) ∧
      Sorted.addAll {} parts = .ok sorted ∧ closeScope outer sorted q 0 = .ok inner

theorem Sorted.map_fst_addAll {s s' : Sorted} {parts : List (QName × List Char)}
    (h : s.addAll parts = .ok s') :
    s'.plain.map Prod.fst = s.plain.map Prod.fst ++ (parts.map Prod.fst).filter QName.isPlain := by
  induction parts generalizing s with
  | nil =>
    cases h
    simp
  | cons p parts ih =>
    obtain ⟨q, value⟩ := p
    obtain ⟨s₁, hadd, hrest⟩ := bind_eq_ok_iff.1 h
    rw [ih hrest, Sorted.map_fst_add hadd, List.map_cons, List.append_assoc, ← List.filter_append]
    rfl

theorem Sorted.addAll_append {s : Sorted} {parts parts' : List (QName × List Char)} :
    s.addAll (parts ++ parts') = (s.addAll parts) >>= (·.addAll parts') := by
  induction parts generalizing s with
  | nil => rfl
  | cons p parts ih =>
    obtain ⟨q, value⟩ := p
    simp only [List.cons_append, addAll, bind_assoc, ih]

/-- An element whose id has one expanded name at most does not have its id under both names. -/
theorem isClashFree_of_count_le {e : Element} {names : List QName}
    (hnames : e.keys.map (fun k ↦ QName.ofChars? k.toList) = names.map some)
    (hcount : names.count idName ≤ 1) : e.IsClashFree := by
  rintro ⟨hid, hprefixed⟩
  have hsome : (names.map some).count (some idName) = names.count idName := by
    simp [List.count, List.countP_map, Function.comp_def]
  rw [← hsome, ← hnames] at hcount
  obtain ⟨front, back, hkeys⟩ := List.append_of_mem hid
  rw [hkeys, List.map_append, List.map_cons, List.count_append, ofChars?_id,
    List.count_cons_self] at hcount
  have hmem : some idName ∈ (front ++ back).map fun k ↦ QName.ofChars? k.toList := by
    refine List.mem_map.2 ⟨prefixedIdKey, ?_, ofChars?_prefixedId⟩
    rw [hkeys, List.mem_append, List.mem_cons] at hprefixed
    rw [List.mem_append]
    exact hprefixed.imp_right fun h ↦ h.resolve_left (by decide)
  rw [← List.count_pos_iff, List.map_append, List.count_append] at hmem
  omega

/-- An id that is there may have any value. -/
private theorem addAll_setEntry (id : String) {as : List (String × String)}
    {parts : List (QName × List Char)}
    (hparts : as.map attributeParts = parts.map (fun p ↦ (some p.1, p.2)))
    (hid : "id" ∈ as.map Prod.fst) :
    ∃ parts', (Element.setEntry "id" id as).map attributeParts
        = parts'.map (fun (p : QName × List Char) ↦ (some p.1, p.2)) ∧
      ∀ s : Sorted, s.addAll parts' = s.addAll parts := by
  induction as generalizing parts with
  | nil => cases hid
  | cons a as ih =>
    obtain ⟨k, v⟩ := a
    cases parts with
    | nil => cases hparts
    | cons p parts =>
      obtain ⟨q, value⟩ := p
      rw [List.map_cons, List.map_cons, List.cons.injEq] at hparts
      obtain ⟨hhead, htail⟩ := hparts
      rw [Element.setEntry]
      split
      · next hk =>
        subst hk
        obtain rfl : idName = q := by
          rw [attributeParts, ofChars?_id] at hhead
          exact Option.some.inj (Prod.mk.inj hhead).1
        refine ⟨(idName, Markup.spaced id.toList) :: parts, ?_, fun s ↦ ?_⟩
        · rw [List.map_cons, List.map_cons, htail, attributeParts, ofChars?_id]
        · rw [Sorted.addAll, Sorted.addAll, Sorted.add_of_isPlain (by decide),
            Sorted.add_of_isPlain (by decide)]
      · next hk =>
        obtain ⟨parts', hparts', hadd⟩ := ih htail
          ((List.mem_cons.1 hid).resolve_left fun heq ↦ hk heq.symm)
        refine ⟨(q, value) :: parts', by rw [List.map_cons, List.map_cons, hhead, hparts'], ?_⟩
        intro s
        rw [Sorted.addAll, Sorted.addAll]
        exact congrArg _ (funext fun t ↦ hadd t)

/-- **An element that is given an id is let through** as it was before, unless it has an attribute
whose name is that of an id behind an empty prefix. -/
theorem Opens.set_id {outer inner : List Binding} {e : Element} {q : QName}
    (h : Opens outer e q inner) (id : String) (hfree : prefixedIdKey ∉ e.keys) :
    Opens outer (e.set "id" id) q inner := by
  obtain ⟨hq, hspace, parts, sorted, hparts, hsorted, hclose⟩ := h
  refine ⟨hq, hspace, ?_⟩
  by_cases hid : "id" ∈ e.keys
  · obtain ⟨parts', hparts', hadd⟩ := addAll_setEntry id hparts hid
    exact ⟨parts', sorted, hparts', by rw [hadd, hsorted], hclose⟩
  · have hset : (e.set "id" id).attributes = e.attributes ++ [("id", id)] :=
      Element.setEntry_of_notMem hid id
    -- a key of that expanded name would be one of the two that are not there
    have hnew : idName ∉ sorted.plain.map Prod.fst := by
      rw [Sorted.map_fst_addAll hsorted, List.map_nil, List.nil_append]
      intro hmem
      have hnames := congrArg (List.map Prod.fst) hparts
      rw [List.map_map, List.map_map] at hnames
      obtain ⟨p, hp, hpid⟩ := List.mem_map.1 (List.mem_filter.1 hmem).1
      have hsome : some idName ∈ e.attributes.map (Prod.fst ∘ attributeParts) := by
        rw [hnames]
        exact List.mem_map.2 ⟨p, hp, by simp [hpid]⟩
      obtain ⟨a, ha, hakey⟩ := List.mem_map.1 hsome
      rcases eq_or_of_ofChars? (show QName.ofChars? a.1.toList = some ⟨[], ['i', 'd']⟩ from hakey)
        with hkey | hkey
      · exact hid (List.mem_map.2 ⟨a, ha, String.toList_injective hkey⟩)
      · exact hfree (List.mem_map.2 ⟨a, ha, String.toList_injective hkey⟩)
    refine ⟨parts ++ [(idName, Markup.spaced id.toList)],
      { sorted with plain := sorted.plain ++ [(idName, 0)] }, ?_, ?_, ?_⟩
    · rw [hset, List.map_append, List.map_append, hparts, List.map_cons, attributeParts, ofChars?_id]
      rfl
    · rw [Sorted.addAll_append, hsorted]
      show Sorted.addAll sorted [(idName, Markup.spaced id.toList)] = _
      rw [Sorted.addAll, Sorted.add_of_isPlain (by decide)]
      rfl
    · simp only [closeScope, Sorted.resolve, bind_eq_ok_iff, pure_eq_ok_iff] at hclose ⊢
      obtain ⟨scope, ⟨⟨⟩, hnames, rfl⟩, ⟨⟩, helement, rfl⟩ := hclose
      exact ⟨_, ⟨(), (checkNames_append_iff rfl).2 ⟨hnames, by simp, hnew⟩, rfl⟩, (), helement, rfl⟩

end Gate

end SvgWorkbench
