import SvgWorkbench.Proofs.Markup.Name

/-!
# Attributes of an element

Setting an attribute changes its value where it stands or adds it at the end, so the keys stay
distinct and every other attribute keeps its value. The same holds of any list of entries that is
changed in this way, such as the declarations of a style.
-/

namespace SvgWorkbench.Element

variable {entries : List (String × String)}

/-! ## Entries -/

theorem mem_setEntry {key value : String} {a : String × String}
    (h : a ∈ setEntry key value entries) : a = (key, value) ∨ a ∈ entries := by
  induction entries with
  | nil => exact .inl (List.mem_singleton.1 h)
  | cons b as ih =>
    obtain ⟨k, v⟩ := b
    rw [setEntry] at h
    split at h
    · next hk =>
      rcases List.mem_cons.1 h with rfl | h
      · exact .inl (by rw [hk])
      · exact .inr (List.mem_cons_of_mem _ h)
    · rcases List.mem_cons.1 h with rfl | h
      · exact .inr List.mem_cons_self
      · exact (ih h).imp_right (List.mem_cons_of_mem _)

/-- Setting an entry keeps those with another key. -/
theorem mem_setEntry_of_ne {key value : String} {a : String × String} (ha : a ∈ entries)
    (hne : a.1 ≠ key) : a ∈ setEntry key value entries := by
  induction entries with
  | nil => cases ha
  | cons b as ih =>
    obtain ⟨k, v⟩ := b
    rw [setEntry]
    split
    · next hk =>
      refine List.mem_cons_of_mem _ ((List.mem_cons.1 ha).resolve_left ?_)
      rintro rfl
      exact hne hk
    · rcases List.mem_cons.1 ha with rfl | ha
      · exact List.mem_cons_self
      · exact List.mem_cons_of_mem _ (ih ha)

theorem setEntry_of_notMem {key : String} (h : key ∉ entries.map Prod.fst) (value : String) :
    setEntry key value entries = entries ++ [(key, value)] := by
  induction entries with
  | nil => rfl
  | cons a as ih =>
    obtain ⟨k, v⟩ := a
    rw [List.map_cons, List.mem_cons, not_or] at h
    rw [setEntry, if_neg fun heq ↦ h.1 heq.symm, ih h.2, List.cons_append]

theorem keys_setEntry_of_mem {key : String} (h : key ∈ entries.map Prod.fst) (value : String) :
    (setEntry key value entries).map Prod.fst = entries.map Prod.fst := by
  induction entries with
  | nil => cases h
  | cons a as ih =>
    obtain ⟨k, v⟩ := a
    rw [setEntry]
    split
    · rfl
    · next hk =>
      have htail := (List.mem_cons.1 (List.map_cons ▸ h)).resolve_left fun heq ↦ hk heq.symm
      rw [List.map_cons, List.map_cons, ih htail]

theorem nodup_keys_setEntry (h : (entries.map Prod.fst).Nodup) (key value : String) :
    ((setEntry key value entries).map Prod.fst).Nodup := by
  by_cases hkey : key ∈ entries.map Prod.fst
  · rwa [keys_setEntry_of_mem hkey]
  · rw [setEntry_of_notMem hkey, List.map_append]
    refine List.nodup_append.2 ⟨h, by simp, fun k hk l hl heq ↦ hkey ?_⟩
    obtain rfl : l = key := List.mem_singleton.1 hl
    rwa [← heq]

theorem nodup_keys_eraseEntry (h : (entries.map Prod.fst).Nodup) (key : String) :
    ((eraseEntry key entries).map Prod.fst).Nodup :=
  h.sublist (List.eraseP_sublist.map _)

private theorem get?_setEntry (key value : String) (entries : List (String × String)) (k : String) :
    ((setEntry key value entries).find? (·.1 == k)).map (·.2)
      = if key = k then some value else (entries.find? (·.1 == k)).map (·.2) := by
  induction entries with
  | nil => by_cases hk : key = k <;> simp [setEntry, hk]
  | cons a as ih =>
    obtain ⟨k', v⟩ := a
    rw [setEntry]
    split
    · next heq => by_cases hk : key = k <;> simp [heq, hk]
    · next hne =>
      by_cases hk' : k' = k
      · have hk : key ≠ k := fun h ↦ hne (hk'.trans h.symm)
        simp [hk', hk]
      · simp [hk', ih]

/-! ## Attributes -/

theorem get?_eq_none_iff {e : Element} {key : String} : e.get? key = none ↔ key ∉ e.keys := by
  rw [get?, Option.map_eq_none_iff, List.find?_eq_none, keys, List.mem_map]
  simp only [beq_iff_eq, not_exists, not_and]

theorem get?_set (e : Element) (key value k : String) :
    (e.set key value).get? k = if key = k then some value else e.get? k :=
  get?_setEntry key value e.attributes k

@[simp] theorem get?_set_self (e : Element) (key value : String) :
    (e.set key value).get? key = some value := by
  rw [get?_set, if_pos rfl]

theorem id?_set (e : Element) {id : String} (h : id ≠ "") : (e.set "id" id).id? = some id := by
  rw [id?, get?_set_self, Option.filter_some, if_pos (by simpa using h)]

@[simp] theorem name_set (e : Element) (key value : String) : (e.set key value).name = e.name := rfl

@[simp] theorem kind_set (e : Element) (key value : String) : (e.set key value).kind = e.kind := rfl

theorem ne_empty_of_id? {e : Element} {id : String} (h : e.id? = some id) : id ≠ "" := by
  rw [id?, Option.filter_eq_some_iff] at h
  simpa using h.2

theorem mem_of_id? {e : Element} {id : String} (h : e.id? = some id) :
    ("id", id) ∈ e.attributes := by
  rw [id?, get?, Option.filter_eq_some_iff, Option.map_eq_some_iff] at h
  obtain ⟨⟨⟨k, v⟩, hfind, rfl⟩, -⟩ := h
  obtain rfl : k = "id" := by simpa using List.find?_some hfind
  exact List.mem_of_find?_eq_some hfind

theorem keys_set (e : Element) (key value : String) :
    (e.set key value).keys = if key ∈ e.keys then e.keys else e.keys ++ [key] := by
  split
  · next hkey => exact keys_setEntry_of_mem hkey value
  · next hkey => rw [keys, set, setEntry_of_notMem hkey, List.map_append]; rfl

theorem nodup_keys_set {e : Element} (h : e.keys.Nodup) (key value : String) :
    (e.set key value).keys.Nodup := nodup_keys_setEntry h key value

theorem mem_keys_set_self (e : Element) (key value : String) : key ∈ (e.set key value).keys := by
  rw [keys_set]
  split
  · assumption
  · exact List.mem_append_right _ List.mem_cons_self

theorem mem_keys_set {e : Element} {key value k : String} (h : k ∈ e.keys) :
    k ∈ (e.set key value).keys := by
  rw [keys_set]
  split
  · exact h
  · exact List.mem_append_left _ h

theorem HasXmlNames.set {e : Element} (h : e.HasXmlNames) {key : String}
    (hkey : Xml.IsName key.toList) (value : String) : (e.set key value).HasXmlNames := by
  refine ⟨h.1, fun k hk ↦ ?_⟩
  rw [keys_set] at hk
  split at hk
  · exact h.2 k hk
  · rcases List.mem_append.1 hk with hk | hk
    · exact h.2 k hk
    · rwa [List.mem_singleton.1 hk]

theorem HasXmlNames.erase {e : Element} (h : e.HasXmlNames) (key : String) :
    (e.erase key).HasXmlNames := by
  refine ⟨h.1, fun k hk ↦ ?_⟩
  obtain ⟨a, ha, rfl⟩ := List.mem_map.1 hk
  exact h.2 _ (List.mem_map_of_mem (List.mem_of_mem_eraseP ha))

theorem nodup_keys_erase {e : Element} (h : e.keys.Nodup) (key : String) :
    (e.erase key).keys.Nodup := nodup_keys_eraseEntry h key

theorem IsUnbroken.set {e : Element} (h : e.IsUnbroken) (key : String) {value : String}
    (hvalue : Markup.Unbroken value.toList) : (e.set key value).IsUnbroken := by
  intro a ha
  rcases mem_setEntry ha with rfl | ha
  · exact hvalue
  · exact h a ha

theorem get?_erase_of_ne (e : Element) {key k : String} (h : k ≠ key) :
    (e.erase key).get? k = e.get? k := by
  rw [get?, get?, erase, eraseEntry]
  induction e.attributes with
  | nil => rfl
  | cons a as ih =>
    by_cases ha : a.1 = key
    · rw [List.eraseP_cons_of_pos (by simpa using ha),
        List.find?_cons_of_neg (by simpa [ha] using h.symm)]
    · rw [List.eraseP_cons_of_neg (by simpa using ha), List.find?_cons, List.find?_cons]
      split
      · rfl
      · exact ih

/-- Where no key stands twice, one that is taken away is gone. -/
theorem get?_erase_self {e : Element} (h : e.keys.Nodup) (key : String) :
    (e.erase key).get? key = none := by
  rw [get?, erase, eraseEntry, Option.map_eq_none_iff]
  rw [keys] at h
  generalize e.attributes = as at h
  induction as with
  | nil => rfl
  | cons a as ih =>
    rw [List.map_cons, List.nodup_cons] at h
    by_cases ha : a.1 = key
    · rw [List.eraseP_cons_of_pos (by simpa using ha), List.find?_eq_none]
      rintro b hb hkey
      rw [beq_iff_eq] at hkey
      exact h.1 (ha.trans hkey.symm ▸ List.mem_map_of_mem hb)
    · rw [List.eraseP_cons_of_neg (by simpa using ha), List.find?_cons_of_neg (by simpa using ha)]
      exact ih h.2

theorem get?_spaced (e : Element) (key : String) :
    e.spaced.get? key = (e.get? key).map fun v ↦ String.ofList (Markup.spaced v.toList) := by
  rw [get?, get?, spaced, List.find?_map, Option.map_map, Option.map_map]
  rfl

/-- Writing spaces for tabs and line breaks makes no id empty. -/
theorem id?_spaced (e : Element) :
    e.spaced.id? = e.id?.map fun id ↦ String.ofList (Markup.spaced id.toList) := by
  rw [id?, id?, get?_spaced]
  cases e.get? "id" with
  | none => rfl
  | some id =>
    have hempty : (String.ofList (Markup.spaced id.toList)).isEmpty = id.isEmpty := by
      rw [Bool.eq_iff_iff, String.isEmpty_iff, String.isEmpty_iff, ← String.toList_inj,
        ← String.toList_inj, String.toList_ofList, String.toList_empty]
      exact Markup.spaced_eq_nil_iff
    simp only [Option.map_some, Option.filter_some, hempty]
    split <;> rfl

theorem getD_id?_spaced (e : Element) :
    e.spaced.id?.getD "" = String.ofList (Markup.spaced (e.id?.getD "").toList) := by
  rw [id?_spaced]
  cases e.id? <;> rfl

end SvgWorkbench.Element
