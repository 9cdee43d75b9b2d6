import Mathlib.Data.List.Nodup
import SvgWorkbench.SortedMap

/-!
# Look-ups in maps

What a map holds is known from its look-ups. A map made by putting in one entry after another gives
the value of the last entry of a key; where the keys are distinct that is the only one.
-/

namespace SvgWorkbench.SortedMap

universe u v

variable {β : Type u} {γ : Type v}

/-! ## Entries -/

theorem mem_insert {m : SortedMap β} {key : String} {value : β} {a : String × β}
    (h : a ∈ (m.insert key value).entries) : a = (key, value) ∨ a ∈ m.entries := mem_insertEntry h

theorem mem_ofList {es : List (String × β)} {a : String × β} (h : a ∈ (ofList es).entries) :
    a ∈ es := by
  have hfold : ∀ m : SortedMap β,
      a ∈ (es.foldl (fun m e ↦ m.insert e.1 e.2) m).entries → a ∈ m.entries ∨ a ∈ es := by
    clear h
    induction es with
    | nil => exact fun m hm ↦ .inl hm
    | cons e es ih =>
      intro m hm
      rcases ih _ hm with hm | hm
      · rcases mem_insert hm with rfl | hm
        · exact .inr List.mem_cons_self
        · exact .inl hm
      · exact .inr (List.mem_cons_of_mem _ hm)
  exact (hfold empty h).resolve_left nofun

/-- The keys of a map are distinct. -/
theorem nodup_keys (m : SortedMap β) : (m.entries.map Prod.fst).Nodup := by
  rw [List.Nodup, List.pairwise_map]
  refine m.sorted.imp fun {a b} hlt heq ↦ ?_
  rw [heq] at hlt
  exact String.lt_irrefl b.1 hlt

/-! ## Conditions -/

theorem filter_eq_self {m : SortedMap β} {p : String → β → Bool}
    (h : ∀ a ∈ m.entries, p a.1 a.2 = true) : m.filter p = m := by
  obtain ⟨es, hes⟩ := m
  simp only [filter, mk.injEq]
  exact List.filter_eq_self.2 h

/-- An entry that is put in and left out again leaves what there was without its key. -/
theorem filter_insert (m : SortedMap β) (key : String) (value : β) :
    (m.insert key value).filter (fun k _ ↦ k != key) = m.filter fun k _ ↦ k != key := by
  have hentries : ∀ es : List (String × β), (insertEntry key value es).filter (fun e ↦ e.1 != key)
      = es.filter fun e ↦ e.1 != key := by
    intro es
    induction es with
    | nil => simp [insertEntry]
    | cons e es ih =>
      rw [insertEntry]
      split
      · simp
      · split
        · next heq => simp [heq]
        · rw [List.filter_cons, List.filter_cons, ih]
  simp only [filter, insert, mk.injEq]
  exact hentries m.entries

/-! ## Look-ups -/

theorem get?_eq_none_iff {m : SortedMap β} {key : String} :
    m.get? key = none ↔ ∀ a ∈ m.entries, a.1 ≠ key := by
  rw [get?, Option.map_eq_none_iff, List.find?_eq_none]
  exact forall₂_congr fun a _ ↦ by rw [beq_iff_eq]

theorem get?_eq_some_iff {m : SortedMap β} {key : String} {value : β} :
    m.get? key = some value ↔ (key, value) ∈ m.entries := by
  constructor
  · intro h
    obtain ⟨a, ha, rfl⟩ := Option.map_eq_some_iff.1 h
    have hkey : a.1 = key := by simpa using List.find?_some ha
    exact hkey ▸ List.mem_of_find?_eq_some ha
  · intro h
    cases hget : m.get? key with
    | none => exact absurd rfl (get?_eq_none_iff.1 hget _ h)
    | some other =>
      obtain ⟨a, ha, rfl⟩ := Option.map_eq_some_iff.1 hget
      have hkey : a.1 = key := by simpa using List.find?_some ha
      rw [List.inj_on_of_nodup_map m.nodup_keys (List.mem_of_find?_eq_some ha) h hkey]

/-- **Two maps with the same look-ups are equal.** -/
theorem ext_get? {m n : SortedMap β} (h : ∀ key, m.get? key = n.get? key) : m = n := by
  have hmem : ∀ a, a ∈ m.entries ↔ a ∈ n.entries := fun a ↦ by
    rw [← get?_eq_some_iff (m := m), ← get?_eq_some_iff (m := n), h]
  have hperm : m.entries.Perm n.entries :=
    (List.perm_ext_iff_of_nodup (.of_map _ m.nodup_keys) (.of_map _ n.nodup_keys)).2 hmem
  have heq : m.entries = n.entries := by
    refine hperm.eq_of_pairwise (fun a b _ _ hab hba ↦ ?_) m.sorted n.sorted
    exact absurd (String.lt_trans hab hba) (String.lt_irrefl a.1)
  cases m; cases n; cases heq; rfl

private theorem find?_insertEntry (k : String) (v : β) (es : List (String × β)) (key : String) :
    ((insertEntry k v es).find? (·.1 == key)).map (·.2)
      = if k = key then some v else (es.find? (·.1 == key)).map (·.2) := by
  induction es with
  | nil => by_cases hkey : k = key <;> simp [insertEntry, hkey]
  | cons e rest ih =>
    obtain ⟨k', v'⟩ := e
    rw [insertEntry]
    split
    · by_cases hkey : k = key <;> simp [hkey]
    · split
      · next heq =>
        subst heq
        by_cases hkey : k = key <;> simp [hkey]
      · next hne =>
        by_cases hkey : k' = key
        · have hk : k ≠ key := fun h ↦ hne (h.trans hkey.symm)
          simp [hkey, hk]
        · simp [hkey, ih]

theorem get?_insert (m : SortedMap β) (k : String) (v : β) (key : String) :
    (m.insert k v).get? key = if k = key then some v else m.get? key :=
  find?_insertEntry k v m.entries key

/-- **Putting in entries of distinct keys overlays the map with them.** -/
theorem get?_foldl_insert (f : String → String) {es : List (String × β)}
    (hnodup : (es.map fun e ↦ f e.1).Nodup) (m : SortedMap β) (key : String) :
    (es.foldl (fun m e ↦ m.insert (f e.1) e.2) m).get? key
      = ((es.find? fun e ↦ f e.1 == key).map (·.2)).or (m.get? key) := by
  induction es generalizing m with
  | nil => rfl
  | cons e es ih =>
    obtain ⟨hnotin, hnodup⟩ := List.nodup_cons.1 (List.map_cons ▸ hnodup)
    rw [List.foldl_cons, ih hnodup, get?_insert]
    by_cases hkey : f e.1 = key
    · -- no later entry has that key, so the value that was put in stays
      have hnone : es.find? (fun e ↦ f e.1 == key) = none := by
        refine List.find?_eq_none.2 fun a ha heq ↦ hnotin ?_
        exact hkey.trans (beq_iff_eq.1 heq).symm ▸ List.mem_map_of_mem ha
      simp [hkey, hnone]
    · simp [hkey]

theorem get?_ofList {es : List (String × β)} (hnodup : (es.map Prod.fst).Nodup) (key : String) :
    (ofList es).get? key = (es.find? (·.1 == key)).map (·.2) :=
  (get?_foldl_insert id hnodup empty key).trans (Option.or_none)

theorem get?_mapValues (f : String → β → γ) (m : SortedMap β) (key : String) :
    (m.mapValues f).get? key = (m.get? key).map (f key) := by
  refine Option.ext fun value ↦ ?_
  simp only [get?_eq_some_iff, Option.map_eq_some_iff, mapValues, List.mem_map, Prod.mk.injEq]
  constructor
  · rintro ⟨⟨k, v⟩, hmem, rfl, rfl⟩
    exact ⟨v, hmem, rfl⟩
  · rintro ⟨v, hmem, rfl⟩
    exact ⟨(key, v), hmem, rfl, rfl⟩

theorem get?_filter (p : String → β → Bool) (m : SortedMap β) (key : String) :
    (m.filter p).get? key = (m.get? key).filter (p key) := by
  refine Option.ext fun value ↦ ?_
  rw [get?_eq_some_iff, Option.filter_eq_some_iff, get?_eq_some_iff]
  exact List.mem_filter

end SvgWorkbench.SortedMap

