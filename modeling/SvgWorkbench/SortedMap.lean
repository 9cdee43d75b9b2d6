/-!
# Maps sorted by key

The attributes of a component are a map from text to text. Copies are written attribute by
attribute in the order of the keys, so the map is kept as a list of entries in that order, by code
point. The order makes the representation unique: two maps with the same look-ups are equal.
-/

namespace SvgWorkbench

universe u v

/-- A list of entries with strictly growing keys. -/
structure SortedMap (β : Type u) where
  /-- The entries, smallest key first. -/
  entries : List (String × β)
  /-- The keys grow from entry to entry. -/
  sorted : entries.Pairwise fun a b ↦ a.1 < b.1

namespace SortedMap

variable {β : Type u} {γ : Type v}

instance [DecidableEq β] : DecidableEq (SortedMap β) := fun m n ↦
  if h : m.entries = n.entries then
    isTrue (by cases m; cases n; simp only at h; subst h; rfl)
  else isFalse fun e ↦ h (by rw [e])

instance [Repr β] : Repr (SortedMap β) := ⟨fun m n ↦ reprPrec m.entries n⟩

/-! ## Reading -/

/-- The value of a key. -/
def get? (m : SortedMap β) (key : String) : Option β :=
  (m.entries.find? (·.1 == key)).map (·.2)

/-- Whether a key has a value. -/
def contains (m : SortedMap β) (key : String) : Bool := m.entries.any (·.1 == key)

/-! ## Building -/

/-- The map without entries. -/
def empty : SortedMap β := ⟨[], .nil⟩

instance : Inhabited (SortedMap β) := ⟨empty⟩

/-- Puts an entry where its key belongs, in place of one with the same key. -/
def insertEntry (key : String) (value : β) : List (String × β) → List (String × β)
  | [] => [(key, value)]
  | (k, v) :: rest =>
    if key < k then (key, value) :: (k, v) :: rest
    else if key = k then (key, value) :: rest
    else (k, v) :: insertEntry key value rest

theorem mem_insertEntry {key : String} {value : β} {es : List (String × β)} {e : String × β}
    (h : e ∈ insertEntry key value es) : e = (key, value) ∨ e ∈ es := by
  induction es with
  | nil => simpa [insertEntry] using h
  | cons x rest ih =>
    obtain ⟨k, v⟩ := x
    simp only [insertEntry] at h
    split at h
    · simpa using h
    · split at h
      · rcases List.mem_cons.1 h with h | h
        · exact .inl h
        · exact .inr (List.mem_cons_of_mem _ h)
      · rcases List.mem_cons.1 h with h | h
        · exact .inr (by simp [h])
        · exact (ih h).imp_right (List.mem_cons_of_mem _)

theorem pairwise_insertEntry {key : String} {value : β} {es : List (String × β)}
    (h : es.Pairwise fun a b ↦ a.1 < b.1) :
    (insertEntry key value es).Pairwise fun a b ↦ a.1 < b.1 := by
  induction es with
  | nil => simp [insertEntry]
  | cons x rest ih =>
    obtain ⟨k, v⟩ := x
    obtain ⟨hk, hrest⟩ := List.pairwise_cons.1 h
    simp only [insertEntry]
    split
    · next hlt =>
      refine List.pairwise_cons.2 ⟨fun e he ↦ ?_, h⟩
      rcases List.mem_cons.1 he with rfl | he
      · exact hlt
      · exact String.lt_trans hlt (hk e he)
    · next hnlt =>
      split
      · next heq => exact List.pairwise_cons.2 ⟨fun e he ↦ heq ▸ hk e he, hrest⟩
      · next hne =>
        refine List.pairwise_cons.2 ⟨fun e he ↦ ?_, ih hrest⟩
        rcases mem_insertEntry he with rfl | he
        · exact ((Std.lt_trichotomy key k).resolve_left hnlt).resolve_left hne
        · exact hk e he

/-- The map with a value for a key, in place of an earlier one. -/
def insert (m : SortedMap β) (key : String) (value : β) : SortedMap β :=
  ⟨insertEntry key value m.entries, pairwise_insertEntry m.sorted⟩

/-- The map of some entries; of several with the same key the last one stays. -/
def ofList (es : List (String × β)) : SortedMap β :=
  es.foldl (fun m e ↦ m.insert e.1 e.2) empty

/-- The entries of which a condition holds. -/
def filter (p : String → β → Bool) (m : SortedMap β) : SortedMap β :=
  ⟨m.entries.filter fun e ↦ p e.1 e.2, m.sorted.filter _⟩

/-- The map with each value changed. -/
def mapValues (f : String → β → γ) (m : SortedMap β) : SortedMap γ :=
  ⟨m.entries.map fun e ↦ (e.1, f e.1 e.2), m.sorted.map _ fun _ _ h ↦ h⟩

end SortedMap

end SvgWorkbench
