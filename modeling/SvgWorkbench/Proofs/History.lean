import Mathlib.Data.List.Chain
import SvgWorkbench.History

/-!
# Histories that stay in place

As long as a history keeps at least one text there is a present text in it, and every step back or
forward that is offered leads to a text that was committed. A history keeps one text more than the
steps of its limit; only the largest word is a limit that keeps none.

A text that has been committed is the present one, and one step back is the text that was present
before it. For that a history has to keep two texts, as every history that was opened does: its
limit is at least one.
-/

namespace SvgWorkbench.History

/-- Whether the present text is one of the texts, and at least one text is kept. -/
structure IsSound (h : History) : Prop where
  /-- The place is that of a text. -/
  index_lt : h.index < h.entries.length
  /-- Some text is kept. -/
  capacity_pos : 0 < h.capacity

/-! ## Limits -/

theorem capacity_ofLimit {limit : UInt64} (h : limit.toNat + 1 < UInt64.size) :
    (ofLimit limit).capacity = max limit.toNat 1 + 1 := by
  have hlimit : (ofLimit limit).limit.toNat = max limit.toNat 1 := by
    rw [ofLimit]
    split
    · next hzero => rw [hzero]; rfl
    · next hne =>
      have hpos : limit.toNat ≠ 0 := fun heq ↦ hne (UInt64.toNat_inj.1 heq)
      exact (max_eq_left (Nat.one_le_iff_ne_zero.2 hpos)).symm
  have hsize : (2 : Nat) ^ 64 = UInt64.size := rfl
  rw [capacity, UInt64.toNat_add, hlimit, UInt64.toNat_one, hsize, Nat.mod_eq_of_lt]
  have hone : 1 + 1 < UInt64.size := by decide
  omega

theorem capacity_ofLimit_pos {limit : UInt64} (h : limit.toNat + 1 < UInt64.size) :
    0 < (ofLimit limit).capacity := by
  rw [capacity_ofLimit h]
  exact Nat.succ_pos _

theorem IsSound.current? {h : History} (hsound : h.IsSound) : ∃ text, h.current? = some text :=
  ⟨_, List.getElem?_eq_getElem hsound.index_lt⟩

theorem mem_entries_of_current? {h : History} {text : String} (hcurrent : h.current? = some text) :
    text ∈ h.entries := List.mem_of_getElem? hcurrent

/-! ## Keeping some number of texts -/

section Within

variable {h : History} {text : String} {capacity : ℕ}

/-- Commits a text to a history that keeps some number of texts. -/
def recordWithin (capacity : ℕ) (h : History) (text : String) : History :=
  if h.current? = some text then h
  else
    let kept := h.entries.take (h.index + 1)
    let surplus := kept.length + 1 - capacity
    { h with entries := (kept ++ [text]).drop surplus, index := kept.length - surplus }

/-- Committing a text keeps the number of texts that goes with the limit. -/
theorem record_eq_recordWithin (h : History) (text : String) :
    h.record text = h.recordWithin h.capacity text := by
  simp only [record, evict, recordWithin, capacity, List.length_append, List.length_singleton]

/-- Committing another text than the present one puts it after the present one and drops some texts
at the front. -/
theorem recordWithin_eq (hindex : h.index < h.entries.length) (hne : h.current? ≠ some text) :
    h.recordWithin capacity text = { h with
      entries := (h.entries.take (h.index + 1) ++ [text]).drop (h.index + 2 - capacity)
      index := h.index + 1 - (h.index + 2 - capacity) } := by
  simp only [recordWithin, if_neg hne, List.length_take_of_le hindex]

/-- A text that was committed is the present one, if a text is kept. -/
theorem current?_recordWithin (hindex : h.index < h.entries.length) (hcapacity : 0 < capacity)
    (text : String) : (h.recordWithin capacity text).current? = some text := by
  by_cases hne : h.current? = some text
  · rwa [recordWithin, if_pos hne]
  · have hplace : h.index + 2 - capacity + (h.index + 1 - (h.index + 2 - capacity))
        = h.index + 1 := by omega
    rw [recordWithin_eq hindex hne, current?, List.getElem?_drop, hplace,
      List.getElem?_append_right (List.length_take_le _ _), List.length_take_of_le hindex,
      Nat.sub_self]
    rfl

/-- One step back from a text that was committed is the text that was present before, if two texts
are kept. -/
theorem exists_undo?_recordWithin (hindex : h.index < h.entries.length) (hcapacity : 2 ≤ capacity)
    (hne : h.current? ≠ some text) : ∃ before,
      (h.recordWithin capacity text).undo? = some before ∧ before.current? = h.current? := by
  have hplace : h.index + 2 - capacity + (h.index + 1 - (h.index + 2 - capacity) - 1)
      = h.index := by omega
  refine ⟨_, if_pos ?_, ?_⟩
  · rw [recordWithin_eq hindex hne, canUndo, decide_eq_true_eq]
    show 0 < h.index + 1 - (h.index + 2 - capacity)
    omega
  · rw [recordWithin_eq hindex hne, current?, List.getElem?_drop, hplace,
      List.getElem?_append_left (by rw [List.length_take_of_le hindex]; exact Nat.lt_succ_self _),
      List.getElem?_take_of_lt (Nat.lt_succ_self _), current?]

/-- What is expected of committing a text. -/
structure Records (record : History → String → History) (h : History) (text : String) : Prop where
  /-- The text is the present one. -/
  current : (record h text).current? = some text
  /-- Another text that was present before is one step back. -/
  back : h.current? ≠ some text →
    ∃ before, (record h text).undo? = some before ∧ before.current? = h.current?

/-- The present text can be committed again, whatever is kept. -/
theorem records_of_current? (hcurrent : h.current? = some text) :
    h.Records (recordWithin capacity) text :=
  ⟨by rwa [recordWithin, if_pos hcurrent], fun hne ↦ absurd hcurrent hne⟩

/-- Committing keeps to the number of texts that goes with the limit of the history. -/
theorem records_record_iff :
    h.Records record text ↔ h.Records (recordWithin h.capacity) text := by
  constructor
  · rintro ⟨hcurrent, hback⟩
    rw [record_eq_recordWithin] at hcurrent hback
    exact ⟨hcurrent, hback⟩
  · rintro ⟨hcurrent, hback⟩
    rw [← record_eq_recordWithin] at hcurrent hback
    exact ⟨hcurrent, hback⟩

/-- **Another text can be committed exactly if two texts are kept.** -/
theorem records_recordWithin_iff (hindex : h.index < h.entries.length)
    (hne : h.current? ≠ some text) : h.Records (recordWithin capacity) text ↔ 2 ≤ capacity := by
  constructor
  · rintro ⟨-, hback⟩
    obtain ⟨before, hundo, -⟩ := hback hne
    rw [recordWithin_eq hindex hne, undo?] at hundo
    split at hundo
    · next hcan =>
      -- there is a step back from a place behind the first one
      have hplace : 0 < h.index + 1 - (h.index + 2 - capacity) := of_decide_eq_true hcan
      omega
    · cases hundo
  · exact fun hcapacity ↦
      ⟨current?_recordWithin hindex (Nat.lt_of_lt_of_le Nat.zero_lt_two hcapacity) text,
        exists_undo?_recordWithin hindex hcapacity⟩

end Within

/-! ## Committing -/

@[simp] theorem capacity_reset (h : History) (text : String) :
    (h.reset text).capacity = h.capacity := rfl

theorem isSound_reset {h : History} (hcapacity : 0 < h.capacity) (text : String) :
    (h.reset text).IsSound := ⟨Nat.zero_lt_one, hcapacity⟩

/-- Committing keeps the committed texts or drops some. -/
theorem mem_entries_record {h : History} {text entry : String}
    (hmem : entry ∈ (h.record text).entries) : entry = text ∨ entry ∈ h.entries := by
  rw [record] at hmem
  split at hmem
  · exact .inr hmem
  · rcases List.mem_append.1 (List.mem_of_mem_drop hmem) with hmem | hmem
    · exact .inr (List.mem_of_mem_take hmem)
    · exact .inl (List.mem_singleton.1 hmem)

theorem IsSound.record {h : History} (hsound : h.IsSound) (text : String) :
    (h.record text).IsSound := by
  rw [History.record]
  split
  · exact hsound
  · refine ⟨?_, hsound.capacity_pos⟩
    have hindex := hsound.index_lt
    have hcapacity := hsound.capacity_pos
    have hkept : (h.entries.take (h.index + 1)).length = h.index + 1 := by
      rw [List.length_take]
      omega
    simp only [evict, List.length_drop, List.length_append, hkept, List.length_singleton]
    show h.index + 1 - (h.index + 1 + 1 - h.capacity) < h.index + 1 + 1 - (h.index + 1 + 1 - h.capacity)
    omega

theorem capacity_record (h : History) (text : String) :
    (h.record text).capacity = h.capacity := by
  rw [History.record]
  split <;> rfl

/-- Committing another text than the present one puts it after the present one and drops some texts
at the front. -/
theorem IsSound.record_eq {h : History} (hsound : h.IsSound) {text : String}
    (hne : h.current? ≠ some text) :
    h.record text =
      { h with
        entries := (h.entries.take (h.index + 1) ++ [text]).drop (h.index + 2 - h.capacity)
        index := h.index + 1 - (h.index + 2 - h.capacity) } := by
  rw [record_eq_recordWithin, recordWithin_eq hsound.index_lt hne]

theorem current?_reset (h : History) (text : String) : (h.reset text).current? = some text := rfl

/-- A text that was committed is the present one. -/
theorem IsSound.current?_record {h : History} (hsound : h.IsSound) (text : String) :
    (h.record text).current? = some text := by
  rw [record_eq_recordWithin]
  exact current?_recordWithin hsound.index_lt hsound.capacity_pos text

/-- **One step back from a text that was committed is the text that was present before**, if two
texts are kept. -/
theorem IsSound.exists_undo?_record {h : History} (hsound : h.IsSound) (hcapacity : 2 ≤ h.capacity)
    {text : String} (hne : h.current? ≠ some text) :
    ∃ h', (h.record text).undo? = some h' ∧ h'.current? = h.current? := by
  rw [record_eq_recordWithin]
  exact exists_undo?_recordWithin hsound.index_lt hcapacity hne

/-! ## Steps -/

theorem IsSound.undo {h h' : History} (hsound : h.IsSound) (hundo : h.undo? = some h') :
    h'.IsSound ∧ h'.entries = h.entries := by
  rw [undo?] at hundo
  split at hundo <;> cases hundo
  exact ⟨⟨Nat.lt_of_le_of_lt (Nat.sub_le _ _) hsound.index_lt, hsound.capacity_pos⟩, rfl⟩

theorem IsSound.redo {h h' : History} (hsound : h.IsSound) (hredo : h.redo? = some h') :
    h'.IsSound ∧ h'.entries = h.entries := by
  rw [redo?] at hredo
  split at hredo <;> cases hredo
  next hcan => exact ⟨⟨of_decide_eq_true hcan, hsound.capacity_pos⟩, rfl⟩

/-- A step forward undoes a step back. -/
theorem IsSound.redo?_of_undo? {h h' : History} (hsound : h.IsSound) (hundo : h.undo? = some h') :
    h'.redo? = some h := by
  rw [undo?] at hundo
  split at hundo <;> cases hundo
  next hcan =>
    have hindex : h.index - 1 + 1 = h.index := Nat.sub_add_cancel (of_decide_eq_true hcan)
    rw [redo?, if_pos]
    · simp only [hindex]
    · simpa only [canRedo, hindex, decide_eq_true_eq] using hsound.index_lt

theorem capacity_undo {h h' : History} (hundo : h.undo? = some h') : h'.capacity = h.capacity := by
  rw [undo?] at hundo
  split at hundo <;> cases hundo
  rfl

theorem capacity_redo {h h' : History} (hredo : h.redo? = some h') : h'.capacity = h.capacity := by
  rw [redo?] at hredo
  split at hredo <;> cases hredo
  rfl

/-! ## Tidy histories -/

/-- Whether a history holds no more texts than it keeps, none of them twice in a row, and its
present text is one of them. -/
structure IsTidy (h : History) : Prop where
  /-- There is a present text. -/
  sound : h.IsSound
  /-- No more texts are held than are kept. -/
  length_le : h.entries.length ≤ h.capacity
  /-- No text stands next to itself. -/
  distinct : h.entries.IsChain (· ≠ ·)

namespace IsTidy

variable {h h' : History}

theorem reset (hcapacity : 0 < h.capacity) (text : String) : (h.reset text).IsTidy :=
  ⟨isSound_reset hcapacity text, hcapacity, List.isChain_singleton text⟩

theorem record (htidy : h.IsTidy) (text : String) : (h.record text).IsTidy := by
  by_cases hne : h.current? = some text
  · rwa [History.record, if_pos hne]
  have hindex : h.index + 1 ≤ h.entries.length := htidy.sound.index_lt
  refine ⟨htidy.sound.record text, ?_, ?_⟩
  · rw [capacity_record, htidy.sound.record_eq hne]
    simp only [List.length_drop, List.length_append, List.length_singleton,
      List.length_take_of_le hindex]
    omega
  · rw [htidy.sound.record_eq hne]
    refine List.IsChain.drop (.append (htidy.distinct.take _) (List.isChain_singleton text) ?_) _
    -- the text that the new one is put after is the present one
    intro before hbefore after hafter heq
    obtain rfl : text = after := by simpa using hafter
    rw [List.getLast?_eq_getElem?, List.length_take_of_le hindex, Nat.add_sub_cancel,
      List.getElem?_take_of_lt (Nat.lt_succ_self _), heq] at hbefore
    exact hne hbefore

theorem undo (htidy : h.IsTidy) (hundo : h.undo? = some h') : h'.IsTidy := by
  obtain ⟨hsound, hentries⟩ := htidy.sound.undo hundo
  exact ⟨hsound, by rw [hentries, capacity_undo hundo]; exact htidy.length_le,
    hentries ▸ htidy.distinct⟩

theorem redo (htidy : h.IsTidy) (hredo : h.redo? = some h') : h'.IsTidy := by
  obtain ⟨hsound, hentries⟩ := htidy.sound.redo hredo
  exact ⟨hsound, by rw [hentries, capacity_redo hredo]; exact htidy.length_le,
    hentries ▸ htidy.distinct⟩

end IsTidy

end SvgWorkbench.History
