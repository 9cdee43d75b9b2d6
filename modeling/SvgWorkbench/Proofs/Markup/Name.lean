import SvgWorkbench.Markup.Content
import SvgWorkbench.Xml.Character
import SvgWorkbench.Proofs.Markup.Escape

/-!
# Names of tags and attributes

What the markup of an element has to be like so that it can be written and read again: its tag name
and the names of its attributes are names of XML, and no attribute occurs twice. Values may be any
text; an element whose values have no tabs and no line breaks is *unbroken* and comes back as it is.
-/

namespace SvgWorkbench

/-! ## Names of XML -/

namespace Xml

/-- Whether a text is a name of XML; the colon is a character like any other in it. -/
def IsName (cs : List Char) : Prop :=
  ∃ c rest, cs = c :: rest ∧ isNameStart c = true ∧ ∀ x ∈ rest, isNameChar x = true

instance (cs : List Char) : Decidable (IsName cs) :=
  match cs with
  | [] => isFalse (by simp [IsName])
  | c :: rest =>
    decidable_of_iff (isNameStart c = true ∧ rest.all isNameChar = true)
      ⟨fun h ↦ ⟨c, rest, rfl, h.1, List.all_eq_true.1 h.2⟩,
        fun ⟨_, _, heq, h⟩ ↦ by cases heq; exact ⟨h.1, List.all_eq_true.2 h.2⟩⟩

theorem isNameChar_of_isNameStart {c : Char} (h : isNameStart c = true) : isNameChar c = true := by
  simp only [isNameChar, h, Bool.true_or]

theorem IsName.forall_isNameChar {cs : List Char} (h : IsName cs) :
    ∀ c ∈ cs, isNameChar c = true := by
  obtain ⟨c, rest, rfl, hc, hrest⟩ := h
  intro x hx
  rcases List.mem_cons.1 hx with rfl | hx
  · exact isNameChar_of_isNameStart hc
  · exact hrest x hx

theorem IsName.ne_nil {cs : List Char} (h : IsName cs) : cs ≠ [] := by
  obtain ⟨c, rest, rfl, -⟩ := h
  exact List.cons_ne_nil c rest

/-- A character that stands in no name does not stand in this one. -/
theorem IsName.ne {cs : List Char} (h : IsName cs) {x : Char} (hx : isNameChar x = false) :
    ∀ c ∈ cs, c ≠ x := by
  rintro c hc rfl
  rw [h.forall_isNameChar c hc] at hx
  cases hx

theorem IsName.notMem {cs : List Char} (h : IsName cs) {x : Char} (hx : isNameChar x = false) :
    x ∉ cs := fun hmem ↦ h.ne hx x hmem rfl

theorem isSpace_cases {c : Char} (h : isSpace c = true) :
    c = ' ' ∨ c = '\t' ∨ c = '\n' ∨ c = '\r' := by
  simpa [isSpace, or_assoc] using h

/-- Nothing but spaces stands in spaces. -/
theorem notMem_spaces {spaces : List Char} (h : ∀ c ∈ spaces, isSpace c = true) {x : Char}
    (hx : isSpace x = false) : x ∉ spaces := by
  intro hmem
  rw [h x hmem] at hx
  cases hx

theorem isSpace_eq_false_of_isNameChar {c : Char} (h : isNameChar c = true) :
    isSpace c = false := by
  rw [Bool.eq_false_iff]
  intro hs
  rcases isSpace_cases hs with rfl | rfl | rfl | rfl <;> cases h

/-- Characters of names are no tabs and no line breaks. -/
theorem unbroken_of_forall_isNameChar {cs : List Char} (h : ∀ c ∈ cs, isNameChar c = true) :
    Markup.Unbroken cs := by
  intro c hc
  have hspace := isSpace_eq_false_of_isNameChar (h c hc)
  refine ⟨?_, ?_, ?_⟩ <;> (rintro rfl; cases hspace)

theorem IsName.not_isSpace {cs : List Char} (h : IsName cs) : ∀ c ∈ cs, isSpace c = false :=
  fun c hc ↦ isSpace_eq_false_of_isNameChar (h.forall_isNameChar c hc)

end Xml

/-! ## Elements -/

namespace Element

open Xml

/-- The names of the attributes in order. -/
def keys (e : Element) : List String := e.attributes.map Prod.fst

/-- Whether the tag name and the attribute names are names of XML. -/
def HasXmlNames (e : Element) : Prop := IsName e.name.toList ∧ ∀ k ∈ e.keys, IsName k.toList

/-- Whether the tag and attribute names are names of XML and no attribute occurs twice. -/
structure IsLegal (e : Element) : Prop where
  /-- The names are names of XML. -/
  names : e.HasXmlNames
  /-- No attribute occurs twice. -/
  nodup : e.keys.Nodup

instance (e : Element) : Decidable e.HasXmlNames :=
  inferInstanceAs (Decidable (IsName e.name.toList ∧ ∀ k ∈ e.keys, IsName k.toList))

instance (e : Element) : Decidable e.IsLegal :=
  decidable_of_iff (e.HasXmlNames ∧ e.keys.Nodup)
    ⟨fun h ↦ ⟨h.1, h.2⟩, fun h ↦ ⟨h.names, h.nodup⟩⟩

/-- Whether no attribute value has a tab, line feed or carriage return. -/
def IsUnbroken (e : Element) : Prop := ∀ a ∈ e.attributes, Markup.Unbroken a.2.toList

instance (e : Element) : Decidable e.IsUnbroken :=
  inferInstanceAs (Decidable (∀ a ∈ e.attributes, Markup.Unbroken a.2.toList))

/-- The element with the tabs and line breaks of its attribute values turned into spaces. -/
def spaced (e : Element) : Element :=
  { e with attributes := e.attributes.map fun a ↦
      (a.1, String.ofList (Markup.spaced a.2.toList)) }

@[simp] theorem spaced_name (e : Element) : e.spaced.name = e.name := rfl

@[simp] theorem keys_spaced (e : Element) : e.spaced.keys = e.keys := by
  simp [keys, spaced, Function.comp_def]

theorem isUnbroken_spaced (e : Element) : e.spaced.IsUnbroken := by
  intro a ha
  obtain ⟨b, -, rfl⟩ := List.mem_map.1 ha
  rw [String.toList_ofList]
  exact Markup.unbroken_spaced _

theorem IsUnbroken.spaced_eq {e : Element} (h : e.IsUnbroken) : e.spaced = e := by
  have hmap : ∀ a ∈ e.attributes, (a.1, String.ofList (Markup.spaced a.2.toList)) = a := by
    intro a ha
    rw [(h a ha).spaced_eq, String.ofList_toList]
  rw [spaced, List.map_congr_left hmap, List.map_id']

theorem IsLegal.spaced {e : Element} (h : e.IsLegal) : e.spaced.IsLegal :=
  ⟨⟨h.names.1, by rw [keys_spaced]; exact h.names.2⟩, by rw [keys_spaced]; exact h.nodup⟩

end Element

end SvgWorkbench
