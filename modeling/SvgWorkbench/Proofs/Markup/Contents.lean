import SvgWorkbench.Proofs.Markup.Run

/-!
# The contents of what has been read

While a text is read its nodes are spread over the finished nodes, the open elements and the
document types that wait. Closing an element moves nodes about but neither adds nor loses any, and no
token loses one. So what has been read at some point stands in the document at the end.
-/

namespace SvgWorkbench.Markup

open Text SvgWorkbench.Tree

theorem preorderAll_append {α : Type} (ts us : List (Tree α)) :
    preorderAll (ts ++ us) = preorderAll ts ++ preorderAll us := by
  simp [preorderAll_eq_flatMap]

theorem mem_preorderAll_append {α : Type} {a : α} {ts us : List (Tree α)} :
    a ∈ preorderAll (ts ++ us) ↔ a ∈ preorderAll ts ∨ a ∈ preorderAll us := by
  simp [preorderAll_eq_flatMap]

theorem mem_preorderAll_reverse {α : Type} {a : α} {ts : List (Tree α)} :
    a ∈ preorderAll ts.reverse ↔ a ∈ preorderAll ts := by
  simp [preorderAll_eq_flatMap]

namespace Frame

/-- An open element with all that is inside so far. -/
def contents (f : Frame) : List Content := .element f.element :: preorderAll f.children

theorem mem_preorder_close {f : Frame} {c : Content} :
    c ∈ f.close.preorder ↔ c ∈ f.contents := by
  rw [close, preorder, contents, List.mem_cons, List.mem_cons, mem_preorderAll_reverse]

end Frame

namespace Reading

/-- Everything that has been read so far. -/
def contents (r : Reading) : List Content :=
  preorderAll r.finished ++ r.opened.flatMap Frame.contents ++ preorderAll r.waiting

theorem mem_contents {r : Reading} {c : Content} :
    c ∈ r.contents ↔ c ∈ preorderAll r.finished ∨ (∃ f ∈ r.opened, c ∈ f.contents) ∨
      c ∈ preorderAll r.waiting := by
  simp [contents]

theorem mem_contents_add {r : Reading} {t : Tree Content} {c : Content} :
    c ∈ (r.add t).contents ↔ c ∈ r.contents ∨ c ∈ t.preorder := by
  rw [mem_contents, mem_contents, add]
  split
  · next hopened =>
    simp only [preorderAll, List.mem_append, hopened]
    grind
  · next f fs hopened =>
    simp only [hopened, List.mem_cons, exists_eq_or_imp, Frame.contents, preorderAll,
      List.mem_append]
    grind

theorem mem_contents_close {r : Reading} {c : Content} : c ∈ r.close.contents ↔ c ∈ r.contents := by
  rw [mem_contents, mem_contents, close]
  split
  · rfl
  · next f hopened =>
    simp only [hopened, List.mem_singleton, exists_eq_left, mem_preorderAll_append, preorderAll,
      List.mem_append, Frame.mem_preorder_close]
    grind
  · next f g fs hopened =>
    simp only [hopened, List.mem_cons, exists_eq_or_imp, Frame.contents, preorderAll,
      List.mem_append, Frame.mem_preorder_close]
    grind

theorem mem_contents_closeAll {r : Reading} {n : Nat} {c : Content} :
    c ∈ (r.closeAll n).contents ↔ c ∈ r.contents := by
  induction n generalizing r with
  | zero => rfl
  | succ n ih => rw [closeAll, ih, mem_contents_close]

theorem mem_contents_addDoctype {r : Reading} {text : List Char} {c : Content} :
    c ∈ (r.addDoctype text).contents ↔
      c ∈ r.contents ∨ c = .doctype (String.ofList (trimStart text)) := by
  rw [mem_contents, mem_contents, addDoctype]
  simp only
  split
  · simp only [preorderAll, preorder, List.mem_append]
    grind
  · simp only [preorderAll, preorder, List.mem_append]
    grind

/-- A token keeps all that has been read. -/
theorem Takes.mem_contents {r r' : Reading} {token : Token} (h : r.Takes token r') {c : Content}
    (hc : c ∈ r.contents) : c ∈ r'.contents := by
  cases h with
  | leaf => exact mem_contents_add.2 (.inl hc)
  | opened =>
    rw [Reading.mem_contents] at hc ⊢
    exact hc.imp_right (.imp_left fun ⟨f, hf, hcf⟩ ↦ ⟨f, List.mem_cons_of_mem _ hf, hcf⟩)
  | closed => exact mem_contents_close.2 hc
  | doctype => exact mem_contents_addDoctype.2 (.inl hc)

/-! ### Document types wait only while an element is open -/

/-- Whether nothing waits unless an element is open. -/
def IsRested (r : Reading) : Prop := r.opened = [] → r.waiting = []

theorem IsRested.add {r : Reading} (h : r.IsRested) (t : Tree Content) : (r.add t).IsRested := by
  unfold Reading.add
  split
  · exact h
  · exact nofun

theorem IsRested.close {r : Reading} (h : r.IsRested) : r.close.IsRested := by
  unfold Reading.close
  split
  · exact h
  · exact fun _ ↦ rfl
  · exact nofun

theorem IsRested.addDoctype {r : Reading} (h : r.IsRested) (text : List Char) :
    (r.addDoctype text).IsRested := by
  simp only [Reading.addDoctype]
  split
  · exact h
  · next hopened => exact fun hnil ↦ absurd (List.isEmpty_iff.2 hnil) hopened

theorem IsRested.takes {r r' : Reading} {token : Token} (h : r.IsRested)
    (htakes : r.Takes token r') : r'.IsRested := by
  cases htakes with
  | leaf => exact h.add _
  | opened => exact nofun
  | closed => exact h.close
  | doctype cs => exact h.addDoctype cs

theorem IsRested.closeAll {r : Reading} (h : r.IsRested) (n : Nat) : (r.closeAll n).IsRested :=
  closeAll_invariant (P := IsRested) IsRested.close h n

/-- Once everything is closed, all that has been read stands in the markup. -/
theorem mem_preorderAll_markup {r : Reading} (h : r.IsRested) {c : Content} :
    c ∈ preorderAll r.markup ↔ c ∈ r.contents := by
  have hopened := opened_closeAll_length r
  rw [markup, mem_preorderAll_reverse, ← mem_contents_closeAll (n := r.opened.length), mem_contents,
    hopened, h.closeAll _ hopened]
  simp [preorderAll]

/-! ### Whole texts -/

/-- What has been read stays. -/
theorem mem_contents_of_readFrom {r r' : Reading} {offset : Nat} {cs : List Char}
    (h : readFrom r offset cs = .ok r') {c : Content} (hc : c ∈ r.contents) : c ∈ r'.contents :=
  readFrom_invariant (P := fun r ↦ c ∈ r.contents) (fun _ htakes ↦ htakes.mem_contents) hc h

theorem IsRested.readFrom {r r' : Reading} (hr : r.IsRested) {offset : Nat} {cs : List Char}
    (h : Markup.readFrom r offset cs = .ok r') : r'.IsRested :=
  readFrom_invariant (fun _ htakes hr ↦ hr.takes htakes) hr h

end Reading

/-- What stands in a text that is read is what has been read at its end. -/
theorem exists_of_read {s : String} {m : Markup} (h : read s = .ok m) :
    ∃ r, readFrom {} 0 ((afterPrefix? ['\uFEFF'] s.toList).getD s.toList) = .ok r ∧
      ∀ c, c ∈ preorderAll m ↔ c ∈ r.contents := by
  obtain ⟨r, hr, rfl⟩ := read_eq_ok_iff.1 h
  have hrested : Reading.IsRested {} := fun _ ↦ rfl
  exact ⟨r, hr, fun c ↦ Reading.mem_preorderAll_markup (hrested.readFrom hr)⟩

end SvgWorkbench.Markup
