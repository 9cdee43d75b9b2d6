import SvgWorkbench.Edit.Group
import SvgWorkbench.Edit.Structure
import SvgWorkbench.Proofs.Drawing.Reparse
import SvgWorkbench.Proofs.Gate.Lexeme

/-!
# When an edit succeeds

An edit succeeds exactly if its text is a drawing, the element it is for is there, and the document
it makes can be read again. These laws say so for each edit and name the document that is made, so
that later arguments need not look into the edits again.
-/

namespace SvgWorkbench.Edit

open Gate SvgWorkbench.Tree

variable {markup id w : String}

/-! ## Reading and finishing -/

theorem load_eq_ok_iff {p : Drawing} : load markup = .ok p ↔ Drawing.parse markup = .ok p := by
  rw [load]
  cases Drawing.parse markup with
  | error cause => exact ⟨nofun, nofun⟩
  | ok q => exact ⟨fun h ↦ by cases h; rfl, fun h ↦ by cases h; rfl⟩

theorem finish_eq_ok_iff {d : Document} :
    finish d = .ok w ↔ (∃ p, Drawing.parse d.text = .ok p) ∧ w = d.text := by
  rw [finish]
  cases Drawing.parse d.text with
  | error cause => exact ⟨nofun, fun ⟨⟨_, h⟩, _⟩ ↦ nomatch h⟩
  | ok p => exact ⟨fun h ↦ ⟨⟨p, rfl⟩, (Except.ok.inj h).symm⟩, fun h ↦ by rw [h.2]⟩

theorem resolve_eq_ok_iff {d : Document} {n : Node} :
    resolve markup id = .ok (d, n) ↔
      ∃ p, Drawing.parse markup = .ok p ∧ p.locate? id = some n ∧ d = p.document := by
  simp only [resolve, bind_eq_ok_iff, load_eq_ok_iff]
  constructor
  · rintro ⟨p, hparse, h⟩
    split at h
    · next hlocate =>
      cases h
      exact ⟨p, hparse, hlocate, rfl⟩
    · cases h
  · rintro ⟨p, hparse, hlocate, rfl⟩
    exact ⟨p, hparse, by rw [hlocate]; rfl⟩

/-- An edit of the element an id means goes on with the drawing of the text and the element. -/
theorem resolve_bind_eq_ok_iff {α : Type} {f : Document × Node → Except EditError α} {r : α} :
    (resolve markup id >>= f) = .ok r ↔
      ∃ p n, Drawing.parse markup = .ok p ∧ p.locate? id = some n ∧ f (p.document, n) = .ok r := by
  simp only [bind_eq_ok_iff, Prod.exists, resolve_eq_ok_iff]
  constructor
  · rintro ⟨_, n, ⟨p, hparse, hlocate, rfl⟩, h⟩
    exact ⟨p, n, hparse, hlocate, h⟩
  · rintro ⟨p, n, hparse, hlocate, h⟩
    exact ⟨p.document, n, ⟨p, hparse, hlocate, rfl⟩, h⟩

/-- An edit that may not be made on the root goes on with the parent of the element as well. -/
theorem resolveChild_bind_eq_ok_iff {α : Type} {f : Document × Node × Node → Except EditError α}
    {r : α} : (resolveChild markup id >>= f) = .ok r ↔
      ∃ p n parent, Drawing.parse markup = .ok p ∧ p.locate? id = some n ∧
        p.document.parentBelowRoot? n = some parent ∧ f (p.document, n, parent) = .ok r := by
  rw [resolveChild, bind_assoc, resolve_bind_eq_ok_iff]
  refine exists₂_congr fun p n ↦ ?_
  cases hparent : p.document.parentBelowRoot? n with
  | none =>
    simp only [hparent]
    exact ⟨nofun, nofun⟩
  | some parent =>
    simp only [hparent]
    constructor
    · rintro ⟨hparse, hlocate, h⟩
      exact ⟨parent, hparse, hlocate, rfl, h⟩
    · rintro ⟨_, hparse, hlocate, ⟨⟩, h⟩
      exact ⟨hparse, hlocate, h⟩

/-! ## The edits -/

theorem setProperty_eq_ok_iff {key value : String} :
    setProperty markup id key value = .ok w ↔
      ∃ p n, Drawing.parse markup = .ok p ∧ p.locate? id = some n ∧
        finish (p.document.setProperty n.handle key value) = .ok w := resolve_bind_eq_ok_iff

theorem remove_eq_ok_iff :
    remove markup id = .ok w ↔
      ∃ p n parent, Drawing.parse markup = .ok p ∧ p.locate? id = some n ∧
        p.document.parentBelowRoot? n = some parent ∧
        finish (p.document.detach n.handle) = .ok w := resolveChild_bind_eq_ok_iff

theorem reorder_eq_ok_iff {direction : Direction} :
    reorder direction markup id = .ok w ↔
      ∃ p n parent, Drawing.parse markup = .ok p ∧ p.locate? id = some n ∧
        p.document.parentBelowRoot? n = some parent ∧
        ((∃ swapped, p.document.swap? n.handle direction = some swapped ∧
            finish swapped = .ok w) ∨
          p.document.swap? n.handle direction = none ∧ w = markup) := by
  rw [reorder, resolveChild_bind_eq_ok_iff]
  refine exists₃_congr fun p n parent ↦ and_congr_right' (and_congr_right' (and_congr_right' ?_))
  cases hswap : p.document.swap? n.handle direction with
  | none =>
    simp only [hswap]
    constructor
    · exact fun h ↦ .inr ⟨trivial, (pure_eq_ok_iff.1 h).symm⟩
    · rintro (⟨_, ⟨⟩, -⟩ | ⟨-, rfl⟩)
      rfl
  | some swapped =>
    simp only [hswap]
    constructor
    · exact fun h ↦ .inl ⟨swapped, rfl, h⟩
    · rintro (⟨_, ⟨⟩, h⟩ | ⟨⟨⟩, -⟩)
      exact h

theorem duplicate_eq_ok_iff {config : Config} :
    duplicate config markup id = .ok w ↔
      ∃ p n parent, Drawing.parse markup = .ok p ∧ p.locate? id = some n ∧
        p.document.parentBelowRoot? n = some parent ∧
        finish (p.document.insertCopy parent.handle (config.offsetAttributes.foldl
          (Copied.shift config.duplicateOffset) (.ofNode n))) = .ok w := resolveChild_bind_eq_ok_iff

/-- Duplicating an element of a drawing writes the document with the copy, if that can be read. -/
theorem duplicate_eq_ok {config : Config} {p q : Drawing} (n : Node) (parent : Handle)
    (hparse : Drawing.parse markup = .ok p) (hlocate : p.locate? id = some n)
    (hparent : (p.document.parentBelowRoot? n).map Node.handle = some parent)
    (htext : (p.document.insertCopy parent (config.offsetAttributes.foldl
      (Copied.shift config.duplicateOffset) (.ofNode n))).text = w)
    (hreads : Drawing.parse w = .ok q) : duplicate config markup id = .ok w := by
  obtain ⟨m, hm, rfl⟩ := Option.map_eq_some_iff.1 hparent
  exact duplicate_eq_ok_iff.2 ⟨p, n, m, hparse, hlocate, hm,
    finish_eq_ok_iff.2 ⟨⟨q, htext ▸ hreads⟩, htext.symm⟩⟩

/-- Where a copy is put: into the element an id means, or into the root. -/
def target? (p : Drawing) : Option String → Option Node
  | some id => p.locate? id
  | none => p.document.root?

theorem paste_eq_ok_iff {parent : Option String} {copy : Copied} :
    paste parent markup copy = .ok w ↔
      ∃ p n, Drawing.parse markup = .ok p ∧ target? p parent = some n ∧
        finish (p.document.insertCopy n.handle copy) = .ok w := by
  cases parent with
  | some id => exact resolve_bind_eq_ok_iff
  | none =>
    simp only [paste, bind_eq_ok_iff, load_eq_ok_iff]
    constructor
    · rintro ⟨p, hparse, h⟩
      split at h
      · next root hroot => exact ⟨p, root, hparse, hroot, h⟩
      · cases h
    · rintro ⟨p, n, hparse, hroot, h⟩
      refine ⟨p, hparse, ?_⟩
      rw [show p.document.root? = some n from hroot]
      exact h

theorem copy?_eq_some_iff {c : Copied} :
    copy? markup id = some c ↔
      ∃ p n, Drawing.parse markup = .ok p ∧ p.locate? id = some n ∧ c = .ofNode n := by
  rw [copy?]
  constructor
  · intro h
    split at h
    · next d n hresolve =>
      obtain ⟨p, hparse, hlocate, -⟩ := resolve_eq_ok_iff.1 hresolve
      exact ⟨p, n, hparse, hlocate, (Option.some.inj h).symm⟩
    · cases h
  · rintro ⟨p, n, hparse, hlocate, rfl⟩
    rw [resolve_eq_ok_iff.2 ⟨p, hparse, hlocate, rfl⟩]

/-! ## Rows of edits -/

variable {α : Type}

theorem orKeep_eq_or (markup : String) (result : Except EditError String) :
    orKeep markup result = markup ∨ result = .ok (orKeep markup result) := by
  cases result with
  | error cause => exact .inl rfl
  | ok w => exact .inr rfl

/-- **A row of edits keeps what each edit keeps**, where it may count which items have had their
turn. -/
theorem forEach_induction_turns {P : List α → String → Prop}
    {edit : String → α → Except EditError String} {items : List α}
    (hedit : ∀ done item rest current w, items = done ++ item :: rest → P done current →
      edit current item = .ok w → P (done ++ [item]) w)
    (hskip : ∀ done item rest current, items = done ++ item :: rest → P done current →
      P (done ++ [item]) current)
    {markup : String} (h : P [] markup) : P items (forEach edit markup items) := by
  have hrow : ∀ rest done current, items = done ++ rest → P done current →
      P items (forEach edit current rest) := by
    intro rest
    -- the induction is on the items still to come, whatever has come of those before
    induction rest with
    | nil =>
      intro done current hitems hdone
      rw [hitems, List.append_nil]
      exact hdone
    | cons item rest ih =>
      intro done current hitems hdone
      refine ih (done ++ [item]) (orKeep current (edit current item)) (by simp [hitems]) ?_
      rcases orKeep_eq_or current (edit current item) with heq | heq
      · rw [heq]
        exact hskip done item rest current hitems hdone
      · exact hedit done item rest current _ hitems hdone heq
  exact hrow items [] markup rfl h

/-- A row of edits keeps what each edit that succeeds keeps. -/
theorem forEach_induction {P : String → Prop} {edit : String → α → Except EditError String}
    {items : List α} (hedit : ∀ current item w, item ∈ items → P current →
      edit current item = .ok w → P w) {markup : String} (h : P markup) :
    P (forEach edit markup items) := by
  refine forEach_induction_turns (P := fun _ current ↦ P current) ?_ (fun _ _ _ _ _ h ↦ h) h
  rintro done item rest current w rfl hcurrent hw
  exact hedit current item w (List.mem_append_right _ List.mem_cons_self) hcurrent hw

/-- No edit of a text that cannot be read succeeds, so a row of them leaves it as it is. -/
theorem forEach_of_parse_error {edit : String → α → Except EditError String} {items : List α}
    (hreads : ∀ text item w, edit text item = .ok w → ∃ p, Drawing.parse text = .ok p)
    {markup : String} {cause : ParseError} (h : Drawing.parse markup = .error cause) :
    forEach edit markup items = markup := by
  refine forEach_induction (P := (· = markup)) ?_ rfl
  rintro _ item w - rfl hedit
  obtain ⟨p, hp⟩ := hreads _ item w hedit
  cases h.symm.trans hp

/-- Changing a number sets the property to a number or leaves the text as it is. -/
theorem adjust_eq_or (key : String) (op : BatchOp) (amount : Float) (markup id : String) :
    adjust key op amount markup id = markup ∨ ∃ x,
      setProperty markup id key (Quantity.text x) = .ok (adjust key op amount markup id) := by
  rw [adjust]
  split
  · exact .inl rfl
  · split
    · exact .inl rfl
    · simp only
      split
      · exact (orKeep_eq_or markup _).imp_right fun h ↦ ⟨_, h⟩
      · exact .inl rfl

/-- Changing a number on a row of elements keeps what setting the property keeps. -/
theorem adjustAll_induction {P : String → Prop} {key : String}
    (hedit : ∀ current id x w, P current →
      setProperty current id key (Quantity.text x) = .ok w → P w)
    {markup : String} (h : P markup) (ids : List String) (op : BatchOp) (amount : Float) :
    P (adjustAll ids key op amount markup) := by
  rw [adjustAll]
  split
  case isFalse => exact h
  induction ids generalizing markup with
  | nil => exact h
  | cons id ids ih =>
    refine ih ?_
    show P (adjust key op amount markup id)
    rcases adjust_eq_or key op amount markup id with heq | ⟨x, heq⟩
    · rwa [heq]
    · exact hedit markup id x _ h heq

end SvgWorkbench.Edit
