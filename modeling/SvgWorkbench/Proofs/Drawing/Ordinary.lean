import SvgWorkbench.Proofs.Drawing.Reparse
import SvgWorkbench.Proofs.Gate.FollowDocument

/-!
# Ordinary markup

Markup without document types whose names are names of XML can be written and read again, and so can
what an edit makes of it. Which keys attributes may have is left open: a session in which certain
keys are never used does not have them in any of its documents.
-/

namespace SvgWorkbench

open Xml Markup SvgWorkbench.Tree

/-! ## Ordinary content -/

/-- Which keys attributes may have: names of XML, and those that edits set by themselves. -/
structure KeyRule (legal : String → Prop) : Prop where
  /-- Keys are names of XML. -/
  isName : ∀ k, legal k → IsName k.toList
  /-- An id may be given. -/
  id : legal "id"
  /-- A style may be set. -/
  style : legal "style"

variable {legal : String → Prop}

namespace Element

/-- Whether an element has a name of XML and legal keys, of which no two are the same. -/
structure IsOrdinary (legal : String → Prop) (e : Element) : Prop where
  /-- The tag name is a name of XML. -/
  isName : IsName e.name.toList
  /-- No attribute occurs twice. -/
  nodup : e.keys.Nodup
  /-- The keys are legal. -/
  keys : ∀ k ∈ e.keys, legal k

theorem IsOrdinary.isLegal (rule : KeyRule legal) {e : Element} (h : e.IsOrdinary legal) :
    e.IsLegal := ⟨⟨h.isName, fun k hk ↦ rule.isName k (h.keys k hk)⟩, h.nodup⟩

theorem IsOrdinary.set {e : Element} (h : e.IsOrdinary legal) {key : String} (hkey : legal key)
    (value : String) : (e.set key value).IsOrdinary legal := by
  refine ⟨h.isName, nodup_keys_set h.nodup key value, fun k hk ↦ ?_⟩
  rw [keys_set] at hk
  split at hk
  · exact h.keys k hk
  · rcases List.mem_append.1 hk with hk | hk
    · exact h.keys k hk
    · rwa [List.mem_singleton.1 hk]

theorem keys_erase (e : Element) (key : String) : (e.erase key).keys = e.keys.erase key := by
  rw [erase, keys, keys, List.erase_eq_eraseP', List.eraseP_map]
  rfl

theorem IsOrdinary.erase {e : Element} (h : e.IsOrdinary legal) (key : String) :
    (e.erase key).IsOrdinary legal := by
  refine ⟨h.isName, ?_, fun k hk ↦ ?_⟩
  · rw [keys_erase]
    exact h.nodup.erase key
  · rw [keys_erase] at hk
    exact h.keys k (List.mem_of_mem_erase hk)

theorem IsOrdinary.spaced {e : Element} (h : e.IsOrdinary legal) : e.spaced.IsOrdinary legal :=
  ⟨h.isName, by rw [keys_spaced]; exact h.nodup, by rw [keys_spaced]; exact h.keys⟩

end Element

/-- Whether content is an ordinary element, or something else than a document type that can be
written. -/
def Content.IsOrdinary (legal : String → Prop) : Content → Prop
  | .element e => e.IsOrdinary legal
  | .text _ => True
  | .comment s => IsComment s.toList
  | .instruction s => IsInstruction s.toList
  | .doctype _ => False

theorem Content.IsOrdinary.isNamed (rule : KeyRule legal) {c : Content} (h : c.IsOrdinary legal) :
    c.IsNamed := by
  cases c with
  | element e => exact (Element.IsOrdinary.isLegal rule h).names
  | doctype s => exact h.elim
  | _ => exact trivial

theorem Content.IsOrdinary.spaced {c : Content} (h : c.IsOrdinary legal) :
    c.spaced.IsOrdinary legal := by
  cases c with
  | element e => exact Element.IsOrdinary.spaced h
  | _ => exact h

namespace Markup

/-- Whether everything in some markup is ordinary. -/
def IsOrdinary (legal : String → Prop) (m : Markup) : Prop :=
  ∀ c ∈ preorderAll m, c.IsOrdinary legal

mutual

theorem isWritable_of_isOrdinary (rule : KeyRule legal) {t : Tree Content}
    (h : ∀ c ∈ t.preorder, c.IsOrdinary legal) (top : Bool) : IsWritable top t := by
  match t with
  | .node c ts =>
    rw [preorder, List.forall_mem_cons] at h
    cases c with
    | element e => exact ⟨Element.IsOrdinary.isLegal rule h.1, IsOrdinary.areWritable rule h.2 false⟩
    | text s => exact trivial
    | comment s => exact h.1
    | instruction s => exact h.1
    | doctype s => exact h.1.elim

/-- Ordinary markup can be written and read again. -/
theorem IsOrdinary.areWritable (rule : KeyRule legal) {m : Markup} (h : m.IsOrdinary legal)
    (top : Bool) : AreWritable top m := by
  match m with
  | [] => exact trivial
  | t :: ts =>
    rw [IsOrdinary, preorderAll, List.forall_mem_append] at h
    exact ⟨isWritable_of_isOrdinary rule h.1 top, IsOrdinary.areWritable rule h.2 top⟩

end

/-! ## Texts that were read -/

mutual

private theorem IsRead.isOrdinary {top : Bool} {t : Tree Content} (h : IsRead top t)
    (hstrict : ∀ c ∈ t.preorder, c.IsStrict ∧ ∀ text, c ≠ .doctype text)
    (hkeys : ∀ e, .element e ∈ t.preorder → ∀ k ∈ e.keys, legal k) :
    ∀ c ∈ t.preorder, c.IsOrdinary legal := by
  match t with
  | .node c ts =>
    rw [preorder, List.forall_mem_cons] at hstrict ⊢
    cases c with
    | element e =>
      refine ⟨⟨hstrict.1.1.1.1, h.1, hkeys e List.mem_cons_self⟩, ?_⟩
      exact AreRead.isOrdinary h.2 hstrict.2 fun e' he' ↦ hkeys e' (List.mem_cons_of_mem _ he')
    | text s => obtain rfl : ts = [] := h; exact ⟨trivial, nofun⟩
    | comment s => obtain ⟨hs, rfl⟩ := h; exact ⟨hs, nofun⟩
    | instruction s => obtain ⟨hs, rfl⟩ := h; exact ⟨hs, nofun⟩
    | doctype s => exact absurd rfl (hstrict.1.2 s)

private theorem AreRead.isOrdinary {top : Bool} {ts : List (Tree Content)} (h : AreRead top ts)
    (hstrict : ∀ c ∈ preorderAll ts, c.IsStrict ∧ ∀ text, c ≠ .doctype text)
    (hkeys : ∀ e, .element e ∈ preorderAll ts → ∀ k ∈ e.keys, legal k) :
    IsOrdinary legal ts := by
  match ts with
  | [] => exact nofun
  | t :: ts =>
    rw [preorderAll, List.forall_mem_append] at hstrict
    rw [IsOrdinary, preorderAll, List.forall_mem_append]
    exact ⟨IsRead.isOrdinary h.1 hstrict.1 fun e he ↦ hkeys e (List.mem_append_left _ he),
      AreRead.isOrdinary h.2 hstrict.2 fun e he ↦ hkeys e (List.mem_append_right _ he)⟩

end

/-- What is read in a text that the check lets through is ordinary, if no document type is read and
the keys that are names of XML are legal. -/
theorem isOrdinary_of_check {s : String} {m : Markup} (hcheck : Gate.check s = .ok ())
    (hread : read s = .ok m) (hdoctype : ∀ text, .doctype text ∉ preorderAll m)
    (hkeys : ∀ e, .element e ∈ preorderAll m → ∀ k ∈ e.keys, IsName k.toList → legal k) :
    m.IsOrdinary legal := by
  have hstrict := Gate.isStrict_of_check hcheck hread (Gate.hasPlainDoctype_of_read hread hdoctype)
  refine (areRead_of_read hread).isOrdinary (fun c hc ↦ ⟨hstrict c hc, ?_⟩)
    fun e he k hk ↦ hkeys e he k hk ?_
  · rintro text rfl
    exact hdoctype text hc
  · exact (hstrict _ he).1.2 k hk

/-! ## Settling and ids -/

theorem IsOrdinary.of_relAll (rule : KeyRule legal) {good : String → Prop} {m m' : Markup}
    (hrel : RelAll (Drawing.IdGiven good) m m') (h : m.IsOrdinary legal) : m'.IsOrdinary legal := by
  refine hrel.forall_preorderAll (fun c c' hgiven hc ↦ ?_) h
  cases hgiven with
  | same => exact hc
  | given => exact Element.IsOrdinary.set hc rule.id _

private theorem forall_preorderAll_textNodes {P : Content → Prop} (htext : ∀ s, P (.text s))
    (s : String) : ∀ c ∈ preorderAll (textNodes s), P c := by
  rw [textNodes]
  split
  · exact nofun
  · simpa [preorderAll, preorder] using htext s

mutual

private theorem forall_preorder_settled {P : Content → Prop} (htext : ∀ s, P (.text s))
    {t : Tree Content} (h : ∀ c ∈ t.preorder, P c) : ∀ c ∈ (settled t).preorder, P c := by
  match t with
  | .node c ts =>
    rw [preorder, List.forall_mem_cons] at h
    cases c with
    | element e =>
      exact List.forall_mem_cons.2 ⟨h.1, forall_preorderAll_settledAll htext h.2 ""⟩
    | _ => exact List.forall_mem_cons.2 ⟨h.1, nofun⟩

/-- What holds of all texts and of everything in some markup holds once the markup is settled. -/
theorem forall_preorderAll_settledAll {P : Content → Prop} (htext : ∀ s, P (.text s))
    {ts : List (Tree Content)} (h : ∀ c ∈ preorderAll ts, P c) (before : String) :
    ∀ c ∈ preorderAll (settledAll before ts), P c := by
  match ts with
  | [] =>
    rw [settledAll_nil]
    exact forall_preorderAll_textNodes htext before
  | .node c us :: ts =>
    rw [preorderAll, List.forall_mem_append] at h
    cases hc : c.text? with
    | some s =>
      obtain rfl := Content.eq_text_of_text? hc
      rw [settledAll_text]
      exact forall_preorderAll_settledAll htext h.2 _
    | none =>
      rw [settledAll_cons hc, preorderAll_append, List.forall_mem_append, preorderAll,
        List.forall_mem_append]
      exact ⟨forall_preorderAll_textNodes htext before, forall_preorder_settled htext h.1,
        forall_preorderAll_settledAll htext h.2 ""⟩

end

/-- What comes back when ordinary markup is written and read is ordinary. -/
theorem IsOrdinary.settledAll {m : Markup} (h : m.IsOrdinary legal) :
    IsOrdinary legal (settledAll "" (mapAll Content.spaced m)) := by
  refine forall_preorderAll_settledAll (fun _ ↦ trivial) (fun c hc ↦ ?_) ""
  rw [preorderAll_mapAll, List.mem_map] at hc
  obtain ⟨c, hc, rfl⟩ := hc
  exact (h c hc).spaced

theorem isUnbroken_settledAll (m : Markup) :
    ∀ c ∈ preorderAll (Markup.settledAll "" (mapAll Content.spaced m)), c.IsUnbroken := by
  refine forall_preorderAll_settledAll (fun _ ↦ trivial) (fun c hc ↦ ?_) ""
  rw [preorderAll_mapAll, List.mem_map] at hc
  obtain ⟨c, -, rfl⟩ := hc
  cases c with
  | element e => exact e.isUnbroken_spaced
  | _ => exact trivial

/-! ## Elements stay where they are -/

mutual

private theorem element_mem_settled {top : Bool} {t : Tree Content} (h : IsRead top t) {e : Element}
    (he : .element e ∈ t.preorder) : .element e ∈ (settled t).preorder := by
  match t with
  | .node c ts =>
    rcases c.eq_element_or with ⟨e', rfl⟩ | hc
    · rw [settled, preorder]
      rcases List.mem_cons.1 he with heq | he
      · exact List.mem_cons.2 (.inl heq)
      · exact List.mem_cons_of_mem _ (element_mem_settledAll h.2 he "")
    · obtain rfl := h.eq_nil hc
      obtain rfl := List.mem_singleton.1 he
      cases hc

/-- Settling loses no element of markup that was read. -/
theorem element_mem_settledAll {top : Bool} {ts : List (Tree Content)} (h : AreRead top ts)
    {e : Element} (he : .element e ∈ preorderAll ts) (before : String) :
    .element e ∈ preorderAll (Markup.settledAll before ts) := by
  match ts with
  | [] => cases he
  | .node c us :: ts =>
    rw [preorderAll, List.mem_append] at he
    cases hc : c.text? with
    | some s =>
      obtain rfl := Content.eq_text_of_text? hc
      rw [settledAll_text]
      -- a text has nothing below it, so no element is lost when it is joined
      refine element_mem_settledAll h.2 (he.resolve_left fun hmem ↦ ?_) _
      obtain rfl : us = [] := h.1
      cases List.mem_singleton.1 hmem
    | none =>
      rw [settledAll_cons hc, preorderAll_append, List.mem_append, preorderAll, List.mem_append]
      exact .inr (he.imp (element_mem_settled h.1) fun he ↦ element_mem_settledAll h.2 he "")

end

mutual

private theorem IsRead.map_spaced {top : Bool} {t : Tree Content} (h : IsRead top t) :
    IsRead top (t.map Content.spaced) := by
  match t, h with
  | .node (.element e) ts, h =>
    exact ⟨by rw [Element.keys_spaced]; exact h.1, AreRead.mapAll_spaced h.2⟩
  | .node (.text s) _, rfl => exact rfl
  | .node (.comment s) _, ⟨h, rfl⟩ => exact ⟨h, rfl⟩
  | .node (.instruction s) _, ⟨h, rfl⟩ => exact ⟨h, rfl⟩
  | .node (.doctype s) _, ⟨htop, h, rfl⟩ => exact ⟨htop, h, rfl⟩

private theorem AreRead.mapAll_spaced {top : Bool} {ts : List (Tree Content)}
    (h : AreRead top ts) : AreRead top (mapAll Content.spaced ts) := by
  match ts with
  | [] => exact trivial
  | t :: ts => exact ⟨IsRead.map_spaced h.1, AreRead.mapAll_spaced h.2⟩

end

/-- Nor does writing and reading lose one, but line breaks in its values become spaces. -/
theorem element_spaced_mem_settledAll {top : Bool} {ts : List (Tree Content)} (h : AreRead top ts)
    {e : Element} (he : .element e ∈ preorderAll ts) :
    .element e.spaced ∈ preorderAll (Markup.settledAll "" (mapAll Content.spaced ts)) := by
  refine element_mem_settledAll h.mapAll_spaced ?_ ""
  rw [preorderAll_mapAll]
  exact List.mem_map.2 ⟨.element e, he, rfl⟩

end Markup

end SvgWorkbench
