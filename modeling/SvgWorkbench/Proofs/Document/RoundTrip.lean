import SvgWorkbench.Drawing
import SvgWorkbench.Proofs.Document.Handle
import SvgWorkbench.Proofs.Markup.RoundTrip

/-!
# Documents are read back as they are written

A document made of elements and texts only, with one element at its top level, is read back from its
text. Nothing is lost but the boundaries between neighbouring texts and the texts that are empty.
-/

namespace SvgWorkbench

/-! ## Documents of elements and texts -/

namespace Markup

mutual

/-- Whether a node and what is inside are elements and texts, with names of XML, distinct keys, and
no tabs and no line breaks in attribute values. Texts may be any. -/
def IsPlain : Tree Content → Prop
  | .node (.element e) ts => e.IsLegal ∧ e.IsUnbroken ∧ ArePlain ts
  | .node (.text _) _ => True
  | .node _ _ => False

/-- Whether the nodes of a forest and what is inside are elements and texts. -/
def ArePlain : List (Tree Content) → Prop
  | [] => True
  | t :: ts => IsPlain t ∧ ArePlain ts

end

mutual

theorem IsPlain.isWritable {t : Tree Content} (h : IsPlain t) (top : Bool) : IsWritable top t := by
  match t, h with
  | .node (.element e) ts, h => exact ⟨h.1, ArePlain.areWritable h.2.2 false⟩
  | .node (.text s) ts, _ => exact trivial

theorem ArePlain.areWritable {ts : List (Tree Content)} (h : ArePlain ts) (top : Bool) :
    AreWritable top ts := by
  match ts, h with
  | [], _ => exact trivial
  | t :: ts, h => exact ⟨IsPlain.isWritable h.1 top, ArePlain.areWritable h.2 top⟩

end

mutual

/-- Spacing changes no value without tabs and line breaks, and settling drops what is below texts. -/
theorem IsPlain.settled_spaced {t : Tree Content} (h : IsPlain t) :
    settled (t.map Content.spaced) = settled t := by
  match t, h with
  | .node (.element e) ts, h =>
    rw [Tree.map, Content.spaced_element, h.2.1.spaced_eq, settled, settled,
      ArePlain.settledAll_spaced h.2.2]
  | .node (.text s) ts, _ => rfl

theorem ArePlain.settledAll_spaced {ts : List (Tree Content)} (h : ArePlain ts) (before : String) :
    settledAll before (Tree.mapAll Content.spaced ts) = settledAll before ts := by
  match ts, h with
  | [], _ => rfl
  | .node (.text s) us :: ts, h =>
    rw [settledAll_spaced_text, settledAll_text, ArePlain.settledAll_spaced h.2]
  | .node (.element e) us :: ts, h =>
    rw [settledAll_spaced_cons rfl, settledAll_cons rfl, IsPlain.settled_spaced h.1,
      ArePlain.settledAll_spaced h.2]

end

end Markup

/-! ## Reading undoes writing -/

namespace Document

/-- **A plain document is read back.** Its text is read without a fault, and the document read has
the same tree, up to texts that stand next to each other and texts that are empty. -/
theorem read_text_of_isPlain {d : Document} {root : Tree Content} (hroot : d.markup = [root])
    (helement : root.label.isElement = true) (hplain : Markup.IsPlain root) :
    ∃ d', read d.text = .ok d' ∧ d'.markup = [Markup.settled root] := by
  obtain ⟨c, ts⟩ := root
  cases c <;> simp [Content.isElement, Content.element?] at helement
  next e =>
  have hwritable : Markup.AreWritable true d.markup := by
    rw [hroot]
    exact ⟨hplain.isWritable true, trivial⟩
  have hbom : (Markup.writeNodes d.markup).head? ≠ some '\uFEFF' := by
    have hhead := Markup.head?_writeNode (t := .node (.element e) ts) rfl (Markup.writeNodes [])
    rw [hroot, Markup.writeNodes, hhead]
    decide
  have hread := Markup.read_write hwritable hbom
  rw [hroot, Markup.settledAll_spaced_cons rfl, hplain.settled_spaced] at hread
  refine ⟨ofMarkup [Markup.settled (.node (.element e) ts)], ?_, markup_ofMarkup _⟩
  rw [read, text, hroot, hread]
  rfl

/-- Three texts in a row come back as one, and an element around an empty text comes back empty. -/
theorem read_text_of_neighbouring_texts :
    ∃ d', read (ofMarkup [.node (.element ⟨"svg", [("xmlns:a", "<&>")]⟩)
        [.node (.text "x") [], .node (.text "") [], .node (.text "]]>") [],
          .node (.element ⟨"g", [("id", "a\"b")]⟩) [.node (.text "") []]]]).text = .ok d' ∧
      d'.markup = [.node (.element ⟨"svg", [("xmlns:a", "<&>")]⟩)
        [.node (.text "x]]>") [], .node (.element ⟨"g", [("id", "a\"b")]⟩) []]] := by
  have hplain : Markup.IsPlain (.node (.element ⟨"svg", [("xmlns:a", "<&>")]⟩)
      [.node (.text "x") [], .node (.text "") [], .node (.text "]]>") [],
        .node (.element ⟨"g", [("id", "a\"b")]⟩) [.node (.text "") []]]) :=
    ⟨by decide, by decide, trivial, trivial, trivial,
      ⟨by decide, by decide, trivial, trivial⟩, trivial⟩
  exact read_text_of_isPlain (markup_ofMarkup _) rfl hplain

end Document

end SvgWorkbench
