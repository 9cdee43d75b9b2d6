import SvgWorkbench.Markup.Reader

/-!
# The run of the reader

All that a token can do to what has been read is said once: it adds a leaf, opens an element, closes
one or adds a document type. A property that these four keep holds for a whole text, and one that
closing an element keeps still holds when everything is closed at the end.
-/

namespace SvgWorkbench.Markup

open Text

/-- Whether a token stands for a node without children, and for which one, when these entities are
declared. -/
inductive Token.IsLeaf (entities : Entities) : Token → Content → Prop
  | text {raw cs : List Char} (h : unescape entities 0 raw = .ok cs) :
      IsLeaf entities (.text raw) (.text (String.ofList cs))
  | element {body : List Char} {e : Element} (h : readElement entities body = .ok e) :
      IsLeaf entities (.emptyTag body) (.element e)
  | comment (cs : List Char) : IsLeaf entities (.comment cs) (.comment (String.ofList cs))
  | cdata (cs : List Char) : IsLeaf entities (.cdata cs) (.text (String.ofList cs))
  | instruction (cs : List Char) :
      IsLeaf entities (.instruction cs) (.instruction (String.ofList cs))

namespace Reading

/-- What one token makes of what has been read. -/
inductive Takes (r : Reading) : Token → Reading → Prop
  | leaf {token : Token} {c : Content} (h : token.IsLeaf r.entities c) : Takes r token (r.addLeaf c)
  | opened {body : List Char} {e : Element} (h : readElement r.entities body = .ok e) :
      Takes r (.openTag body) { r with opened := ⟨e, []⟩ :: r.opened }
  | closed : Takes r .closeTag r.close
  | doctype (cs : List Char) : Takes r (.doctype cs) (r.addDoctype cs)

/-- **All that a token can do.** -/
theorem step_eq_ok_iff {r r' : Reading} {token : Token} :
    r.step token = .ok r' ↔ r.Takes token r' := by
  constructor
  · intro h
    cases token with
    | text raw =>
      simp only [step] at h
      split at h <;> cases h
      next hraw => exact .leaf (.text hraw)
    | openTag body =>
      simp only [step, bind, Except.bind, pure, Except.pure] at h
      split at h <;> cases h
      next he => exact .opened he
    | emptyTag body =>
      simp only [step, bind, Except.bind, pure, Except.pure] at h
      split at h <;> cases h
      next he => exact .leaf (.element he)
    | closeTag => cases h; exact .closed
    | comment cs => cases h; exact .leaf (.comment cs)
    | cdata cs => cases h; exact .leaf (.cdata cs)
    | instruction cs => cases h; exact .leaf (.instruction cs)
    | doctype cs => cases h; exact .doctype cs
  · intro h
    cases h with
    | leaf h =>
      cases h with
      | text h => rw [step, h]
      | element h => rw [step, h]; rfl
      | comment | cdata | instruction => rfl
    | opened h => rw [step, h]; rfl
    | closed | doctype => rfl

/-- A property that every token keeps holds at the end of a text. -/
theorem readFrom_invariant {P : Reading → Prop}
    (hstep : ∀ {r r' : Reading} {offset : Nat} {cs : List Char} {x : Cut},
      cut r.innermost? offset cs = .ok x → r.Takes x.token r' → P r → P r')
    {r r' : Reading} {offset : Nat} {cs : List Char} (h : P r)
    (hread : readFrom r offset cs = .ok r') : P r' := by
  fun_induction readFrom r offset cs with
  | case1 => cases hread; exact h
  | case2 => cases hread; exact h
  | case3 => cases hread
  | case4 => cases hread
  | case5 r offset c rest hend x hcut r₁ hr₁ ih =>
    exact ih (hstep hcut (step_eq_ok_iff.1 hr₁) h) hread

/-! ### Closing everything -/

/-- A property that closing an element keeps still holds when several are closed. -/
theorem closeAll_invariant {P : Reading → Prop} (hclose : ∀ {r : Reading}, P r → P r.close)
    {r : Reading} (h : P r) (n : Nat) : P (r.closeAll n) := by
  induction n generalizing r with
  | zero => exact h
  | succ n ih => exact ih (hclose h)

theorem length_opened_close (r : Reading) : r.close.opened.length = r.opened.length - 1 := by
  unfold close
  split <;> simp_all

/-- Closing closes one element, if any is open. -/
theorem length_opened_closeAll (r : Reading) (n : Nat) :
    (r.closeAll n).opened.length = r.opened.length - n := by
  induction n generalizing r with
  | zero => rfl
  | succ n ih =>
    rw [closeAll, ih, length_opened_close]
    omega

/-- So nothing is open in the end. -/
theorem opened_closeAll_length (r : Reading) : (r.closeAll r.opened.length).opened = [] := by
  rw [← List.length_eq_zero_iff, length_opened_closeAll, Nat.sub_self]

end Reading

/-- A text is read from its start, without a byte order mark. -/
theorem read_eq_ok_iff {s : String} {m : Markup} :
    read s = .ok m ↔ ∃ r, readFrom {} 0 ((afterPrefix? ['\uFEFF'] s.toList).getD s.toList) = .ok r ∧
      r.markup = m := by
  rw [read]
  cases readFrom {} 0 ((afterPrefix? ['\uFEFF'] s.toList).getD s.toList) with
  | error => simp [Except.map]
  | ok r => simp [Except.map]

end SvgWorkbench.Markup
