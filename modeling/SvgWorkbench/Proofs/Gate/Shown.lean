import SvgWorkbench.Proofs.Gate.Declaration
import SvgWorkbench.Proofs.Gate.Piece
import SvgWorkbench.Proofs.Gate.Reference
import SvgWorkbench.Proofs.Gate.Written
import SvgWorkbench.Proofs.Markup.Found

/-!
# What the check shows of what is read

A tag that the check lets through is read as an element with the names and values that the check has
seen, if it is read at all. So everything the check has looked at is known of the element: its names
are names of XML, it does not have its id under two names, and its tag would be let through again
where it stands.

The last needs a proviso. A line break that a reference stands for is kept by the check and by the
reader, but it is a space when it has been written and read again. In the name of a namespace this
makes a difference.
-/

namespace SvgWorkbench

open Text Xml SvgWorkbench.Tree

/-- What the strict check makes sure of: an element has names of XML and values made of characters of
documents, it does not have its id under two names, and a document type is not empty. -/
def Content.IsStrict : Content → Prop
  | .element e => e.HasXmlNames ∧ e.IsClashFree ∧ e.HasDocumentValues
  | .doctype s => s ≠ ""
  | _ => True

theorem Content.IsStrict.isNamed {c : Content} (h : c.IsStrict) : c.IsNamed := by
  cases c with
  | element e => exact h.1
  | doctype s => exact h
  | _ => exact trivial

/-- Whether the names of namespaces have no tab, line feed or carriage return. -/
def Element.HasUnbrokenNamespaces (e : Element) : Prop :=
  ∀ a ∈ e.attributes, ∀ q, Gate.QName.ofChars? a.1.toList = some q → q.isPlain = false →
    Markup.Unbroken a.2.toList

namespace Gate

open Markup

/-! ## Plain texts -/

/-- Whether an XML declaration is complete at its first greater-than sign. -/
def HasPlainDeclaration (cs : List Char) : Prop :=
  Mark.declaration <+: cs → ∃ v rest, cs = ['<', '?', 'x', 'm', 'l'] ++ closed v rest ∧ '>' ∉ v ∧
    IsStrictDeclaration v

/-- Whether a text has nothing in it on which the check and the reader may disagree. -/
structure IsPlain (text : List Char) : Prop where
  /-- Numbers that refer to characters are short and refer to a character. -/
  references : ∀ body, '&' :: (body ++ [';']) <:+: text → IsShort body
  /-- Instructions hold no greater-than sign. -/
  instructions : ∀ s, ¬ Mark.closeInstruction <:+: s →
    Mark.openInstruction ++ (s ++ Mark.closeInstruction) <:+: text → '>' ∉ s
  /-- Names of elements do not start with a colon. -/
  names : ¬ ['<', ':'] <:+: text ∧ ¬ ['<', '/', ':'] <:+: text
  /-- No tag has an attribute twice. -/
  attributes : ∀ key body parts, IsName key → TagParts body parts →
    '<' :: (key ++ body) <:+: text → (parts.map Prod.fst).Nodup
  /-- The declaration is complete at its first greater-than sign. -/
  declaration : HasPlainDeclaration ((afterPrefix? ['\uFEFF'] text).getD text)

/-! ## Attributes -/

/-- Sorting the attributes comes to the same if tabs and line breaks in them are turned into spaces
and none of them is in the name of a namespace. -/
private theorem Sorted.Agrees.add_spaced {s t s' : Sorted} (h : s.Agrees t) {q : QName}
    {value : List Char} {place : Nat} (hs : s.add q value place = .ok s')
    (hvalue : q.isPlain = false → Unbroken value) :
    ∃ t', t.add q (spaced value) 0 = .ok t' ∧ s'.Agrees t' := by
  obtain ⟨t', ht', hagrees⟩ := h.add hs 0
  refine ⟨t', ?_, hagrees⟩
  cases hq : q.isPlain with
  | false => rw [(hvalue hq).spaced_eq, ht']
  | true => rw [Sorted.add_of_isPlain hq, ← ht', Sorted.add_of_isPlain hq]

/-- What is known of the attributes that are read of a tag whose attributes the check has sorted into
others. -/
structure ReadsSorted (plain : Prop) (parts : List (List Char × List Char)) (s sorted : Sorted)
    (bs : List (String × String)) : Prop where
  /-- Nothing else is read. -/
  only : ∀ cs, TagParts.Yields [] parts cs → cs = bs
  /-- They are read in a plain text. -/
  yields : plain → TagParts.Yields [] parts bs
  /-- Their values may stand in a document. -/
  chars : ∀ b ∈ bs, IsDocumentText b.2.toList
  /-- The check would sort them in the same way, if no line break is in the name of a namespace. -/
  sorts : ∃ pairs, bs.map attributeParts = pairs.map (fun p ↦ (some p.1, p.2)) ∧
    ((∀ b ∈ bs, ∀ q, QName.ofChars? b.1.toList = some q → q.isPlain = false →
        Unbroken b.2.toList) →
      ∀ t, s.Agrees t → ∃ t', t.addAll pairs = .ok t' ∧ sorted.Agrees t')

namespace ReadsSorted

variable {plain : Prop} {parts : List (List Char × List Char)} {s sorted : Sorted}

theorem nil (plain : Prop) (s : Sorted) : ReadsSorted plain [] s s [] where
  only _ hcs := List.map_eq_nil_iff.1 hcs.symm
  yields _ := rfl
  chars := List.forall_mem_nil _
  sorts := ⟨[], rfl, fun _ t ht ↦ ⟨t, rfl, ht⟩⟩

/-- One attribute more is read as the text that its value stands for. -/
theorem cons {s₁ : Sorted} {bs : List (String × String)} (h : ReadsSorted plain parts s₁ sorted bs)
    {part : List Char × List Char} {q : QName} {value : List Char} {place : Nat}
    (hadd : s.add q value place = .ok s₁) (hname : QName.ofChars? part.1 = some q)
    (hresolves : Resolves plain (spaced part.2) value) (hchars : IsDocumentText part.2) :
    ReadsSorted plain (part :: parts) s sorted
      ((String.ofList part.1, String.ofList value) :: bs) := by
  refine ⟨fun cs hcs ↦ ?_, fun hp ↦ ?_, List.forall_mem_cons.2 ⟨?_, h.chars⟩, ?_⟩
  · cases cs with
    | nil => cases hcs
    | cons c cs =>
      obtain ⟨hc, hcs⟩ := List.cons.inj hcs
      obtain ⟨hkey, htext⟩ := Prod.mk.inj hc
      have hvalue := (hresolves.unescape [] 0).1 c.2.toList htext
      rw [h.only cs hcs]
      refine congrArg (· :: bs) (Prod.ext ?_ ?_)
      · rw [hkey, String.ofList_toList]
      · rw [← hvalue, String.ofList_toList]
  · rw [TagParts.Yields, List.map_cons, List.map_cons, (hresolves.unescape [] 0).2 hp,
      String.toList_ofList, String.toList_ofList]
    exact congrArg (_ :: ·) (h.yields hp)
  · rw [String.toList_ofList]
    exact hresolves.forall_isDocumentChar hchars.spaced
  · obtain ⟨pairs, hpairs, hsorts⟩ := h.sorts
    refine ⟨(q, spaced value) :: pairs, ?_, fun hunbroken t hagrees ↦ ?_⟩
    · rw [List.map_cons, List.map_cons, hpairs, attributeParts, String.toList_ofList,
        String.toList_ofList, hname]
    · obtain ⟨hfirst, hunbroken⟩ := List.forall_mem_cons.1 hunbroken
      rw [String.toList_ofList, String.toList_ofList] at hfirst
      obtain ⟨t₁, hadd', hagrees'⟩ := hagrees.add_spaced hadd (hfirst q hname)
      obtain ⟨t', ht', hagrees'⟩ := hsorts hunbroken t₁ hagrees'
      exact ⟨t', bind_eq_ok_iff.2 ⟨t₁, hadd', ht'⟩, hagrees'⟩

end ReadsSorted

/-- **The attributes of a tag** that the check has sorted are read, if at all, with values that the
check would sort in the same way. -/
theorem exists_readsSorted {plain : Prop} {depth after references references' : Nat}
    {s sorted : Sorted} {as : List Attribute} {parts : List (List Char × List Char)}
    (h : sortAttributes [] depth false after s references as = .ok (sorted, references'))
    (hparts : parts.map (fun part ↦ (QName.ofChars? part.1, part.2))
      = as.map fun a ↦ (some a.qname, a.value))
    (hvalues : ∀ a ∈ as, IsDocumentText a.value)
    (hplain : plain → ∀ part ∈ parts, ∀ body, '&' :: (body ++ [';']) <:+: part.2 → IsShort body) :
    references' = references ∧ ∃ bs, ReadsSorted plain parts s sorted bs := by
  induction as generalizing parts s references with
  | nil =>
    cases h
    obtain rfl : parts = [] := List.map_eq_nil_iff.1 hparts
    exact ⟨rfl, [], .nil plain _⟩
  | cons a as ih =>
    cases parts with
    | nil => cases hparts
    | cons part parts =>
      rw [List.map_cons, List.map_cons, List.cons.injEq, Prod.mk.injEq] at hparts
      obtain ⟨⟨hname, hvalue⟩, hparts⟩ := hparts
      obtain ⟨hchars, hvalues⟩ := List.forall_mem_cons.1 hvalues
      simp only [sortAttributes, bind_eq_ok_iff, Prod.exists] at h
      obtain ⟨value, references₁, htext, s₁, hadd, hrest⟩ := h
      obtain ⟨rfl, hresolves⟩ := resolves_of_valueText htext fun hp ↦
        hvalue ▸ hplain hp part List.mem_cons_self
      obtain ⟨rfl, bs, hbs⟩ := ih hrest hparts hvalues
        fun hp part hpart ↦ hplain hp part (List.mem_cons_of_mem _ hpart)
      rw [← hvalue] at hresolves hchars
      exact ⟨rfl, _, hbs.cons hadd hname hresolves hchars⟩

theorem map_fst_sortAttributes {entities : List Entity} {depth : Nat} {nested : Bool} {after : Nat}
    {tag sorted : Sorted} {references references' : Nat} {as : List Attribute}
    (h : sortAttributes entities depth nested after tag references as = .ok (sorted, references')) :
    sorted.plain.map Prod.fst
      = tag.plain.map Prod.fst ++ (as.map (·.qname)).filter QName.isPlain := by
  induction as generalizing tag references with
  | nil =>
    cases h
    simp
  | cons a as ih =>
    simp only [sortAttributes, bind_eq_ok_iff, Prod.exists] at h
    obtain ⟨value, references₁, -, tag₁, hadd, hrest⟩ := h
    rw [ih hrest, Sorted.map_fst_add hadd, List.map_cons, List.append_assoc, ← List.filter_append]
    rfl

/-- In a tag that is let through no two attributes name an id. -/
private theorem count_idName_le {depth after references references' place : Nat} {sorted : Sorted}
    {as : List Attribute} {outer inner : List Binding} {q : QName}
    (h : sortAttributes [] depth false after {} references as = .ok (sorted, references'))
    (hclose : closeScope outer sorted q place = .ok inner) :
    (as.map (·.qname)).count idName ≤ 1 := by
  simp only [closeScope, Sorted.resolve, bind_eq_ok_iff] at hclose
  obtain ⟨_, ⟨⟨⟩, hnames, -⟩, -⟩ := hclose
  have hcount := (count_le_of_checkNames (show idName.space = [] from rfl) hnames).1
  rw [map_fst_sortAttributes h, List.count_append, List.count_filter (by decide)] at hcount
  omega

/-! ## Tags -/

/-- What is known of an element whose tag the check has let through in a scope. -/
structure Shows (outer : List Binding) (e : Element) (q : QName) (inner : List Binding) : Prop where
  /-- It has the name that the check has scanned. -/
  qname : QName.ofChars? e.name.toList = some q
  /-- It is as the check makes sure of. -/
  strict : (Content.element e).IsStrict
  /-- Its tag would be let through again, if no line break is in the name of a namespace. -/
  opens : e.HasUnbrokenNamespaces → Opens outer e q inner

/-- An element has the keys of the attributes that it is read of. -/
private theorem keys_of_yields {e : Element} {parts : List (List Char × List Char)}
    (h : TagParts.Yields [] parts e.attributes) :
    e.keys.map String.toList = parts.map Prod.fst := by
  have hfst := congrArg (List.map Prod.fst) h
  simpa [Element.keys, Function.comp_def] using hfst.symm

/-- They have the names that the check has scanned. -/
private theorem StartTag.IsWritten.names_eq {tag : StartTag} {key body : List Char}
    {parts : List (List Char × List Char)} (htag : tag.IsWritten key body parts) {e : Element}
    (hkeys : e.keys.map String.toList = parts.map Prod.fst) :
    e.keys.map (fun k ↦ QName.ofChars? k.toList) = (tag.attributes.map (·.qname)).map some := by
  have hscanned := congrArg (List.map Prod.fst) htag.attributes
  have hread := congrArg (List.map QName.ofChars?) hkeys
  rw [List.map_map, List.map_map] at hscanned hread
  rw [List.map_map]
  exact hread.trans hscanned

/-- **A tag that is let through** makes the element known that it is read as, and it is read if it
stands in a plain text. -/
theorem StartTag.IsWritten.shows {tag : StartTag} {key body : List Char}
    {parts : List (List Char × List Char)} (htag : tag.IsWritten key body parts) {ending : TagEnd}
    (hending : tag.ending = .ok ending) (hcut : ending ≠ .cut) {st st' : State}
    (hpending : st.pending = {}) {depth after : Nat}
    (h : st.readStartTag [] depth false after tag = .ok st') :
    ∃ inner, st' = { st with
        tagSeen := true, rooted := true,
        opened := if ending = .opened then ⟨tag.qname, inner⟩ :: st.opened else st.opened } ∧
      (∀ e, readElement [] (key ++ body) = .ok e →
        e.name = String.ofList key ∧ Shows st.scope e tag.qname inner) ∧
      (∀ text, IsPlain text → '<' :: (key ++ body) <:+: text →
        ∃ e, readElement [] (key ++ body) = .ok e) := by
  obtain ⟨hspace, sorted, references, hsorted, hend⟩ := State.readStartTag_eq_ok_iff.1 h
  rw [hpending] at hsorted
  have hplain : (∃ text, IsPlain text ∧ '<' :: (key ++ body) <:+: text) → ∀ part ∈ parts,
      ∀ body', '&' :: (body' ++ [';']) <:+: part.2 → IsShort body' := by
    rintro ⟨text, hp, hwithin⟩ part hpart body' hbody'
    have hbody : body <:+: '<' :: (key ++ body) := ⟨'<' :: key, [], by simp⟩
    exact hp.references body'
      (hbody'.trans ((htag.inside.isInfix_value part hpart).trans (hbody.trans hwithin)))
  obtain ⟨rfl, bs, hbs⟩ := exists_readsSorted hsorted htag.attributes htag.values hplain
  obtain ⟨inner, hclose, hst'⟩ : ∃ inner,
      closeScope st.scope sorted tag.qname (tag.start + after) = .ok inner ∧
      st' = { st with
        tagSeen := true, rooted := true,
        opened := if ending = .opened then ⟨tag.qname, inner⟩ :: st.opened else st.opened } := by
    rw [hending] at hend
    rcases hend with ⟨heq, -⟩ | ⟨inner, hclose, ⟨heq, rfl⟩ | ⟨heq, rfl⟩⟩
    · exact absurd (Except.ok.inj heq) hcut
    · obtain rfl := Except.ok.inj heq
      exact ⟨inner, hclose, by rw [hpending]; rfl⟩
    · obtain rfl := Except.ok.inj heq
      exact ⟨inner, hclose, by rw [hpending]; rfl⟩
  refine ⟨inner, hst', fun e he ↦ ?_, fun text hp hwithin ↦ ?_⟩
  · obtain ⟨hname, -, hyields⟩ := (htag.inside.readElement_eq_ok_iff htag.isName).1 he
    have hkeys := keys_of_yields hyields
    have hqname : QName.ofChars? e.name.toList = some tag.qname := by
      rw [hname, String.toList_ofList, htag.qname]
    obtain rfl := hbs.only _ hyields
    refine ⟨hname, hqname, ⟨⟨?_, fun k hk ↦ ?_⟩, ?_, hbs.chars⟩, fun hunbroken ↦ ?_⟩
    · rw [hname, String.toList_ofList]
      exact htag.isName
    · obtain ⟨part, hpart, heq⟩ := List.mem_map.1 (hkeys ▸ List.mem_map_of_mem hk)
      exact heq ▸ htag.inside.isName part hpart
    · exact isClashFree_of_count_le (htag.names_eq hkeys) (count_idName_le hsorted hclose)
    · obtain ⟨pairs, hpairs, hsorts⟩ := hbs.sorts
      obtain ⟨t', ht', hagrees⟩ := hsorts hunbroken {} (Sorted.Agrees.refl _)
      exact ⟨hqname, hspace, pairs, t', hpairs, ht', hagrees.closeScope hclose 0⟩
  · exact ⟨⟨String.ofList key, bs⟩, (htag.inside.readElement_eq_ok_iff htag.isName).2
      ⟨rfl, hp.attributes key body parts htag.isName htag.inside hwithin,
        hbs.yields ⟨text, hp, hwithin⟩⟩⟩

/-! ## Trees -/

/-- What is known of a node that has been read where some prefixes are declared. -/
structure Admits (scope : List Binding) (t : Tree Content) : Prop where
  /-- All in it is as the check makes sure of. -/
  strict : ∀ c ∈ t.preorder, c.IsStrict
  /-- It may stand there again, if no line break is in the name of a namespace. -/
  accepts : (∀ e, .element e ∈ t.preorder → e.HasUnbrokenNamespaces) → Accepts scope t

theorem acceptsAll_iff {scope : List Binding} {ts : List (Tree Content)} :
    AcceptsAll scope ts ↔ ∀ t ∈ ts, Accepts scope t := by
  induction ts with
  | nil => exact ⟨fun _ ↦ List.forall_mem_nil _, fun _ ↦ trivial⟩
  | cons t ts ih => rw [AcceptsAll, ih, List.forall_mem_cons]

theorem Admits.leaf {scope : List Binding} {c : Content} (hc : c.IsStrict)
    (h : Accepts scope (.node c [])) : Admits scope (.node c []) :=
  ⟨by simpa [preorder, preorderAll] using hc, fun _ ↦ h⟩

/-- **A node is known from its element and its children.** -/
theorem Admits.node {outer inner : List Binding} {e : Element} {q : QName}
    (h : Shows outer e q inner) {ts : List (Tree Content)} (hts : ∀ t ∈ ts, Admits inner t) :
    Admits outer (.node (.element e) ts) := by
  have hmem : ∀ {c t}, t ∈ ts → c ∈ t.preorder → c ∈ preorderAll ts := by
    intro c t ht hc
    rw [preorderAll_eq_flatMap]
    exact List.mem_flatMap.2 ⟨t, ht, hc⟩
  constructor
  · rw [preorder, preorderAll_eq_flatMap]
    refine List.forall_mem_cons.2 ⟨h.strict, fun c hc ↦ ?_⟩
    obtain ⟨t, ht, hc⟩ := List.mem_flatMap.1 hc
    exact (hts t ht).strict c hc
  · intro hunbroken
    refine ⟨h.strict.2.2, q, inner, h.opens (hunbroken e List.mem_cons_self), acceptsAll_iff.2 ?_⟩
    exact fun t ht ↦ (hts t ht).accepts
      fun e' he' ↦ hunbroken e' (List.mem_cons_of_mem _ (hmem ht he'))

end Gate

end SvgWorkbench
