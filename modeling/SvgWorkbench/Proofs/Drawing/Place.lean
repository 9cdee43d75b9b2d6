import SvgWorkbench.Proofs.Drawing.Settled
import SvgWorkbench.Proofs.Markup.Attribute
import SvgWorkbench.Proofs.Markup.RoundTrip
import SvgWorkbench.Proofs.Tree.Context

/-!
# Writing and reading at a place

What is written around a place does not depend on what stands there, and it is read up to the place
whatever stands there. So what an edit of one tag does to the text is seen in that tag: how it is
read decides how the text is read.
-/

namespace SvgWorkbench.Markup

open Text Xml SvgWorkbench.Tree

/-! ## Writing around a place -/

/-- What is written after the name and the attributes of an element. -/
def writeInside (name : String) : List (Tree Content) → List Char
  | [] => ['/', '>']
  | t :: ts => '>' :: (writeNodes (t :: ts) ++ (Mark.closeTag ++ (name.toList ++ ['>'])))

theorem writeNode_element (e : Element) (ts : List (Tree Content)) :
    writeNode (.node (.element e) ts) = '<' :: (writeTag e ++ writeInside e.name ts) := by
  cases ts <;> simp [writeNode, writeInside, writeNodes]

/-- What is written before a place below elements. -/
def writeBefore : Context Content → List Char
  | .inside left (.element e) below _ =>
    writeNodes left ++ '<' :: (writeTag e ++ '>' :: writeBefore below)
  | .inside left _ _ _ | .here left _ => writeNodes left

/-- What is written after a place below elements. -/
def writeAfter : Context Content → List Char
  | .inside _ (.element e) below right =>
    writeAfter below ++ (Mark.closeTag ++ (e.name.toList ++ '>' :: writeNodes right))
  | .inside _ _ _ right | .here _ right => writeNodes right

variable {c : Context Content} {t : Tree Content}

private theorem plug_ne_nil (c : Context Content) (t : Tree Content) :
    ∃ u us, c.plug [t] = u :: us := by
  refine List.exists_cons_of_ne_nil ?_
  cases c <;> simp

/-- **A place is written between what is written before it and after it.** -/
theorem writeNodes_plug (hpath : ∀ a ∈ c.path, Content.isElement a = true) (t : Tree Content) :
    writeNodes (c.plug [t]) = writeBefore c ++ (writeNode t ++ writeAfter c) := by
  induction c with
  | here left right => simp [writeNodes_append, writeNodes, writeBefore, writeAfter]
  | inside left a below right ih =>
    rw [Context.path, List.forall_mem_cons] at hpath
    obtain ⟨e, rfl⟩ := a.eq_element_or.resolve_right (ne_false_of_eq_true hpath.1)
    obtain ⟨u, us, hplug⟩ := plug_ne_nil below t
    have hinside := ih hpath.2
    rw [hplug] at hinside
    rw [Context.plug_inside, hplug, writeNodes_append, writeNodes, writeNode_element, writeInside,
      hinside, writeBefore, writeAfter]
    simp

theorem areWritable_of_plug (hpath : ∀ a ∈ c.path, Content.isElement a = true) {top : Bool}
    (h : AreWritable top (c.plug [t])) : ∃ top, IsWritable top t := by
  induction c generalizing top with
  | here left right =>
    rw [Context.plug_here, areWritable_append, areWritable_append] at h
    exact ⟨top, h.1.2.1⟩
  | inside left a below right ih =>
    rw [Context.path, List.forall_mem_cons] at hpath
    obtain ⟨e, rfl⟩ := a.eq_element_or.resolve_right (ne_false_of_eq_true hpath.1)
    rw [Context.plug_inside, areWritable_append] at h
    exact ih hpath.2 h.2.1.2

/-- **What is written before a place is read**, whatever tag stands at the place. -/
theorem exists_reads_writeBefore (hpath : ∀ a ∈ c.path, Content.isElement a = true) {top : Bool}
    (h : AreWritable top (c.plug [t])) (r : Reading) (hwaiting : r.waiting = [])
    (htop : top = true → r.opened = []) :
    ∃ r', ∀ rest, rest.head? = some '<' → Reads r (writeBefore c ++ rest) r' rest := by
  induction c generalizing top r with
  | here left right =>
    rw [Context.plug_here, areWritable_append, areWritable_append] at h
    obtain ⟨entities, hread⟩ := reads_writeNodes h.1.1 "" r hwaiting htop
    exact ⟨_, fun rest hrest ↦ hread rest (.inr hrest)⟩
  | inside left a below right ih =>
    rw [Context.path, List.forall_mem_cons] at hpath
    obtain ⟨e, rfl⟩ := a.eq_element_or.resolve_right (ne_false_of_eq_true hpath.1)
    rw [Context.plug_inside, areWritable_append] at h
    obtain ⟨hleft, ⟨he, hbelow⟩, -⟩ := h
    obtain ⟨entities, hread⟩ := reads_writeNodes hleft "" r hwaiting htop
    generalize hr : (r.addAll _).withEntities entities = r₁ at hread
    have hopen : ∀ rest, Reads r₁ ('<' :: (writeTag e ++ '>' :: rest))
        { r₁ with opened := ⟨e.spaced, []⟩ :: r₁.opened } rest := by
      intro rest
      refine reads_of_cuts (.openTag (writeTag e)) (List.cons_ne_nil _ _) ?_ ?_
      · simpa [writeTag] using
          cuts_openTag he.names.1 (tagParts_of_hasXmlNames he.names) r₁.innermost? rest
      · rw [Reading.step, readElement_writeTag r₁.entities he]
        rfl
    obtain ⟨r', hbefore⟩ := ih hpath.2 hbelow { r₁ with opened := ⟨e.spaced, []⟩ :: r₁.opened }
      (by rw [← hr]; simpa using hwaiting) fun htop ↦ absurd htop Bool.false_ne_true
    refine ⟨r', fun rest hrest ↦ ?_⟩
    have hall := (hread ('<' :: (writeTag e ++ '>' :: (writeBefore below ++ rest))) (.inr rfl)).trans
      ((hopen _).trans (hbefore rest hrest))
    simpa [writeBefore] using hall

/-- The first character is written before a place or is the bracket of the tag there. -/
private theorem head?_writeNodes_plug (hpath : ∀ a ∈ c.path, Content.isElement a = true)
    (e e' : Element) (us vs : List (Tree Content)) :
    (writeNodes (c.plug [.node (.element e) us])).head?
      = (writeNodes (c.plug [.node (.element e') vs])).head? := by
  rw [writeNodes_plug hpath, writeNodes_plug hpath, writeNode_element, writeNode_element]
  cases writeBefore c <;> rfl

/-! ## Attributes with strange names -/

variable {e : Element} {us : List (Tree Content)} {key : String}

/-- A tag with another attribute at its end. -/
private theorem writeTag_set (hkey : key ∉ e.keys) (value : String) : writeTag (e.set key value)
    = writeTag e ++ writeAttribute (key, value) := by
  rw [writeTag, Element.set, Element.setEntry_of_notMem hkey, List.flatMap_append, writeTag,
    List.append_assoc, List.flatMap_singleton]

/-- **A document with a strange name in a tag** is read with names that are no names of XML, unless
the name is a new one with spaces around it, or more than a name. -/
theorem exists_isPaddedNew_of_read (hpath : ∀ a ∈ c.path, Content.isElement a = true)
    (hwritable : AreWritable true (c.plug [.node (.element e) us]))
    (hbom : (writeNodes (c.plug [.node (.element e) us])).head? ≠ some '\uFEFF')
    (hkey : key ∉ e.keys) (hinside : ¬ BreaksOut key.toList) {value : String} {m : Markup}
    (h : read (write (c.plug [.node (.element (e.set key value)) us])) = .ok m) :
    ∃ e', .element e' ∈ preorderAll m ∧
      (e'.HasXmlNames → ∃ name, IsPaddedNew e name key.toList) := by
  obtain ⟨top, he, -⟩ := areWritable_of_plug hpath hwritable
  obtain ⟨r, hread, hmem⟩ := exists_of_read h
  rw [head?_writeNodes_plug hpath e (e.set key value) us us] at hbom
  rw [write_eq, String.toList_ofList, getD_afterPrefix?_of_head? hbom, writeNodes_plug hpath,
    writeNode_element, writeTag_set hkey] at hread
  obtain ⟨r', hbefore⟩ := exists_reads_writeBefore hpath hwritable {} rfl fun _ ↦ rfl
  obtain ⟨offset, hrest⟩ := hbefore ('<' :: _ ++ _) rfl 0
  rw [hrest] at hread
  simp only [writeAttribute, List.append_assoc, List.cons_append, List.nil_append] at hread
  obtain ⟨e', he', hnames⟩ := exists_isPaddedNew_of_readFrom he.names hinside hread
  exact ⟨e', (hmem _).2 he', hnames⟩

/-- Tags with the same parts are read in the same way, whatever spaces stand in them. -/
private theorem exists_reads_of_tagParts {name body body' : List Char}
    {parts : List (List Char × List Char)} (hname : IsName name) (h : TagParts body parts)
    (h' : TagParts body' parts) {r : Reading} {e : Element}
    (he : readElement r.entities (name ++ body) = .ok e) (word : String)
    (us : List (Tree Content)) (rest : List Char) :
    ∃ r' rest', Reads r ('<' :: (name ++ (body ++ (writeInside word us ++ rest)))) r' rest' ∧
      Reads r ('<' :: (name ++ (body' ++ (writeInside word us ++ rest)))) r' rest' := by
  have he' := (h'.readElement_eq_ok_iff hname).2 ((h.readElement_eq_ok_iff hname).1 he)
  cases us with
  | nil =>
    exact ⟨_, rest,
      reads_of_cuts (.emptyTag (name ++ body)) (List.cons_ne_nil _ _)
        (cuts_emptyTag hname h r.innermost? rest) (by rw [Reading.step, he]; rfl),
      reads_of_cuts (.emptyTag (name ++ body')) (List.cons_ne_nil _ _)
        (cuts_emptyTag hname h' r.innermost? rest) (by rw [Reading.step, he']; rfl)⟩
  | cons u us =>
    exact ⟨_, _,
      reads_of_cuts (.openTag (name ++ body)) (List.cons_ne_nil _ _)
        (cuts_openTag hname h r.innermost? _) (by rw [Reading.step, he]; rfl),
      reads_of_cuts (.openTag (name ++ body')) (List.cons_ne_nil _ _)
        (cuts_openTag hname h' r.innermost? _) (by rw [Reading.step, he']; rfl)⟩

/-- **A name with spaces around it is read as the name.** -/
theorem read_eq_of_isPadded (hpath : ∀ a ∈ c.path, Content.isElement a = true)
    {name : String} {value : String}
    (hwritable : AreWritable true (c.plug [.node (.element (e.set name value)) us]))
    (hbom : (writeNodes (c.plug [.node (.element (e.set name value)) us])).head? ≠ some '\uFEFF')
    (hname : name ∉ e.keys) (hkey : key ∉ e.keys) (hpadded : IsPadded name.toList key.toList) :
    read (write (c.plug [.node (.element (e.set key value)) us]))
      = .ok (settledAll ""
          (mapAll Content.spaced (c.plug [.node (.element (e.set name value)) us]))) := by
  have hwritten := read_write hwritable hbom
  obtain ⟨top, he, -⟩ := areWritable_of_plug hpath hwritable
  obtain ⟨r', hbefore⟩ := exists_reads_writeBefore hpath hwritable {} rfl fun _ ↦ rfl
  -- the parts of both tags are the same, since spaces are no parts
  have has : ∀ a ∈ e.attributes, IsName a.1.toList := fun a ha ↦
    he.names.2 a.1 (Element.mem_keys_set (List.mem_map_of_mem ha))
  have hisName := he.names.2 name (Element.mem_keys_set_self e name value)
  have hparts := tagParts_append has ((isPadded_self _).tagParts hisName value)
  have hparts' := tagParts_append has (hpadded.tagParts hisName value)
  have htag := readElement_writeTag r'.entities he
  rw [writeTag_set hname, writeTag, List.append_assoc] at htag
  obtain ⟨r'', rest, hread, hread'⟩ := exists_reads_of_tagParts he.names.1 hparts hparts' (r := r')
    htag e.name us (writeAfter c)
  have hall : Reads {} (writeNodes (c.plug [.node (.element (e.set name value)) us])) r'' rest := by
    rw [writeNodes_plug hpath, writeNode_element, writeTag_set hname]
    refine (hbefore ('<' :: _ ++ _) rfl).trans ?_
    simpa [writeTag] using hread
  have hall' : Reads {} (writeNodes (c.plug [.node (.element (e.set key value)) us])) r'' rest := by
    rw [writeNodes_plug hpath, writeNode_element, writeTag_set hkey]
    refine (hbefore ('<' :: _ ++ _) rfl).trans ?_
    simpa [writeTag] using hread'
  have hbom' := hbom
  rw [head?_writeNodes_plug hpath _ (e.set key value) us us] at hbom'
  obtain ⟨offset, hoffset⟩ := hall 0
  obtain ⟨offset', hoffset'⟩ := hall' 0
  rw [read, write_eq, String.toList_ofList, getD_afterPrefix?_of_head? hbom, hoffset,
    Gate.map_eq_ok_iff] at hwritten
  obtain ⟨s, hs, hmarkup⟩ := hwritten
  rw [read, write_eq, String.toList_ofList, getD_afterPrefix?_of_head? hbom', hoffset',
    readFrom_eq_ok hs offset', Except.map, hmarkup]

end SvgWorkbench.Markup
