import SvgWorkbench.Markup.Reader
import SvgWorkbench.Proofs.Markup.Name
import SvgWorkbench.Proofs.Text.Split

/-!
# Tags are read back as they are written

A tag is cut at the first greater-than sign outside quotes, and its inside is taken apart at spaces,
equals signs and quotes. Where the inside is made of names of XML and values between quotes, the cut
falls behind it and every attribute is found, whatever spaces stand between the parts.

A written tag is of this form: escaped values hold no quote. Declared entities do not matter for it,
since escapes refer to predefined names only.
-/

namespace SvgWorkbench.Markup

open Text Xml

/-! ## Cutting a tag -/

/-- Outside quotes a cut passes over what is neither a quote nor a greater-than sign. -/
theorem cutTagBody_append {cs : List Char} (h : ∀ c ∈ cs, c ≠ '>' ∧ c ≠ '"' ∧ c ≠ '\x27')
    (ds : List Char) :
    cutTagBody none (cs ++ ds) = (cutTagBody none ds).map fun p ↦ (cs ++ p.1, p.2) := by
  induction cs with
  | nil => simp
  | cons c cs ih =>
    obtain ⟨hgt, hq, ha⟩ := h c List.mem_cons_self
    rw [List.cons_append, cutTagBody, if_neg (by simp [hgt])]
    simp only [hq, ha, or_self, if_false]
    rw [ih fun x hx ↦ h x (List.mem_cons_of_mem c hx), Option.map_map]
    rfl

/-- Inside quotes a cut passes over everything up to the closing quote. -/
theorem cutTagBody_quoted {q : Char} {cs : List Char} (h : ∀ c ∈ cs, c ≠ q) (ds : List Char) :
    cutTagBody (some q) (cs ++ q :: ds)
      = (cutTagBody none ds).map fun p ↦ (cs ++ q :: p.1, p.2) := by
  induction cs with
  | nil =>
    rw [List.nil_append, cutTagBody, if_neg (by simp)]
    simp
  | cons c cs ih =>
    have hc : c ≠ q := h c List.mem_cons_self
    rw [List.cons_append, cutTagBody, if_neg (by simp)]
    simp only [hc, if_false]
    rw [ih fun x hx ↦ h x (List.mem_cons_of_mem c hx), Option.map_map]
    rfl

/-- A quoted value is passed over as a whole. -/
theorem cutTagBody_value {q : Char} (hq : q = '"' ∨ q = '\x27') {cs : List Char}
    (h : ∀ c ∈ cs, c ≠ q) (ds : List Char) :
    cutTagBody none (q :: cs ++ q :: ds)
      = (cutTagBody none ds).map fun p ↦ (q :: cs ++ q :: p.1, p.2) := by
  have hgt : q ≠ '>' := by rcases hq with rfl | rfl <;> decide
  rw [List.cons_append, cutTagBody, if_neg (by simp [hgt])]
  simp only [hq, if_true]
  rw [cutTagBody_quoted h, Option.map_map]
  rfl

/-! ## The inside of a tag -/

/-- The text between a tag name and the end of the tag, with the names of its attributes and the
texts between their quotes. -/
inductive TagParts : List Char → List (List Char × List Char) → Prop where
  /-- Nothing but spaces. -/
  | nil {spaces : List Char} (hspaces : ∀ c ∈ spaces, isSpace c = true) : TagParts spaces []
  /-- An attribute with spaces before it and perhaps around its equals sign. -/
  | cons {spaces key before after value more : List Char} {quote : Char}
    {parts : List (List Char × List Char)}
    (hspaces : ∀ c ∈ spaces, isSpace c = true) (hne : spaces ≠ []) (hkey : IsName key)
    (hbefore : ∀ c ∈ before, isSpace c = true) (hafter : ∀ c ∈ after, isSpace c = true)
    (hquote : quote = '"' ∨ quote = '\x27') (hvalue : quote ∉ value) (hmore : TagParts more parts) :
    TagParts (spaces ++ key ++ before ++ '=' :: (after ++ quote :: (value ++ quote :: more)))
      ((key, value) :: parts)

namespace TagParts

variable {body : List Char} {parts : List (List Char × List Char)}

theorem isName (h : TagParts body parts) : ∀ part ∈ parts, IsName part.1 := by
  induction h with
  | nil hspaces => simp
  | cons _ _ hkey _ _ _ _ _ ih => exact List.forall_mem_cons.2 ⟨hkey, ih⟩

/-- Every attribute has an equals sign. -/
theorem length_le_count (h : TagParts body parts) : parts.length ≤ body.count '=' := by
  induction h with
  | nil => exact Nat.zero_le _
  | cons _ _ _ _ _ _ _ _ ih =>
    simp only [List.length_cons, List.count_append, List.count_cons, beq_self_eq_true, if_true]
    omega

/-- The values stand in the text. -/
theorem isInfix_value (h : TagParts body parts) : ∀ part ∈ parts, part.2 <:+: body := by
  induction h with
  | nil hspaces => exact List.forall_mem_nil _
  | @cons spaces key before after value more quote parts hspaces hne hkey hbefore hafter hquote
      hvalue hmore ih =>
    refine List.forall_mem_cons.2 ⟨⟨spaces ++ key ++ before ++ '=' :: (after ++ [quote]),
      quote :: more, by simp⟩, fun part hpart ↦ (ih part hpart).trans ?_⟩
    exact ⟨spaces ++ key ++ before ++ '=' :: (after ++ quote :: (value ++ [quote])), [], by simp⟩

/-- After a tag name the inside starts with a space, if there is any. -/
theorem takeWhile_append (h : TagParts body parts) {key : List Char} (hkey : IsName key) :
    (key ++ body).takeWhile (!isSpace ·) = key := by
  have hkey' : ∀ c ∈ key, (!isSpace c) = true := fun c hc ↦ by simp [hkey.not_isSpace c hc]
  rw [List.takeWhile_append_of_pos hkey']
  cases h with
  | nil hspaces =>
    cases body with
    | nil => simp
    | cons b body =>
      rw [List.takeWhile_cons_of_neg (by simp [hspaces b List.mem_cons_self]), List.append_nil]
  | cons hspaces hne =>
    obtain ⟨b, spaces, rfl⟩ := List.exists_cons_of_ne_nil hne
    simp only [List.cons_append]
    rw [List.takeWhile_cons_of_neg (by simp [hspaces b List.mem_cons_self]), List.append_nil]

/-- The inside of a tag is passed over as a whole when the end of the tag is looked for. -/
theorem cutTagBody_append (h : TagParts body parts) (ds : List Char) :
    cutTagBody none (body ++ ds) = (cutTagBody none ds).map fun p ↦ (body ++ p.1, p.2) := by
  have hplain : ∀ {cs : List Char}, (∀ c ∈ cs, isSpace c = true) →
      ∀ c ∈ cs, c ≠ '>' ∧ c ≠ '"' ∧ c ≠ '\x27' := by
    intro cs hcs c hc
    rcases isSpace_cases (hcs c hc) with rfl | rfl | rfl | rfl <;> decide
  induction h with
  | nil hspaces => exact Markup.cutTagBody_append (hplain hspaces) ds
  | @cons spaces key before after value more quote parts hspaces hne hkey hbefore hafter hquote
      hvalue hmore ih =>
    have hfront : ∀ c ∈ spaces ++ key ++ before ++ '=' :: after,
        c ≠ '>' ∧ c ≠ '"' ∧ c ≠ '\x27' := by
      intro c hc
      simp only [List.mem_append, List.mem_cons] at hc
      rcases hc with ((hc | hc) | hc) | rfl | hc
      · exact hplain hspaces c hc
      · exact ⟨hkey.ne rfl c hc, hkey.ne rfl c hc, hkey.ne rfl c hc⟩
      · exact hplain hbefore c hc
      · decide
      · exact hplain hafter c hc
    have hsplit : ∀ xs, spaces ++ key ++ before ++ '=' :: (after ++ quote :: (value ++ quote :: more))
        ++ xs = (spaces ++ key ++ before ++ '=' :: after) ++
          (quote :: value ++ quote :: (more ++ xs)) := by
      intro xs
      simp
    rw [hsplit, Markup.cutTagBody_append hfront,
      cutTagBody_value hquote fun c hc heq ↦ hvalue (heq ▸ hc), ih, Option.map_map,
      Option.map_map]
    refine congrArg (Option.map · (cutTagBody none ds)) (funext fun p ↦ ?_)
    simp

/-- The inside of a tag does not end in a slash. -/
theorem getLast?_ne (h : TagParts body parts) : body.getLast? ≠ some '/' := by
  induction h with
  | nil hspaces =>
    intro hlast
    exact notMem_spaces hspaces rfl (List.mem_of_getLast? hlast)
  | @cons spaces key before after value more quote parts hspaces hne hkey hbefore hafter hquote
      hvalue hmore ih =>
    have hsplit : spaces ++ key ++ before ++ '=' :: (after ++ quote :: (value ++ quote :: more))
        = (spaces ++ key ++ before ++ '=' :: (after ++ quote :: value)) ++ [quote] ++ more := by
      simp
    rw [hsplit, List.getLast?_append, List.getLast?_concat]
    cases hlast : more.getLast? with
    | none => rcases hquote with rfl | rfl <;> simp
    | some x => simpa [hlast] using ih

end TagParts

/-! ## Reading the inside of a tag -/

/-- An attribute whose parts are there is read if its name is new and the references in its value
can be resolved. -/
private theorem readAttributes_attribute (entities : Entities) (seen : List (List Char × Nat))
    (offset : Nat) {cs tail afterEquals value rest : List Char} {k q x : Char}
    (hkey : skipSpaces cs = k :: tail)
    (hequals : skipSpaces (tail.dropWhile fun c ↦ c != '=' && !isSpace c) = '=' :: afterEquals)
    (hquote : skipSpaces afterEquals = q :: value) (hq : q = '"' ∨ q = '\x27')
    (hclose : value.dropWhile (· ≠ q) = x :: rest) :
    ∃ start after, ∀ as, readAttributes entities seen offset cs = .ok as ↔
      (∀ p ∈ seen, p.1 ≠ k :: tail.takeWhile fun c ↦ c != '=' && !isSpace c) ∧
      ∃ text others, unescape entities 0 (spaced (value.takeWhile (· ≠ q))) = .ok text ∧
        readAttributes entities ((k :: tail.takeWhile fun c ↦ c != '=' && !isSpace c, start) :: seen)
          after rest = .ok others ∧
        (String.ofList (k :: tail.takeWhile fun c ↦ c != '=' && !isSpace c),
          String.ofList text) :: others = as := by
  refine ⟨offset + Text.octets (cs.takeWhile isSpace), ?_⟩
  rw [readAttributes.eq_def]
  split
  · next heq => rw [hkey] at heq; cases heq
  next k' tail' heq =>
  rw [hkey] at heq
  cases heq
  dsimp only
  split
  case h_2 hne => exact absurd hequals (hne afterEquals)
  next afterEquals' heq =>
  rw [hequals] at heq
  cases heq
  split
  · next p earlier hseen =>
    refine ⟨0, fun as ↦ ⟨by rintro ⟨⟩, ?_⟩⟩
    rintro ⟨hnew, -⟩
    have hsame := List.find?_some hseen
    exact absurd (beq_iff_eq.1 hsame) (hnew _ (List.mem_of_find?_eq_some hseen))
  next hnew =>
  have hnew' : ∀ p ∈ seen, p.1 ≠ k :: tail.takeWhile fun c ↦ c != '=' && !isSpace c := by
    simpa [List.find?_eq_none] using hnew
  split
  · next heq => rw [hquote] at heq; cases heq
  next q' value' heq =>
  rw [hquote] at heq
  cases heq
  rw [if_neg (by rcases hq with rfl | rfl <;> simp)]
  split
  · next heq => rw [hclose] at heq; cases heq
  next rest' heq =>
  rw [hclose] at heq
  cases heq
  cases unescape entities 0 (spaced (value.takeWhile (· ≠ q))) with
  | error fault => exact ⟨0, fun as ↦ ⟨by rintro ⟨⟩, by rintro ⟨-, text, others, ⟨⟩, -⟩⟩⟩
  | ok text =>
    dsimp only
    generalize offset + _ + _ + _ + _ + _ + _ + _ = after
    refine ⟨after, fun as ↦ ⟨fun hread ↦ ⟨hnew', text, ?_⟩, ?_⟩⟩
    · simp only [bind, Except.bind, pure, Except.pure] at hread
      split at hread
      · cases hread
      · next others hothers => exact ⟨others, rfl, hothers, Except.ok.inj hread⟩
    · rintro ⟨-, text', others, ⟨⟩, hothers, rfl⟩
      rw [hothers]
      rfl

/-- **An attribute is read** if its name is new and the references in its value can be resolved,
whatever follows it. -/
theorem readAttributes_part (entities : Entities) (seen : List (List Char × Nat)) (offset : Nat)
    {spaces key before after value : List Char} {quote : Char}
    (hspaces : ∀ c ∈ spaces, isSpace c = true) (hkey : IsName key)
    (hbefore : ∀ c ∈ before, isSpace c = true) (hafter : ∀ c ∈ after, isSpace c = true)
    (hquote : quote = '"' ∨ quote = '\x27') (hvalue : quote ∉ value) (more : List Char) :
    ∃ start place, ∀ as, readAttributes entities seen offset
        (spaces ++ key ++ before ++ '=' :: (after ++ quote :: (value ++ quote :: more))) = .ok as ↔
      (∀ p ∈ seen, p.1 ≠ key) ∧
        ∃ text others, unescape entities 0 (spaced value) = .ok text ∧
          readAttributes entities ((key, start) :: seen) place more = .ok others ∧
          (String.ofList key, String.ofList text) :: others = as := by
  obtain ⟨k, letters, rfl, -, -⟩ := id hkey
  have hletters : ∀ c ∈ letters, (c != '=' && !isSpace c) = true := by
    intro c hc
    have hequals := hkey.ne (x := '=') rfl c (List.mem_cons_of_mem k hc)
    simp [hequals, hkey.not_isSpace c (List.mem_cons_of_mem k hc)]
  have hvalue' : ∀ c ∈ value, decide (c ≠ quote) = true :=
    fun c hc ↦ decide_eq_true fun heq ↦ hvalue (heq ▸ hc)
  -- the name ends at the first space or, without one, at the equals sign
  obtain ⟨x, xs, hx, hx'⟩ : ∃ x xs, before ++ '=' :: (after ++ quote :: (value ++ quote :: more))
      = x :: xs ∧ (x != '=' && !isSpace x) = false := by
    cases before with
    | nil => exact ⟨'=', _, rfl, rfl⟩
    | cons b before => exact ⟨b, _, rfl, by simp [hbefore b List.mem_cons_self]⟩
  have htake := takeWhile_until hletters hx' xs
  have hdrop := dropWhile_until hletters hx' xs
  rw [← hx] at htake hdrop
  have hskip : skipSpaces (spaces ++ (k :: letters) ++ before ++
      '=' :: (after ++ quote :: (value ++ quote :: more)))
      = k :: (letters ++ (before ++ '=' :: (after ++ quote :: (value ++ quote :: more)))) := by
    rw [skipSpaces, List.append_assoc, List.append_assoc, List.cons_append]
    exact dropWhile_until hspaces (hkey.not_isSpace k List.mem_cons_self) _
  have hquote' : isSpace quote = false := by rcases hquote with rfl | rfl <;> rfl
  obtain ⟨start, place, hiff⟩ := readAttributes_attribute entities seen offset hskip
    (by rw [hdrop, skipSpaces]; exact dropWhile_until hbefore rfl _)
    (dropWhile_until hafter hquote' _) hquote (dropWhile_until hvalue' (by simp) more)
  rw [htake, takeWhile_until hvalue' (by simp)] at hiff
  exact ⟨start, place, hiff⟩

/-- Nothing is read of spaces. -/
private theorem readAttributes_spaces (entities : Entities) (seen : List (List Char × Nat))
    (offset : Nat) {spaces : List Char} (hspaces : ∀ c ∈ spaces, isSpace c = true) :
    readAttributes entities seen offset spaces = .ok [] := by
  have hskip : skipSpaces spaces = [] := by
    rw [skipSpaces, ← List.append_nil spaces, List.dropWhile_append_of_pos hspaces]
    rfl
  rw [readAttributes.eq_def]
  split
  · rfl
  · next heq =>
    rw [hskip] at heq
    cases heq

namespace TagParts

variable {body : List Char} {parts : List (List Char × List Char)}

/-- Whether attributes are what the parts of a tag are read as: they have their names, and their
values with the references resolved. -/
def Yields (entities : Entities) (parts : List (List Char × List Char))
    (as : List (String × String)) : Prop :=
  parts.map (fun part ↦ (part.1, unescape entities 0 (spaced part.2)))
    = as.map fun a ↦ (a.1.toList, .ok a.2.toList)

/-- **The attributes of a tag are read** if no two have the same name and the references in the
values can be resolved. -/
theorem readAttributes_eq_ok_iff (h : TagParts body parts) {entities : Entities}
    {seen : List (List Char × Nat)} {offset : Nat} {as : List (String × String)} :
    readAttributes entities seen offset body = .ok as ↔
      ((∀ p ∈ seen, ∀ part ∈ parts, p.1 ≠ part.1) ∧ (parts.map Prod.fst).Nodup) ∧
        Yields entities parts as := by
  induction h generalizing seen offset as with
  | @nil spaces hspaces =>
    rw [readAttributes_spaces entities seen offset hspaces]
    constructor
    · rintro ⟨⟩
      exact ⟨⟨fun _ _ ↦ List.forall_mem_nil _, List.nodup_nil⟩, rfl⟩
    · rintro ⟨-, hyields⟩
      rw [List.map_eq_nil_iff.1 hyields.symm]
  | @cons spaces key before after value more quote parts hspaces hne hkey hbefore hafter hquote
      hvalue hmore ih =>
    obtain ⟨start, place, hiff⟩ := readAttributes_part entities seen offset hspaces hkey hbefore hafter
      hquote hvalue more
    rw [hiff, List.map_cons, List.nodup_cons]
    constructor
    · rintro ⟨hnew, text, others, htext, hothers, rfl⟩
      obtain ⟨⟨hseen, hnodup⟩, hyields⟩ := ih.1 hothers
      obtain ⟨hkey', hseen⟩ := List.forall_mem_cons.1 hseen
      refine ⟨⟨fun p hp part hpart ↦ ?_, fun hmem ↦ ?_, hnodup⟩, ?_⟩
      · rcases List.mem_cons.1 hpart with rfl | hpart
        · exact hnew p hp
        · exact hseen p hp part hpart
      · obtain ⟨part, hpart, heq⟩ := List.mem_map.1 hmem
        exact hkey' part hpart heq.symm
      · rw [Yields, List.map_cons, List.map_cons, hyields, htext, String.toList_ofList,
          String.toList_ofList]
    · rintro ⟨⟨hseen, hfresh, hnodup⟩, hyields⟩
      cases as with
      | nil => cases hyields
      | cons a others =>
        obtain ⟨ha, hyields⟩ := List.cons.inj hyields
        obtain ⟨hname, htext⟩ := Prod.mk.inj ha
        refine ⟨fun p hp ↦ hseen p hp _ List.mem_cons_self, a.2.toList, others, htext,
          ih.2 ⟨⟨List.forall_mem_cons.2 ⟨fun part hpart heq ↦ ?_, fun p hp part hpart ↦ ?_⟩, hnodup⟩,
            hyields⟩, ?_⟩
        · exact hfresh (List.mem_map.2 ⟨part, hpart, heq.symm⟩)
        · exact hseen p hp part (List.mem_cons_of_mem _ hpart)
        · exact congrArg (· :: others) (Prod.ext
            ((congrArg String.ofList hname).trans String.ofList_toList) String.ofList_toList)

/-- **A tag is read** as an element with its name and its attributes. -/
theorem readElement_eq_ok_iff (h : TagParts body parts) {key : List Char} (hkey : IsName key)
    {entities : Entities} {e : Element} :
    readElement entities (key ++ body) = .ok e ↔ e.name = String.ofList key ∧
      (parts.map Prod.fst).Nodup ∧ Yields entities parts e.attributes := by
  rw [readElement, tagName, h.takeWhile_append hkey, List.drop_left]
  have hiff : ∀ as, readAttributes entities [] (octets key) body = .ok as ↔
      (parts.map Prod.fst).Nodup ∧ Yields entities parts as := by
    intro as
    rw [h.readAttributes_eq_ok_iff]
    simp
  rw [← hiff]
  cases readAttributes entities [] (octets key) body with
  | error cause => exact ⟨nofun, nofun⟩
  | ok as =>
    obtain ⟨name, attributes⟩ := e
    show Except.ok (Element.mk _ _) = _ ↔ _
    simp [eq_comm]

end TagParts

/-! ## Written tags -/

theorem quote_notMem_escape (cs : List Char) : '"' ∉ escape cs :=
  fun h ↦ ne_of_mem_escape h rfl (by decide) rfl

/-- Written attributes are the inside of a tag, together with what follows them. -/
theorem tagParts_append {as : List (String × String)} (h : ∀ a ∈ as, IsName a.1.toList)
    {more : List Char} {parts : List (List Char × List Char)} (hmore : TagParts more parts) :
    TagParts (as.flatMap writeAttribute ++ more)
      (as.map (fun a ↦ (a.1.toList, escape a.2.toList)) ++ parts) := by
  induction as with
  | nil => exact hmore
  | cons a as ih =>
    obtain ⟨ha, has⟩ := List.forall_mem_cons.1 h
    have hparts : TagParts ([' '] ++ a.1.toList ++ [] ++ '=' :: ([] ++ '"' :: (escape a.2.toList ++
        '"' :: (as.flatMap writeAttribute ++ more))))
        ((a.1.toList, escape a.2.toList) ::
          (as.map (fun a ↦ (a.1.toList, escape a.2.toList)) ++ parts)) :=
      .cons (by simp [isSpace]) (List.cons_ne_nil _ _) ha nofun nofun (.inl rfl)
        (quote_notMem_escape _) (ih has)
    simpa [writeAttribute] using hparts

theorem tagParts_writeAttributes {as : List (String × String)} (h : ∀ a ∈ as, IsName a.1.toList) :
    TagParts (as.flatMap writeAttribute) (as.map fun a ↦ (a.1.toList, escape a.2.toList)) := by
  have hparts := tagParts_append h (.nil (List.forall_mem_nil _))
  rwa [List.append_nil, List.append_nil] at hparts

/-- A written tag is a name of XML and the inside of a tag. -/
theorem tagParts_of_hasXmlNames {e : Element} (h : e.HasXmlNames) :
    TagParts (e.attributes.flatMap writeAttribute)
      (e.attributes.map fun a ↦ (a.1.toList, escape a.2.toList)) :=
  tagParts_writeAttributes fun a ha ↦ h.2 a.1 (List.mem_map_of_mem ha)

/-- **A written tag is read back** as the same element, with the breaks of its values turned into
spaces. -/
theorem readElement_writeTag (entities : Entities) {e : Element} (h : e.IsLegal) :
    readElement entities (writeTag e) = .ok e.spaced := by
  refine (TagParts.readElement_eq_ok_iff (tagParts_of_hasXmlNames h.names) h.names.1).2
    ⟨(String.ofList_toList).symm, ?_, ?_⟩
  · rw [List.map_map]
    have hnodup : e.attributes.Pairwise fun a b ↦ a.1 ≠ b.1 := List.pairwise_map.1 h.nodup
    exact List.pairwise_map.2 (hnodup.imp fun hne heq ↦ hne (String.toList_injective heq))
  · rw [TagParts.Yields, Element.spaced, List.map_map, List.map_map]
    refine List.map_congr_left fun a _ ↦ ?_
    simp [unescape_spaced_escape]

end SvgWorkbench.Markup
