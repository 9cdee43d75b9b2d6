import SvgWorkbench.Proofs.Tree.Rel
import SvgWorkbench.Proofs.Tree.Subtrees

/-!
# Places in a forest

An edit changes a forest at one place and leaves the rest as it is. A *context* is a forest with a
gap: the trees before the gap and after it and, for a gap further down, what stands around it on
every level. The forest before an edit and the one after it are the same context with different
trees in its gap, so what an edit leaves alone is said by naming one context twice.
-/

namespace SvgWorkbench.Tree

universe u v

variable {α : Type u} {β : Type v}

/-! ## Labels that stay -/

mutual

theorem map_eq_self {f : α → α} {t : Tree α} (h : ∀ a ∈ t.preorder, f a = a) : t.map f = t := by
  match t with
  | .node a ts =>
    rw [preorder, List.forall_mem_cons] at h
    rw [Tree.map, h.1, mapAll_eq_self h.2]

theorem mapAll_eq_self {f : α → α} {ts : List (Tree α)} (h : ∀ a ∈ preorderAll ts, f a = a) :
    mapAll f ts = ts := by
  match ts with
  | [] => rfl
  | t :: ts =>
    rw [preorderAll, List.forall_mem_append] at h
    rw [mapAll, map_eq_self h.1, mapAll_eq_self h.2]

end

/-- Labels that are related to nothing but themselves make a forest that is. -/
theorem RelAll.eq_of_forall {R : α → α → Prop} {ts us : List (Tree α)} (h : RelAll R ts us)
    (hsame : ∀ a ∈ preorderAll ts, ∀ b, R a b → b = a) : us = ts :=
  (h.imp (S := fun a b ↦ b = id a) hsame).eq_mapAll.trans (mapAll_eq_self fun _ _ ↦ rfl)

/-! ## Contexts -/

/-- A forest with a gap. -/
inductive Context (α : Type u) where
  /-- A gap between the trees of the forest. -/
  | here (left right : List (Tree α))
  /-- A gap somewhere below a tree that has trees before it and after it. -/
  | inside (left : List (Tree α)) (a : α) (below : Context α) (right : List (Tree α))

namespace Context

variable {c : Context α} {ts : List (Tree α)} {a : α}

/-- The forest with some trees in the gap. -/
def plug : Context α → List (Tree α) → List (Tree α)
  | here left right, ts => left ++ ts ++ right
  | inside left a below right, ts => left ++ .node a (below.plug ts) :: right

/-- A context with another one in its gap. -/
def comp : Context α → Context α → Context α
  | here left right, here left' right' => here (left ++ left') (right' ++ right)
  | here left right, inside left' a below right' => inside (left ++ left') a below (right' ++ right)
  | inside left a below right, inner => inside left a (below.comp inner) right

/-- The gap between children of a tree that stands in the gap of a context. -/
def under (c : Context α) (a : α) (left right : List (Tree α)) : Context α :=
  c.comp (inside [] a (here left right) [])

/-- The labels around the gap, from the outermost to the next. -/
def path : Context α → List α
  | here _ _ => []
  | inside _ a below _ => a :: below.path

/-- The context of the same shape with each label changed. -/
def map (f : α → β) : Context α → Context β
  | here left right => here (mapAll f left) (mapAll f right)
  | inside left a below right => inside (mapAll f left) (f a) (below.map f) (mapAll f right)

@[simp] theorem plug_here (left right ts : List (Tree α)) :
    (here left right).plug ts = left ++ ts ++ right := rfl

@[simp] theorem plug_inside (left : List (Tree α)) (a : α) (c : Context α)
    (right ts : List (Tree α)) :
    (inside left a c right).plug ts = left ++ .node a (c.plug ts) :: right := rfl

/-- What is put into the gap of a gap is put into the gap between. -/
@[simp] theorem plug_comp (c d : Context α) (ts : List (Tree α)) :
    (c.comp d).plug ts = c.plug (d.plug ts) := by
  induction c with
  | here left right => cases d <;> simp [comp]
  | inside left a below right ih => simp [comp, ih]

@[simp] theorem plug_under (c : Context α) (a : α) (left right ts : List (Tree α)) :
    (c.under a left right).plug ts = c.plug [.node a (left ++ ts ++ right)] := by
  simp [under]

@[simp] theorem path_comp (c d : Context α) : (c.comp d).path = c.path ++ d.path := by
  induction c with
  | here left right => cases d <;> rfl
  | inside left a below right ih => rw [comp, path, ih, path, List.cons_append]

/-! ### Labels -/

private theorem mapAll_append (f : α → β) (ts us : List (Tree α)) :
    mapAll f (ts ++ us) = mapAll f ts ++ mapAll f us := by
  simp only [mapAll_eq_map, List.map_append]

@[simp] theorem map_comp (f : α → β) (c d : Context α) :
    (c.comp d).map f = (c.map f).comp (d.map f) := by
  induction c with
  | here left right => cases d <;> simp [comp, map, mapAll_append]
  | inside left a below right ih => simp [comp, map, ih]

@[simp] theorem path_map (f : α → β) (c : Context α) : (c.map f).path = c.path.map f := by
  induction c with
  | here left right => rfl
  | inside left a below right ih => rw [map, path, ih, path, List.map_cons]

@[simp] theorem mapAll_plug (f : α → β) (c : Context α) (ts : List (Tree α)) :
    mapAll f (c.plug ts) = (c.map f).plug (mapAll f ts) := by
  induction c with
  | here left right => simp [map, mapAll_append]
  | inside left a below right ih => simp [map, mapAll_append, mapAll, Tree.map, ih]

/-- A gap in a forest whose labels have been changed is a gap in the forest. -/
theorem exists_of_mapAll_eq_plug {f : α → β} {c : Context β} {us : List (Tree β)}
    (h : mapAll f ts = c.plug us) :
    ∃ (d : Context α) (vs : List (Tree α)), ts = d.plug vs ∧ d.map f = c ∧ mapAll f vs = us := by
  induction c generalizing ts with
  | here left right =>
    rw [mapAll_eq_map, plug_here] at h
    obtain ⟨ts, ts₃, rfl, hfront, rfl⟩ := List.map_eq_append_iff.1 h
    obtain ⟨ts₁, ts₂, rfl, rfl, rfl⟩ := List.map_eq_append_iff.1 hfront
    exact ⟨here ts₁ ts₃, ts₂, rfl, by simp only [map, mapAll_eq_map], mapAll_eq_map f ts₂⟩
  | inside left b below right ih =>
    rw [mapAll_eq_map, plug_inside] at h
    obtain ⟨ts₁, ts₂, rfl, rfl, hrest⟩ := List.map_eq_append_iff.1 h
    obtain ⟨⟨a, vs⟩, ts₃, rfl, hnode, rfl⟩ := List.map_eq_cons_iff.1 hrest
    rw [Tree.map, Tree.node.injEq] at hnode
    obtain ⟨rfl, hbelow⟩ := hnode
    obtain ⟨d, ws, rfl, rfl, rfl⟩ := ih hbelow
    exact ⟨inside ts₁ a d ts₃, ws, rfl, by simp only [map, mapAll_eq_map], rfl⟩

theorem perm_preorderAll_plug (c : Context α) (ts : List (Tree α)) :
    (preorderAll (c.plug ts)).Perm (preorderAll (c.plug []) ++ preorderAll ts) := by
  induction c with
  | here left right =>
    simp only [plug_here, preorderAll_eq_flatMap, List.flatMap_append, List.append_assoc,
      List.nil_append]
    exact List.perm_append_comm.append_left _
  | inside left a below right ih =>
    simp only [preorderAll_eq_flatMap] at ih ⊢
    simp only [plug_inside, List.flatMap_append, List.flatMap_cons, preorder,
      preorderAll_eq_flatMap, List.append_assoc, List.cons_append]
    refine List.Perm.append_left _ (List.Perm.cons a ?_)
    refine (ih.append_right _).trans ?_
    rw [List.append_assoc]
    exact List.perm_append_comm.append_left _

/-- The labels of a forest are those around the gap and those in the gap. -/
theorem mem_preorderAll_plug :
    a ∈ preorderAll (c.plug ts) ↔ a ∈ preorderAll (c.plug []) ∨ a ∈ preorderAll ts := by
  rw [(perm_preorderAll_plug c ts).mem_iff, List.mem_append]

theorem forall_preorderAll_plug {P : α → Prop} : (∀ a ∈ preorderAll (c.plug ts), P a) ↔
    (∀ a ∈ preorderAll (c.plug []), P a) ∧ ∀ a ∈ preorderAll ts, P a := by
  rw [← List.forall_mem_append]
  exact forall_congr' fun a ↦ by rw [(perm_preorderAll_plug c ts).mem_iff]

/-- Changes that leave the labels around a gap leave the context. -/
theorem map_of_forall {f : α → α} (h : ∀ a ∈ preorderAll (c.plug []), f a = a) : c.map f = c := by
  induction c with
  | here left right =>
    simp only [plug_here, List.append_nil, preorderAll_eq_flatMap, List.flatMap_append,
      List.forall_mem_append] at h
    rw [map, mapAll_eq_self (by rw [preorderAll_eq_flatMap]; exact h.1),
      mapAll_eq_self (by rw [preorderAll_eq_flatMap]; exact h.2)]
  | inside left a below right ih =>
    simp only [plug_inside, preorderAll_eq_flatMap, List.flatMap_append, List.flatMap_cons, preorder,
      List.forall_mem_append, List.forall_mem_cons] at h ih
    rw [map, h.2.1.1, ih h.2.1.2, mapAll_eq_self (by rw [preorderAll_eq_flatMap]; exact h.1),
      mapAll_eq_self (by rw [preorderAll_eq_flatMap]; exact h.2.2)]

/-! ### Subtrees -/

theorem subset_subtreesAll_plug (c : Context α) (ts : List (Tree α)) :
    subtreesAll ts ⊆ subtreesAll (c.plug ts) := by
  induction c with
  | here left right =>
    intro t ht
    simp only [plug_here, subtreesAll_append, List.mem_append]
    exact .inl (.inr ht)
  | inside left a below right ih =>
    intro t ht
    rw [plug_inside, subtreesAll_append, subtreesAll, subtrees]
    exact List.mem_append_right _ (List.mem_cons_of_mem _ (List.mem_append_left _ (ih ht)))

theorem mem_subtreesAll_plug (c : Context α) (t : Tree α) : t ∈ subtreesAll (c.plug [t]) :=
  subset_subtreesAll_plug c [t] (mem_subtreesAll_of_mem (List.mem_singleton_self t))

end Context

/-! ## Related forests -/

/-- **A forest that is related to one with a gap, where the labels around the gap are related to
nothing but themselves**, differs from it in the gap alone. -/
theorem RelAll.exists_of_plug {R : α → α → Prop} {c : Context α} {ts us : List (Tree α)}
    (h : RelAll R (c.plug ts) us) (hsame : ∀ a ∈ preorderAll (c.plug []), ∀ b, R a b → b = a) :
    ∃ vs, us = c.plug vs ∧ RelAll R ts vs := by
  induction c generalizing us with
  | here left right =>
    simp only [Context.plug_here, List.append_nil, preorderAll_eq_flatMap, List.flatMap_append,
      List.forall_mem_append] at hsame
    simp only [← preorderAll_eq_flatMap] at hsame
    obtain ⟨us, us₃, rfl, hfront, h₃⟩ := RelAll.exists_of_append h
    obtain ⟨us₁, us₂, rfl, h₁, h₂⟩ := hfront.exists_of_append
    obtain rfl := h₁.eq_of_forall hsame.1
    obtain rfl := h₃.eq_of_forall hsame.2
    exact ⟨us₂, rfl, h₂⟩
  | inside left a below right ih =>
    simp only [Context.plug_inside, preorderAll_eq_flatMap, List.flatMap_append, List.flatMap_cons,
      preorder, List.forall_mem_append, List.forall_mem_cons] at hsame
    simp only [← preorderAll_eq_flatMap] at hsame
    obtain ⟨us₁, us, rfl, h₁, hrest⟩ := RelAll.exists_of_append h
    obtain rfl := h₁.eq_of_forall hsame.1
    match us, hrest with
    | .node b vs :: us₃, ⟨⟨hlabel, hbelow⟩, h₃⟩ =>
      obtain rfl := hsame.2.1.1 b hlabel
      obtain rfl := h₃.eq_of_forall hsame.2.2
      obtain ⟨ws, rfl, hws⟩ := ih hbelow hsame.2.1.2
      exact ⟨ws, rfl, hws⟩

end SvgWorkbench.Tree
