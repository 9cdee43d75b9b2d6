import SvgWorkbench.Tree

/-!
# Trees of one shape

Giving out ids changes the labels of a document and nothing else. That two trees have the same shape
and labels that go together is a relation between trees, made from the relation between labels.
-/

namespace SvgWorkbench.Tree

universe u v w x

variable {α : Type u} {β : Type v} {γ : Type w} {δ : Type x} {R : α → β → Prop}

mutual

/-- Whether two trees have the same shape, with related labels at the same places. -/
def Rel (R : α → β → Prop) : Tree α → Tree β → Prop
  | .node a ts, .node b us => R a b ∧ RelAll R ts us

/-- Whether two forests have the same shape, with related labels at the same places. -/
def RelAll (R : α → β → Prop) : List (Tree α) → List (Tree β) → Prop
  | [], [] => True
  | t :: ts, u :: us => Rel R t u ∧ RelAll R ts us
  | _, _ => False

end

mutual

theorem rel_refl {R : α → α → Prop} (h : ∀ a, R a a) (t : Tree α) : Rel R t t := by
  match t with
  | .node a ts => exact ⟨h a, relAll_refl h ts⟩

theorem relAll_refl {R : α → α → Prop} (h : ∀ a, R a a) (ts : List (Tree α)) : RelAll R ts ts := by
  match ts with
  | [] => exact trivial
  | t :: ts => exact ⟨rel_refl h t, relAll_refl h ts⟩

end

/-- What is related to a forest in two parts has two parts. -/
theorem RelAll.exists_of_append {ts ts' : List (Tree α)} {us : List (Tree β)}
    (h : RelAll R (ts ++ ts') us) :
    ∃ vs vs', us = vs ++ vs' ∧ RelAll R ts vs ∧ RelAll R ts' vs' := by
  induction ts generalizing us with
  | nil => exact ⟨[], us, rfl, trivial, h⟩
  | cons t ts ih =>
    cases us with
    | nil => cases h
    | cons u us =>
      obtain ⟨vs, vs', rfl, hvs, hvs'⟩ := ih h.2
      exact ⟨u :: vs, vs', rfl, ⟨h.1, hvs⟩, hvs'⟩

mutual

/-- The labels of related trees are related one by one, so a property of labels is handed on. -/
theorem Rel.forall_preorder {P : α → Prop} {Q : β → Prop} (hlabel : ∀ a b, R a b → P a → Q b)
    {t : Tree α} {u : Tree β} (h : Rel R t u) (hP : ∀ a ∈ t.preorder, P a) :
    ∀ b ∈ u.preorder, Q b := by
  match t, u, h with
  | .node a ts, .node b us, h =>
    rw [preorder, List.forall_mem_cons] at hP ⊢
    exact ⟨hlabel a b h.1 hP.1, RelAll.forall_preorderAll hlabel h.2 hP.2⟩

theorem RelAll.forall_preorderAll {P : α → Prop} {Q : β → Prop}
    (hlabel : ∀ a b, R a b → P a → Q b) {ts : List (Tree α)} {us : List (Tree β)}
    (h : RelAll R ts us) (hP : ∀ a ∈ preorderAll ts, P a) : ∀ b ∈ preorderAll us, Q b := by
  match ts, us, h with
  | [], [], _ => simp [preorderAll]
  | t :: ts, u :: us, h =>
    rw [preorderAll, List.forall_mem_append] at hP ⊢
    exact ⟨Rel.forall_preorder hlabel h.1 hP.1, RelAll.forall_preorderAll hlabel h.2 hP.2⟩

end

mutual

/-- A relation between labels may be replaced by one that holds of the labels there are. -/
theorem Rel.imp {S : α → β → Prop} {t : Tree α} {u : Tree β} (h : Rel R t u)
    (hlabel : ∀ a ∈ t.preorder, ∀ b, R a b → S a b) : Rel S t u := by
  match t, u, h with
  | .node a ts, .node b us, h =>
    rw [preorder, List.forall_mem_cons] at hlabel
    exact ⟨hlabel.1 b h.1, h.2.imp hlabel.2⟩

theorem RelAll.imp {S : α → β → Prop} {ts : List (Tree α)} {us : List (Tree β)}
    (h : RelAll R ts us) (hlabel : ∀ a ∈ preorderAll ts, ∀ b, R a b → S a b) : RelAll S ts us := by
  match ts, us, h with
  | [], [], _ => exact trivial
  | t :: ts, u :: us, h =>
    rw [preorderAll, List.forall_mem_append] at hlabel
    exact ⟨h.1.imp hlabel.1, h.2.imp hlabel.2⟩

end

mutual

/-- Trees stay related when their labels are changed along with the relation. -/
theorem Rel.map {S : γ → δ → Prop} {f : α → γ} {g : β → δ}
    (hlabel : ∀ a b, R a b → S (f a) (g b)) {t : Tree α} {u : Tree β} (h : Rel R t u) :
    Rel S (t.map f) (u.map g) := by
  match t, u, h with
  | .node a ts, .node b us, h => exact ⟨hlabel a b h.1, RelAll.mapAll hlabel h.2⟩

theorem RelAll.mapAll {S : γ → δ → Prop} {f : α → γ} {g : β → δ}
    (hlabel : ∀ a b, R a b → S (f a) (g b)) {ts : List (Tree α)} {us : List (Tree β)}
    (h : RelAll R ts us) : RelAll S (mapAll f ts) (mapAll g us) := by
  match ts, us, h with
  | [], [], _ => exact trivial
  | t :: ts, u :: us, h => exact ⟨Rel.map hlabel h.1, RelAll.mapAll hlabel h.2⟩

end

mutual

/-- What related labels have in common, related trees have in common in preorder. -/
theorem Rel.map_preorder_eq {f : α → γ} {g : β → γ} (hlabel : ∀ a b, R a b → f a = g b)
    {t : Tree α} {u : Tree β} (h : Rel R t u) : t.preorder.map f = u.preorder.map g := by
  match t, u, h with
  | .node a ts, .node b us, h =>
    rw [preorder, preorder, List.map_cons, List.map_cons, hlabel a b h.1,
      RelAll.map_preorderAll_eq hlabel h.2]

theorem RelAll.map_preorderAll_eq {f : α → γ} {g : β → γ} (hlabel : ∀ a b, R a b → f a = g b)
    {ts : List (Tree α)} {us : List (Tree β)} (h : RelAll R ts us) :
    (preorderAll ts).map f = (preorderAll us).map g := by
  match ts, us, h with
  | [], [], _ => rfl
  | t :: ts, u :: us, h =>
    rw [preorderAll, preorderAll, List.map_append, List.map_append,
      Rel.map_preorder_eq hlabel h.1, RelAll.map_preorderAll_eq hlabel h.2]

end

mutual

theorem Rel.exists_of_mem {t : Tree α} {u : Tree β} (h : Rel R t u) {a : α} (ha : a ∈ t.preorder) :
    ∃ b ∈ u.preorder, R a b := by
  match t, u, h with
  | .node a' ts, .node b us, h =>
    rcases List.mem_cons.1 ha with rfl | ha
    · exact ⟨b, List.mem_cons_self, h.1⟩
    · obtain ⟨c, hc, hac⟩ := h.2.exists_of_mem ha
      exact ⟨c, List.mem_cons_of_mem b hc, hac⟩

/-- Every label of a forest is related to one of a related forest. -/
theorem RelAll.exists_of_mem {ts : List (Tree α)} {us : List (Tree β)} (h : RelAll R ts us) {a : α}
    (ha : a ∈ preorderAll ts) : ∃ b ∈ preorderAll us, R a b := by
  match ts, us, h with
  | [], [], _ => cases ha
  | t :: ts, u :: us, h =>
    rcases List.mem_append.1 ha with ha | ha
    · obtain ⟨b, hb, hab⟩ := h.1.exists_of_mem ha
      exact ⟨b, List.mem_append_left _ hb, hab⟩
    · obtain ⟨b, hb, hab⟩ := h.2.exists_of_mem ha
      exact ⟨b, List.mem_append_right _ hb, hab⟩

end

/-! ## Labels changed one by one -/

mutual

theorem map_map (f : α → β) (g : β → γ) (t : Tree α) :
    (t.map f).map g = t.map (g ∘ f) := by
  match t with
  | .node a ts => rw [Tree.map, Tree.map, Tree.map, mapAll_mapAll f g ts, Function.comp_apply]

theorem mapAll_mapAll (f : α → β) (g : β → γ) (ts : List (Tree α)) :
    mapAll g (mapAll f ts) = mapAll (g ∘ f) ts := by
  match ts with
  | [] => rfl
  | t :: ts => rw [mapAll, mapAll, mapAll, map_map f g t, mapAll_mapAll f g ts]

end

mutual

theorem map_congr {f g : α → β} {t : Tree α} (h : ∀ a ∈ t.preorder, f a = g a) :
    t.map f = t.map g := by
  match t with
  | .node a ts =>
    rw [preorder, List.forall_mem_cons] at h
    rw [Tree.map, Tree.map, h.1, mapAll_congr h.2]

theorem mapAll_congr {f g : α → β} {ts : List (Tree α)} (h : ∀ a ∈ preorderAll ts, f a = g a) :
    mapAll f ts = mapAll g ts := by
  match ts with
  | [] => rfl
  | t :: ts =>
    rw [preorderAll, List.forall_mem_append] at h
    rw [mapAll, mapAll, map_congr h.1, mapAll_congr h.2]

end

theorem RelAll.append {ts ts' : List (Tree α)} {us us' : List (Tree β)}
    (h : RelAll R ts us) (h' : RelAll R ts' us') : RelAll R (ts ++ ts') (us ++ us') := by
  match ts, us, h with
  | [], [], _ => exact h'
  | t :: ts, u :: us, h => exact ⟨h.1, h.2.append h'⟩

mutual

theorem Rel.eq_map {f : α → β} {t : Tree α} {u : Tree β} (h : Rel (fun a b ↦ b = f a) t u) :
    u = t.map f := by
  match t, u, h with
  | .node a ts, .node b us, ⟨hlabel, hchildren⟩ => rw [Tree.map, hlabel, hchildren.eq_mapAll]

/-- Where each label goes with one other label, a forest goes with one other forest. -/
theorem RelAll.eq_mapAll {f : α → β} {ts : List (Tree α)} {us : List (Tree β)}
    (h : RelAll (fun a b ↦ b = f a) ts us) : us = mapAll f ts := by
  match ts, us, h with
  | [], [], _ => rfl
  | t :: ts, u :: us, h => rw [mapAll, h.1.eq_map, h.2.eq_mapAll]

end

end SvgWorkbench.Tree
