import Mathlib.Data.Finset.Card
import Mathlib.Data.Finset.Dedup
import Mathlib.Order.Bounds.Basic
import SvgWorkbench.Proofs.Naming

/-!
# The search for a free name ends

A name for a type in a scope is searched number by number, from the count of the type in that scope
on. Every number that is tried is counted, and the count is a machine word. Numbers that are passed
over have different names, all of them taken, so the search tries at most one number more than there
are names taken, and it ends at the least number whose name is free.

A naming serves one request after another, for elements without an id and for elements with one. As
long as fewer numbers are tried and skipped in all than a word can count, no count runs over, every
search ends, and no name is given out that was there before or has been given out already.
-/

namespace SvgWorkbench.Naming

variable {n n' : Naming} {kind : String} {scope : Option String}

/-! ## Counts -/

@[simp] theorem reserved_skip (n : Naming) (kind : String) (scope : Option String) :
    (n.skip kind scope).reserved = n.reserved := rfl

@[simp] theorem count_setCount_self (n : Naming) (kind : String) (scope : Option String)
    (k : Nat) : (n.setCount kind scope k).count kind scope = k := by
  simp [count, setCount]

/-- Another count is not changed. -/
theorem count_setCount_of_ne {kind' : String} {scope' : Option String}
    (h : (scope', kind') ≠ (scope, kind)) (n : Naming) (k : Nat) :
    (n.setCount kind scope k).count kind' scope' = n.count kind' scope' := by
  have hkey : ∀ a : (Option String × String) × Nat,
      (a.1 != (scope, kind) && a.1 == (scope', kind')) = (a.1 == (scope', kind')) := by
    intro a
    by_cases ha : a.1 = (scope', kind')
    · simp [ha, h]
    · simp [ha]
  rw [count, setCount, List.find?_cons_of_neg (by simpa using h.symm), List.find?_filter]
  simp only [Bool.decide_and, Bool.decide_eq_true, hkey]
  rfl

@[simp] theorem setCount_setCount (n : Naming) (kind : String) (scope : Option String)
    (j k : Nat) : (n.setCount kind scope j).setCount kind scope k = n.setCount kind scope k := by
  simp [setCount, List.filter_filter]

@[simp] theorem count_skip_self (n : Naming) (kind : String) (scope : Option String) :
    (n.skip kind scope).count kind scope = n.count kind scope + 1 := count_setCount_self _ _ _ _

/-! ## The number that is found -/

/-- The number that is found is not below the count, and the names of the numbers before it are
taken. -/
theorem freeOrdinal_spec (n : Naming) (kind : String) (scope : Option String) :
    n.count kind scope ≤ n.freeOrdinal kind scope ∧ ∀ m, n.count kind scope ≤ m →
      m < n.freeOrdinal kind scope → formatId kind scope m ∈ n.reserved := by
  rw [freeOrdinal]
  cases hfind : (List.range' (n.count kind scope) (n.reserved.length + 1)).find? fun ordinal ↦
      !n.reserved.contains (formatId kind scope ordinal) with
  | none => exact ⟨Nat.le_refl _, fun m hle hlt ↦ absurd hlt (Nat.not_lt.2 hle)⟩
  | some ordinal =>
    obtain ⟨-, hmem, hbefore⟩ := List.find?_range'_eq_some.1 hfind
    refine ⟨(List.mem_range'_1.1 hmem).1, fun m hle hlt ↦ ?_⟩
    simpa using hbefore m hle hlt

/-- **The least number whose name is free is found**, of those that are not below the count. -/
theorem isLeast_freeOrdinal (n : Naming) (kind : String) (scope : Option String) :
    IsLeast {m | n.count kind scope ≤ m ∧ formatId kind scope m ∉ n.reserved}
      (n.freeOrdinal kind scope) := by
  obtain ⟨hle, htaken⟩ := n.freeOrdinal_spec kind scope
  refine ⟨⟨hle, n.formatId_freeOrdinal_notMem kind scope⟩, fun m hm ↦ ?_⟩
  exact Nat.le_of_not_lt fun hlt ↦ hm.2 (htaken m hm.1 hlt)

/-- How many numbers are tried for a name. -/
def tries (n : Naming) (kind : String) (scope : Option String) : Nat :=
  n.freeOrdinal kind scope - n.count kind scope + 1

/-- **At most one number more is tried than there are names taken**, each name counted once. -/
theorem tries_le (n : Naming) (kind : String) (scope : Option String) :
    n.tries kind scope ≤ n.reserved.toFinset.card + 1 := by
  let passed := (List.range' (n.count kind scope)
    (n.freeOrdinal kind scope - n.count kind scope)).map (formatId kind scope)
  have hnodup : passed.Nodup := List.Nodup.map (formatId_injective kind scope) List.nodup_range'
  have hsubset : passed.toFinset ⊆ n.reserved.toFinset := by
    intro id hid
    obtain ⟨m, hm, rfl⟩ := List.mem_map.1 (List.mem_toFinset.1 hid)
    rw [List.mem_range'_1] at hm
    exact List.mem_toFinset.2 ((n.freeOrdinal_spec kind scope).2 m hm.1 (by omega))
  have hcard := Finset.card_le_card hsubset
  rw [List.toFinset_card_of_nodup hnodup, List.length_map, List.length_range'] at hcard
  exact Nat.succ_le_succ hcard

/-! ## The search -/

/-- The search for a name, with how many numbers it tries, the name it gives and the naming
afterwards. A number counts when it is tried, which needs room in the word that counts. -/
inductive Searches (kind : String) (scope : Option String) :
    Naming → Nat → String → Naming → Prop where
  /-- The name of the number is free, and is taken. -/
  | finds {n : Naming} (hroom : n.count kind scope + 1 < UInt64.size)
    (hfree : formatId kind scope (n.count kind scope) ∉ n.reserved) :
    Searches kind scope n 1 (formatId kind scope (n.count kind scope))
      { n.skip kind scope with
        reserved := formatId kind scope (n.count kind scope) :: n.reserved }
  /-- The name of the number is taken, and the next number is tried. -/
  | passes {n n' : Naming} {tries : Nat} {id : String}
    (hroom : n.count kind scope + 1 < UInt64.size)
    (htaken : formatId kind scope (n.count kind scope) ∈ n.reserved)
    (h : Searches kind scope (n.skip kind scope) tries id n') :
    Searches kind scope n (tries + 1) id n'

/-- A search ends in one way. -/
theorem Searches.unique {tries tries' : Nat} {id id' : String} {n₁ n₂ : Naming}
    (h : Searches kind scope n tries id n₁) (h' : Searches kind scope n tries' id' n₂) :
    tries' = tries ∧ id' = id ∧ n₂ = n₁ := by
  induction h generalizing tries' with
  | finds hroom hfree =>
    cases h' with
    | finds => exact ⟨rfl, rfl, rfl⟩
    | passes _ htaken _ => exact absurd htaken hfree
  | passes hroom htaken _ ih =>
    cases h' with
    | finds _ hfree => exact absurd htaken hfree
    | passes _ _ h' =>
      obtain ⟨rfl, rfl, rfl⟩ := ih h'
      exact ⟨rfl, rfl, rfl⟩

/-- After a number has been passed over, the same number is found. -/
theorem freeOrdinal_skip (htaken : formatId kind scope (n.count kind scope) ∈ n.reserved) :
    (n.skip kind scope).freeOrdinal kind scope = n.freeOrdinal kind scope := by
  have hset : {m | (n.skip kind scope).count kind scope ≤ m ∧
        formatId kind scope m ∉ (n.skip kind scope).reserved}
      = {m | n.count kind scope ≤ m ∧ formatId kind scope m ∉ n.reserved} := by
    ext m
    rw [Set.mem_ofPred_eq, Set.mem_ofPred_eq, count_skip_self, reserved_skip]
    refine and_congr_left fun hfree ↦ ⟨fun hlt ↦ Nat.le_of_lt hlt, fun hle ↦ ?_⟩
    exact Nat.lt_of_le_of_ne hle fun heq ↦ hfree (heq ▸ htaken)
  exact (hset ▸ (n.skip kind scope).isLeast_freeOrdinal kind scope).unique
    (n.isLeast_freeOrdinal kind scope)

/-- **Giving out a name is a search that ends**, as long as the number that is found can be
counted. -/
theorem searches_allocate (hroom : n.freeOrdinal kind scope + 1 < UInt64.size) :
    Searches kind scope n (n.tries kind scope) (n.allocate kind scope).1
      (n.allocate kind scope).2 := by
  -- the induction is on how many numbers are passed over
  induction hpassed : n.freeOrdinal kind scope - n.count kind scope generalizing n with
  | zero =>
    have hfirst : n.freeOrdinal kind scope = n.count kind scope :=
      Nat.le_antisymm (Nat.sub_eq_zero_iff_le.1 hpassed) (n.freeOrdinal_spec kind scope).1
    have hfree := n.formatId_freeOrdinal_notMem kind scope
    rw [hfirst] at hroom hfree
    rw [tries, hpassed, allocate, hfirst]
    exact .finds hroom hfree
  | succ k ih =>
    have htaken := (n.freeOrdinal_spec kind scope).2 _ (Nat.le_refl _) (by omega)
    have hrest := ih (n := n.skip kind scope) (by rwa [freeOrdinal_skip htaken])
      (by rw [freeOrdinal_skip htaken, count_skip_self]; omega)
    have hallocate : (n.skip kind scope).allocate kind scope = n.allocate kind scope := by
      rw [allocate, allocate, freeOrdinal_skip htaken, skip, setCount_setCount]
      rfl
    have htries : n.tries kind scope = (n.skip kind scope).tries kind scope + 1 := by
      rw [tries, tries, freeOrdinal_skip htaken, count_skip_self]
      omega
    rw [hallocate] at hrest
    rw [htries]
    exact .passes (by omega) htaken hrest

/-! ## Requests -/

/-- What is asked of a naming for an element. -/
inductive Request where
  /-- The element has no id and needs a name. -/
  | allocate (kind : String) (scope : Option String)
  /-- The element has an id and is only counted. -/
  | skip (kind : String) (scope : Option String)
  deriving DecidableEq, Repr

namespace Request

/-- How many numbers are counted for a request. -/
def steps (n : Naming) : Request → Nat
  | allocate kind scope => n.tries kind scope
  | skip _ _ => 1

/-- The name that is given out, if one is asked for. -/
def given? (n : Naming) : Request → Option String
  | allocate kind scope => some (n.allocate kind scope).1
  | skip _ _ => none

/-- The naming after a request. -/
def after (n : Naming) : Request → Naming
  | allocate kind scope => (n.allocate kind scope).2
  | skip kind scope => n.skip kind scope

/-- Whether a request is served: the search for a name ends after at most one number more than there
are names taken, with the name of the least number from the count on whose name is free; an element
that is only counted can be counted. -/
def IsServed (n : Naming) : Request → Prop
  | allocate kind scope =>
    (∃ tries ≤ n.reserved.toFinset.card + 1,
      Searches kind scope n tries (n.allocate kind scope).1 (n.allocate kind scope).2) ∧
    ∃ ordinal, IsLeast {m | n.count kind scope ≤ m ∧ formatId kind scope m ∉ n.reserved} ordinal ∧
      (n.allocate kind scope).1 = formatId kind scope ordinal
  | skip kind scope => n.count kind scope + 1 < UInt64.size

end Request

/-- How many numbers are counted for some requests in a row. -/
def steps (n : Naming) : List Request → Nat
  | [] => 0
  | r :: rs => r.steps n + (r.after n).steps rs

/-- The names that are given out for some requests in a row. -/
def given (n : Naming) : List Request → List String
  | [] => []
  | r :: rs => (r.given? n).toList ++ (r.after n).given rs

/-- The naming after some requests in a row. -/
def after (n : Naming) (requests : List Request) : Naming := requests.foldl Request.after n

theorem steps_append (n : Naming) (rs rs' : List Request) :
    n.steps (rs ++ rs') = n.steps rs + (n.after rs).steps rs' := by
  induction rs generalizing n with
  | nil => exact (Nat.zero_add _).symm
  | cons r rs ih => rw [List.cons_append, steps, ih, steps, Nat.add_assoc, after, after,
      List.foldl_cons]

/-! ## No count runs over -/

/-- A request adds what it counts to one count. -/
theorem count_after_le (n : Naming) (r : Request) (kind : String) (scope : Option String) :
    (r.after n).count kind scope ≤ n.count kind scope + r.steps n := by
  have hset : ∀ (kind' : String) (scope' : Option String) (k : Nat),
      k ≤ n.count kind' scope' + r.steps n →
      (n.setCount kind' scope' k).count kind scope ≤ n.count kind scope + r.steps n := by
    intro kind' scope' k hk
    by_cases hkey : (scope, kind) = (scope', kind')
    · obtain ⟨rfl, rfl⟩ := Prod.mk.inj hkey
      rwa [count_setCount_self]
    · rw [count_setCount_of_ne hkey]
      exact Nat.le_add_right _ _
  cases r with
  | allocate kind' scope' =>
    refine hset kind' scope' (n.freeOrdinal kind' scope' + 1) ?_
    have hle := (n.freeOrdinal_spec kind' scope').1
    rw [Request.steps, tries]
    omega
  | skip kind' scope' => exact hset kind' scope' (n.count kind' scope' + 1) (Nat.le_refl _)

theorem count_after_all_le (n : Naming) (rs : List Request) (kind : String)
    (scope : Option String) : (n.after rs).count kind scope ≤ n.count kind scope + n.steps rs := by
  induction rs generalizing n with
  | nil => exact Nat.le_refl _
  | cons r rs ih =>
    have hfirst := n.count_after_le r kind scope
    have hrest := ih (r.after n)
    rw [steps]
    exact Nat.le_trans hrest (by omega)

/-- A request is served if what it counts fits into the words that count. -/
theorem isServed_of_lt {r : Request} (h : ∀ kind scope,
    n.count kind scope + r.steps n < UInt64.size) : r.IsServed n := by
  cases r with
  | allocate kind scope =>
    have hroom := h kind scope
    have hle := (n.freeOrdinal_spec kind scope).1
    rw [Request.steps, tries] at hroom
    exact ⟨⟨_, n.tries_le kind scope, searches_allocate (by omega)⟩, _,
      n.isLeast_freeOrdinal kind scope, rfl⟩
  | skip kind scope => exact h kind scope

/-! ## Names are given out once -/

/-- **A row of requests gives out free names.** -/
theorem draws_given (n : Naming) (rs : List Request) :
    Draws n.reserved ((n.given rs).map fun _ ↦ none) (n.given rs) (n.after rs).reserved := by
  induction rs generalizing n with
  | nil => exact .nil _
  | cons r rs ih =>
    cases r with
    | allocate kind scope =>
      exact .gives (formatId_ne_empty _ _ _) (n.allocate_fst_notMem kind scope)
        (ih (n.allocate kind scope).2)
    | skip kind scope => exact ih (n.skip kind scope)

/-- **Names are found and never repeated**: as long as the requests count fewer numbers than a word
can hold, each is served, and the names that are given out are distinct and new. -/
theorem nodup_given_and_isServed (ids : List String) (requests : List Request)
    (hsteps : (ofIds ids).steps requests < UInt64.size - 1) :
    ((ofIds ids).given requests).Nodup ∧ (∀ id ∈ (ofIds ids).given requests, id ∉ ids) ∧
      ∀ before r later, requests = before ++ r :: later →
        r.IsServed ((ofIds ids).after before) := by
  have hdraws := (ofIds ids).draws_given requests
  have hnone : ∀ id, some id ∉ ((ofIds ids).given requests).map fun _ ↦ (none : Option String) := by
    simp
  refine ⟨hdraws.nodup (fun id hid ↦ absurd hid (hnone id)) (by simp [List.reduceOption]),
    fun id hid ↦ (hdraws.mem_or_notMem id hid).resolve_left (hnone id), ?_⟩
  rintro before r later rfl
  refine isServed_of_lt fun kind scope ↦ ?_
  -- nothing has been counted at the start, so a count is at most what has been counted in all
  have hcount := (ofIds ids).count_after_all_le before kind scope
  have hstart : (ofIds ids).count kind scope = 0 := rfl
  rw [steps_append, steps] at hsteps
  omega

/-- A name that is made in one scope is met in another one, and passed over. -/
theorem nodup_given_and_isServed_of_crossing :
    let requests : List Request := [.allocate "a-rect" none, .skip "rect" (some "a"),
      .allocate "rect" none, .allocate "rect" (some "a"), .allocate "a-rect" none]
    (ofIds ["rect-0", "rect-0", "a-rect-1"]).steps requests < UInt64.size - 1 ∧
      (ofIds ["rect-0", "rect-0", "a-rect-1"]).given requests
        = ["a-rect-0", "rect-1", "a-rect-2", "a-rect-3"] ∧
      (["a-rect-0", "rect-1", "a-rect-2", "a-rect-3"].Nodup ∧
        (∀ id ∈ ["a-rect-0", "rect-1", "a-rect-2", "a-rect-3"],
          id ∉ ["rect-0", "rect-0", "a-rect-1"]) ∧
        ∀ before r later, requests = before ++ r :: later →
          r.IsServed ((ofIds ["rect-0", "rect-0", "a-rect-1"]).after before)) := by
  intro requests
  have hsteps : (ofIds ["rect-0", "rect-0", "a-rect-1"]).steps requests < UInt64.size - 1 := by
    decide +kernel
  have hgiven : (ofIds ["rect-0", "rect-0", "a-rect-1"]).given requests
      = ["a-rect-0", "rect-1", "a-rect-2", "a-rect-3"] := by decide +kernel
  exact ⟨hsteps, hgiven, hgiven ▸ nodup_given_and_isServed _ requests hsteps⟩

end SvgWorkbench.Naming
