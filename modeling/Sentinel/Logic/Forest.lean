import Mathlib.Logic.Relation
import Mathlib.Data.List.Induction

/-!
# Forests that only grow

A list in which every element is a root or a child of an element before it, as are the rows of a
table to which rows are only ever appended.

* `Planted.induct`: what holds of the roots and is handed on to children holds of every element.
* `Planted.descends`: every element descends from a root of the list.
* `Descends.handed_on`: what is handed on to children holds along a line of descent.
-/

namespace Sentinel.Logic

section Forest

variable {α : Type} {root : α → Prop} {child : α → α → Prop} {l : List α} {x : α}

/-- Every element is a root or a child of an earlier element. -/
def Planted (root : α → Prop) (child : α → α → Prop) (l : List α) : Prop :=
  ∀ l₁ x l₂, l = l₁ ++ x :: l₂ → root x ∨ ∃ p ∈ l₁, child p x

theorem planted_nil : Planted root child [] := by
  intro l₁ x l₂ h
  simp at h

theorem Planted.concat (h : Planted root child l) (hx : root x ∨ ∃ p ∈ l, child p x) :
    Planted root child (l ++ [x]) := by
  intro l₁ y l₂ heq
  rcases List.eq_nil_or_concat l₂ with rfl | ⟨l₃, z, rfl⟩
  · obtain ⟨rfl, hy⟩ := List.append_inj' heq rfl
    obtain rfl := (List.cons.inj hy).1
    exact hx
  · have hsplit : l ++ [x] = (l₁ ++ y :: l₃) ++ [z] := by rw [heq]; simp
    exact h l₁ y l₃ (List.append_inj' hsplit rfl).1

theorem Planted.of_concat (h : Planted root child (l ++ [x])) :
    Planted root child l ∧ (root x ∨ ∃ p ∈ l, child p x) := by
  refine ⟨fun l₁ y l₂ heq => h l₁ y (l₂ ++ [x]) (by rw [heq]; simp), ?_⟩
  exact h l x [] rfl

/-- Induction along a forest. -/
theorem Planted.induct {P : α → Prop} (h : Planted root child l)
    (hroot : ∀ x ∈ l, root x → P x)
    (hchild : ∀ p ∈ l, ∀ x ∈ l, child p x → P p → P x) : ∀ x ∈ l, P x := by
  induction l using List.reverseRecOn with
  | nil => exact fun x hx => absurd hx List.not_mem_nil
  | append_singleton l y ih =>
    obtain ⟨hl, hy⟩ := h.of_concat
    have hold : ∀ x ∈ l, P x := by
      refine ih hl (fun x hx => hroot x (List.mem_append_left _ hx)) fun p hp x hx => ?_
      exact hchild p (List.mem_append_left _ hp) x (List.mem_append_left _ hx)
    intro x hx
    rcases List.mem_append.mp hx with hx | hx
    · exact hold x hx
    · obtain rfl := List.mem_singleton.mp hx
      have hmem : x ∈ l ++ [x] := List.mem_append_right _ (List.mem_singleton_self x)
      rcases hy with hy | ⟨p, hp, hy⟩
      · exact hroot x hmem hy
      · exact hchild p (List.mem_append_left _ hp) x hmem hy (hold p hp)

/-- `y` is a child of `x`, and both are in the list. -/
def ChildIn (child : α → α → Prop) (l : List α) (x y : α) : Prop := x ∈ l ∧ y ∈ l ∧ child x y

/-- The element is reached from the ancestor by a line of children in the list. -/
def Descends (child : α → α → Prop) (l : List α) (ancestor x : α) : Prop :=
  Relation.ReflTransGen (ChildIn child l) ancestor x

theorem Planted.descends (h : Planted root child l) (hx : x ∈ l) :
    ∃ r ∈ l, root r ∧ Descends child l r x := by
  refine h.induct (P := fun x => ∃ r ∈ l, root r ∧ Descends child l r x) ?_ ?_ x hx
  · exact fun r hr hroot => ⟨r, hr, hroot, .refl⟩
  · rintro p hp x hx hchild ⟨r, hr, hroot, hdesc⟩
    exact ⟨r, hr, hroot, hdesc.tail ⟨hp, hx, hchild⟩⟩

/-- What is handed on to children is handed on to descendants. -/
theorem Descends.handed_on {P : α → Prop} {r : α} (h : Descends child l r x)
    (hchild : ∀ p x, child p x → P p → P x) (hr : P r) : P x := by
  induction h with
  | refl => exact hr
  | tail _ hstep ih => exact hchild _ _ hstep.2.2 ih

end Forest

end Sentinel.Logic
