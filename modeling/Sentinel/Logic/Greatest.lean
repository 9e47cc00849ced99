import Mathlib.Data.List.Perm.Basic
import Mathlib.Order.Lattice

/-!
# The first greatest item

What Python's `max` with a key takes from a list: the first item, until one comes that is greater.
The order need not be total, as of floats that are not numbers.

* `Strict`: an order that no item is above itself in.
* `byFirst`: an order of tuples, in which the first entries that differ decide.
* `maxBy_not_gt`: nothing in the list is greater.
* `maxBy_perm`: of a list of which any two items compare, the order of the list does not matter.
-/

namespace Sentinel.Logic

variable {α : Type} {gt : α → α → Bool} {l l' : List α} {a m : α}

def greater (gt : α → α → Bool) (best x : α) : α := if gt x best then x else best

/-- `max(l, key=...)`; none for an empty list. -/
def maxBy (gt : α → α → Bool) : List α → Option α
  | [] => none
  | a :: rest => some (rest.foldl (greater gt) a)

/-- The comparison is a strict order, which may leave items incomparable. -/
structure Strict (gt : α → α → Bool) : Prop where
  irrefl : ∀ a, gt a a = false
  trans : ∀ {a b c}, gt a b = true → gt b c = true → gt a c = true

theorem Strict.asymm {a b : α} (h : Strict gt) (hab : gt a b = true) : gt b a = false := by
  rw [Bool.eq_false_iff]
  intro hba
  have haa := h.trans hab hba
  rw [h.irrefl] at haa
  cases haa

/-- The entry decides, and where it is the same the rest of the tuple does. -/
def byFirst {κ : Type} [LinearOrder κ] (entry : α → κ) (rest : α → α → Bool) (a b : α) : Bool :=
  if entry a = entry b then rest a b else entry b < entry a

section Entries

variable {κ : Type} [LinearOrder κ] {entry : α → κ} {b : α}

theorem byFirst_of_eq (h : entry a = entry b) : byFirst entry gt a b = gt a b := if_pos h

theorem byFirst_of_ne (h : entry a ≠ entry b) : byFirst entry gt a b = decide (entry b < entry a) :=
  if_neg h

theorem entry_le_of_byFirst (h : byFirst entry gt a b = true) : entry b ≤ entry a := by
  by_cases heq : entry a = entry b
  · exact heq.ge
  · rw [byFirst_of_ne heq, decide_eq_true_eq] at h
    exact h.le

theorem le_of_not_byFirst (h : byFirst entry gt a b = false) : entry a ≤ entry b := by
  by_cases heq : entry a = entry b
  · exact heq.le
  · rw [byFirst_of_ne heq, decide_eq_false_iff_not] at h
    exact not_lt.mp h

theorem Strict.byFirst (h : Strict gt) (entry : α → κ) : Strict (byFirst entry gt) where
  irrefl a := by
    rw [byFirst_of_eq rfl]
    exact h.irrefl a
  trans {a b c} hab hbc := by
    have hle := entry_le_of_byFirst hab
    have hle' := entry_le_of_byFirst hbc
    by_cases heq : entry a = entry c
    · have hb : entry a = entry b := le_antisymm (heq.le.trans hle') hle
      rw [byFirst_of_eq hb] at hab
      rw [byFirst_of_eq (hb.symm.trans heq)] at hbc
      rw [byFirst_of_eq heq]
      exact h.trans hab hbc
    · rw [byFirst_of_ne heq, decide_eq_true_eq]
      exact lt_of_le_of_ne (hle'.trans hle) (Ne.symm heq)

/-- Tuples that differ in the entry compare. -/
theorem byFirst_total (h : entry a = entry b → gt a b = true ∨ a = b ∨ gt b a = true) :
    byFirst entry gt a b = true ∨ a = b ∨ byFirst entry gt b a = true := by
  by_cases heq : entry a = entry b
  · rw [byFirst_of_eq heq, byFirst_of_eq heq.symm]
    exact h heq
  · rw [byFirst_of_ne heq, byFirst_of_ne (Ne.symm heq), decide_eq_true_eq, decide_eq_true_eq]
    rcases lt_or_gt_of_ne heq with hlt | hlt
    · exact .inr (.inr hlt)
    · exact .inl hlt

end Entries

/-! ## The greatest -/

@[simp] theorem maxBy_eq_none : maxBy gt l = none ↔ l = [] := by
  cases l <;> simp [maxBy]

theorem foldl_greater_mem (l : List α) (a : α) : l.foldl (greater gt) a ∈ a :: l := by
  induction l generalizing a with
  | nil => exact List.mem_singleton.mpr rfl
  | cons b l ih =>
    rw [List.foldl_cons]
    have hmem := ih (greater gt a b)
    unfold greater at hmem ⊢
    split_ifs at hmem ⊢
    · exact List.mem_cons_of_mem _ hmem
    · rcases List.mem_cons.mp hmem with heq | hmem
      · rw [heq]
        exact List.mem_cons_self
      · exact List.mem_cons_of_mem _ (List.mem_cons_of_mem _ hmem)

theorem maxBy_mem (h : maxBy gt l = some m) : m ∈ l := by
  cases l with
  | nil => cases h
  | cons a l =>
    obtain rfl := Option.some.inj h
    exact foldl_greater_mem l a

/-- The fold only goes up. -/
theorem foldl_greater_eq_or_gt (h : Strict gt) (l : List α) (a : α) :
    l.foldl (greater gt) a = a ∨ gt (l.foldl (greater gt) a) a = true := by
  induction l generalizing a with
  | nil => exact .inl rfl
  | cons b l ih =>
    rw [List.foldl_cons]
    by_cases hgt : gt b a = true
    · have hb : greater gt a b = b := if_pos hgt
      rw [hb]
      rcases ih b with heq | hup
      · rw [heq]
        exact .inr hgt
      · exact .inr (h.trans hup hgt)
    · have ha : greater gt a b = a := if_neg hgt
      rw [ha]
      exact ih a

/-- What it ends with is not below anything it has passed. -/
theorem foldl_greater_not_gt (h : Strict gt) (l : List α) (a : α) :
    ∀ b ∈ a :: l, gt b (l.foldl (greater gt) a) = false := by
  -- an item that is not above `a` is not above what the fold goes up to from there
  have hpassed : ∀ (l : List α) (a b : α), gt b a = false →
      gt b (l.foldl (greater gt) a) = false := by
    intro l a b hb
    rw [Bool.eq_false_iff] at hb ⊢
    intro hgt
    rcases foldl_greater_eq_or_gt h l a with heq | hup
    · exact hb (heq ▸ hgt)
    · exact hb (h.trans hgt hup)
  induction l generalizing a with
  | nil =>
    intro b hb
    obtain rfl := List.mem_singleton.mp hb
    exact h.irrefl b
  | cons c l ih =>
    intro b hb
    rw [List.foldl_cons]
    rcases List.mem_cons.mp hb with rfl | hb
    · refine hpassed l _ b ?_
      unfold greater
      split_ifs with hgt
      · exact h.asymm hgt
      · exact h.irrefl b
    · rcases List.mem_cons.mp hb with rfl | hb
      · refine hpassed l _ b ?_
        unfold greater
        split_ifs with hgt
        · exact h.irrefl b
        · exact Bool.eq_false_iff.mpr hgt
      · exact ih _ b (List.mem_cons_of_mem _ hb)

theorem maxBy_not_gt (h : Strict gt) (hm : maxBy gt l = some m) (ha : a ∈ l) : gt a m = false := by
  cases l with
  | nil => cases hm
  | cons b l =>
    obtain rfl := Option.some.inj hm
    exact foldl_greater_not_gt h l b a ha

/-- Of a list of which any two items compare, the order does not matter. -/
theorem maxBy_perm (h : Strict gt) (hperm : l'.Perm l)
    (htotal : ∀ a ∈ l, ∀ b ∈ l, gt a b = true ∨ a = b ∨ gt b a = true) :
    maxBy gt l' = maxBy gt l := by
  cases hm : maxBy gt l with
  | none =>
    obtain rfl := maxBy_eq_none.mp hm
    rw [hperm.eq_nil]
    rfl
  | some m =>
    cases hm' : maxBy gt l' with
    | none =>
      obtain rfl := maxBy_eq_none.mp hm'
      rw [hperm.nil_eq.symm] at hm
      cases hm
    | some m' =>
      have hmem := maxBy_mem hm
      have hmem' := hperm.mem_iff.mp (maxBy_mem hm')
      have hle := maxBy_not_gt h hm hmem'
      have hle' := maxBy_not_gt h hm' (hperm.mem_iff.mpr hmem)
      rcases htotal m' hmem' m hmem with hgt | rfl | hgt
      · cases hgt.symm.trans hle
      · rfl
      · cases hgt.symm.trans hle'

end Sentinel.Logic
