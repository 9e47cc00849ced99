import Mathlib.Algebra.BigOperators.Group.List.Basic
import Mathlib.Algebra.Ring.Nat
import Mathlib.Data.List.Nodup
import Mathlib.Data.List.Perm.Subperm
import Sentinel.Logic.System

/-!
# Counting calls

* `count_reach`: what the world counts of calls of a kind is the number of them in the logs.
* `countP_le_one`, `length_filter_le_one`, `sum_map_le_length_filter`, `length_le_of_rel`,
  `sum_map_le`: bounds for such numbers.
-/

namespace Sentinel.Logic

variable {Op : Type} {Ans : Op → Type} {ε Out World Input Task Env : Type}

variable {M : Machine Op Ans ε Out World Input Task Env} {w : World}
  {C : Sys Op Ans ε Out Task World → Event Input Task Env → Prop}
  {s : Sys Op Ans ε Out Task World}

/-- The calls in the logs that satisfy `p`. -/
def Sys.count (p : Entry Op Ans ε → Bool) (s : Sys Op Ans ε Out Task World) : ℕ :=
  (s.threads.map fun th => th.log.countP p).sum

theorem sum_map_set {α : Type} {f : α → ℕ} {l : List α} {i : ℕ} {x y : α} (hx : l[i]? = some x) :
    ((l.set i y).map f).sum + f x = (l.map f).sum + f y := by
  induction l generalizing i with
  | nil => simp at hx
  | cons a l ih =>
    cases i with
    | zero =>
      obtain rfl : a = x := by simpa using hx
      simp only [List.set_cons_zero, List.map_cons, List.sum_cons]
      omega
    | succ i =>
      have hl := ih (i := i) (by simpa using hx)
      simp only [List.set_cons_succ, List.map_cons, List.sum_cons]
      omega

/-- What the world counts of the calls that satisfy `p` is the number of them in the logs. -/
theorem count_reach {g : World → ℕ} {p : Entry Op Ans ε → Bool} (h0 : g w = 0)
    (hcall : ∀ w op inp r w', M.call w op inp = some (r, w') →
      g w' = g w + if p ⟨op, r⟩ then 1 else 0)
    (henv : ∀ w e, g (M.env w e) = g w) (h : Reach M.step ⟨w, []⟩ C s) : g s.world = s.count p := by
  refine h.rec_moved (I := fun s => g s.world = s.count p) h0 fun s e s' _ _ ih hm => ?_
  cases hm with
  | idle => exact ih
  | env e => exact (henv _ e).trans ih
  | start t => simpa [Sys.count] using ih
  | crash i th hth =>
    have hset := sum_map_set (f := fun th : Thread Op Ans ε Out Task => th.log.countP p)
      (y := { th with live := false }) hth
    simp only [Sys.count] at ih hset ⊢
    omega
  | act i inp t log op k r w' hth hc =>
    have hset := sum_map_set (f := fun th : Thread Op Ans ε Out Task => th.log.countP p)
      (y := ⟨t, log ++ [⟨op, r⟩], k r, true⟩) hth
    have hcount := hcall _ op inp r w' hc
    simp only [Sys.count, List.countP_append, List.countP_singleton] at ih hset ⊢
    omega

/-- A list in which no element that satisfies `p` comes after another. -/
theorem countP_le_one {α : Type} {p : α → Bool} {l : List α}
    (h : ∀ l₁ x l₂, l = l₁ ++ x :: l₂ → p x = true → ∀ y ∈ l₁, p y = false) : l.countP p ≤ 1 := by
  induction l with
  | nil => simp
  | cons a l ih =>
    have hl := ih fun l₁ x l₂ hl hx y hy =>
      h (a :: l₁) x l₂ (by rw [hl]; rfl) hx y (List.mem_cons_of_mem _ hy)
    by_cases ha : p a = true
    · have hnone : l.countP p = 0 := by
        refine List.countP_eq_zero.mpr fun x hx hpx => ?_
        obtain ⟨l₁, l₂, rfl⟩ := List.append_of_mem hx
        cases (h (a :: l₁) x l₂ rfl hpx a List.mem_cons_self).symm.trans ha
      simp [ha, hnone]
    · simpa [ha] using hl

/-- A property that one place of a list has at most. -/
theorem length_filter_le_one {α : Type} {p : α → Bool} {l : List α}
    (h : ∀ (i j : ℕ) (x y : α), l[i]? = some x → l[j]? = some y → p x = true → p y = true → i = j) :
    (l.filter p).length ≤ 1 := by
  rw [← List.countP_eq_length_filter]
  refine countP_le_one fun l₁ x l₂ hl hx y hy => ?_
  rw [Bool.eq_false_iff]
  intro hpy
  obtain ⟨j, hj⟩ := List.getElem?_of_mem hy
  have hlt : j < l₁.length := (List.getElem?_eq_some_iff.mp hj).1
  have heq := h l₁.length j x y (by simp [hl]) (by rw [hl, List.getElem?_append_left hlt, hj]) hx hpy
  omega

/-- A sum of counts of at most one. -/
theorem sum_map_le_length_filter {α : Type} {f : α → ℕ} {p : α → Bool} {l : List α}
    (h1 : ∀ x ∈ l, f x ≤ 1) (h0 : ∀ x ∈ l, p x = false → f x = 0) :
    (l.map f).sum ≤ (l.filter p).length := by
  induction l with
  | nil => simp
  | cons a l ih =>
    have hl := ih (fun x hx => h1 x (List.mem_cons_of_mem _ hx))
      fun x hx => h0 x (List.mem_cons_of_mem _ hx)
    have ha := h1 a List.mem_cons_self
    cases hpa : p a with
    | false =>
      have hzero := h0 a List.mem_cons_self hpa
      simp only [List.map_cons, List.sum_cons, List.filter_cons, hpa]
      simp only [Bool.false_eq_true, if_false]
      omega
    | true =>
      simp only [List.map_cons, List.sum_cons, List.filter_cons, hpa, if_true, List.length_cons]
      omega

theorem length_filter_le_add {α : Type} (p q : α → Bool) (l : List α) :
    (l.filter p).length ≤ (l.filter q).length + (l.filter fun x => p x && !q x).length := by
  induction l with
  | nil => simp
  | cons a l ih =>
    simp only [List.filter_cons]
    cases p a <;> cases q a <;> simp <;> omega

theorem length_filter_or_le {α : Type} (p q : α → Bool) (l : List α) :
    (l.filter fun x => p x || q x).length ≤ (l.filter p).length + (l.filter q).length := by
  induction l with
  | nil => simp
  | cons a l ih =>
    simp only [List.filter_cons]
    cases p a <;> cases q a <;> simp <;> omega

/-- Things that are told apart by what they are related to are no more than that. -/
theorem length_le_of_rel {α β : Type} {R : α → β → Prop} {l : List α} {m : List β}
    (hl : l.Nodup) (hR : ∀ a ∈ l, ∃ b ∈ m, R a b)
    (hapart : ∀ a ∈ l, ∀ a' ∈ l, ∀ b, R a b → R a' b → a = a') : l.length ≤ m.length := by
  by_cases hnil : l = []
  · simp [hnil]
  obtain ⟨a₀, ha₀⟩ := List.exists_mem_of_ne_nil l hnil
  have hβ : Nonempty β := ⟨(hR a₀ ha₀).choose⟩
  choose! g hg hrel using hR
  have hnodup : (l.map g).Nodup := hl.map_on fun a ha a' ha' heq =>
    hapart a ha a' ha' (g a) (hrel a ha) (heq ▸ hrel a' ha')
  have hsub : l.map g ⊆ m := by
    intro b hb
    obtain ⟨a, ha, rfl⟩ := List.mem_map.mp hb
    exact hg a ha
  have hle := (hnodup.subperm hsub).length_le
  rwa [List.length_map] at hle

/-- A sum in which the terms of one kind are bounded by `m` and the others by `n`. -/
theorem sum_map_le {α : Type} {f : α → ℕ} {p : α → Bool} {m n : ℕ} {l : List α}
    (hp : ∀ x ∈ l, p x = true → f x ≤ m) (hn : ∀ x ∈ l, p x = false → f x ≤ n) :
    (l.map f).sum ≤ (l.filter p).length * m + (l.filter fun x => !p x).length * n := by
  induction l with
  | nil => simp
  | cons a l ih =>
    have hl := ih (fun x hx => hp x (List.mem_cons_of_mem _ hx))
      fun x hx => hn x (List.mem_cons_of_mem _ hx)
    cases hpa : p a with
    | true =>
      have ha := hp a List.mem_cons_self hpa
      simp only [List.map_cons, List.sum_cons, List.filter_cons, hpa, if_true, List.length_cons,
        Bool.not_true, Bool.false_eq_true, if_false, Nat.succ_mul]
      omega
    | false =>
      have ha := hn a List.mem_cons_self hpa
      simp only [List.map_cons, List.sum_cons, List.filter_cons, hpa, Bool.false_eq_true, if_false,
        Bool.not_false, if_true, List.length_cons, Nat.succ_mul]
      omega

end Sentinel.Logic
