import Sentinel.Logic.Codec
import Mathlib.Data.List.Sort

/-!
# JSON values up to the order of keys

An object is a dictionary: two are equal when every key has equal values (`Json.Equal`), whatever
the order of the keys.  `Json.sortKeys` sorts the keys of every object, at every depth, and leaves
an equal value.
-/

namespace Sentinel.Logic

variable {κ τ : Type}

/-- Equality of values whose objects are dictionaries. -/
inductive Json.Equal [DecidableEq κ] : Json κ τ → Json κ τ → Prop
  | refl (v : Json κ τ) : Json.Equal v v
  | arr {xs ys : List (Json κ τ)} (h : List.Forall₂ Json.Equal xs ys) :
      Json.Equal (.arr xs) (.arr ys)
  | obj {xs ys : List (κ × Json κ τ)}
      (h : ∀ k, Option.Rel Json.Equal (xs.lookup k) (ys.lookup k)) : Json.Equal (.obj xs) (.obj ys)

section SortKeys

variable (le : κ → κ → Bool)

mutual

/-- `sort_keys=True`. -/
def Json.sortKeys : Json κ τ → Json κ τ
  | .null => .null
  | .bool b => .bool b
  | .int n => .int n
  | .num q => .num q
  | .str s => .str s
  | .arr items => .arr (Json.sortItems items)
  | .obj items => .obj (Json.sortFields items)

def Json.sortItems : List (Json κ τ) → List (Json κ τ)
  | [] => []
  | v :: vs => v.sortKeys :: Json.sortItems vs

def Json.sortFields : List (κ × Json κ τ) → List (κ × Json κ τ)
  | [] => []
  | (k, v) :: rest =>
    List.orderedInsert (fun p q => le p.1 q.1 = true) (k, v.sortKeys) (Json.sortFields rest)

end

end SortKeys

variable [DecidableEq κ] {le : κ → κ → Bool}

/-- An entry inserted before every entry it is not ordered after hides those of its key, and no
other. -/
theorem lookup_orderedInsert (hle : ∀ k, le k k = true) {α : Type} (p : κ × α) (l : List (κ × α))
    (k : κ) :
    (List.orderedInsert (fun p q => le p.1 q.1 = true) p l).lookup k = (p :: l).lookup k := by
  induction l with
  | nil => rfl
  | cons q l ih =>
    rw [List.orderedInsert_cons]
    split_ifs with h
    · rfl
    · have hne : q.1 ≠ p.1 := fun heq => h (heq ▸ hle q.1)
      rw [List.lookup_cons, ih, List.lookup_cons, List.lookup_cons, List.lookup_cons]
      by_cases hq : k = q.1
      · have hp : (k == p.1) = false := by rw [hq, beq_eq_false_iff_ne]; exact hne
        rw [hp, beq_iff_eq.mpr hq]
      · rw [beq_eq_false_iff_ne.mpr hq]

mutual

/-- Sorting the keys leaves an equal value. -/
theorem Json.equal_sortKeys (hle : ∀ k, le k k = true) :
    ∀ v : Json κ τ, v.Equal (v.sortKeys le)
  | .null => .refl _
  | .bool _ => .refl _
  | .int _ => .refl _
  | .num _ => .refl _
  | .str _ => .refl _
  | .arr items => .arr (Json.equal_sortItems hle items)
  | .obj items => .obj (Json.equal_sortFields hle items)

theorem Json.equal_sortItems (hle : ∀ k, le k k = true) :
    ∀ vs : List (Json κ τ), List.Forall₂ Json.Equal vs (Json.sortItems le vs)
  | [] => .nil
  | v :: vs => .cons (Json.equal_sortKeys hle v) (Json.equal_sortItems hle vs)

theorem Json.equal_sortFields (hle : ∀ k, le k k = true) :
    ∀ (fields : List (κ × Json κ τ)) (k : κ),
      Option.Rel Json.Equal (fields.lookup k) ((Json.sortFields le fields).lookup k)
  | [], k => .none
  | (k', v) :: rest, k => by
    rw [Json.sortFields, lookup_orderedInsert hle, List.lookup_cons, List.lookup_cons]
    by_cases hk : k = k'
    · rw [beq_iff_eq.mpr hk]
      exact .some (Json.equal_sortKeys hle v)
    · rw [beq_eq_false_iff_ne.mpr hk]
      exact Json.equal_sortFields hle rest k

end

end Sentinel.Logic
