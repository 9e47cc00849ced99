import Mathlib.Data.List.Nodup

/-!
# Maps in the order of insertion

A map whose keys keep the order in which they were first set: `set` on a key that is there changes
its value in place, on a new key it appends.
-/

namespace Sentinel.Logic

variable {κ ν μ : Type}

structure OrderedMap (κ ν : Type) : Type where
  items : List (κ × ν)
  nodup : (items.map Prod.fst).Nodup

namespace OrderedMap

def empty : OrderedMap κ ν := ⟨[], List.nodup_nil⟩

def keys (m : OrderedMap κ ν) : List κ := m.items.map Prod.fst

variable [DecidableEq κ] {m m' : OrderedMap κ ν} {k k' : κ} {v v' : ν}

def get (m : OrderedMap κ ν) (k : κ) : Option ν := m.items.lookup k

/-- Set the value of a key in a list of items. -/
def setIn (k : κ) (v : ν) : List (κ × ν) → List (κ × ν)
  | [] => [(k, v)]
  | (k', v') :: items => if k' = k then (k, v) :: items else (k', v') :: setIn k v items

theorem mem_keys_setIn {items : List (κ × ν)} :
    k' ∈ (setIn k v items).map Prod.fst ↔ k' = k ∨ k' ∈ items.map Prod.fst := by
  induction items with
  | nil => simp [setIn]
  | cons item items ih =>
    obtain ⟨k₀, v₀⟩ := item
    by_cases h : k₀ = k
    · subst h
      simp [setIn]
    · rw [setIn, if_neg h, List.map_cons, List.map_cons, List.mem_cons, List.mem_cons, ih]
      exact or_left_comm

theorem nodup_setIn {items : List (κ × ν)} (h : (items.map Prod.fst).Nodup) :
    ((setIn k v items).map Prod.fst).Nodup := by
  induction items with
  | nil => simp [setIn]
  | cons item items ih =>
    obtain ⟨k₀, v₀⟩ := item
    obtain ⟨hnew, hrest⟩ := List.nodup_cons.mp h
    by_cases hk : k₀ = k
    · subst hk
      rw [setIn, if_pos rfl]
      exact List.nodup_cons.mpr ⟨hnew, hrest⟩
    · rw [setIn, if_neg hk]
      refine List.nodup_cons.mpr ⟨fun hmem => ?_, ih hrest⟩
      exact (mem_keys_setIn.mp hmem).elim hk hnew

def set (m : OrderedMap κ ν) (k : κ) (v : ν) : OrderedMap κ ν :=
  ⟨setIn k v m.items, nodup_setIn m.nodup⟩

/-- Only the keys for which `p` holds. -/
def filterKeys (m : OrderedMap κ ν) (p : κ → Bool) : OrderedMap κ ν :=
  ⟨m.items.filter fun item => p item.1,
    m.nodup.sublist ((List.filter_sublist (l := m.items)).map Prod.fst)⟩

def erase (m : OrderedMap κ ν) (k : κ) : OrderedMap κ ν := m.filterKeys fun k' => k' ≠ k

/-! ## What is found -/

@[simp] theorem get_empty : (empty : OrderedMap κ ν).get k = none := rfl

theorem lookup_cons_if {items : List (κ × ν)} :
    ((k', v) :: items).lookup k = if k = k' then some v else items.lookup k := by
  by_cases h : k = k'
  · subst h
    simp
  · have hne : (k == k') = false := by simpa using h
    rw [List.lookup_cons, hne, if_neg h]

theorem lookup_setIn {items : List (κ × ν)} :
    (setIn k v items).lookup k' = if k' = k then some v else items.lookup k' := by
  induction items with
  | nil => exact lookup_cons_if
  | cons item items ih =>
    obtain ⟨k₀, v₀⟩ := item
    rw [lookup_cons_if, setIn]
    by_cases hk : k₀ = k
    · subst hk
      rw [if_pos rfl, lookup_cons_if]
      split_ifs <;> rfl
    · rw [if_neg hk, lookup_cons_if, ih]
      by_cases h : k' = k₀
      · subst h
        rw [if_pos rfl, if_pos rfl, if_neg hk]
      · rw [if_neg h, if_neg h]

theorem get_set : (m.set k v).get k' = if k' = k then some v else m.get k' := lookup_setIn

@[simp] theorem get_set_self : (m.set k v).get k = some v := by
  rw [get_set, if_pos rfl]

theorem get_set_ne (h : k' ≠ k) : (m.set k v).get k' = m.get k' := by
  rw [get_set, if_neg h]

theorem lookup_filter {items : List (κ × ν)} {p : κ → Bool} :
    (items.filter fun item => p item.1).lookup k = if p k then items.lookup k else none := by
  induction items with
  | nil => simp
  | cons item items ih =>
    obtain ⟨k₀, v₀⟩ := item
    rw [lookup_cons_if, List.filter_cons]
    by_cases hk : k = k₀
    · subst hk
      by_cases hp : p k = true
      · simp [hp]
      · simp [hp, ih]
    · rw [if_neg hk]
      split_ifs with hp hk'
      · rw [lookup_cons_if, if_neg hk, ih, if_pos hk']
      · rw [lookup_cons_if, if_neg hk, ih, if_neg hk']
      · rw [ih, if_pos (by assumption)]
      · rw [ih, if_neg (by assumption)]

theorem get_filterKeys {p : κ → Bool} :
    (m.filterKeys p).get k = if p k then m.get k else none := lookup_filter

theorem get_erase : (m.erase k).get k' = if k' = k then none else m.get k' := by
  rw [erase, get_filterKeys]
  by_cases h : k' = k <;> simp [h]

theorem lookup_eq_some_iff {items : List (κ × ν)} (h : (items.map Prod.fst).Nodup) :
    items.lookup k = some v ↔ (k, v) ∈ items := by
  induction items with
  | nil => simp
  | cons item items ih =>
    obtain ⟨k₀, v₀⟩ := item
    obtain ⟨hnew, hrest⟩ := List.nodup_cons.mp h
    by_cases hk : k = k₀
    · subst hk
      have hnotin : (k, v) ∉ items := fun hmem => hnew (List.mem_map.mpr ⟨_, hmem, rfl⟩)
      rw [lookup_cons_if, if_pos rfl]
      simp [hnotin, eq_comm]
    · rw [lookup_cons_if, if_neg hk, ih hrest]
      simp [hk]

/-- What is found is an item. -/
theorem get_eq_some_iff : m.get k = some v ↔ (k, v) ∈ m.items := lookup_eq_some_iff m.nodup

theorem mem_keys_iff : k ∈ m.keys ↔ (m.get k).isSome := by
  rw [Option.isSome_iff_exists]
  constructor
  · intro h
    obtain ⟨⟨k', v⟩, hmem, rfl⟩ := List.mem_map.mp h
    exact ⟨v, get_eq_some_iff.mpr hmem⟩
  · rintro ⟨v, h⟩
    exact List.mem_map.mpr ⟨(k, v), get_eq_some_iff.mp h, rfl⟩

/-! ## Changing the values -/

/-- Every value replaced by a function of its key and itself. -/
def mapItems (m : OrderedMap κ ν) (f : κ → ν → μ) : OrderedMap κ μ :=
  ⟨m.items.map fun item => (item.1, f item.1 item.2), by
    rw [List.map_map]
    exact m.nodup⟩

theorem lookup_map {items : List (κ × ν)} {f : κ → ν → μ} :
    (items.map fun item => (item.1, f item.1 item.2)).lookup k = (items.lookup k).map (f k) := by
  induction items with
  | nil => rfl
  | cons item items ih =>
    obtain ⟨k₀, v₀⟩ := item
    rw [List.map_cons, lookup_cons_if, lookup_cons_if]
    split_ifs with hk
    · rw [hk, Option.map_some]
    · exact ih

@[simp] theorem get_mapItems {f : κ → ν → μ} : (m.mapItems f).get k = (m.get k).map (f k) :=
  lookup_map

theorem get_mapItems_eq_none {f : κ → ν → μ} : (m.mapItems f).get k = none ↔ m.get k = none := by
  rw [get_mapItems, Option.map_eq_none_iff]

/-- The value of a key changed, if it has one. -/
def modify (m : OrderedMap κ ν) (f : ν → ν) (k : κ) : OrderedMap κ ν :=
  match m.get k with
  | none => m
  | some v => m.set k (f v)

theorem get_modify {f : ν → ν} :
    (m.modify f k).get k' = if k' = k then (m.get k).map f else m.get k' := by
  rw [modify]
  cases h : m.get k with
  | none =>
    split_ifs with hk
    · rw [hk, h]
      rfl
    · rfl
  | some v => rw [get_set, Option.map_some]

/-- Changing the values of several keys one after the other, some perhaps more than once. -/
theorem get_foldl_modify {f : ν → ν} (hf : ∀ v, f (f v) = f v) (ks : List κ) :
    (ks.foldl (fun m k => m.modify f k) m).get k =
      if k ∈ ks then (m.get k).map f else m.get k := by
  induction ks generalizing m with
  | nil => simp
  | cons k₀ ks ih =>
    rw [List.foldl_cons, ih, get_modify]
    by_cases hk : k = k₀
    · subst hk
      rw [if_pos rfl, if_pos List.mem_cons_self]
      split_ifs
      · rw [Option.map_map]
        exact congrArg (fun g => (m.get k).map g) (funext hf)
      · rfl
    · rw [if_neg hk]
      refine if_congr ?_ rfl rfl
      rw [List.mem_cons, or_iff_right hk]

end OrderedMap

end Sentinel.Logic
