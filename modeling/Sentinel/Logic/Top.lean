import Mathlib.Data.Finset.Card
import Mathlib.Data.List.Sort
import Sentinel.Logic.OrderedMap

/-!
# The first `n` of a list by rank

A list with keys is ordered by rank, highest first, cut off after `n` elements and then keyed, the
later of two elements with one key taking the place of the earlier.

* `IsTop`: a map of the best good elements, as many as there are keys of good elements, up to `n`.
* `isTop_keyBy_iff`: the first `n` elements are such a map just if those that stay are good and either
  no key is among the first `n` twice, or no key of a good element is missing among them.
-/

namespace Sentinel.Logic

namespace OrderedMap

variable {κ ν : Type} [DecidableEq κ] {key : ν → κ} {k : κ} {xs : List ν}

/-- The elements of a list under their keys. -/
def keyBy (key : ν → κ) (xs : List ν) : OrderedMap κ ν :=
  xs.foldl (fun m x => m.set (key x) x) empty

theorem keyBy_concat {x : ν} : keyBy key (xs ++ [x]) = (keyBy key xs).set (key x) x :=
  List.foldl_concat _ _ _ _

/-- The last element with the key is found. -/
theorem get_keyBy : (keyBy key xs).get k = xs.reverse.find? fun x => key x = k := by
  induction xs using List.reverseRecOn with
  | nil => rfl
  | append_singleton xs x hold =>
    rw [keyBy_concat, get_set, List.reverse_concat, List.find?_cons]
    by_cases h : k = key x
    · rw [if_pos h, decide_eq_true h.symm]
    · rw [if_neg h, decide_eq_false (Ne.symm h), hold]

theorem mem_keys_keyBy : k ∈ (keyBy key xs).keys ↔ k ∈ xs.map key := by
  rw [mem_keys_iff, get_keyBy, List.find?_isSome]
  simp

theorem length_items : (keyBy key xs).items.length = (xs.map key).toFinset.card := by
  have hkeys : (keyBy key xs).keys.toFinset = (xs.map key).toFinset := by
    ext k
    rw [List.mem_toFinset, List.mem_toFinset, mem_keys_keyBy]
  have hcard : (keyBy key xs).keys.toFinset.card = (keyBy key xs).keys.length :=
    List.toFinset_card_of_nodup (keyBy key xs).nodup
  rw [← hkeys, hcard]
  exact (List.length_map _).symm

theorem get_keyBy_mem {x : ν} (h : (keyBy key xs).get k = some x) : x ∈ xs ∧ key x = k := by
  rw [get_keyBy] at h
  have hkey : decide (key x = k) = true := List.find?_some (p := fun x => decide (key x = k)) h
  exact ⟨List.mem_reverse.1 (List.mem_of_find?_eq_some h), of_decide_eq_true hkey⟩

/-- Keyed after a function that keeps the keys. -/
theorem get_keyBy_map {μ : Type} {key' : μ → κ} {f : ν → μ} (hkey : ∀ x, key' (f x) = key x) :
    (keyBy key' (xs.map f)).get k = ((keyBy key xs).get k).map f := by
  rw [get_keyBy, get_keyBy, ← List.map_reverse, List.find?_map]
  refine congrArg (fun p => (xs.reverse.find? p).map f) (funext fun x => ?_)
  show decide (key' (f x) = k) = decide (key x = k)
  rw [hkey]

theorem length_keyBy_map {μ : Type} {key' : μ → κ} {f : ν → μ} (hkey : ∀ x, key' (f x) = key x) :
    (keyBy key' (xs.map f)).items.length = (keyBy key xs).items.length := by
  rw [length_items, length_items, List.map_map]
  exact congrArg (fun g => (xs.map g).toFinset.card) (funext hkey)

end OrderedMap

open OrderedMap

section Top

variable {α κ β : Type} [DecidableEq κ] [LinearOrder β]
variable (key : α → κ) (rank : α → β) (good : α → Bool)

def byRank (xs : List α) : List α := xs.insertionSort fun a b => rank b ≤ rank a

/-- The first `n` by rank. -/
def firsts (n : ℕ) (xs : List α) : List α := (byRank rank xs).take n

/-- The keys of the good elements. -/
def goodKeys (xs : List α) : Finset κ := ((xs.filter good).map key).toFinset

structure IsTop (n : ℕ) (xs : List α) (m : OrderedMap κ α) : Prop where
  count : m.items.length = min n (goodKeys key good xs).card
  found : ∀ k x, m.get k = some x → x ∈ xs ∧ good x = true ∧ key x = k
  best : ∀ x ∈ xs, good x = true → m.get (key x) = none → ∀ k, (m.get k).isSome = true →
    ∃ y ∈ xs, good y = true ∧ key y = k ∧ rank x ≤ rank y

variable {key} {rank} {good} {n : ℕ} {xs : List α}

theorem mem_goodKeys {k : κ} : k ∈ goodKeys key good xs ↔ ∃ x ∈ xs, good x = true ∧ key x = k := by
  unfold goodKeys
  simp [and_assoc]

theorem mem_of_mem_firsts {x : α} (h : x ∈ firsts rank n xs) : x ∈ xs :=
  (List.mem_insertionSort _).1 (List.mem_of_mem_take h)

/-- What is cut off ranks no higher than what is not. -/
theorem rank_le_of_cut {x y : α} (hx : x ∈ xs) (hcut : x ∉ firsts rank n xs)
    (hy : y ∈ firsts rank n xs) : rank x ≤ rank y := by
  have hsorted : (byRank rank xs).Pairwise fun a b => rank b ≤ rank a :=
    List.pairwise_insertionSort _ _
  have hmem : x ∈ byRank rank xs := (List.mem_insertionSort _).2 hx
  rw [← List.take_append_drop n (byRank rank xs)] at hsorted hmem
  exact (List.pairwise_append.1 hsorted).2.2 y hy x ((List.mem_append.1 hmem).resolve_left hcut)

theorem length_firsts : (firsts rank n xs).length = min n xs.length := by
  unfold firsts byRank
  rw [List.length_take, List.length_insertionSort]

/-- As many keys as elements: no key is there twice. -/
theorem nodup_of_card {ks : List κ} (h : ks.length ≤ ks.toFinset.card) : ks.Nodup := by
  rw [List.card_toFinset] at h
  exact List.dedup_eq_self.1 ((List.dedup_sublist ks).eq_of_length_le h)

/-- The keys of the first `n` are all keys of good elements, if those that stay are good. -/
theorem firsts_subset (hgood : ∀ k x, (keyBy key (firsts rank n xs)).get k = some x → good x = true) :
    ((firsts rank n xs).map key).toFinset ⊆ goodKeys key good xs := by
  intro k hk
  rw [List.mem_toFinset, ← mem_keys_keyBy, mem_keys_iff] at hk
  obtain ⟨x, hx⟩ := Option.isSome_iff_exists.1 hk
  obtain ⟨hmem, hkey⟩ := get_keyBy_mem hx
  exact mem_goodKeys.2 ⟨x, mem_of_mem_firsts hmem, hgood k x hx, hkey⟩

theorem isTop_keyBy_iff :
    IsTop key rank good n xs (keyBy key (firsts rank n xs)) ↔
      (∀ k x, (keyBy key (firsts rank n xs)).get k = some x → good x = true) ∧
        (((firsts rank n xs).map key).Nodup ∨
          ∀ x ∈ xs, good x = true → key x ∈ (firsts rank n xs).map key) := by
  constructor
  · intro htop
    have hgood : ∀ k x, (keyBy key (firsts rank n xs)).get k = some x → good x = true :=
      fun k x hx => (htop.found k x hx).2.1
    refine ⟨hgood, ?_⟩
    have hcount := htop.count
    rw [length_items] at hcount
    rcases min_cases n (goodKeys key good xs).card with ⟨hmin, -⟩ | ⟨hmin, -⟩
    · left
      have hlength : ((firsts rank n xs).map key).length ≤ n := by
        rw [List.length_map, length_firsts]
        exact min_le_left _ _
      refine nodup_of_card ?_
      omega
    · right
      have hall := Finset.eq_of_subset_of_card_le (firsts_subset hgood) (by omega)
      intro x hx hgoodx
      rw [← List.mem_toFinset, hall]
      exact mem_goodKeys.2 ⟨x, hx, hgoodx, rfl⟩
  · rintro ⟨hgood, hcases⟩
    have hsubset := firsts_subset hgood
    refine ⟨?_, fun k x hx => ?_, fun x hx hgoodx hout k hk => ?_⟩
    · rw [length_items]
      rcases hcases with hnodup | hcover
      · have hcard := List.toFinset_card_of_nodup hnodup
        rw [List.length_map, length_firsts] at hcard
        have hle := Finset.card_le_card hsubset
        rcases min_cases n xs.length with ⟨hmin, -⟩ | ⟨hmin, hlt⟩
        · omega
        · -- nothing is cut off
          have hall : goodKeys key good xs ⊆ ((firsts rank n xs).map key).toFinset := by
            intro k hk
            obtain ⟨x, hx, -, rfl⟩ := mem_goodKeys.1 hk
            refine List.mem_toFinset.2 (List.mem_map_of_mem ?_)
            unfold firsts byRank
            rw [List.take_of_length_le (by rw [List.length_insertionSort]; exact hlt.le)]
            exact (List.mem_insertionSort _).2 hx
          have hge := Finset.card_le_card hall
          omega
      · have hall : goodKeys key good xs ⊆ ((firsts rank n xs).map key).toFinset := by
          intro k hk
          obtain ⟨x, hx, hgoodx, rfl⟩ := mem_goodKeys.1 hk
          exact List.mem_toFinset.2 (hcover x hx hgoodx)
        have hlength := List.toFinset_card_le ((firsts rank n xs).map key)
        rw [List.length_map, length_firsts] at hlength
        have hle := Finset.card_le_card hsubset
        have hge := Finset.card_le_card hall
        have hmin := min_le_left n xs.length
        omega
    · obtain ⟨hmem, hkey⟩ := get_keyBy_mem hx
      exact ⟨mem_of_mem_firsts hmem, hgood k x hx, hkey⟩
    · obtain ⟨y, hy⟩ := Option.isSome_iff_exists.1 hk
      obtain ⟨hmem, hkey⟩ := get_keyBy_mem hy
      refine ⟨y, mem_of_mem_firsts hmem, hgood k y hy, hkey, rank_le_of_cut hx (fun hin => ?_) hmem⟩
      have hsome : key x ∈ (keyBy key (firsts rank n xs)).keys :=
        mem_keys_keyBy.2 (List.mem_map_of_mem hin)
      rw [mem_keys_iff, hout] at hsome
      exact nomatch hsome

end Top

end Sentinel.Logic
