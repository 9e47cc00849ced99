import Mathlib.Algebra.Order.Group.Nat
import Mathlib.Data.List.Basic
import Mathlib.Order.Monotone.Basic

/-!
# Reading a list page by page

A list is read in batches until one is empty or shorter than a page.  The list may change from one
batch to the next.

* `collect`: the elements of the batches.
* `collect_isSome`: the reading ends if the list does not grow for ever.
* `mem_of_collect`: an element that never moves up the list is read.
* `collect_fixed`: a list that does not change is read as it is.
-/

namespace Sentinel.Logic

variable {α : Type}

/-- From batch number `k` on; looks at `fuel` batches. -/
def collect (size : ℕ) (batch : ℕ → List α) : ℕ → ℕ → List α → Option (List α)
  | 0, _, _ => none
  | fuel + 1, k, read =>
    if batch k = [] then some read
    else if (batch k).length < size then some (read ++ batch k)
    else collect size batch fuel (k + 1) (read ++ batch k)

/-- Batch number `k` of a list that is `lists k` when it is read. -/
def page (size : ℕ) (lists : ℕ → List α) (k : ℕ) : List α :=
  ((lists k).drop (k * size)).take size

variable {size fuel k : ℕ} {lists : ℕ → List α} {read out : List α}

theorem length_page : (page size lists k).length = min size ((lists k).length - k * size) := by
  rw [page, List.length_take, List.length_drop]

theorem collect_isSome {bound : ℕ} (hbound : ∀ k, (lists k).length ≤ bound)
    (hfuel : bound < (k + fuel) * size) (hk : k * size ≤ bound) :
    (collect size (page size lists) fuel k read).isSome := by
  induction fuel generalizing k read with
  | zero =>
    rw [Nat.add_zero] at hfuel
    omega
  | succ fuel ih =>
    rw [collect]
    split_ifs with hempty hshort
    · rfl
    · rfl
    · have hlength : (page size lists k).length = _ := length_page
      have hle := hbound k
      have hnext : (k + 1) * size = k * size + size := Nat.succ_mul k size
      refine ih ?_ ?_
      · rw [show k + 1 + fuel = k + (fuel + 1) by omega]
        exact hfuel
      · omega

/-- The place of an element is in the page, or in a later one. -/
theorem mem_page {x : α} {i : ℕ} (hx : (lists k)[i]? = some x) (hle : k * size ≤ i)
    (hlt : i < k * size + size) : x ∈ page size lists k := by
  refine List.mem_of_getElem? (i := i - k * size) ?_
  rw [page, List.getElem?_take_of_lt (by omega), List.getElem?_drop, Nat.add_sub_cancel' hle]
  exact hx

/-- Whatever else happens to the list: what never moves up is read.  It may change otherwise, as
long as `P` holds of it. -/
theorem mem_of_collect (hsize : 0 < size) {P : α → Prop} {place : ℕ → ℕ} (hplace : Monotone place)
    (hx : ∀ k, ∃ x, (lists k)[place k]? = some x ∧ P x)
    (hk : (∃ x ∈ read, P x) ∨ k * size ≤ place k)
    (h : collect size (page size lists) fuel k read = some out) : ∃ x ∈ out, P x := by
  induction fuel generalizing k read with
  | zero => cases h
  | succ fuel ih =>
    obtain ⟨x, hget, hP⟩ := hx k
    have hlt : place k < (lists k).length := (List.getElem?_eq_some_iff.mp hget).1
    have hlength : (page size lists k).length = _ := length_page
    have hnext : (k + 1) * size = k * size + size := Nat.succ_mul k size
    have hmono : place k ≤ place (k + 1) := hplace (Nat.le_succ k)
    have hread : (∃ x ∈ read ++ page size lists k, P x) ∨ k * size + size ≤ place k := by
      rcases hk with ⟨y, hy, hPy⟩ | hle
      · exact .inl ⟨y, List.mem_append_left _ hy, hPy⟩
      · by_cases hthere : place k < k * size + size
        · exact .inl ⟨x, List.mem_append_right _ (mem_page hget hle hthere), hP⟩
        · exact .inr (by omega)
    rw [collect] at h
    split_ifs at h with hempty hshort
    · obtain rfl := Option.some.inj h
      rw [hempty, List.append_nil] at hread
      rw [hempty, List.length_nil] at hlength
      exact hread.resolve_right (by omega)
    · obtain rfl := Option.some.inj h
      exact hread.resolve_right (by omega)
    · refine ih (hread.imp_right fun hle => ?_) h
      omega

theorem take_append_page {all : List α} :
    all.take (k * size) ++ page size (fun _ => all) k = all.take ((k + 1) * size) := by
  rw [page, Nat.succ_mul, List.take_add]

theorem collect_fixed (hsize : 0 < size) {all : List α} (hread : read = all.take (k * size))
    (h : collect size (page size fun _ => all) fuel k read = some out) : out = all := by
  induction fuel generalizing k read with
  | zero => cases h
  | succ fuel ih =>
    have hlength : (page size (fun _ => all) k).length = _ := length_page
    have hnext : (k + 1) * size = k * size + size := Nat.succ_mul k size
    subst hread
    rw [collect] at h
    split_ifs at h with hempty hshort
    · obtain rfl := Option.some.inj h
      rw [hempty, List.length_nil] at hlength
      exact List.take_of_length_le (by omega)
    · obtain rfl := Option.some.inj h
      rw [take_append_page]
      exact List.take_of_length_le (by omega)
    · exact ih take_append_page h

end Sentinel.Logic
