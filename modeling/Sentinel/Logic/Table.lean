import Mathlib.Data.List.Nodup

/-!
# Tables

A table is a list of rows in the order of their insertion.  A query for one row is `List.find?`,
an `INSERT` appends, and an `UPDATE ... WHERE` is `updateWhere`.
-/

namespace Sentinel.Logic

variable {ρ κ : Type}

/-- `UPDATE rows SET f WHERE p`. -/
def updateWhere (p : ρ → Bool) (f : ρ → ρ) (rows : List ρ) : List ρ :=
  rows.map fun r => if p r then f r else r

variable {p q : ρ → Bool} {f : ρ → ρ} {rows : List ρ} {r r' : ρ}

theorem mem_updateWhere :
    r' ∈ updateWhere p f rows ↔ ∃ r ∈ rows, (if p r then f r else r) = r' := by
  simp [updateWhere]

theorem mem_updateWhere_of_mem (h : r ∈ rows) : (if p r then f r else r) ∈ updateWhere p f rows :=
  mem_updateWhere.mpr ⟨r, h, rfl⟩

/-- An update that leaves a column alone leaves the column of the table alone. -/
theorem map_updateWhere {c : ρ → κ} (hc : ∀ r, c (f r) = c r) :
    (updateWhere p f rows).map c = rows.map c := by
  rw [updateWhere, List.map_map]
  refine List.map_congr_left fun r _ => ?_
  simp only [Function.comp_apply]
  split_ifs
  · exact hc r
  · rfl

theorem nodup_updateWhere {c : ρ → κ} (hc : ∀ r, c (f r) = c r) (h : (rows.map c).Nodup) :
    ((updateWhere p f rows).map c).Nodup := by
  rw [map_updateWhere hc]
  exact h

/-- A query for a column that the update leaves alone finds the same row, updated. -/
theorem find?_updateWhere (hq : ∀ r, q (f r) = q r) :
    (updateWhere p f rows).find? q = (rows.find? q).map fun r => if p r then f r else r := by
  rw [updateWhere, List.find?_map]
  congr 1
  refine congrArg (fun q' => List.find? q' rows) (funext fun r => ?_)
  simp only [Function.comp_apply]
  split_ifs
  · exact hq r
  · rfl

/-- What a query finds it still finds after an insertion. -/
theorem find?_append_of_some (h : rows.find? q = some r) (new : List ρ) :
    (rows ++ new).find? q = some r := by
  rw [List.find?_append, h, Option.some_or]

theorem find?_append_of_none (h : rows.find? q = none) :
    (rows ++ [r]).find? q = if q r then some r else none := by
  rw [List.find?_append, h, Option.none_or, List.find?_singleton]

/-- A column without repetitions stays so when the inserted value is new. -/
theorem nodup_append_new {c : ρ → κ} (h : (rows.map c).Nodup) (hnew : ∀ r' ∈ rows, c r' ≠ c r) :
    ((rows ++ [r]).map c).Nodup := by
  rw [List.map_append, List.nodup_append]
  refine ⟨h, by simp, ?_⟩
  intro a ha b hb
  obtain ⟨r', hr', rfl⟩ := List.mem_map.mp ha
  obtain rfl : b = c r := by simpa using hb
  exact hnew r' hr'

/-- In a table whose column has no repetitions a row is what the query for its value finds. -/
theorem find?_eq_of_mem [DecidableEq κ] {c : ρ → κ} (h : (rows.map c).Nodup) (hr : r ∈ rows) :
    rows.find? (fun x => c x = c r) = some r := by
  induction rows with
  | nil => simp at hr
  | cons x rows ih =>
    rw [List.map_cons, List.nodup_cons] at h
    rcases List.mem_cons.mp hr with rfl | hr
    · simp
    · have hne : c x ≠ c r := fun heq => h.1 (heq ▸ List.mem_map_of_mem hr)
      rw [List.find?_cons_of_neg (by simpa using hne)]
      exact ih h.2 hr

theorem eq_of_nodup {c : ρ → κ} (h : (rows.map c).Nodup) (hr : r ∈ rows) (hr' : r' ∈ rows)
    (heq : c r = c r') : r = r' :=
  List.inj_on_of_nodup_map h hr hr' heq

/-- A filter for the value that a row has in a column without repetitions leaves that row. -/
theorem filter_eq_singleton {c : ρ → κ} (h : (rows.map c).Nodup) (hr : r ∈ rows)
    (hp : ∀ r' ∈ rows, p r' = true ↔ c r' = c r) : rows.filter p = [r] := by
  induction rows with
  | nil => simp at hr
  | cons x rows ih =>
    rw [List.map_cons, List.nodup_cons] at h
    have hp' : ∀ r' ∈ rows, p r' = true ↔ c r' = c r :=
      fun r' hr' => hp r' (List.mem_cons_of_mem _ hr')
    rcases List.mem_cons.mp hr with rfl | hr
    · have hnone : rows.filter p = [] := by
        rw [List.filter_eq_nil_iff]
        intro r' hr' hpr'
        exact h.1 ((hp' r' hr').mp hpr' ▸ List.mem_map_of_mem hr')
      rw [List.filter_cons_of_pos ((hp r (by simp)).mpr rfl), hnone]
    · have hx : ¬ p x = true := fun hpx =>
        h.1 ((hp x (by simp)).mp hpx ▸ List.mem_map_of_mem hr)
      rw [List.filter_cons_of_neg hx]
      exact ih h.2 hr hp'

end Sentinel.Logic
