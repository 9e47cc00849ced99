import Mathlib.Algebra.Order.Group.Int
import Sentinel.Logic.OrderedMap

/-!
# Pauses

Things of several kinds come up as time passes.  One that is let through makes its kind pause for a
while, and until then no other of the kind is let through.

* `Free`: whether a kind may pass, told from all that have passed before.
* `Pauses`: a map from the kinds to the ends of their pauses says the same.
-/

namespace Sentinel.Logic

variable {κ : Type}

/-- What has passed is listed with its time and its kind.  Before time zero nothing passes. -/
def Free (pause : ℤ) (passed : List (ℤ × κ)) (kind : κ) (now : ℤ) : Prop :=
  0 ≤ now ∧ ∀ p ∈ passed, p.2 = kind → p.1 + pause ≤ now

variable {pause clock now : ℤ} {passed passed' : List (ℤ × κ)} {kind : κ} {kinds : List κ}

instance [DecidableEq κ] :
    Decidable (Free pause passed kind now) := inferInstanceAs (Decidable (_ ∧ _))

theorem Free.perm (h : passed.Perm passed') :
    Free pause passed kind now ↔ Free pause passed' kind now := by
  unfold Free
  simp only [h.mem_iff]

theorem free_append : Free pause (passed ++ passed') kind now ↔
    Free pause passed kind now ∧ ∀ p ∈ passed', p.2 = kind → p.1 + pause ≤ now := by
  unfold Free
  rw [List.forall_mem_append, and_assoc]

variable [DecidableEq κ] {ends ends' : OrderedMap κ ℤ}

structure Pauses (pause : ℤ) (ends : OrderedMap κ ℤ) (passed : List (ℤ × κ)) (clock : ℤ) : Prop where
  past : ∀ p ∈ passed, p.1 ≤ clock
  agrees : ∀ kind now, clock ≤ now → ((ends.get kind).getD 0 ≤ now ↔ Free pause passed kind now)

theorem pauses_empty : Pauses pause (.empty : OrderedMap κ ℤ) [] clock where
  past _ h := absurd h List.not_mem_nil
  agrees kind now _ := by
    rw [OrderedMap.get_empty, Option.getD_none]
    exact ⟨fun h => ⟨h, fun _ hp => absurd hp List.not_mem_nil⟩, And.left⟩

theorem Pauses.mono (h : Pauses pause ends passed clock) (hle : clock ≤ now) :
    Pauses pause ends passed now where
  past p hp := (h.past p hp).trans hle
  agrees kind later hlater := h.agrees kind later (hle.trans hlater)

/-- Several kinds pass at one time. -/
theorem Pauses.pass (h : Pauses pause ends passed clock) (hclock : clock ≤ now)
    (hends : ∀ kind, ends'.get kind = if kind ∈ kinds then some (now + pause) else ends.get kind)
    (hfree : ∀ kind ∈ kinds, 0 ≤ now) :
    Pauses pause ends' (passed ++ kinds.map fun kind => (now, kind)) now where
  past p hp := by
    rcases List.mem_append.mp hp with hp | hp
    · exact (h.past p hp).trans hclock
    · obtain ⟨kind, -, rfl⟩ := List.mem_map.mp hp
      exact le_rfl
  agrees kind later hlater := by
    rw [free_append, hends]
    split_ifs with hkind
    · rw [Option.getD_some]
      constructor
      · intro hle
        -- those that passed before now have paused for long enough when this one has
        refine ⟨⟨(hfree kind hkind).trans hlater, fun p hp _ => ?_⟩, fun p hp _ => ?_⟩
        · have hpast := h.past p hp
          omega
        · obtain ⟨_, -, rfl⟩ := List.mem_map.mp hp
          exact hle
      · rintro ⟨-, hnow⟩
        exact hnow _ (List.mem_map_of_mem hkind) rfl
    · rw [h.agrees kind later (hclock.trans hlater)]
      refine ⟨fun hbefore => ⟨hbefore, fun p hp heq => ?_⟩, And.left⟩
      obtain ⟨other, hother, rfl⟩ := List.mem_map.mp hp
      exact absurd (heq ▸ hother) hkind

end Sentinel.Logic
