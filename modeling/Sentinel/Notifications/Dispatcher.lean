import Mathlib.Algebra.Order.Group.Abs
import Mathlib.Algebra.Order.Ring.Rat
import Sentinel.Logic.Greatest
import Sentinel.Logic.OrderedMap
import Sentinel.Logic.PyFloat
import Sentinel.Processing.Alerts

/-!
# Which alerts are dispatched

`NotificationDispatcher.select_for_dispatch` lets one alert of each event through, and none of an
event whose cooldown lies ahead.  The cooldown is compared with the latest alert of the whole batch,
but set from the alert that was chosen.

* `run`: the dispatcher over a sequence of batches, with all it has selected.
* `spaced_iff`: the alerts selected for one event are as far apart as the policy says just if no
  chosen alert lies before the cooldown of its event.
-/

namespace Sentinel.Notifications

open Logic Contracts Processing

structure AgentAlertPolicy : Type where
  allowedLevels : List AlertLevel
  excludedConfidences : List String
  excludedSignalSources : List String
  minPrice : ℚ
  maxPrice : ℚ
  minLiquidity : ℚ
  minAbsMove : ℚ
  eventDedupSec : ℤ

/-- `str` and `float` of a value of the market map; `float` is none where it raises. -/
structure Builtins : Type where
  str : JsonValue → String
  float : JsonValue → Option PyFloat

abbrev EventCooldowns : Type := OrderedMap String ℤ

/-! ## One batch -/

section Select

variable (py : Builtins) (policy : AgentAlertPolicy)

/-- `float(alert.market.get("liquidity", 0.0))`. -/
def liquidity (alert : ShiftAlert) : Option PyFloat :=
  py.float ((alert.market.lookup (.other "liquidity")).getD (.num 0))

/-- `abs(float(price_end) - float(price_start))`, with the rounding of the difference. -/
def absMove (alert : ShiftAlert) : ℚ :=
  |PyFloat.binary64.round (alert.shift.priceEnd - alert.shift.priceStart)|

/-- `_is_allowed`; none if it raises.  A liquidity that is not a number is not below the least. -/
def isAllowed (alert : ShiftAlert) : Option Bool :=
  (AlertLevel.ofValue alert.alertLevel).bind fun level =>
    if level ∉ policy.allowedLevels then some false
    else if alert.signalQuality.confidence.toLower ∈ policy.excludedConfidences then some false
    else if alert.signalQuality.signalSource.toLower ∈ policy.excludedSignalSources then some false
    else if alert.shift.priceCurrent < policy.minPrice ∨ policy.maxPrice < alert.shift.priceCurrent
      then some false
    else if absMove alert < policy.minAbsMove then some false
    else (liquidity py alert).map fun liquidity => !liquidity.ltRat policy.minLiquidity

def eligible : List ShiftAlert → Option (List ShiftAlert)
  | [] => some []
  | alert :: alerts => (isAllowed py policy alert).bind fun allowed =>
    (eligible alerts).map fun rest => if allowed then alert :: rest else rest

/-- `str(market.get("event_slug") or market.get("event_id") or market.get("asset_id"))`. -/
def eventKey (alert : ShiftAlert) : String :=
  py.str (JsonValue.orElse (alert.market.lookup (.other "event_slug"))
    (JsonValue.orElse (alert.market.lookup (.other "event_id"))
      ((alert.market.lookup (.other "asset_id")).getD .null)))

structure RankKey : Type where
  levelScore : ℤ
  confidenceScore : ℤ
  deltaPct : ℚ
  absMove : ℚ
  ticksInWindow : ℤ
  liquidity : PyFloat
  deriving DecidableEq

/-- `a > b` of tuples. -/
def RankKey.gt : RankKey → RankKey → Bool :=
  byFirst levelScore <| byFirst confidenceScore <| byFirst deltaPct <| byFirst absMove <|
    byFirst ticksInWindow fun a b => b.liquidity.lt a.liquidity

/-- `_rank_key`; an alert that is allowed has a level and a liquidity. -/
def rankKey (alert : ShiftAlert) : RankKey where
  levelScore := match AlertLevel.ofValue alert.alertLevel with
    | some .confirmation => 2
    | some .trend => 1
    | _ => 0
  confidenceScore := match alert.signalQuality.confidence.toLower with
    | "moderate" => 1
    | "strong" => 2
    | _ => 0
  deltaPct := alert.shift.deltaPct
  absMove := absMove alert
  ticksInWindow := alert.shift.ticksInWindow
  liquidity := (liquidity py alert).getD (.finite 0)

/-- The first alert ranks above the second. -/
def outranks (a b : ShiftAlert) : Bool := (rankKey py a).gt (rankKey py b)

def byEvent (alerts : List ShiftAlert) : OrderedMap String (List ShiftAlert) :=
  alerts.foldl (fun groups alert => groups.set (eventKey py alert)
    ((groups.get (eventKey py alert)).getD [] ++ [alert])) .empty

/-- `max((alert.timestamp_ms for alert in eligible), default=0)`. -/
def nowMs (alerts : List ShiftAlert) : ℤ := ((alerts.map ShiftAlert.timestampMs).max?).getD 0

/-- `max(group, key=self._rank_key)`. -/
def bestAlert (group : List ShiftAlert) : Option ShiftAlert := maxBy (outranks py) group

def dedupMs : ℤ := policy.eventDedupSec * 1000

/-- The loop over the groups. -/
def selectGroups (now : ℤ) : List (String × List ShiftAlert) → EventCooldowns →
    List ShiftAlert × EventCooldowns
  | [], cooldowns => ([], cooldowns)
  | (event, group) :: groups, cooldowns =>
    if now < (cooldowns.get event).getD 0 then selectGroups now groups cooldowns
    else match bestAlert py group with
      | none => selectGroups now groups cooldowns
      | some best =>
        let (selected, cooldowns) := selectGroups now groups
          (cooldowns.set event (best.timestampMs + dedupMs policy))
        (best :: selected, cooldowns)

/-- None if it raises, which it does before it looks at the cooldowns. -/
def selectForDispatch (cooldowns : EventCooldowns) (alerts : List ShiftAlert) :
    Option (List ShiftAlert × EventCooldowns) :=
  (eligible py policy alerts).map fun alerts =>
    selectGroups py policy (nowMs alerts) (byEvent py alerts).items cooldowns

end Select

/-! ## Ranks -/

theorem RankKey.strict_gt : Strict RankKey.gt := by
  have hliquidity : Strict fun a b : RankKey => b.liquidity.lt a.liquidity :=
    ⟨fun a => a.liquidity.lt_self, fun hab hbc => PyFloat.lt_of_lt_of_lt hbc hab⟩
  exact ((((hliquidity.byFirst _).byFirst _).byFirst _).byFirst _).byFirst _

theorem strict_outranks (py : Builtins) : Strict (outranks py) :=
  ⟨fun _ => RankKey.strict_gt.irrefl _, RankKey.strict_gt.trans⟩

/-- Ranks whose liquidities are numbers compare. -/
theorem RankKey.gt_total {a b : RankKey} (ha : a.liquidity ≠ .nan) (hb : b.liquidity ≠ .nan) :
    a.gt b = true ∨ a = b ∨ b.gt a = true := by
  refine byFirst_total fun h₁ => byFirst_total fun h₂ => byFirst_total fun h₃ =>
    byFirst_total fun h₄ => byFirst_total fun h₅ => ?_
  rcases PyFloat.lt_or_eq_or_lt ha hb with hlt | heq | hlt
  · exact .inr (.inr hlt)
  · refine .inr (.inl ?_)
    obtain ⟨l, c, d, m, t, q⟩ := a
    simp only at h₁ h₂ h₃ h₄ h₅ heq
    subst h₁ h₂ h₃ h₄ h₅ heq
    rfl
  · exact .inl hlt

/-! ## What is selected -/

section Selected

variable {py : Builtins} {policy : AgentAlertPolicy} {cooldowns : EventCooldowns}
  {alerts : List ShiftAlert} {now : ℤ}

/-- The alert that the loop takes from a group. -/
def chosenFrom (py : Builtins) (now : ℤ) (cooldowns : EventCooldowns)
    (item : String × List ShiftAlert) : Option ShiftAlert :=
  if now < (cooldowns.get item.1).getD 0 then none else bestAlert py item.2

/-- A cooldown set for one event leaves the choice from other groups alone. -/
theorem chosenFrom_set {event : String} {v : ℤ} {item : String × List ShiftAlert}
    (h : item.1 ≠ event) :
    chosenFrom py now (cooldowns.set event v) item = chosenFrom py now cooldowns item := by
  rw [chosenFrom, chosenFrom, OrderedMap.get_set_ne h]

theorem selectGroups_fst {groups : List (String × List ShiftAlert)}
    (h : (groups.map Prod.fst).Nodup) :
    (selectGroups py policy now groups cooldowns).1 =
      groups.filterMap (chosenFrom py now cooldowns) := by
  induction groups generalizing cooldowns with
  | nil => rfl
  | cons item groups ih =>
    obtain ⟨event, group⟩ := item
    obtain ⟨hnew, hrest⟩ := List.nodup_cons.mp h
    rw [selectGroups, List.filterMap_cons]
    have hchosen : chosenFrom py now cooldowns (event, group) =
      if now < (cooldowns.get event).getD 0 then none else bestAlert py group := rfl
    rw [hchosen]
    split_ifs with hlt
    · exact ih hrest
    · cases bestAlert py group with
      | none => exact ih hrest
      | some best =>
        refine congrArg (best :: ·) ((ih hrest).trans ?_)
        refine List.filterMap_congr fun item hitem => chosenFrom_set fun heq => hnew ?_
        exact List.mem_map.mpr ⟨item, hitem, heq⟩

theorem selectGroups_snd {groups : List (String × List ShiftAlert)}
    (h : (groups.map Prod.fst).Nodup) (event : String) :
    (selectGroups py policy now groups cooldowns).2.get event =
      (((groups.lookup event).bind fun group => chosenFrom py now cooldowns (event, group)).map
        fun best => best.timestampMs + dedupMs policy).or (cooldowns.get event) := by
  induction groups generalizing cooldowns with
  | nil => rfl
  | cons item groups ih =>
    obtain ⟨event', group⟩ := item
    obtain ⟨hnew, hrest⟩ := List.nodup_cons.mp h
    have hlookup : groups.lookup event' = none := by
      rw [List.lookup_eq_none_iff]
      intro p hp
      have hne : event' ≠ p.1 := fun heq => hnew (List.mem_map.mpr ⟨p, hp, heq.symm⟩)
      exact bne_iff_ne.mpr hne
    rw [selectGroups, OrderedMap.lookup_cons_if]
    have hchosen : chosenFrom py now cooldowns (event', group) =
      if now < (cooldowns.get event').getD 0 then none else bestAlert py group := rfl
    by_cases hevent : event = event'
    · subst hevent
      rw [if_pos rfl, Option.bind_some, hchosen]
      split_ifs with hlt
      · rw [ih hrest, hlookup]
        rfl
      · cases bestAlert py group with
        | none =>
          rw [ih hrest, hlookup]
          rfl
        | some best =>
          refine (ih hrest).trans ?_
          rw [hlookup, OrderedMap.get_set_self]
          rfl
    · rw [if_neg hevent]
      split_ifs with hlt
      · exact ih hrest
      · cases bestAlert py group with
        | none => exact ih hrest
        | some best =>
          refine (ih hrest).trans ?_
          rw [OrderedMap.get_set_ne hevent]
          congr 2
          refine Option.bind_congr fun group' _ => chosenFrom_set hevent

/-- The group of an event. -/
def groupOf (py : Builtins) (alerts : List ShiftAlert) (event : String) : List ShiftAlert :=
  alerts.filter fun a => eventKey py a = event

theorem get_byEvent (event : String) :
    (byEvent py alerts).get event =
      if groupOf py alerts event = [] then none else some (groupOf py alerts event) := by
  have hfold : ∀ groups : OrderedMap String (List ShiftAlert),
      (alerts.foldl (fun groups alert => groups.set (eventKey py alert)
        ((groups.get (eventKey py alert)).getD [] ++ [alert])) groups).get event =
      if groupOf py alerts event = [] then groups.get event
      else some ((groups.get event).getD [] ++ groupOf py alerts event) := by
    induction alerts with
    | nil => exact fun _ => rfl
    | cons alert alerts ih =>
      intro groups
      rw [List.foldl_cons, ih, OrderedMap.get_set]
      by_cases hevent : eventKey py alert = event
      · have hcons : groupOf py (alert :: alerts) event = alert :: groupOf py alerts event :=
          List.filter_cons_of_pos (by simpa using hevent)
        subst hevent
        rw [hcons, if_pos rfl, if_neg (List.cons_ne_nil _ _), Option.getD_some]
        split_ifs with hnil
        · rw [hnil]
        · rw [List.append_assoc, List.singleton_append]
      · have hcons : groupOf py (alert :: alerts) event = groupOf py alerts event :=
          List.filter_cons_of_neg (by simpa using hevent)
        rw [hcons, if_neg (Ne.symm hevent)]
  rw [byEvent, hfold, OrderedMap.get_empty]
  simp

/-- The alert that the batch lets through for an event. -/
def chosenFor (py : Builtins) (cooldowns : EventCooldowns) (alerts : List ShiftAlert)
    (event : String) : Option ShiftAlert :=
  chosenFrom py (nowMs alerts) cooldowns (event, groupOf py alerts event)

theorem bind_get_byEvent (event : String) :
    (((byEvent py alerts).get event).bind fun group =>
      chosenFrom py (nowMs alerts) cooldowns (event, group)) = chosenFor py cooldowns alerts event := by
  rw [get_byEvent]
  split_ifs with hnil
  · have hnone : bestAlert py (groupOf py alerts event) = none := by
      rw [hnil]
      rfl
    rw [chosenFor, chosenFrom, hnone]
    split_ifs <;> rfl
  · rfl

theorem chosenFor_mem {event : String} {a : ShiftAlert}
    (h : chosenFor py cooldowns alerts event = some a) : a ∈ alerts ∧ eventKey py a = event := by
  rw [chosenFor, chosenFrom] at h
  split_ifs at h
  have hmem := List.mem_filter.mp (maxBy_mem h)
  exact ⟨hmem.1, by simpa using hmem.2⟩

end Selected

/-! ## Batch after batch -/

/-- The cooldowns and all that was selected, in this order. -/
structure Dispatched : Type where
  eventCooldowns : EventCooldowns
  selected : List ShiftAlert

section Run

variable (py : Builtins) (policy : AgentAlertPolicy)

def dispatchMany (s : Dispatched) (alerts : List ShiftAlert) : Dispatched :=
  match selectForDispatch py policy s.eventCooldowns alerts with
  | none => s
  | some (selected, cooldowns) => ⟨cooldowns, s.selected ++ selected⟩

def run (batches : List (List ShiftAlert)) : Dispatched :=
  batches.foldl (dispatchMany py policy) ⟨.empty, []⟩

/-- Alerts selected for one event are `event_dedup_sec` apart. -/
def Spaced (selected : List ShiftAlert) : Prop :=
  selected.Pairwise fun a b => eventKey py a = eventKey py b →
    dedupMs policy ≤ |b.timestampMs - a.timestampMs|

/-- No timestamp is earlier than one of a batch before. -/
def NonDecreasing (batches : List (List ShiftAlert)) : Prop :=
  batches.Pairwise fun earlier later => ∀ a ∈ earlier, ∀ b ∈ later, a.timestampMs ≤ b.timestampMs

/-- Whenever the latest alert of the batch has reached the cooldown of an event, so has the highest
ranked alert of that event. -/
def ReachesCooldown (cooldowns : EventCooldowns) (alerts : List ShiftAlert) : Prop :=
  ∀ allowed ∈ eligible py policy alerts, ∀ item ∈ cooldowns.items, item.2 ≤ nowMs allowed →
    ∀ best ∈ bestAlert py (allowed.filter fun a => eventKey py a = item.1), item.2 ≤ best.timestampMs

instance (selected : List ShiftAlert) : Decidable (Spaced py policy selected) :=
  inferInstanceAs (Decidable (selected.Pairwise _))

instance (batches : List (List ShiftAlert)) : Decidable (NonDecreasing batches) :=
  inferInstanceAs (Decidable (batches.Pairwise _))

instance (cooldowns : EventCooldowns) (alerts : List ShiftAlert) :
    Decidable (ReachesCooldown py policy cooldowns alerts) :=
  inferInstanceAs (Decidable (∀ _ ∈ _, ∀ _ ∈ _, _ → ∀ _ ∈ _, _))

end Run

/-! ## The spacing of alerts -/

section Spacing

variable {py : Builtins} {policy : AgentAlertPolicy} {cooldowns cooldowns' : EventCooldowns}
  {alerts selected : List ShiftAlert} {batches : List (List ShiftAlert)}

theorem eligible_subset {allowed : List ShiftAlert} (h : eligible py policy alerts = some allowed) :
    allowed ⊆ alerts := by
  induction alerts generalizing allowed with
  | nil =>
    cases h
    exact List.Subset.refl _
  | cons alert alerts ih =>
    obtain ⟨isOk, -, h⟩ := Option.bind_eq_some_iff.mp h
    obtain ⟨rest, hrest, rfl⟩ := Option.map_eq_some_iff.mp h
    have hsub := List.subset_cons_of_subset alert (ih hrest)
    split_ifs
    · exact List.cons_subset.mpr ⟨List.mem_cons_self, hsub⟩
    · exact hsub

/-- What one batch selects, and the cooldowns it leaves. -/
structure Selects (py : Builtins) (policy : AgentAlertPolicy) (cooldowns : EventCooldowns)
    (allowed selected : List ShiftAlert) (cooldowns' : EventCooldowns) : Prop where
  mem : ∀ a, a ∈ selected ↔ chosenFor py cooldowns allowed (eventKey py a) = some a
  keys : selected.Pairwise fun a b => eventKey py a ≠ eventKey py b
  get : ∀ event, cooldowns'.get event = ((chosenFor py cooldowns allowed event).map fun best =>
    best.timestampMs + dedupMs policy).or (cooldowns.get event)

theorem selectForDispatch_selects
    (h : selectForDispatch py policy cooldowns alerts = some (selected, cooldowns')) :
    ∃ allowed, eligible py policy alerts = some allowed ∧
      Selects py policy cooldowns allowed selected cooldowns' := by
  obtain ⟨allowed, hallowed, hselect⟩ := Option.map_eq_some_iff.mp h
  have hfst : (selectGroups py policy (nowMs allowed) (byEvent py allowed).items cooldowns).1 = _ :=
    selectGroups_fst (byEvent py allowed).nodup
  have hsnd : ∀ event,
      (selectGroups py policy (nowMs allowed) (byEvent py allowed).items cooldowns).2.get event = _ :=
    selectGroups_snd (byEvent py allowed).nodup
  rw [hselect] at hfst hsnd
  obtain rfl : selected = _ := hfst
  have hitem : ∀ item ∈ (byEvent py allowed).items, ∀ a,
      chosenFrom py (nowMs allowed) cooldowns item = some a →
        chosenFor py cooldowns allowed item.1 = some a := by
    rintro ⟨event, group⟩ hmem a hchosen
    rw [← bind_get_byEvent, OrderedMap.get_eq_some_iff.mpr hmem]
    exact hchosen
  refine ⟨allowed, hallowed, fun a => ?_, ?_, fun event => ?_⟩
  · rw [List.mem_filterMap]
    constructor
    · rintro ⟨item, hmem, hchosen⟩
      have hfor := hitem item hmem a hchosen
      rwa [(chosenFor_mem hfor).2]
    · intro hfor
      rw [← bind_get_byEvent] at hfor
      obtain ⟨group, hget, hchosen⟩ := Option.bind_eq_some_iff.mp hfor
      exact ⟨_, OrderedMap.get_eq_some_iff.mp hget, hchosen⟩
  · rw [List.pairwise_filterMap]
    refine (List.pairwise_map.mp (byEvent py allowed).nodup).imp_of_mem ?_
    intro item item' hmem hmem' hne a ha b hb heq
    refine hne ?_
    rw [← (chosenFor_mem (hitem item hmem a ha)).2, heq, (chosenFor_mem (hitem item' hmem' b hb)).2]
  · exact (hsnd event).trans (by rw [← bind_get_byEvent]; rfl)

/-- The state after some batches: every cooldown was set from a selected alert, and no selected
alert is later than its event's cooldown allows. -/
structure Cooled (py : Builtins) (policy : AgentAlertPolicy) (batches : List (List ShiftAlert))
    (s : Dispatched) : Prop where
  seen : ∀ a ∈ s.selected, ∃ batch ∈ batches, a ∈ batch
  armed : ∀ event limit, s.eventCooldowns.get event = some limit →
    ∃ a ∈ s.selected, eventKey py a = event ∧ limit = a.timestampMs + dedupMs policy
  covers : ∀ a ∈ s.selected, ∃ limit, s.eventCooldowns.get (eventKey py a) = some limit ∧
    a.timestampMs + dedupMs policy ≤ limit

theorem dispatchMany_cooled {s : Dispatched} (h : Cooled py policy batches s)
    (hle : ∀ batch ∈ batches, ∀ a ∈ batch, ∀ b ∈ alerts, a.timestampMs ≤ b.timestampMs) :
    Cooled py policy (batches ++ [alerts]) (dispatchMany py policy s alerts) := by
  cases hselect : selectForDispatch py policy s.eventCooldowns alerts with
  | none =>
    have hs : dispatchMany py policy s alerts = s := by
      rw [dispatchMany, hselect]
    rw [hs]
    refine ⟨fun a ha => ?_, h.armed, h.covers⟩
    obtain ⟨batch, hbatch, ha⟩ := h.seen a ha
    exact ⟨batch, List.mem_append_left _ hbatch, ha⟩
  | some result =>
    obtain ⟨selected, cooldowns'⟩ := result
    have hs : dispatchMany py policy s alerts = ⟨cooldowns', s.selected ++ selected⟩ := by
      rw [dispatchMany, hselect]
    obtain ⟨allowed, hallowed, hsel⟩ := selectForDispatch_selects hselect
    have hmem : ∀ event a, chosenFor py s.eventCooldowns allowed event = some a → a ∈ alerts :=
      fun event a ha => eligible_subset hallowed (chosenFor_mem ha).1
    rw [hs]
    refine ⟨fun a ha => ?_, fun event limit hget => ?_, fun a ha => ?_⟩
    · rcases List.mem_append.mp ha with ha | ha
      · obtain ⟨batch, hbatch, ha⟩ := h.seen a ha
        exact ⟨batch, List.mem_append_left _ hbatch, ha⟩
      · exact ⟨alerts, by simp, hmem _ a ((hsel.mem a).mp ha)⟩
    · rw [hsel.get] at hget
      cases hchosen : chosenFor py s.eventCooldowns allowed event with
      | none =>
        rw [hchosen] at hget
        obtain ⟨a, ha, hprops⟩ := h.armed event limit hget
        exact ⟨a, List.mem_append_left _ ha, hprops⟩
      | some best =>
        rw [hchosen] at hget
        obtain rfl := Option.some.inj hget
        obtain ⟨-, rfl⟩ := chosenFor_mem hchosen
        exact ⟨best, List.mem_append_right _ ((hsel.mem best).mpr hchosen), rfl, rfl⟩
    · rw [hsel.get]
      cases hchosen : chosenFor py s.eventCooldowns allowed (eventKey py a) with
      | none =>
        rcases List.mem_append.mp ha with ha | ha
        · exact h.covers a ha
        · exact nomatch hchosen.symm.trans ((hsel.mem a).mp ha)
      | some best =>
        refine ⟨_, rfl, ?_⟩
        rcases List.mem_append.mp ha with ha | ha
        · -- the new alert is not earlier than those of the batches before
          obtain ⟨batch, hbatch, hseen⟩ := h.seen a ha
          have hts := hle batch hbatch a hseen best (hmem _ best hchosen)
          exact Int.add_le_add_right hts _
        · obtain rfl := Option.some.inj (hchosen.symm.trans ((hsel.mem a).mp ha))
          exact le_rfl

/-- A batch keeps the spacing just if its chosen alerts have reached the cooldowns. -/
theorem dispatchMany_spaced_iff {s : Dispatched} (h : Cooled py policy batches s)
    (hle : ∀ batch ∈ batches, ∀ a ∈ batch, ∀ b ∈ alerts, a.timestampMs ≤ b.timestampMs) :
    Spaced py policy (dispatchMany py policy s alerts).selected ↔
      Spaced py policy s.selected ∧ ReachesCooldown py policy s.eventCooldowns alerts := by
  cases hselect : selectForDispatch py policy s.eventCooldowns alerts with
  | none =>
    have hs : dispatchMany py policy s alerts = s := by
      rw [dispatchMany, hselect]
    have hnone : eligible py policy alerts = none := Option.map_eq_none_iff.mp hselect
    rw [hs]
    refine ⟨fun hspaced => ⟨hspaced, fun allowed hallowed => ?_⟩, fun hspaced => hspaced.1⟩
    exact nomatch hnone.symm.trans hallowed
  | some result =>
    obtain ⟨selected, cooldowns'⟩ := result
    have hs : dispatchMany py policy s alerts = ⟨cooldowns', s.selected ++ selected⟩ := by
      rw [dispatchMany, hselect]
    obtain ⟨allowed, hallowed, hsel⟩ := selectForDispatch_selects hselect
    have hnew : Spaced py policy selected :=
      hsel.keys.imp fun hne heq => absurd heq hne
    have hdiff : ∀ a ∈ s.selected, ∀ b ∈ selected, a.timestampMs ≤ b.timestampMs := by
      intro a ha b hb
      obtain ⟨batch, hbatch, hseen⟩ := h.seen a ha
      exact hle batch hbatch a hseen b
        (eligible_subset hallowed (chosenFor_mem ((hsel.mem b).mp hb)).1)
    rw [hs, Spaced, List.pairwise_append]
    constructor
    · rintro ⟨hold, -, hcross⟩
      refine ⟨hold, fun allowed' hallowed' item hitem hdue best hbest => ?_⟩
      obtain rfl := Option.some.inj (hallowed.symm.trans hallowed')
      have hget := OrderedMap.get_eq_some_iff.mpr hitem
      have hchosen : chosenFor py s.eventCooldowns allowed item.1 = some best := by
        rw [chosenFor, chosenFrom, hget, Option.getD_some, if_neg (not_lt.mpr hdue)]
        exact hbest
      obtain ⟨-, hkey⟩ := chosenFor_mem hchosen
      obtain ⟨a, ha, hevent, hitem⟩ := h.armed _ _ hget
      have hmem : best ∈ selected := (hsel.mem best).mpr (hkey ▸ hchosen)
      have hapart := hcross a ha best hmem (hevent.trans hkey.symm)
      rw [abs_of_nonneg (sub_nonneg.mpr (hdiff a ha best hmem))] at hapart
      omega
    · rintro ⟨hold, hreaches⟩
      refine ⟨hold, hnew, fun a ha b hb heq => ?_⟩
      obtain ⟨limit, hget, hcovers⟩ := h.covers a ha
      have hchosen := (hsel.mem b).mp hb
      have hgroup := hchosen
      rw [chosenFor, chosenFrom, ← heq, hget, Option.getD_some] at hgroup
      split_ifs at hgroup with hlt
      have hreached := hreaches allowed hallowed _ (OrderedMap.get_eq_some_iff.mp hget)
        (not_lt.mp hlt) b hgroup
      exact (by omega : dedupMs policy ≤ b.timestampMs - a.timestampMs).trans (le_abs_self _)

/-- In a sequence of batches whose timestamps do not go back, the alerts selected for each event are
`event_dedup_sec` apart just if in every batch whose latest alert has reached the cooldown of an
event, the highest ranked alert of that event has reached it too. -/
theorem spaced_iff (h : NonDecreasing batches) :
    Spaced py policy (run py policy batches).selected ↔ ∀ before alerts,
      before ++ [alerts] <+: batches →
        ReachesCooldown py policy (run py policy before).eventCooldowns alerts := by
  have hall : Cooled py policy batches (run py policy batches) ∧
      (Spaced py policy (run py policy batches).selected ↔ ∀ before alerts,
        before ++ [alerts] <+: batches →
          ReachesCooldown py policy (run py policy before).eventCooldowns alerts) := by
    induction batches using List.reverseRecOn with
    | nil =>
      refine ⟨⟨by simp [run], by simp [run], by simp [run]⟩, fun _ before alerts hpre => ?_, ?_⟩
      · exact absurd (List.prefix_nil.mp hpre) (by simp)
      · exact fun _ => List.Pairwise.nil
    | append_singleton batches alerts ih =>
      obtain ⟨hbefore, -, hle⟩ := List.pairwise_append.mp h
      obtain ⟨hcooled, hiff⟩ := ih hbefore
      have hle : ∀ batch ∈ batches, ∀ a ∈ batch, ∀ b ∈ alerts, a.timestampMs ≤ b.timestampMs :=
        fun batch hbatch => hle batch hbatch alerts (List.mem_singleton.mpr rfl)
      have hrun : run py policy (batches ++ [alerts]) =
          dispatchMany py policy (run py policy batches) alerts := by
        rw [run, List.foldl_append]
        rfl
      rw [hrun, dispatchMany_spaced_iff hcooled hle, hiff]
      refine ⟨dispatchMany_cooled hcooled hle, ?_, fun hreaches => ?_⟩
      · rintro ⟨hearlier, hlast⟩ before alerts' hpre
        rcases List.prefix_concat_iff.mp hpre with heq | hpre
        · obtain ⟨rfl, hsame⟩ := List.append_inj' heq rfl
          obtain rfl := List.singleton_inj.mp hsame
          exact hlast
        · exact hearlier before alerts' hpre
      · refine ⟨fun before alerts' hpre => hreaches before alerts' ?_, hreaches _ _ List.prefix_rfl⟩
        exact hpre.trans (List.prefix_append _ _)
  exact hall.2

end Spacing

namespace Sample

def builtins : Builtins where
  str
    | .str [.lit s] => s
    | _ => "None"
  float
    | .num q => some (.finite q)
    | .str [.lit "nan"] => some .nan
    | _ => none

/-- Only the dedup window of fifteen minutes matters. -/
def policy : AgentAlertPolicy :=
  { allowedLevels := [.scout, .confirmation, .trend], excludedConfidences := ["weak"]
    excludedSignalSources := ["last_trade"], minPrice := 1 / 50, maxPrice := 49 / 50
    minLiquidity := 0, minAbsMove := 0, eventDedupSec := 900 }

def alertOf (event : String) (timestampMs : ℤ) : ShiftAlert :=
  { alertId := "a", alertLevel := "trend", alertLevelLabel := "Decisive Shift"
    timestampIso := "t", timestampMs := timestampMs
    market := [(.other "event_slug", .str (lit event))]
    shift := ⟨"up", 10, 10, 1 / 2, 11 / 20, 11 / 20, 300, 12⟩
    signalQuality := ⟨"midpoint_book", none, none, none, none, "high", "strong"⟩ }

/-- A second alert of an event, in a batch with a later one of another event. -/
def batchesWith (timestampMs : ℤ) : List (List ShiftAlert) :=
  [[alertOf "fed" 0], [alertOf "fed" timestampMs, alertOf "cpi" 900001]]

end Sample

theorem spaced_iff_apart :
    Spaced Sample.builtins Sample.policy
        (run Sample.builtins Sample.policy (Sample.batchesWith 900000)).selected ↔
      ∀ before alerts, before ++ [alerts] <+: Sample.batchesWith 900000 →
        ReachesCooldown Sample.builtins Sample.policy
          (run Sample.builtins Sample.policy before).eventCooldowns alerts :=
  spaced_iff (by decide +kernel)

/-- The later alert of the other event lets one through that is two milliseconds too early. -/
theorem not_spaced : ∃ batches, NonDecreasing batches ∧
    ¬ Spaced Sample.builtins Sample.policy (run Sample.builtins Sample.policy batches).selected :=
  ⟨Sample.batchesWith 899998, by decide +kernel, by decide +kernel⟩

end Sentinel.Notifications
