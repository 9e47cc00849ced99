import Sentinel.Notifications.Dispatcher

/-!
# Which alerts reach the notifiers

`dispatch_many` chooses one alert of each event, arms the event's cooldown with it, and only then
drops what is below `min_severity`.  The choice prefers a confirmation to a trend, the severity a
trend to a confirmation.

* `armings`: the assignments to the cooldowns that a batch makes.
* `none_swallowed`: every reportable event of every batch is reported, and only reported events are
  armed, just if the levels of the passing alerts are such that the chosen one is severe enough.
-/

namespace Sentinel.Notifications

open Logic Contracts Processing

/-! ## One batch -/

section Handed

variable (py : Builtins) (policy : AgentAlertPolicy) (minSeverity : AlertLevel)

/-- `_enrich_one`; `before` is the state that the enricher adds, none where it raises or there is no
enricher. -/
def enrichOne (before : ShiftAlert → Option BeforeState) (alert : ShiftAlert) : ShiftAlert :=
  match before alert with
  | none => alert
  | some state => { alert with beforeState := some state }

/-- The test of `_fan_out`; it raises for a level that `_is_allowed` has raised for before. -/
def fansOut (alert : ShiftAlert) : Bool :=
  (AlertLevel.ofValue alert.alertLevel).any fun level => levelAtLeast level minSeverity

/-- The alerts that `dispatch_many` hands to the notifiers. -/
def handed (before : ShiftAlert → Option BeforeState) (cooldowns : EventCooldowns)
    (alerts : List ShiftAlert) : List ShiftAlert :=
  match selectForDispatch py policy cooldowns alerts with
  | none => []
  | some (selected, _) => (selected.map (enrichOne before)).filter (fansOut minSeverity)

/-- The assignments to `_event_cooldowns` in the loop over the groups. -/
def groupArmings (now : ℤ) : List (String × List ShiftAlert) → EventCooldowns → List (String × ℤ)
  | [], _ => []
  | (event, group) :: groups, cooldowns =>
    if now < (cooldowns.get event).getD 0 then groupArmings now groups cooldowns
    else match bestAlert py group with
      | none => groupArmings now groups cooldowns
      | some best =>
        (event, best.timestampMs + dedupMs policy) :: groupArmings now groups
          (cooldowns.set event (best.timestampMs + dedupMs policy))

def armings (cooldowns : EventCooldowns) (alerts : List ShiftAlert) : List (String × ℤ) :=
  match eligible py policy alerts with
  | none => []
  | some allowed => groupArmings py policy (nowMs allowed) (byEvent py allowed).items cooldowns

/-! ## What is to be reported -/

def passes (alert : ShiftAlert) : Bool := isAllowed py policy alert = some true

def passing (alerts : List ShiftAlert) : List ShiftAlert := alerts.filter (passes py policy)

/-- The cooldown of the event is running when the batch comes. -/
def running (cooldowns : EventCooldowns) (alerts : List ShiftAlert) (event : String) : Bool :=
  nowMs (passing py policy alerts) < (cooldowns.get event).getD 0

/-- Exactly one alert is handed over of every event that has a severe passing alert and is not in its
cooldown, and the cooldowns that are armed are those of events handed over. -/
structure NoneSwallowed (cooldowns : EventCooldowns) (alerts : List ShiftAlert) : Prop where
  reported : ∀ before, ∀ alert ∈ alerts, passes py policy alert = true →
    fansOut minSeverity alert = true → running py policy cooldowns alerts (eventKey py alert) = false →
    ((handed py policy minSeverity before cooldowns alerts).filter fun a =>
      eventKey py a = eventKey py alert).length = 1
  armed : ∀ before, ∀ item ∈ armings py policy cooldowns alerts,
    ∃ alert ∈ handed py policy minSeverity before cooldowns alerts, eventKey py alert = item.1

/-- Among the passing alerts of each event that is not in its cooldown one is severe enough, and
none is a confirmation if only trends are.  In a batch in which `_is_allowed` raises, no event that is
not in its cooldown has a severe passing alert. -/
structure LevelsReach (cooldowns : EventCooldowns) (alerts : List ShiftAlert) : Prop where
  levels : (∀ alert ∈ alerts, isAllowed py policy alert ≠ none) →
    ∀ alert ∈ alerts, passes py policy alert = true →
      running py policy cooldowns alerts (eventKey py alert) = false →
      (∃ a ∈ alerts, passes py policy a = true ∧ eventKey py a = eventKey py alert ∧
        fansOut minSeverity a = true) ∧
      (minSeverity = .trend → AlertLevel.ofValue alert.alertLevel ≠ some .confirmation)
  raises : (∃ alert ∈ alerts, isAllowed py policy alert = none) →
    ∀ alert ∈ alerts, passes py policy alert = true → fansOut minSeverity alert = true →
      running py policy cooldowns alerts (eventKey py alert) = true

end Handed

/-! ## The assignments -/

section Armings

variable {py : Builtins} {policy : AgentAlertPolicy} {cooldowns : EventCooldowns}
  {alerts allowed : List ShiftAlert} {now : ℤ}

/-- The cooldowns after a batch are those before it with the assignments made. -/
theorem selectGroups_armings (groups : List (String × List ShiftAlert)) :
    (selectGroups py policy now groups cooldowns).2 =
      (groupArmings py policy now groups cooldowns).foldl
        (fun cooldowns item => cooldowns.set item.1 item.2) cooldowns := by
  induction groups generalizing cooldowns with
  | nil => rfl
  | cons item groups ih =>
    obtain ⟨event, group⟩ := item
    rw [selectGroups, groupArmings]
    split_ifs
    · exact ih
    · cases bestAlert py group with
      | none => exact ih
      | some best => exact ih

theorem mem_groupArmings {groups : List (String × List ShiftAlert)}
    (h : (groups.map Prod.fst).Nodup) {item : String × ℤ} :
    item ∈ groupArmings py policy now groups cooldowns ↔ ∃ group best, (item.1, group) ∈ groups ∧
      chosenFrom py now cooldowns (item.1, group) = some best ∧
      item.2 = best.timestampMs + dedupMs policy := by
  induction groups generalizing cooldowns with
  | nil => simp [groupArmings]
  | cons head groups ih =>
    obtain ⟨event, group⟩ := head
    obtain ⟨hnew, hrest⟩ := List.nodup_cons.mp h
    have hne : ∀ group', (item.1, group') ∈ groups → item.1 ≠ event :=
      fun group' hmem heq => hnew (List.mem_map.mpr ⟨_, hmem, heq⟩)
    have hchosen : chosenFrom py now cooldowns (event, group) =
      if now < (cooldowns.get event).getD 0 then none else bestAlert py group := rfl
    have hskip : chosenFrom py now cooldowns (event, group) = none →
        ((∃ group' best, (item.1, group') ∈ groups ∧
            chosenFrom py now cooldowns (item.1, group') = some best ∧
            item.2 = best.timestampMs + dedupMs policy) ↔
          ∃ group' best, (item.1, group') ∈ (event, group) :: groups ∧
            chosenFrom py now cooldowns (item.1, group') = some best ∧
            item.2 = best.timestampMs + dedupMs policy) := by
      intro hnone
      constructor
      · rintro ⟨group', best, hmem, hrest⟩
        exact ⟨group', best, List.mem_cons_of_mem _ hmem, hrest⟩
      · rintro ⟨group', best, hmem, hbest, hlimit⟩
        rcases List.mem_cons.mp hmem with heq | hmem
        · rw [heq, hnone] at hbest
          cases hbest
        · exact ⟨group', best, hmem, hbest, hlimit⟩
    rw [groupArmings]
    by_cases hlt : now < (cooldowns.get event).getD 0
    · rw [if_pos hlt] at hchosen ⊢
      rw [ih hrest, hskip hchosen]
    rw [if_neg hlt] at hchosen ⊢
    cases hbest : bestAlert py group with
    | none =>
      rw [hbest] at hchosen
      exact (ih hrest).trans (hskip hchosen)
    | some best =>
      rw [hbest] at hchosen
      dsimp only
      rw [List.mem_cons, ih hrest]
      constructor
      · rintro (rfl | ⟨group', best', hmem, hbest', hlimit⟩)
        · exact ⟨group, best, List.mem_cons_self, hchosen, rfl⟩
        · rw [chosenFrom_set (hne group' hmem)] at hbest'
          exact ⟨group', best', List.mem_cons_of_mem _ hmem, hbest', hlimit⟩
      · rintro ⟨group', best', hmem, hbest', hlimit⟩
        rcases List.mem_cons.mp hmem with heq | hmem
        · obtain ⟨hevent, rfl⟩ := Prod.mk.inj heq
          rw [hevent, hchosen] at hbest'
          obtain rfl := Option.some.inj hbest'
          exact Or.inl (Prod.ext hevent hlimit)
        · refine Or.inr ⟨group', best', hmem, ?_, hlimit⟩
          rwa [chosenFrom_set (hne group' hmem)]

/-- An event is armed just if an alert of it is chosen. -/
theorem mem_armings (h : eligible py policy alerts = some allowed) {item : String × ℤ} :
    item ∈ armings py policy cooldowns alerts ↔ ∃ best,
      chosenFor py cooldowns allowed item.1 = some best ∧
      item.2 = best.timestampMs + dedupMs policy := by
  rw [armings, h]
  refine (mem_groupArmings (byEvent py allowed).nodup).trans ?_
  constructor
  · rintro ⟨group, best, hmem, hbest, hlimit⟩
    refine ⟨best, ?_, hlimit⟩
    rw [← bind_get_byEvent, OrderedMap.get_eq_some_iff.mpr hmem]
    exact hbest
  · rintro ⟨best, hbest, hlimit⟩
    rw [← bind_get_byEvent] at hbest
    obtain ⟨group, hget, hbest⟩ := Option.bind_eq_some_iff.mp hbest
    exact ⟨group, best, OrderedMap.get_eq_some_iff.mp hget, hbest, hlimit⟩

end Armings

/-! ## The chosen alert and the severity -/

section Levels

variable {py : Builtins} {policy : AgentAlertPolicy} {minSeverity : AlertLevel}
  {cooldowns : EventCooldowns} {alerts allowed : List ShiftAlert}

theorem eligible_eq_none :
    eligible py policy alerts = none ↔ ∃ alert ∈ alerts, isAllowed py policy alert = none := by
  induction alerts with
  | nil => simp [eligible]
  | cons alert alerts ih =>
    rw [eligible]
    cases hallowed : isAllowed py policy alert with
    | none => simp [hallowed]
    | some b => simp [hallowed, ih]

theorem eligible_eq (h : eligible py policy alerts = some allowed) :
    allowed = passing py policy alerts := by
  induction alerts generalizing allowed with
  | nil =>
    obtain rfl := Option.some.inj h
    rfl
  | cons alert alerts ih =>
    obtain ⟨isOk, hok, h⟩ := Option.bind_eq_some_iff.mp h
    obtain ⟨rest, hrest, rfl⟩ := Option.map_eq_some_iff.mp h
    rw [ih hrest, passing, passing, List.filter_cons]
    cases isOk <;> simp [passes, hok]

/-- What passes has a level. -/
theorem level_of_passes {alert : ShiftAlert} (h : passes py policy alert = true) :
    ∃ level, AlertLevel.ofValue alert.alertLevel = some level := by
  have hsome : isAllowed py policy alert = some true := of_decide_eq_true h
  obtain ⟨level, hlevel, -⟩ := Option.bind_eq_some_iff.mp hsome
  exact ⟨level, hlevel⟩

theorem eventKey_enrichOne (before : ShiftAlert → Option BeforeState) (alert : ShiftAlert) :
    eventKey py (enrichOne before alert) = eventKey py alert := by
  unfold enrichOne
  split <;> rfl

theorem fansOut_enrichOne (before : ShiftAlert → Option BeforeState) (alert : ShiftAlert) :
    fansOut minSeverity (enrichOne before alert) = fansOut minSeverity alert := by
  unfold enrichOne
  split <;> rfl

/-- The first component of the rank. -/
def levelScore : AlertLevel → ℤ
  | .confirmation => 2
  | .trend => 1
  | .scout => 0

theorem levelScore_le {a b : ShiftAlert} {level level' : AlertLevel}
    (ha : AlertLevel.ofValue a.alertLevel = some level)
    (hb : AlertLevel.ofValue b.alertLevel = some level') (hle : outranks py a b = false) :
    levelScore level ≤ levelScore level' := by
  have hscore : ∀ {c : ShiftAlert} {l : AlertLevel}, AlertLevel.ofValue c.alertLevel = some l →
      (rankKey py c).levelScore = levelScore l := by
    intro c l hc
    rw [rankKey]
    simp only [hc]
    cases l <;> rfl
  rw [← hscore ha, ← hscore hb]
  exact le_of_not_byFirst hle

theorem fansOut_of_level {alert : ShiftAlert} {level : AlertLevel}
    (h : AlertLevel.ofValue alert.alertLevel = some level) :
    fansOut minSeverity alert = levelAtLeast level minSeverity := by
  rw [fansOut, h]
  rfl

/-- A level ranked above a severe one is severe, except a confirmation where only trends are. -/
theorem levelAtLeast_of_score (level level' minSeverity : AlertLevel) :
    levelScore level' ≤ levelScore level → levelAtLeast level' minSeverity = true →
      (minSeverity = .trend → level ≠ .confirmation) → levelAtLeast level minSeverity = true := by
  cases minSeverity <;> cases level <;> cases level' <;> decide

/-- The highest ranked alert of a group is severe enough just if one of the group is, and none is a
confirmation if only trends are. -/
theorem fansOut_best {group : List ShiftAlert} {best : ShiftAlert}
    (hlevels : ∀ a ∈ group, ∃ level, AlertLevel.ofValue a.alertLevel = some level)
    (hbest : bestAlert py group = some best) :
    fansOut minSeverity best = true ↔ (∃ a ∈ group, fansOut minSeverity a = true) ∧
      (minSeverity = .trend → ∀ a ∈ group, AlertLevel.ofValue a.alertLevel ≠ some .confirmation) := by
  have hmem : best ∈ group := maxBy_mem hbest
  obtain ⟨level, hlevel⟩ := hlevels best hmem
  have hscore : ∀ a ∈ group, ∀ level', AlertLevel.ofValue a.alertLevel = some level' →
      levelScore level' ≤ levelScore level :=
    fun a ha level' hlevel' => levelScore_le hlevel' hlevel (maxBy_not_gt (strict_outranks py) hbest ha)
  rw [fansOut_of_level hlevel]
  constructor
  · intro hsevere
    refine ⟨⟨best, hmem, by rwa [fansOut_of_level hlevel]⟩, ?_⟩
    rintro rfl a ha hconfirmation
    have hle := hscore a ha _ hconfirmation
    cases level
    · cases hsevere
    · cases hsevere
    · exact absurd hle (by decide)
  · rintro ⟨⟨a, ha, hsevere⟩, hnone⟩
    obtain ⟨level', hlevel'⟩ := hlevels a ha
    rw [fansOut_of_level hlevel'] at hsevere
    refine levelAtLeast_of_score level level' minSeverity (hscore a ha _ hlevel') hsevere ?_
    rintro hmin rfl
    exact hnone hmin best hmem hlevel

/-! ## A batch -/

/-- Of each event the chosen alert is selected, and no other. -/
theorem Selects.filter_eq {selected : List ShiftAlert} {cooldowns' : EventCooldowns}
    (h : Selects py policy cooldowns allowed selected cooldowns') (event : String) :
    selected.filter (fun a => eventKey py a = event) =
      (chosenFor py cooldowns allowed event).toList := by
  have hmem : ∀ a, a ∈ selected.filter (fun a => eventKey py a = event) ↔
      chosenFor py cooldowns allowed event = some a := by
    intro a
    rw [List.mem_filter, h.mem, decide_eq_true_eq]
    constructor
    · rintro ⟨ha, rfl⟩
      exact ha
    · intro ha
      obtain ⟨-, rfl⟩ := chosenFor_mem ha
      exact ⟨ha, rfl⟩
  have hkeys := h.keys.filter (fun a => decide (eventKey py a = event))
  cases hchosen : chosenFor py cooldowns allowed event with
  | none =>
    refine List.eq_nil_iff_forall_not_mem.mpr fun a ha => ?_
    cases hchosen.symm.trans ((hmem a).mp ha)
  | some best =>
    match hfilter : selected.filter (fun a => eventKey py a = event) with
    | [] => exact absurd ((hmem best).mpr hchosen) (by simp [hfilter])
    | [a] =>
      have ha := (hmem a).mp (by simp [hfilter])
      rw [Option.some.inj (ha.symm.trans hchosen)]
      rfl
    | a :: b :: rest =>
      rw [hfilter] at hkeys
      have hne := List.rel_of_pairwise_cons hkeys List.mem_cons_self
      have ha := (chosenFor_mem ((hmem a).mp (by simp [hfilter]))).2
      have hb := (chosenFor_mem ((hmem b).mp (by simp [hfilter]))).2
      exact absurd (ha.trans hb.symm) hne

/-- What is handed over of an event is the chosen alert, if it is severe enough. -/
theorem handed_filter (h : eligible py policy alerts = some allowed)
    (before : ShiftAlert → Option BeforeState) (event : String) :
    (handed py policy minSeverity before cooldowns alerts).filter (fun a => eventKey py a = event) =
      ((chosenFor py cooldowns allowed event).toList.filter (fansOut minSeverity)).map
        (enrichOne before) := by
  obtain ⟨result, hselect⟩ : ∃ result, selectForDispatch py policy cooldowns alerts = some result := by
    rw [selectForDispatch, h]
    exact ⟨_, rfl⟩
  obtain ⟨selected, cooldowns'⟩ := result
  obtain ⟨allowed', hallowed', hsel⟩ := selectForDispatch_selects hselect
  obtain rfl := Option.some.inj (h.symm.trans hallowed')
  have hhanded : handed py policy minSeverity before cooldowns alerts =
      (selected.map (enrichOne before)).filter (fansOut minSeverity) := by
    rw [handed, hselect]
  rw [hhanded, List.filter_filter, List.filter_map, ← hsel.filter_eq, List.filter_filter]
  congr 1
  refine List.filter_congr fun a _ => ?_
  simp only [Function.comp_apply, eventKey_enrichOne, fansOut_enrichOne, Bool.and_comm]

theorem mem_handed (h : eligible py policy alerts = some allowed)
    {before : ShiftAlert → Option BeforeState} {event : String} :
    (∃ alert ∈ handed py policy minSeverity before cooldowns alerts, eventKey py alert = event) ↔
      ∃ best, chosenFor py cooldowns allowed event = some best ∧ fansOut minSeverity best = true := by
  have hfilter : (handed py policy minSeverity before cooldowns alerts).filter
      (fun a => eventKey py a = event) = _ := handed_filter h before event
  constructor
  · rintro ⟨alert, halert, hevent⟩
    have hmem : alert ∈ (handed py policy minSeverity before cooldowns alerts).filter
        (fun a => eventKey py a = event) := List.mem_filter.mpr ⟨halert, by simpa using hevent⟩
    rw [hfilter] at hmem
    obtain ⟨best, hbest, -⟩ := List.mem_map.mp hmem
    obtain ⟨hchosen, hsevere⟩ := List.mem_filter.mp hbest
    exact ⟨best, Option.mem_toList.mp hchosen, hsevere⟩
  · rintro ⟨best, hchosen, hsevere⟩
    have hmem : enrichOne before best ∈ (handed py policy minSeverity before cooldowns alerts).filter
        (fun a => eventKey py a = event) := by
      rw [hfilter]
      exact List.mem_map_of_mem (List.mem_filter.mpr ⟨Option.mem_toList.mpr hchosen, hsevere⟩)
    obtain ⟨halert, hevent⟩ := List.mem_filter.mp hmem
    exact ⟨_, halert, of_decide_eq_true hevent⟩

/-- An event that has a passing alert and is not in its cooldown has a chosen one. -/
theorem exists_chosen {alert : ShiftAlert} (halert : alert ∈ allowed)
    (hcool : ¬ nowMs allowed < (cooldowns.get (eventKey py alert)).getD 0) :
    ∃ best, chosenFor py cooldowns allowed (eventKey py alert) = some best := by
  rw [chosenFor, chosenFrom, if_neg hcool]
  have hne : groupOf py allowed (eventKey py alert) ≠ [] :=
    List.ne_nil_of_mem (List.mem_filter.mpr ⟨halert, by simp⟩)
  refine Option.ne_none_iff_exists'.mp fun hnone => hne ?_
  exact maxBy_eq_none.mp hnone

/-- A batch that is looked at reports and arms as it should just if every chosen alert is severe
enough. -/
theorem noneSwallowed_iff_chosen (h : eligible py policy alerts = some allowed) :
    NoneSwallowed py policy minSeverity cooldowns alerts ↔ ∀ event best,
      chosenFor py cooldowns allowed event = some best → fansOut minSeverity best = true := by
  constructor
  · intro hreported event best hchosen
    obtain ⟨alert, halert, hevent⟩ := hreported.armed (fun _ => none)
      (event, best.timestampMs + dedupMs policy) ((mem_armings h).mpr ⟨best, hchosen, rfl⟩)
    obtain ⟨best', hchosen', hsevere⟩ := (mem_handed h).mp ⟨alert, halert, hevent⟩
    rwa [Option.some.inj (hchosen.symm.trans hchosen')]
  · intro hsevere
    refine ⟨fun before alert halert hpasses _ hcool => ?_, fun before item hitem => ?_⟩
    · rw [running, decide_eq_false_iff_not, ← eligible_eq h] at hcool
      have hallowed : alert ∈ allowed := by
        rw [eligible_eq h]
        exact List.mem_filter.mpr ⟨halert, hpasses⟩
      obtain ⟨best, hchosen⟩ := exists_chosen hallowed hcool
      have hbest := hsevere _ best hchosen
      rw [handed_filter h, hchosen]
      simp [hbest]
    · obtain ⟨best, hchosen, -⟩ := (mem_armings h).mp hitem
      exact (mem_handed h).mpr ⟨best, hchosen, hsevere _ best hchosen⟩

theorem noneSwallowed_iff :
    NoneSwallowed py policy minSeverity cooldowns alerts ↔
      LevelsReach py policy minSeverity cooldowns alerts := by
  cases h : eligible py policy alerts with
  | none =>
    have hraises := eligible_eq_none.mp h
    have hhanded : ∀ before, handed py policy minSeverity before cooldowns alerts = [] := by
      intro before
      rw [handed, selectForDispatch, h]
      rfl
    have harmings : armings py policy cooldowns alerts = [] := by
      rw [armings, h]
    constructor
    · intro hreported
      refine ⟨fun hall => ?_, fun _ alert halert hpasses hsevere => ?_⟩
      · obtain ⟨alert, halert, hnone⟩ := hraises
        exact absurd hnone (hall alert halert)
      · by_contra hcool
        have hone := hreported.reported (fun _ => none) alert halert hpasses hsevere
          (Bool.eq_false_iff.mpr hcool)
        rw [hhanded] at hone
        cases hone
    · intro hlevels
      refine ⟨fun before alert halert hpasses hsevere hcool => ?_, fun before item hitem => ?_⟩
      · have hrunning := hlevels.raises hraises alert halert hpasses hsevere
        cases hcool.symm.trans hrunning
      · rw [harmings] at hitem
        cases hitem
  | some allowed =>
    have hmem : ∀ {a : ShiftAlert}, a ∈ allowed ↔ a ∈ alerts ∧ passes py policy a = true := by
      intro a
      rw [eligible_eq h]
      exact List.mem_filter
    have hgroup : ∀ {event : String} {a : ShiftAlert}, a ∈ groupOf py allowed event ↔
        a ∈ alerts ∧ passes py policy a = true ∧ eventKey py a = event := by
      intro event a
      rw [groupOf, List.mem_filter, hmem, decide_eq_true_eq, and_assoc]
    have hlevel : ∀ {event : String}, ∀ a ∈ groupOf py allowed event,
        ∃ level, AlertLevel.ofValue a.alertLevel = some level :=
      fun a ha => level_of_passes (hgroup.mp ha).2.1
    have hnoraise : ∀ alert ∈ alerts, isAllowed py policy alert ≠ none := by
      intro alert halert hnone
      have hraises := eligible_eq_none.mpr ⟨alert, halert, hnone⟩
      cases hraises.symm.trans h
    rw [noneSwallowed_iff_chosen h]
    constructor
    · intro hsevere
      refine ⟨fun _ alert halert hpasses hcool => ?_, fun ⟨alert, halert, hnone⟩ => ?_⟩
      · rw [running, decide_eq_false_iff_not, ← eligible_eq h] at hcool
        obtain ⟨best, hchosen⟩ := exists_chosen (hmem.mpr ⟨halert, hpasses⟩) hcool
        have hbest := hsevere _ best hchosen
        rw [chosenFor, chosenFrom, if_neg hcool] at hchosen
        obtain ⟨⟨a, ha, hreaches⟩, htrend⟩ := (fansOut_best hlevel hchosen).mp hbest
        obtain ⟨hin, hpass, hevent⟩ := hgroup.mp ha
        exact ⟨⟨a, hin, hpass, hevent, hreaches⟩,
          fun hmin => htrend hmin alert (hgroup.mpr ⟨halert, hpasses, rfl⟩)⟩
      · exact absurd hnone (hnoraise alert halert)
    · intro hlevels event best hchosen
      obtain ⟨hbest, hevent⟩ := chosenFor_mem hchosen
      have hcool : ¬ nowMs allowed < (cooldowns.get event).getD 0 := by
        intro hlt
        rw [chosenFor, chosenFrom, if_pos hlt] at hchosen
        cases hchosen
      rw [chosenFor, chosenFrom, if_neg hcool] at hchosen
      have hidle : running py policy cooldowns alerts event = false := by
        rw [running, decide_eq_false_iff_not, ← eligible_eq h]
        exact hcool
      refine (fansOut_best hlevel hchosen).mpr ⟨?_, fun hmin a ha => ?_⟩
      · obtain ⟨hin, hpass⟩ := hmem.mp hbest
        obtain ⟨⟨a, ha, hpasses, hkey, hreaches⟩, -⟩ :=
          hlevels.levels hnoraise best hin hpass (hevent ▸ hidle)
        exact ⟨a, hgroup.mpr ⟨ha, hpasses, hkey.trans hevent⟩, hreaches⟩
      · obtain ⟨hin, hpass, hkey⟩ := hgroup.mp ha
        exact (hlevels.levels hnoraise a hin hpass (hkey ▸ hidle)).2 hmin

end Levels

/-! ## Batch after batch -/

/-- All along a sequence of batches every reportable event is reported once and only reported events
are armed, just if in every batch the passing alerts of each event that is not in its cooldown reach
the severity, without a confirmation where only trends do. -/
theorem none_swallowed (py : Builtins) (policy : AgentAlertPolicy) (minSeverity : AlertLevel)
    (batches : List (List ShiftAlert)) :
    (∀ before alerts, before ++ [alerts] <+: batches →
      NoneSwallowed py policy minSeverity (run py policy before).eventCooldowns alerts) ↔
    ∀ before alerts, before ++ [alerts] <+: batches →
      LevelsReach py policy minSeverity (run py policy before).eventCooldowns alerts :=
  forall_congr' fun _ => forall_congr' fun _ => forall_congr' fun _ => noneSwallowed_iff

/-- A confirmation is chosen before the trend of the same event and then dropped, and the event is in
its cooldown. -/
theorem trend_swallowed : ¬ NoneSwallowed Sample.builtins Sample.policy .trend
    (run Sample.builtins Sample.policy []).eventCooldowns
    [{ Sample.alertOf "fed" 1000 with alertLevel := "confirmation" }, Sample.alertOf "fed" 1000] := by
  intro hreported
  have hone := hreported.reported (fun _ => none) (Sample.alertOf "fed" 1000) (by simp)
    (by decide +kernel) (by decide +kernel) (by decide +kernel)
  revert hone
  decide +kernel

end Sentinel.Notifications
