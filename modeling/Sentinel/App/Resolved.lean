import Sentinel.App.Process

/-!
# Resolved markets

The handler of a resolved market sets its assets inactive and removes them from the detector.  The
gatekeeper and the client are not told: the gatekeeper takes an asset that is still tracked for a new
one, and does not see that one that the client has is gone.

* `Final`: what should hold of an asset ever after its handler has finished.
* `Heeds`: the steps that do not bring an asset back.
* `resolved_final`: in a run of such steps every resolution is final.
-/

namespace Sentinel.App

open Logic Contracts Storage Ingestion Processing ShiftDetector

/-- The asset is inactive, later commands do not subscribe to it, a command unsubscribes from it if
the client had it, and there is no later alert for it. -/
structure Final (s : SentinelApp) (r : Resolution) : Prop where
  inactive : r.assetId ∉ activeAssetIds s.store.cache
  subscribe : ∀ c ∈ s.issued.drop r.issued, c.operation = .subscribe → r.assetId ∉ c.assetIds
  unsubscribe : r.subscribed = true → s.phase.run? = none →
    ∃ c ∈ s.issued.drop r.issued, c.operation = .unsubscribe ∧ r.assetId ∈ c.assetIds
  alerts : ∀ raised ∈ s.alerts.drop r.alerts, raised.1 ≠ r.assetId

/-- The asset whose levels the scan is at. -/
def scannedAsset (s : SentinelApp) : Option String :=
  s.scanning.bind fun point => point.current.map Prod.fst

/-- The asset that the scan opens next. -/
def nextAsset (s : SentinelApp) : Option String :=
  s.scanning.bind fun point => point.todo.head?.map Prod.fst

/-- A resolved asset is not tracked any more; a call of `run_once` that has found one gone does not
fail.  When a handler finishes, a call under way has not found its assets new, and has found gone
those that the client has.  No tick of a resolved asset comes while the scan is at it, and the scan
does not open one before the clock is past the time of grace. -/
def Heeds (cfg : DetectorConfig) (s : SentinelApp) : AppEvent → Prop
  | .poll tracked _ => ∀ r ∈ s.resolutions, r.assetId ∉ tracked.assetIds
  | .polled fault => ∀ run ∈ s.phase.run?, (∃ r ∈ s.resolutions, r.assetId ∈ run.removedAssetIds) →
    ∀ p ∈ waitsFor s.phase, (complete s.store fault p).2 = true
  | .resolved _ => ∀ handled ∈ s.resolving, ∀ a ∈ handled.1,
    (∀ run ∈ s.phase.run?, a ∉ run.newAssetIds) ∧
    (a ∈ s.client → ∃ run ∈ s.phase.run?, a ∈ run.removedAssetIds)
  | .ingest _ tick => ∀ r ∈ s.resolutions, r.assetId = tick.assetId →
    scannedAsset s ≠ some tick.assetId
  | .scan nowMs => ∀ r ∈ s.resolutions, nextAsset s = some r.assetId →
    cfg.warmupGraceSec * 1000 < nowMs
  | _ => True

/-! ## The invariant -/

/-- What keeps a resolution final. -/
structure Gone (s : SentinelApp) (r : Resolution) : Prop where
  logs : r.issued ≤ s.issued.length ∧ r.alerts ≤ s.alerts.length
  flags : flags s.store.cache r.assetId = none ∨ flags s.store.cache r.assetId = some (false, 0)
  new : ∀ run, s.phase.run? = some run → r.assetId ∉ run.newAssetIds
  scan : scannedAsset s = some r.assetId →
    s.detector.latestTickByAsset.get r.assetId = none ∨ App.flags s.store.cache r.assetId = none
  subscribe : ∀ c ∈ s.issued.drop r.issued, c.operation = .subscribe → r.assetId ∉ c.assetIds
  unsubscribe : r.subscribed = true →
    (∃ c ∈ s.issued.drop r.issued, c.operation = .unsubscribe ∧ r.assetId ∈ c.assetIds) ∨
    ∃ run, s.phase.run? = some run ∧ r.assetId ∈ run.removedAssetIds
  alerts : ∀ raised ∈ s.alerts.drop r.alerts, raised.1 ≠ r.assetId

section Steps

variable {py : AlertBuiltins} {cfg : DetectorConfig} {s s' : SentinelApp} {run : RunOnce}
  {r : Resolution} {a : String} {table : TrackedMarkets}

theorem Gone.final (h : Gone s r) : Final s r where
  inactive hactive := by
    obtain ⟨since, hsince⟩ := mem_active_iff.mp hactive
    rcases h.flags with hflags | hflags
    · exact nomatch hflags.symm.trans hsince
    · exact nomatch hflags.symm.trans hsince
  subscribe := h.subscribe
  unsubscribe hsubscribed hidle := (h.unsubscribe hsubscribed).resolve_right
    fun ⟨_, hrun, _⟩ => nomatch hidle.symm.trans hrun
  alerts := h.alerts

/-! ## The gatekeeper -/

/-- The gatekeeper goes on, or a call ends without its commands: of the other tasks nothing
changes. -/
theorem Gone.of_phase (h : Gone s r) (hflags : App.flags s'.store.cache r.assetId =
      App.flags s.store.cache r.assetId ∨ App.flags s'.store.cache r.assetId = some (false, 0))
    (hknown : App.flags s.store.cache r.assetId = none → App.flags s'.store.cache r.assetId = none)
    (hnew : ∀ run, s'.phase.run? = some run → r.assetId ∉ run.newAssetIds)
    (hremoved : (∃ run, s.phase.run? = some run ∧ r.assetId ∈ run.removedAssetIds) →
      ∃ run, s'.phase.run? = some run ∧ r.assetId ∈ run.removedAssetIds)
    (hissued : s'.issued = s.issued) (hdetector : s'.detector = s.detector)
    (hscanning : s'.scanning = s.scanning) (halerts : s'.alerts = s.alerts) : Gone s' r where
  logs := by
    rw [hissued, halerts]
    exact h.logs
  flags := by
    rcases hflags with heq | heq
    · rw [heq]
      exact h.flags
    · exact Or.inr heq
  new := hnew
  scan hscan := by
    rw [hdetector]
    rw [scannedAsset, hscanning] at hscan
    exact (h.scan hscan).imp_right hknown
  subscribe := by
    rw [hissued]
    exact h.subscribe
  unsubscribe hsubscribed := by
    rw [hissued]
    exact (h.unsubscribe hsubscribed).imp_right hremoved
  alerts := by
    rw [halerts]
    exact h.alerts

/-- A call ends with its commands, which do not subscribe to the asset. -/
theorem Gone.finishRun (h : Gone s r) (hphase : s.phase.run? = some run) :
    Gone (finishRun s run) r where
  logs := by
    refine ⟨h.logs.1.trans ?_, h.logs.2⟩
    show s.issued.length ≤ (s.issued ++ run.commands).length
    rw [List.length_append]
    exact Nat.le_add_right _ _
  flags := h.flags
  new _ hrun := nomatch hrun
  scan := h.scan
  subscribe c hc hop := by
    have hc : c ∈ (s.issued ++ run.commands).drop r.issued := hc
    rw [List.drop_append_of_le_length h.logs.1] at hc
    rcases List.mem_append.mp hc with hc | hc
    · exact h.subscribe c hc hop
    · rcases mem_commands hc with rfl | rfl
      · exact h.new run hphase
      · cases hop
  unsubscribe hsubscribed := by
    left
    show ∃ c ∈ (s.issued ++ run.commands).drop r.issued, _
    rw [List.drop_append_of_le_length h.logs.1]
    rcases h.unsubscribe hsubscribed with ⟨c, hc, hop⟩ | ⟨run', hrun', hremoved⟩
    · exact ⟨c, List.mem_append_left _ hc, hop⟩
    · obtain rfl : run' = run := Option.some.inj (hrun'.symm.trans hphase)
      exact ⟨_, List.mem_append_right _ (unsubscribe_mem_commands hremoved), rfl, hremoved⟩
  alerts := h.alerts

theorem Gone.deactivate (h : Gone s r) (hphase : s.phase.run? = some run) :
    Gone (deactivate s run) r := by
  rw [App.deactivate]
  split_ifs
  · exact h.finishRun hphase
  · refine h.of_phase (Or.inl rfl) id ?_ ?_ rfl rfl rfl rfl
    · intro run' hrun
      obtain rfl := Option.some.inj hrun
      exact h.new run hphase
    · rintro ⟨run', hrun', hremoved⟩
      obtain rfl : run' = run := Option.some.inj (hrun'.symm.trans hphase)
      exact ⟨run', rfl, hremoved⟩

theorem Gone.activate (h : Gone s r) (hphase : s.phase.run? = some run) :
    Gone (activate s run) r := by
  rw [App.activate]
  split_ifs
  · exact h.deactivate hphase
  · refine h.of_phase (Or.inl rfl) id ?_ ?_ rfl rfl rfl rfl
    · intro run' hrun
      obtain rfl := Option.some.inj hrun
      exact h.new run hphase
    · rintro ⟨run', hrun', hremoved⟩
      obtain rfl : run' = run := Option.some.inj (hrun'.symm.trans hphase)
      exact ⟨run', rfl, hremoved⟩

theorem Gone.poll (h : Gone s r) {tracked : Tracked} {nowMs : ℤ}
    (hsafe : r.assetId ∉ tracked.assetIds) :
    Gone (appStep py cfg s (.poll tracked nowMs)) r := by
  rw [appStep]
  cases hphase : s.phase with
  | idle =>
    have hnew : r.assetId ∉ (diff s.store.cache tracked nowMs).newAssetIds :=
      fun hmem => hsafe (mem_newAssetIds.mp hmem).1
    have hstart : ∀ ps, Gone { s with phase := .upserting (diff s.store.cache tracked nowMs) ps } r := by
      intro ps
      refine h.of_phase (Or.inl rfl) id (fun run' hrun => ?_) ?_ rfl rfl rfl rfl
      · obtain rfl := Option.some.inj hrun
        exact hnew
      · rintro ⟨run', hrun', -⟩
        rw [hphase] at hrun'
        cases hrun'
    dsimp only
    split_ifs
    · -- without markets the upsert returns at once
      have hactivate := (hstart []).activate rfl
      simp only [App.activate, App.deactivate, App.finishRun] at hactivate ⊢
      exact hactivate
    · exact hstart _
  | upserting run ps => simpa only [hphase] using h
  | activating run => simpa only [hphase] using h
  | deactivating run => simpa only [hphase] using h

/-- The operations of a call under way leave the asset inactive. -/
theorem Gone.flags_waited (h : Gone s r) (hknown : Known s) (fault : Option ℕ) {p : Pending}
    (hp : waitsFor s.phase = some p) :
    (App.flags (complete s.store fault p).1.cache r.assetId = App.flags s.store.cache r.assetId ∨
      App.flags (complete s.store fault p).1.cache r.assetId = some (false, 0)) ∧
    (App.flags s.store.cache r.assetId = none →
      App.flags (complete s.store fault p).1.cache r.assetId = none) := by
  rw [cache_complete]
  split_ifs
  · cases hphase : s.phase with
    | idle =>
      rw [hphase] at hp
      cases hp
    | upserting run ps =>
      rw [hphase] at hp
      obtain rfl := Option.some.inj hp
      obtain ⟨hmarkets, hknown⟩ := hknown run ps hphase
      have hnew : r.assetId ∉ run.newAssetIds := h.new run (by rw [hphase]; rfl)
      have hsame : App.flags (cacheUpserts s.store.cache (ps.map UpsertParams.market)) r.assetId =
          App.flags s.store.cache r.assetId := by
        by_cases htracked : r.assetId ∈ run.tracked.assetIds
        · exact flags_cacheUpserts_of_known ((hknown _ htracked).resolve_left hnew)
        · exact flags_cacheUpserts_of_other (by rwa [hmarkets])
      exact ⟨Or.inl hsame, fun hnone => hsame.trans hnone⟩
    | activating run =>
      rw [hphase] at hp
      obtain rfl := Option.some.inj hp
      have hnew : r.assetId ∉ run.newAssetIds := h.new run (by rw [hphase]; rfl)
      have hsame : App.flags (cacheActive s.store.cache run.newAssetIds true run.nowMs) r.assetId =
          App.flags s.store.cache r.assetId := by
        rw [flags_cacheActive, if_neg hnew]
      exact ⟨Or.inl hsame, fun hnone => hsame.trans hnone⟩
    | deactivating run =>
      rw [hphase] at hp
      obtain rfl := Option.some.inj hp
      simp only [Pending.finish]
      rw [flags_cacheActive]
      split_ifs
      · rcases h.flags with hnone | hflags
        · rw [hnone]
          exact ⟨Or.inl rfl, fun _ => rfl⟩
        · rw [hflags]
          exact ⟨Or.inr rfl, fun hnone => (by cases hnone)⟩
      · exact ⟨Or.inl rfl, id⟩
  · exact ⟨Or.inl rfl, id⟩

theorem Gone.polled (h : Gone s r) (hr : r ∈ s.resolutions) (hknown : Known s) {fault : Option ℕ}
    (he : Heeds cfg s (.polled fault)) : Gone (appStep py cfg s (.polled fault)) r := by
  rw [appStep]
  cases hwaits : waitsFor s.phase with
  | none => exact h
  | some p =>
    obtain ⟨hflags, hnone⟩ := h.flags_waited hknown fault hwaits
    dsimp only
    split
    · next store heq =>
      rw [heq] at hflags hnone
      have hstore : Gone { s with store := store } r :=
        h.of_phase hflags hnone h.new id rfl rfl rfl rfl
      rw [goOn]
      split
      · exact hstore
      · next run ps hphase => exact hstore.activate (congrArg Phase.run? hphase)
      · next run hphase => exact hstore.deactivate (congrArg Phase.run? hphase)
      · next run hphase => exact hstore.finishRun (congrArg Phase.run? hphase)
    · next store heq =>
      -- a call that had found the asset gone does not fail
      rw [heq] at hflags hnone
      refine h.of_phase hflags hnone (fun run hrun => (by cases hrun)) ?_ rfl rfl rfl rfl
      rintro ⟨run, hrun, hremoved⟩
      have hok := he run hrun ⟨r, hr, hremoved⟩ p hwaits
      rw [heq] at hok
      cases hok

/-! ## The other tasks -/

/-- A step of another task, given what it does to the scan and the alerts. -/
theorem Gone.of_unpolled (h : Gone s r) (hs : Unpolled s s')
    (hscan : scannedAsset s' = some r.assetId →
      s'.detector.latestTickByAsset.get r.assetId = none ∨ App.flags s.store.cache r.assetId = none)
    (halerts : ∃ raised, s'.alerts = s.alerts ++ raised ∧ ∀ x ∈ raised, x.1 ≠ r.assetId) :
    Gone s' r := by
  have hnone : App.flags s.store.cache r.assetId = none →
      App.flags s'.store.cache r.assetId = none := by
    intro hnone
    rcases hs.flags r.assetId with heq | ⟨hne, -⟩
    · exact heq.trans hnone
    · exact absurd hnone hne
  obtain ⟨raised, hraised, hother⟩ := halerts
  refine ⟨?_, ?_, ?_, fun hscanned => (hscan hscanned).imp_right hnone, ?_, ?_, ?_⟩
  · rw [hs.issued, hraised, List.length_append]
    exact ⟨h.logs.1, h.logs.2.trans (Nat.le_add_right _ _)⟩
  · rcases hs.flags r.assetId with heq | ⟨-, heq⟩
    · rw [heq]
      exact h.flags
    · exact Or.inr heq
  · rw [hs.phase]
    exact h.new
  · rw [hs.issued]
    exact h.subscribe
  · rw [hs.issued, hs.phase]
    exact h.unsubscribe
  · rw [hraised, List.drop_append_of_le_length h.logs.2]
    intro x hx
    rcases List.mem_append.mp hx with hx | hx
    · exact h.alerts x hx
    · exact hother x hx

/-- A step that leaves the scan, the last ticks and the alerts. -/
theorem Gone.of_same (h : Gone s r) (hs : Unpolled s s') (hscanning : s'.scanning = s.scanning)
    (hticks : s'.detector.latestTickByAsset.get r.assetId =
      s.detector.latestTickByAsset.get r.assetId ∨
      s'.detector.latestTickByAsset.get r.assetId = none)
    (halerts : s'.alerts = s.alerts) : Gone s' r := by
  refine h.of_unpolled hs (fun hscan => ?_)
    ⟨[], halerts.trans (List.append_nil _).symm, fun _ hx => absurd hx List.not_mem_nil⟩
  rw [scannedAsset, hscanning] at hscan
  rcases hticks with heq | heq
  · rw [heq]
    exact h.scan hscan
  · exact Or.inl heq

theorem Gone.ingest (h : Gone s r) {nowMs : ℤ} {tick : Ingestion.PriceTick}
    (hsafe : r.assetId = tick.assetId → scannedAsset s ≠ some tick.assetId) :
    Gone (appStep py cfg s (.ingest nowMs tick)) r := by
  have hlatest : (s.detector.ingestTick cfg nowMs tick).latestTickByAsset =
      s.detector.latestTickByAsset.set tick.assetId tick := by
    rw [ShiftDetector.ingestTick]
    split <;> rfl
  refine h.of_unpolled (unpolled rfl) (fun hscan => ?_)
    ⟨[], (List.append_nil _).symm, fun _ hx => absurd hx List.not_mem_nil⟩
  have hne : r.assetId ≠ tick.assetId := fun heq => hsafe heq (heq ▸ hscan)
  show (s.detector.ingestTick cfg nowMs tick).latestTickByAsset.get r.assetId = none ∨ _
  rw [hlatest, OrderedMap.get_set_ne hne]
  exact h.scan hscan

/-! ## The scan -/

/-- An alert needs a market and a last tick; and only the cooldowns change. -/
theorem maybeCreateAlert_spec (py : AlertBuiltins) (cfg : DetectorConfig) (d : ShiftDetector)
    (nowMs : ℤ) (market : Option MarketMetadata) (a : String) (id : ℕ) (level : AlertLevel) :
    (d.maybeCreateAlert py cfg nowMs market a id level).1.latestTickByAsset =
      d.latestTickByAsset ∧
    ((d.maybeCreateAlert py cfg nowMs market a id level).2.isSome →
      market ≠ none ∧ d.latestTickByAsset.get a ≠ none) := by
  rw [maybeCreateAlert]
  split
  · exact ⟨rfl, fun hsome => (by cases hsome)⟩
  · split_ifs
    · exact ⟨rfl, fun hsome => (by cases hsome)⟩
    · exact ⟨rfl, fun hsome => (by cases hsome)⟩
    · split
      · next market latest hlatest =>
        refine ⟨rfl, fun _ => ⟨Option.some_ne_none _, ?_⟩⟩
        rw [hlatest]
        exact Option.some_ne_none _
      · exact ⟨rfl, fun hsome => (by cases hsome)⟩

/-- An inactive market is skipped once the time of grace after its subscription is over. -/
theorem shouldSkip_inactive {m : MarketMetadata} {nowMs : ℤ} {bars : List SecondBar}
    (hactive : m.active = false)
    (hclock : cfg.warmupGraceSec * 1000 < nowMs - m.subscribedAtMs) :
    shouldSkip cfg nowMs (some m) bars = true := by
  rw [shouldSkip]
  split
  · rfl
  · split_ifs
    · rfl
    · split
      · simpa using lt_sub_iff_add_lt.mp hclock
      · split_ifs
        · rfl
        · rfl
        · simp [hactive]

/-- Opening an asset at most forgets its last tick; and the scan goes on to its levels only if it is
not to be skipped. -/
theorem openAsset_spec (cfg : DetectorConfig) (d : ShiftDetector) (nowMs : ℤ)
    (market : Option MarketMetadata) (a : String) (id : ℕ) (b : String) :
    ((d.openAsset cfg nowMs market a id).1.latestTickByAsset.get b = d.latestTickByAsset.get b ∨
      (d.openAsset cfg nowMs market a id).1.latestTickByAsset.get b = none) ∧
    ((d.openAsset cfg nowMs market a id).2 = true → ∃ bars,
      shouldSkip cfg nowMs market bars = false) := by
  rw [openAsset]
  split_ifs with hempty
  · exact ⟨Or.inl rfl, fun hopened => (by cases hopened)⟩
  · dsimp only
    split_ifs
    · refine ⟨?_, fun hopened => (by cases hopened)⟩
      rw [OrderedMap.get_erase]
      split_ifs
      · exact Or.inr rfl
      · exact Or.inl rfl
    · exact ⟨Or.inl rfl, fun hopened => ⟨_, by simpa using hopened⟩⟩

theorem Gone.scanned (h : Gone s r) {nowMs : ℤ}
    (hsafe : nextAsset s = some r.assetId → cfg.warmupGraceSec * 1000 < nowMs) :
    Gone (scanStep py cfg s nowMs) r := by
  have hunpolled : Unpolled s (scanStep py cfg s nowMs) := unpolled (e := .scan nowMs) rfl
  have hnothing : ∃ raised, s.alerts = s.alerts ++ raised ∧ ∀ x ∈ raised, x.1 ≠ r.assetId :=
    ⟨[], (List.append_nil _).symm, fun _ hx => absurd hx List.not_mem_nil⟩
  rw [scanStep] at hunpolled ⊢
  split at hunpolled
  · exact h.of_unpolled hunpolled (fun hscan => (by cases hscan)) hnothing
  · next todo a id level levels hscanning =>
    obtain ⟨hlatest, hsome⟩ := maybeCreateAlert_spec py cfg s.detector nowMs (s.store.cache.get a) a
      id level
    have hscanned : scannedAsset s = some a := by
      rw [scannedAsset, hscanning]
      rfl
    refine h.of_unpolled hunpolled (fun hscan => ?_) ⟨_, rfl, fun x hx => ?_⟩
    · dsimp only
      rw [hlatest]
      exact h.scan (hscanned.trans hscan)
    · -- the scan is at the asset: there is no last tick, or no market
      obtain ⟨result, hresult, rfl⟩ := Option.map_eq_some_iff.mp (Option.mem_toList.mp hx)
      rintro rfl
      obtain ⟨hmarket, htick⟩ := hsome (Option.isSome_iff_exists.mpr ⟨result, hresult⟩)
      rcases h.scan hscanned with hnone | hnone
      · exact htick hnone
      · exact hmarket (flags_eq_none_iff.mp hnone)
  · next a id todo current _ hscanning =>
    obtain ⟨hlatest, hopened⟩ := openAsset_spec cfg s.detector nowMs (s.store.cache.get a) a id
      r.assetId
    refine h.of_unpolled hunpolled (fun hscan => ?_) hnothing
    dsimp only [scannedAsset, Option.bind_some] at hscan
    split_ifs at hscan with hopen
    · -- the asset that is opened has no market, or it is not opened
      obtain rfl : a = r.assetId := Option.some.inj hscan
      obtain ⟨bars, hskip⟩ := hopened hopen
      rcases h.flags with hnone | hflags
      · exact Or.inr hnone
      · obtain ⟨m, hm, heq⟩ := Option.map_eq_some_iff.mp hflags
        obtain ⟨hactive, hsince⟩ := Prod.mk.inj heq
        have hclock : cfg.warmupGraceSec * 1000 < nowMs :=
          hsafe (by rw [nextAsset, hscanning]; rfl)
        rw [hm, shouldSkip_inactive hactive (by rw [hsince, sub_zero]; exact hclock)] at hskip
        cases hskip
    · cases hscan
  · exact h.of_unpolled hunpolled (fun hscan => (by cases hscan)) hnothing

/-! ## The handler -/

theorem get_foldl_removeAsset (d : ShiftDetector) (assetIds : List String) :
    (assetIds.foldl removeAsset d).latestTickByAsset.get a =
      if a ∈ assetIds then none else d.latestTickByAsset.get a := by
  induction assetIds generalizing d with
  | nil => rfl
  | cons b assetIds ih =>
    rw [List.foldl_cons, ih, removeAsset, OrderedMap.get_erase]
    by_cases ha : a ∈ assetIds
    · rw [if_pos ha, if_pos (List.mem_cons_of_mem _ ha)]
    · rw [if_neg ha]
      simp only [List.mem_cons, ha, or_false]

/-- What the handler leaves behind for an asset it has removed. -/
theorem gone_finishHandler {assetIds : List String} (ha : a ∈ assetIds)
    (hflags : App.flags s.store.cache a = none ∨ App.flags s.store.cache a = some (false, 0))
    (hnew : ∀ run ∈ s.phase.run?, a ∉ run.newAssetIds)
    (hremoved : a ∈ s.client → ∃ run ∈ s.phase.run?, a ∈ run.removedAssetIds) :
    Gone (finishHandler s assetIds) ⟨a, a ∈ s.client, s.issued.length, s.alerts.length⟩ where
  logs := ⟨le_rfl, le_rfl⟩
  flags := hflags
  new := hnew
  scan _ := by
    left
    show (assetIds.foldl removeAsset s.detector).latestTickByAsset.get a = none
    rw [get_foldl_removeAsset, if_pos ha]
  subscribe c hc := by
    have hc : c ∈ s.issued.drop s.issued.length := hc
    rw [List.drop_length] at hc
    exact absurd hc List.not_mem_nil
  unsubscribe hsubscribed := Or.inr (hremoved (of_decide_eq_true hsubscribed))
  alerts x hx := by
    have hx : x ∈ s.alerts.drop s.alerts.length := hx
    rw [List.drop_length] at hx
    exact absurd hx List.not_mem_nil

/-- Every resolution is gone for good. -/
def AllGone (s : SentinelApp) : Prop := ∀ r ∈ s.resolutions, Gone s r

theorem AllGone.resolved (h : AllGone s) {fault : Option ℕ} (he : Heeds cfg s (.resolved fault)) :
    AllGone (appStep py cfg s (.resolved fault)) := by
  have hunpolled : Unpolled s (appStep py cfg s (.resolved fault)) := unpolled_resolved
  rw [appStep] at hunpolled ⊢
  cases hresolving : s.resolving with
  | none => exact h
  | some handled =>
    obtain ⟨assetIds, nowMs⟩ := handled
    have hcache := cache_complete s.store fault (.active assetIds false 0 nowMs)
    rw [hresolving] at hunpolled
    dsimp only at hunpolled ⊢
    split at hunpolled
    · next store heq =>
      rw [heq] at hcache
      have hcache : store.cache = cacheActive s.store.cache assetIds false 0 := hcache
      intro r hr
      rcases List.mem_append.mp hr with hr | hr
      · refine (h r hr).of_same hunpolled rfl ?_ rfl
        show (assetIds.foldl removeAsset s.detector).latestTickByAsset.get r.assetId = _ ∨
          (assetIds.foldl removeAsset s.detector).latestTickByAsset.get r.assetId = none
        rw [get_foldl_removeAsset]
        split_ifs
        · exact Or.inr rfl
        · exact Or.inl rfl
      · obtain ⟨a, ha, rfl⟩ := List.mem_map.mp hr
        obtain ⟨hnew, hremoved⟩ := he _ hresolving a ha
        refine gone_finishHandler (s := { s with store := store }) ha ?_ hnew hremoved
        show App.flags store.cache a = none ∨ App.flags store.cache a = some (false, 0)
        rw [hcache, flags_cacheActive, if_pos ha]
        cases App.flags s.store.cache a with
        | none => exact Or.inl rfl
        | some _ => exact Or.inr rfl
    · exact fun r hr => (h r hr).of_same hunpolled rfl (Or.inl rfl) rfl

/-! ## Every step -/

/-- Only the end of a handler adds a resolution. -/
theorem resolutions_step {e : AppEvent} (he : ∀ fault, e ≠ .resolved fault) :
    (appStep py cfg s e).resolutions = s.resolutions := by
  have hactivate : ∀ (s : SentinelApp) run, (activate s run).resolutions = s.resolutions ∧
      (deactivate s run).resolutions = s.resolutions := by
    intro s run
    rw [activate, deactivate]
    constructor
    · split_ifs <;> rfl
    · split_ifs <;> rfl
  cases e with
  | resolved fault => exact absurd rfl (he fault)
  | poll tracked nowMs =>
    rw [appStep]
    split
    · dsimp only
      split_ifs
      · exact (hactivate _ _).1
      · rfl
    · rfl
  | polled fault =>
    rw [appStep]
    split
    · rfl
    · split
      · rw [goOn]
        split
        · rfl
        · exact (hactivate _ _).1
        · exact (hactivate _ _).2
        · rfl
      · rfl
  | ingest nowMs tick => rfl
  | scan nowMs =>
    rw [appStep, scanStep]
    split <;> rfl
  | write op fault => cases op <;> rfl
  | command sent | connect | disconnect | resolve =>
    rw [appStep]
    split <;> rfl

theorem AllGone.step (h : AllGone s) (hknown : Known s) {e : AppEvent} (he : Heeds cfg s e) :
    AllGone (appStep py cfg s e) := by
  by_cases hresolved : ∃ fault, e = .resolved fault
  · obtain ⟨fault, rfl⟩ := hresolved
    exact h.resolved he
  · intro r hr
    rw [resolutions_step fun fault heq => hresolved ⟨fault, heq⟩] at hr
    have hgone := h r hr
    cases e with
    | poll tracked nowMs => exact hgone.poll (he r hr)
    | polled fault => exact hgone.polled hr hknown he
    | resolved fault => exact absurd ⟨fault, rfl⟩ hresolved
    | ingest nowMs tick => exact hgone.ingest (he r hr)
    | scan nowMs => exact hgone.scanned (he r hr)
    | write op fault =>
      refine hgone.of_same (unpolled rfl) ?_ (Or.inl ?_) ?_
      all_goals cases op <;> rfl
    | command sent | connect | disconnect | resolve =>
      refine hgone.of_same (unpolled rfl) ?_ (Or.inl ?_) ?_
      all_goals
        rw [appStep]
        split <;> rfl

/-- In every run of a process in which no resolved asset is tracked any more, the calls of `run_once`
under way at the end of a handler have found gone what the client has of its assets and have found
none of them new, and no tick of a resolved asset comes while it is scanned, every resolution is
final. -/
theorem resolved_final (h : Reach (appStep py cfg) (launched table) (Heeds cfg) s) :
    ∀ r ∈ s.resolutions, Final s r := by
  have hall : AllGone s ∧ Known s := by
    refine h.invariant (I := fun s => AllGone s ∧ Known s)
      ⟨fun r hr => absurd hr List.not_mem_nil, fun _ _ hphase => (nomatch hphase)⟩ ?_
    rintro s e - he ⟨hgone, hknown⟩
    exact ⟨hgone.step hknown he, hknown.step⟩
  exact fun r hr => (hall.1 r hr).final

end Steps

namespace Sample

open Processing.Sample

def resolvedEvent : MarketResolvedEvent := ⟨"m", "a", "Yes", 3000, []⟩

/-- The market is tracked, the client subscribes to it, and it has a tick. -/
def subscribed : List AppEvent :=
  [.poll ⟨[Storage.Sample.market "a" "q"], by decide⟩ 1000, .polled none, .polled none, .connect,
    .command true, .ingest 1500 (quotedTick (1 / 2) 1500)]

/-- The market is found gone before it is resolved; a tick of it comes late, and is scanned. -/
def resolvedRun : List AppEvent := subscribed ++
  [.poll ⟨[], by decide⟩ 2000, .resolve resolvedEvent 2500, .resolved none, .polled none,
    .command true, .ingest 70000 (quotedTick (1 / 4) 70000), .scan 70000, .scan 70000, .scan 70000]

/-- The market is resolved and still tracked. -/
def trackedRun : List AppEvent := subscribed ++
  [.resolve resolvedEvent 2500, .resolved none,
    .poll ⟨[Storage.Sample.market "a" "q"], by decide⟩ 4000, .polled none, .polled none]

end Sample

instance (cfg : DetectorConfig) : ∀ (s : SentinelApp) (e : AppEvent), Decidable (Heeds cfg s e) := by
  intro s e
  unfold Heeds
  split <;> infer_instance

theorem resolved_final_gone :
    let s := Sample.resolvedRun.foldl (appStep Processing.Sample.alertBuiltins
      Processing.Sample.detectorConfig) (launched .empty)
    s.resolutions.length = 1 ∧ ∀ r ∈ s.resolutions, Final s r :=
  ⟨by decide +kernel, resolved_final (reach_of_allowed (by decide +kernel))⟩

/-- A market that is still tracked is active again after the next call of `run_once`. -/
theorem resolved_not_final : ¬ ∀ s, Reach (appStep Processing.Sample.alertBuiltins
      Processing.Sample.detectorConfig) (launched .empty) Any s → ∀ r ∈ s.resolutions, Final s r := by
  intro h
  have hfinal := h _ (reach_foldl Sample.trackedRun)
    ⟨"a", true, 1, 0⟩ (by decide +kernel)
  exact hfinal.inactive (by decide +kernel)

end Sentinel.App
