import Sentinel.App.Resolved
import Sentinel.App.Subscribed

/-!
# Alerts and active markets

The scan looks once at whether the market of an asset is active, and then goes through the levels of
the asset, with a wait after every alert.  A market that is deactivated in one of these waits gets
alerts all the same.

* `ActiveAlerts`: the alerts that a step of the scan creates are for active markets.
* `GateHolds`: the steps after which what the scan has seen of the market is still true.
* `alerts_active`: in a run of such steps all alerts are for active markets.
-/

namespace Sentinel.App

open Logic Contracts Storage Ingestion Processing ShiftDetector

/-- Every alert that a step of the scan creates is for an asset whose market is active then. -/
def ActiveAlerts (py : AlertBuiltins) (cfg : DetectorConfig) (s : SentinelApp) : Prop :=
  ∀ nowMs, ∀ raised ∈ (appStep py cfg s (.scan nowMs)).alerts.drop s.alerts.length,
    raised.1 ∈ activeAssetIds s.store.cache

/-- The asset that the scan is at, if it has levels to look at. -/
def assetAtLevels (s : SentinelApp) : Option String :=
  match s.scanning with
  | some ⟨_, some (a, _, _ :: _)⟩ => some a
  | _ => none

/-- The asset that the scan opens next, with its deque. -/
def assetToOpen (s : SentinelApp) : Option (String × ℕ) :=
  match s.scanning with
  | some ⟨_, some (_, _, _ :: _)⟩ => none
  | some ⟨todo, _⟩ => todo.head?
  | none => none

/-- The operation of the store that ends with the step. -/
def operationOf (s : SentinelApp) : AppEvent → Option (Option ℕ × Pending)
  | .polled fault => (waitsFor s.phase).map fun p => (fault, p)
  | .resolved fault => s.resolving.map fun handled => (fault, .active handled.1 false 0 handled.2)
  | _ => none

/-- The operation does not deactivate the market of the asset, and does not bring it in inactive. -/
def Spares (cache : MarketCache) (a : String) : Pending → Prop
  | .upsert ps => flags cache a = none → ∀ p ∈ ps, p.market.assetId = a → p.market.active = true
  | .active assetIds isActive _ _ => isActive = false → a ∈ activeAssetIds cache → a ∉ assetIds
  | _ => True

/-- An operation that succeeds spares the asset whose levels the scan is at. -/
def OperationSpares (s : SentinelApp) (op : Option (Option ℕ × Pending)) : Prop :=
  ∀ a ∈ assetAtLevels s, ∀ p ∈ op, (complete s.store p.1 p.2).2 = true →
    Spares s.store.cache a p.2

/-- The scan opens no inactive market in its time of grace on a deque without a quote, since it then
does not look at whether the market is active. -/
def OpensActive (cfg : DetectorConfig) (s : SentinelApp) (nowMs : ℤ) : Prop :=
  ∀ opened ∈ assetToOpen s, ∀ m ∈ s.store.cache.get opened.1, m.active = false →
    latestWithQuote (pruneBars cfg nowMs (s.detector.bars opened.2)) = none →
    cfg.warmupGraceSec * 1000 < nowMs - m.subscribedAtMs

/-- While the scan is at the levels of an asset, no operation on the store deactivates its market; and
the scan opens no inactive one. -/
def GateHolds (cfg : DetectorConfig) (s : SentinelApp) : AppEvent → Prop
  | .scan nowMs => OpensActive cfg s nowMs
  | e => OperationSpares s (operationOf s e)

/-- The market of the asset is unknown or active. -/
def Shown (cache : MarketCache) (a : String) : Prop := flags cache a = none ∨ a ∈ activeAssetIds cache

/-- What the scan has seen when it opened the asset is still true. -/
def Gate (s : SentinelApp) : Prop := ∀ a ∈ assetAtLevels s, Shown s.store.cache a

section Steps

variable {py : AlertBuiltins} {cfg : DetectorConfig} {s s' : SentinelApp} {a : String}
  {cache : MarketCache} {table : TrackedMarkets}

/-! ## The operations of the store -/

theorem Shown.of_flags {cache' : MarketCache} (h : Shown cache a)
    (hflags : flags cache' a = flags cache a) : Shown cache' a := by
  rcases h with hnone | hactive
  · exact Or.inl (hflags.trans hnone)
  · rw [mem_active_iff, ← hflags, ← mem_active_iff] at hactive
    exact Or.inr hactive

/-- A market that is brought in active is shown. -/
theorem Shown.upserts {ms : List MarketMetadata} (h : Shown cache a)
    (hms : flags cache a = none → ∀ m ∈ ms, m.assetId = a → m.active = true) :
    Shown (cacheUpserts cache ms) a := by
  by_cases hknown : flags cache a = none
  · have hactive : ∀ m, Markets.upserts cache.get ms a = some m → m.active = true := by
      induction ms using List.reverseRecOn with
      | nil => exact fun m hm => nomatch (flags_eq_none_iff.mp hknown).symm.trans hm
      | append_singleton ms m₀ ih =>
        intro m hm
        have hold := ih fun hnone m hm => hms hnone m (List.mem_append_left _ hm)
        rw [upserts_append, Markets.upsert, Function.update_apply] at hm
        split_ifs at hm with ha
        · obtain rfl := Option.some.inj hm
          rw [← ha, keepState]
          cases hcached : Markets.upserts cache.get ms a with
          | none => exact hms hknown m₀ (by simp) ha.symm
          | some m₁ => exact hold m₁ hcached
        · exact hold m hm
    cases hflags : flags (cacheUpserts cache ms) a with
    | none => exact Or.inl hflags
    | some f =>
      right
      obtain ⟨m, hget, rfl⟩ := Option.map_eq_some_iff.mp hflags
      rw [mem_activeAssetIds]
      exact ⟨m, hget, hactive m (by rw [← get_cacheUpserts]; exact hget)⟩
  · exact h.of_flags (flags_cacheUpserts_of_known hknown)

theorem Shown.active {assetIds : List String} {isActive : Bool} {since : ℤ} (h : Shown cache a)
    (hspares : isActive = false → a ∈ activeAssetIds cache → a ∉ assetIds) :
    Shown (cacheActive cache assetIds isActive since) a := by
  by_cases ha : a ∈ assetIds
  · rcases h with hnone | hactive
    · left
      rw [flags_cacheActive, if_pos ha, hnone]
      rfl
    · right
      cases isActive with
      | false => exact absurd ha (hspares rfl hactive)
      | true =>
        obtain ⟨since', hsince⟩ := mem_active_iff.mp hactive
        refine mem_active_iff.mpr ⟨since, ?_⟩
        rw [flags_cacheActive, if_pos ha, hsince]
        rfl
  · refine h.of_flags ?_
    rw [flags_cacheActive, if_neg ha]

/-- An operation that succeeds leaves the market shown if it spares it. -/
theorem Shown.finish {rows : TrackedMarkets} {p : Pending} (h : Shown cache a)
    (hp : p ≠ .refresh) (hspares : Spares cache a p) : Shown (p.finish rows cache) a := by
  cases p with
  | upsert ps =>
    refine h.upserts fun hnone m hm hid => ?_
    obtain ⟨p, hp, rfl⟩ := List.mem_map.mp hm
    exact hspares hnone p hp hid
  | active assetIds isActive since nowMs => exact h.active hspares
  | tick assetId timestampMs => exact h.of_flags flags_cacheTick
  | refresh => exact absurd rfl hp
  | other => exact h

/-! ## The scan -/

/-- An asset is opened only if what the scan has seen of its market is that it is active, or if it is
in its time of grace. -/
theorem openAsset_opened {d : ShiftDetector} {nowMs : ℤ} {market : Option MarketMetadata} {id : ℕ}
    (h : (d.openAsset cfg nowMs market a id).2 = true) :
    ∀ m ∈ market, m.active = true ∨
      latestWithQuote (pruneBars cfg nowMs (d.bars id)) = none ∧
        nowMs - m.subscribedAtMs ≤ cfg.warmupGraceSec * 1000 := by
  intro m hm
  obtain rfl : market = some m := hm
  rw [openAsset] at h
  split_ifs at h with hempty
  dsimp only at h
  split_ifs at h with hpruned
  simp only [Bool.not_eq_true', shouldSkip] at h
  split at h
  · cases h
  · split_ifs at h
    split at h
    · next hquote =>
      right
      exact ⟨hquote, by simpa using h⟩
    · left
      split_ifs at h
      simpa using h

/-- An alert is for a market that the store has. -/
theorem raised_known {nowMs : ℤ} {raised : String × ShiftAlert}
    (h : raised ∈ (appStep py cfg s (.scan nowMs)).alerts.drop s.alerts.length) :
    raised.1 ∈ assetAtLevels s ∧ flags s.store.cache raised.1 ≠ none := by
  have hnone : ∀ {alerts : List (String × ShiftAlert)}, alerts = s.alerts →
      raised ∉ alerts.drop s.alerts.length := by
    rintro _ rfl
    rw [List.drop_length]
    exact List.not_mem_nil
  rw [appStep, scanStep] at h
  split at h
  · exact absurd h (hnone rfl)
  · next todo a id level levels hscanning =>
    dsimp only at h
    rw [List.drop_left] at h
    obtain ⟨result, hresult, rfl⟩ := Option.map_eq_some_iff.mp (Option.mem_toList.mp h)
    obtain ⟨-, hsome⟩ := maybeCreateAlert_spec py cfg s.detector nowMs (s.store.cache.get a) a id
      level
    obtain ⟨hmarket, -⟩ := hsome (Option.isSome_iff_exists.mpr ⟨result, hresult⟩)
    refine ⟨?_, fun hflags => hmarket (flags_eq_none_iff.mp hflags)⟩
    rw [assetAtLevels, hscanning]
    rfl
  · exact absurd h (hnone rfl)
  · exact absurd h (hnone rfl)

theorem Gate.scan (h : Gate s) {nowMs : ℤ} (hholds : GateHolds cfg s (.scan nowMs)) :
    Gate (appStep py cfg s (.scan nowMs)) := by
  intro a ha
  have hstore : (appStep py cfg s (.scan nowMs)).store = s.store := by
    rw [appStep, scanStep]
    split <;> rfl
  rw [hstore]
  rw [appStep, scanStep] at ha
  split at ha
  · cases ha
  · next todo b id level levels hscanning =>
    -- the scan stays at the asset as long as there are levels
    refine h a ?_
    rw [assetAtLevels, hscanning]
    cases levels with
    | nil => cases ha
    | cons next levels => exact ha
  · next b id todo current hcurrent hscanning =>
    dsimp only at ha
    have hnext : (b, id) ∈ assetToOpen s := by
      rw [assetToOpen, hscanning]
      cases current with
      | none => rfl
      | some point =>
        obtain ⟨c, cid, levels⟩ := point
        cases levels with
        | nil => rfl
        | cons level levels => exact absurd rfl (hcurrent c cid level levels)
    split_ifs at ha with hopen
    · obtain rfl : b = a := Option.some.inj ha
      cases hget : s.store.cache.get b with
      | none => exact Or.inl (flags_eq_none_iff.mpr hget)
      | some m =>
        right
        refine mem_activeAssetIds.mpr ⟨m, hget, ?_⟩
        rcases openAsset_opened hopen m hget with hactive | ⟨hquote, hgrace⟩
        · exact hactive
        · cases hactive : m.active with
          | true => rfl
          | false =>
            have hlate := hholds (b, id) hnext m hget hactive hquote
            exact absurd hgrace (not_le.mpr hlate)
    · cases ha
  · cases ha

/-! ## The other tasks -/

theorem activate_frame (s : SentinelApp) (run : RunOnce) :
    ((activate s run).store = s.store ∧ (activate s run).scanning = s.scanning) ∧
      (deactivate s run).store = s.store ∧ (deactivate s run).scanning = s.scanning := by
  rw [activate, deactivate]
  split_ifs <;> exact ⟨⟨rfl, rfl⟩, rfl, rfl⟩

theorem goOn_frame (s : SentinelApp) :
    (goOn s).store = s.store ∧ (goOn s).scanning = s.scanning := by
  rw [goOn]
  split
  · exact ⟨rfl, rfl⟩
  · exact (activate_frame s _).1
  · exact (activate_frame s _).2
  · exact ⟨rfl, rfl⟩

/-- Another task leaves the scan where it is, and the flags of the markets as they are but for the
operation that ends. -/
theorem otherTask {e : AppEvent} (he : ∀ nowMs, e ≠ .scan nowMs) :
    (appStep py cfg s e).scanning = s.scanning ∧
      ((∀ a, flags (appStep py cfg s e).store.cache a = flags s.store.cache a) ∨
        ∃ fault p, operationOf s e = some (fault, p) ∧
          (appStep py cfg s e).store = (complete s.store fault p).1) := by
  cases e with
  | scan nowMs => exact absurd rfl (he nowMs)
  | ingest nowMs tick => exact ⟨rfl, Or.inl fun _ => rfl⟩
  | poll tracked nowMs =>
    rw [appStep]
    split
    · dsimp only
      split_ifs
      · obtain ⟨⟨hstore, hscanning⟩, -⟩ := activate_frame s (diff s.store.cache tracked nowMs)
        exact ⟨hscanning, Or.inl fun _ => by rw [hstore]⟩
      · exact ⟨rfl, Or.inl fun _ => rfl⟩
    · exact ⟨rfl, Or.inl fun _ => rfl⟩
  | polled fault =>
    rw [appStep, operationOf]
    cases hwaits : waitsFor s.phase with
    | none => exact ⟨rfl, Or.inl fun _ => rfl⟩
    | some p =>
      dsimp only
      split
      · next store heq =>
        obtain ⟨hstore, hscanning⟩ := goOn_frame { s with store := store }
        exact ⟨hscanning, Or.inr ⟨fault, p, rfl, by rw [hstore, heq]⟩⟩
      · next store heq => exact ⟨rfl, Or.inr ⟨fault, p, rfl, by rw [heq]⟩⟩
  | resolved fault =>
    rw [appStep, operationOf]
    cases hresolving : s.resolving with
    | none => exact ⟨rfl, Or.inl fun _ => rfl⟩
    | some handled =>
      obtain ⟨assetIds, nowMs⟩ := handled
      dsimp only
      split
      · next store heq =>
        exact ⟨rfl, Or.inr ⟨fault, .active assetIds false 0 nowMs, rfl, by rw [heq]; rfl⟩⟩
      · next store heq =>
        exact ⟨rfl, Or.inr ⟨fault, .active assetIds false 0 nowMs, rfl, by rw [heq]⟩⟩
  | write op fault =>
    cases op with
    | updateLastTick assetId timestampMs =>
      exact ⟨rfl, Or.inl fun _ => flags_write (Or.inl ⟨_, _, rfl⟩)⟩
    | other => exact ⟨rfl, Or.inl fun _ => flags_write (Or.inr rfl)⟩
    | _ => exact ⟨rfl, Or.inl fun _ => rfl⟩
  | command sent | connect | disconnect | resolve =>
    rw [appStep]
    split <;> exact ⟨rfl, Or.inl fun _ => rfl⟩

/-- No task waits for the cache to be read again. -/
theorem operationOf_ne_refresh {e : AppEvent} {fault : Option ℕ} {p : Pending}
    (h : operationOf s e = some (fault, p)) : p ≠ .refresh := by
  rintro rfl
  cases e with
  | polled fault' =>
    obtain ⟨p, hp, heq⟩ := Option.map_eq_some_iff.mp h
    obtain ⟨-, rfl⟩ := Prod.mk.inj heq
    unfold waitsFor at hp
    split at hp <;> cases hp
  | resolved fault' =>
    obtain ⟨handled, -, heq⟩ := Option.map_eq_some_iff.mp h
    cases (Prod.mk.inj heq).2
  | _ => cases h

theorem Gate.step (h : Gate s) {e : AppEvent} (hholds : GateHolds cfg s e) :
    Gate (appStep py cfg s e) := by
  by_cases hscan : ∃ nowMs, e = .scan nowMs
  · obtain ⟨nowMs, rfl⟩ := hscan
    exact h.scan hholds
  · have hother : ∀ nowMs, e ≠ .scan nowMs := fun nowMs heq => hscan ⟨nowMs, heq⟩
    obtain ⟨hscanning, hstore⟩ := @otherTask py cfg s e hother
    intro a ha
    rw [assetAtLevels, hscanning] at ha
    have hshown := h a ha
    rcases hstore with hflags | ⟨fault, p, hop, hstore⟩
    · exact hshown.of_flags (hflags a)
    · rw [hstore, cache_complete]
      split_ifs with hok
      · have hspares : Spares s.store.cache a p := by
          cases e with
          | scan nowMs => exact absurd rfl (hother nowMs)
          | _ => exact hholds a ha (fault, p) hop hok
        exact hshown.finish (operationOf_ne_refresh hop) hspares
      · exact hshown

/-- In every run of a process in which, while the scan is at the levels of an asset, no operation on
the store deactivates its market, and in which the scan opens no inactive market in its time of
grace without a quote, the alerts are for active markets when they are created. -/
theorem alerts_active (h : Reach (appStep py cfg) (launched table) (GateHolds cfg) s) :
    ActiveAlerts py cfg s := by
  have hgate : Gate s := by
    refine h.invariant (fun a ha => (by cases ha)) ?_
    intro s e _ hholds hgate
    exact hgate.step hholds
  intro nowMs raised hraised
  obtain ⟨hat, hknown⟩ := raised_known hraised
  exact (hgate _ hat).resolve_left hknown

end Steps

namespace Sample

open Processing.Sample

/-- The market is tracked and has two ticks that are a shift at all levels. -/
def shifted : List AppEvent :=
  [.poll ⟨[Storage.Sample.market "a" "q"], market_once⟩ 1000, .polled none, .polled none,
    .ingest 1500 (quotedTick (1 / 2) 1500), .ingest 3000 (quotedTick (2 / 5) 3000)]

/-- The scan opens the asset and creates a first alert. -/
def scanned : List AppEvent := shifted ++ [.scan 4000, .scan 4000, .scan 4000]

/-- The market is not tracked any more, and is deactivated while the alert is stored. -/
def overtaken : List AppEvent := shifted ++
  [.poll ⟨[], List.nodup_nil⟩ 3500, .scan 4000, .scan 4000, .scan 4000, .polled none]

end Sample

instance (cache : MarketCache) (a : String) : ∀ p, Decidable (Spares cache a p) := by
  intro p
  unfold Spares
  split <;> infer_instance

instance (s : SentinelApp) (op : Option (Option ℕ × Pending)) : Decidable (OperationSpares s op) :=
  inferInstanceAs (Decidable (∀ a ∈ assetAtLevels s, ∀ p ∈ op,
    (complete s.store p.1 p.2).2 = true → Spares s.store.cache a p.2))

instance (cfg : DetectorConfig) (s : SentinelApp) (nowMs : ℤ) : Decidable (OpensActive cfg s nowMs) :=
  inferInstanceAs (Decidable (∀ opened ∈ assetToOpen s, ∀ m ∈ s.store.cache.get opened.1,
    m.active = false → latestWithQuote (pruneBars cfg nowMs (s.detector.bars opened.2)) = none →
    cfg.warmupGraceSec * 1000 < nowMs - m.subscribedAtMs))

instance (cfg : DetectorConfig) (s : SentinelApp) : ∀ e, Decidable (GateHolds cfg s e)
  | .scan nowMs => inferInstanceAs (Decidable (OpensActive cfg s nowMs))
  | .poll _ _ | .polled _ | .connect | .disconnect | .command _ | .resolve _ _ | .resolved _
  | .ingest _ _ | .write _ _ => inferInstanceAs (Decidable (OperationSpares s _))

theorem alerts_active_scanned :
    let s := Sample.scanned.foldl (appStep Processing.Sample.alertBuiltins
      Processing.Sample.detectorConfig) (launched .empty)
    s.alerts.length = 1 ∧
      ActiveAlerts Processing.Sample.alertBuiltins Processing.Sample.detectorConfig s :=
  ⟨by decide +kernel, alerts_active (reach_of_allowed (by decide +kernel))⟩

/-- The market is inactive when the second level is looked at, and there is an alert. -/
theorem alerts_not_active : ¬ ∀ s, Reach (appStep Processing.Sample.alertBuiltins
      Processing.Sample.detectorConfig) (launched .empty) Any s →
    ActiveAlerts Processing.Sample.alertBuiltins Processing.Sample.detectorConfig s := by
  intro h
  have hactive := h _ (reach_foldl Sample.overtaken) 4000
  have hinactive : ∃ raised ∈ (appStep Processing.Sample.alertBuiltins
      Processing.Sample.detectorConfig (Sample.overtaken.foldl (appStep
        Processing.Sample.alertBuiltins Processing.Sample.detectorConfig) (launched .empty))
      (.scan 4000)).alerts.drop 1, raised.1 = "a" := by
    exact ⟨_, List.getElem_mem (n := 0) (by decide +kernel), by decide +kernel⟩
  obtain ⟨raised, hraised, ha⟩ := hinactive
  have hmem := hactive raised (by
    have hlength : (Sample.overtaken.foldl (appStep Processing.Sample.alertBuiltins
        Processing.Sample.detectorConfig) (launched .empty)).alerts.length = 1 := by decide +kernel
    rw [hlength]
    exact hraised)
  rw [ha] at hmem
  exact absurd hmem (by decide +kernel)

end Sentinel.App
