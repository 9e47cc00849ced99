import Sentinel.Ingestion.Gatekeeper
import Sentinel.Processing.RawTicks

/-!
# The process of the sentinel

The tasks of `SentinelApp.run` as one step function: the gatekeeper, the client of the websocket with
the handler of resolved markets, the ticks and the scans.  A step of a task is what it does between
two of its waits; an operation of the store that a task waits for ends in one step, in which the
statement is run and the cache updated.  What has been issued, raised and resolved is kept in logs.

* `appStep`: one process; `hostStep`: with restarts.
* `flags`: what the store has of a market for the gatekeeper and the scan.
* `unpolled`: what the other tasks do to what the gatekeeper sees.
* `Known`: an upsert under way is of markets that are new or that the store has.
-/

namespace Sentinel.App

open Logic Contracts Storage Ingestion Processing

/-! ## State -/

/-- The connection of the client: none, one whose commands are processed, or one on which a message
could not be sent, which ends the loop of the commands. -/
inductive Socket : Type
  | closed | listening | broken
  deriving DecidableEq

/-- Where a scan is: the deques that it has still to look at, and the asset, the deque and the levels
it is at. -/
structure ScanPoint : Type where
  todo : List (String × ℕ)
  current : Option (String × ℕ × List AlertLevel)

/-- What was the case when the handler of a resolved asset finished: whether the client had the asset
in its set, how many commands had been issued and how many alerts raised. -/
structure Resolution : Type where
  assetId : String
  subscribed : Bool
  issued : ℕ
  alerts : ℕ
  deriving DecidableEq

structure SentinelApp : Type where
  store : Store
  phase : Ingestion.Phase
  /-- A call of `run_once` has returned. -/
  ranOnce : Bool
  queue : List SubscriptionCommand
  socket : Socket
  /-- `_active_asset_ids` of the client. -/
  client : Finset String
  /-- The handler of a resolved market waits for the store. -/
  resolving : Option (List String × ℤ)
  detector : ShiftDetector
  scanning : Option ScanPoint
  issued : List SubscriptionCommand
  alerts : List (String × ShiftAlert)
  resolutions : List Resolution

def launched (table : TrackedMarkets) : SentinelApp :=
  { store := initialized table, phase := .idle, ranOnce := false, queue := [], socket := .closed
    client := ∅, resolving := none, detector := emptyDetector, scanning := none, issued := []
    alerts := [], resolutions := [] }

inductive AppEvent : Type
  /-- `run_once`, from the answer of the upstream on. -/
  | poll (tracked : Tracked) (nowMs : ℤ)
  /-- The operation that `run_once` waits for ends. -/
  | polled (fault : Option ℕ)
  | connect
  | disconnect
  | command (sent : Bool)
  | resolve (event : MarketResolvedEvent) (nowMs : ℤ)
  /-- The operation that the handler waits for ends. -/
  | resolved (fault : Option ℕ)
  | ingest (nowMs : ℤ) (tick : Ingestion.PriceTick)
  | scan (nowMs : ℤ)
  /-- An operation on the last ticks or on another table ends. -/
  | write (op : StoreOp) (fault : Option ℕ)

/-! ## Steps -/

/-- The operation ends; whether it has succeeded. -/
def complete (s : Store) (fault : Option ℕ) (p : Pending) : Store × Bool :=
  match p.execute s.conn fault with
  | (conn, true) => (⟨conn, p.finish conn.current s.cache⟩, true)
  | (conn, false) => (⟨conn, s.cache⟩, false)

/-- The end of `run_once`: the commands are put on the queue, which never waits. -/
def finishRun (s : SentinelApp) (run : RunOnce) : SentinelApp :=
  { s with
    phase := .idle
    ranOnce := true
    queue := s.queue ++ run.commands
    issued := s.issued ++ run.commands }

/-- An operation on no assets returns at once. -/
def deactivate (s : SentinelApp) (run : RunOnce) : SentinelApp :=
  if run.removedAssetIds = [] then finishRun s run else { s with phase := .deactivating run }

def activate (s : SentinelApp) (run : RunOnce) : SentinelApp :=
  if run.newAssetIds = [] then deactivate s run else { s with phase := .activating run }

/-- The operation that `run_once` waits for. -/
def waitsFor : Ingestion.Phase → Option Pending
  | .idle => none
  | .upserting _ ps => some (.upsert ps)
  | .activating run => some (.active run.newAssetIds true run.nowMs run.nowMs)
  | .deactivating run => some (.active run.removedAssetIds false 0 run.nowMs)

/-- What `run_once` does when it has succeeded. -/
def goOn (s : SentinelApp) : SentinelApp :=
  match s.phase with
  | .idle => s
  | .upserting run _ => activate s run
  | .activating run => deactivate s run
  | .deactivating run => finishRun s run

/-- The assets that the handler of a resolved market takes. -/
def resolvedAssetIds (event : MarketResolvedEvent) : List String :=
  if event.assetIds = [] ∧ event.winningAssetId ≠ "" then [event.winningAssetId] else event.assetIds

/-- The end of the handler. -/
def finishHandler (s : SentinelApp) (assetIds : List String) : SentinelApp :=
  { s with
    resolving := none
    detector := assetIds.foldl ShiftDetector.removeAsset s.detector
    resolutions := s.resolutions ++ assetIds.map fun a =>
      ⟨a, a ∈ s.client, s.issued.length, s.alerts.length⟩ }

section Steps

variable (py : AlertBuiltins) (cfg : DetectorConfig)

/-- The scan begins with the deques that there are, opens the next one, looks at the next level of
the one it is at, or ends. -/
def scanStep (s : SentinelApp) (nowMs : ℤ) : SentinelApp :=
  match s.scanning with
  | none => { s with scanning := some ⟨s.detector.barsByAsset.items, none⟩ }
  | some ⟨todo, some (a, id, level :: levels)⟩ =>
    let (d, result) := s.detector.maybeCreateAlert py cfg nowMs (s.store.cache.get a) a id level
    { s with
      detector := d
      alerts := s.alerts ++ (result.map fun r => (a, r.2)).toList
      scanning := some ⟨todo, some (a, id, levels)⟩ }
  | some ⟨(a, id) :: todo, _⟩ =>
    let (d, opened) := s.detector.openAsset cfg nowMs (s.store.cache.get a) a id
    { s with
      detector := d
      scanning := some ⟨todo, if opened then some (a, id, ShiftDetector.scanOrder) else none⟩ }
  | some ⟨[], _⟩ => { s with scanning := none }

def appStep (s : SentinelApp) : AppEvent → SentinelApp
  | .poll tracked nowMs =>
    match s.phase with
    | .idle =>
      let run := diff s.store.cache tracked nowMs
      if tracked.markets = [] then activate s run
      else { s with
        phase := .upserting run (tracked.markets.map (upsertParams s.store.cache nowMs)) }
    | _ => s
  | .polled fault =>
    match waitsFor s.phase with
    | none => s
    | some p => match complete s.store fault p with
      | (store, true) => goOn { s with store := store }
      | (store, false) => { s with store := store, phase := .idle }
  | .connect => if s.socket = .closed then { s with socket := .listening } else s
  | .disconnect => if s.resolving = none then { s with socket := .closed } else s
  | .command sent =>
    match s.socket, s.queue with
    | .listening, c :: queue =>
      { s with
        queue := queue
        client := c.apply s.client
        socket := if sent then .listening else .broken }
    | _, _ => s
  | .resolve event nowMs =>
    if s.socket = .closed ∨ s.resolving ≠ none ∨ resolvedAssetIds event = [] then s
    else
      let resolvedMs := if event.timestampMs = 0 then nowMs else event.timestampMs
      { s with resolving := some (resolvedAssetIds event, resolvedMs) }
  | .resolved fault =>
    match s.resolving with
    | none => s
    | some (assetIds, nowMs) => match complete s.store fault (.active assetIds false 0 nowMs) with
      | (store, true) => finishHandler { s with store := store } assetIds
      | (store, false) => { s with store := store, resolving := none, socket := .closed }
  | .ingest nowMs tick => { s with detector := s.detector.ingestTick cfg nowMs tick }
  | .scan nowMs => scanStep py cfg s nowMs
  | .write op fault =>
    match op with
    | .updateLastTick assetId timestampMs =>
      { s with store := (complete s.store fault (.tick assetId timestampMs)).1 }
    | .other => { s with store := (complete s.store fault .other).1 }
    | _ => s

/-- A crash may come after every step; the process starts again on the table as it is committed. -/
inductive HostEvent : Type
  | app (e : AppEvent)
  | restart

def hostStep (s : SentinelApp) : HostEvent → SentinelApp
  | .app e => appStep py cfg s e
  | .restart => launched s.store.conn.committed

end Steps

/-! ## The flags of a market -/

/-- What decides whether a market is active, and since when. -/
def flags (cache : MarketCache) (a : String) : Option (Bool × ℤ) :=
  (cache.get a).map fun m => (m.active, m.subscribedAtMs)

section Flags

variable {cache : MarketCache} {a : String}

theorem mem_active_iff : a ∈ activeAssetIds cache ↔ ∃ since, flags cache a = some (true, since) := by
  rw [mem_activeAssetIds, flags]
  constructor
  · rintro ⟨m, hm, hactive⟩
    exact ⟨m.subscribedAtMs, by rw [hm, Option.map_some, hactive]⟩
  · rintro ⟨since, h⟩
    obtain ⟨m, hm, heq⟩ := Option.map_eq_some_iff.mp h
    exact ⟨m, hm, congrArg Prod.fst heq⟩

theorem flags_eq_none_iff : flags cache a = none ↔ cache.get a = none := Option.map_eq_none_iff

/-- An upsert leaves the flags of what is there. -/
theorem flags_cacheUpserts_of_known {ms : List MarketMetadata} (h : flags cache a ≠ none) :
    flags (cacheUpserts cache ms) a = flags cache a := by
  obtain ⟨m₀, hget⟩ := Option.ne_none_iff_exists'.mp (mt flags_eq_none_iff.mpr h)
  rw [flags, flags, get_cacheUpserts, upserts_of_some hget, hget]
  cases ms.reverse.find? fun m' => m'.assetId = a <;> rfl

/-- And all flags of other assets. -/
theorem flags_cacheUpserts_of_other {ms : List MarketMetadata}
    (h : a ∉ ms.map MarketMetadata.assetId) :
    flags (cacheUpserts cache ms) a = flags cache a := by
  rw [flags, flags, get_cacheUpserts]
  congr 1
  induction ms using List.reverseRecOn with
  | nil => rfl
  | append_singleton ms m ih =>
    simp only [List.map_append, List.mem_append, not_or] at h
    have hne : a ≠ m.assetId := by simpa using h.2
    rw [upserts_append, Markets.upsert, Function.update_of_ne hne]
    exact ih h.1

theorem flags_cacheActive (assetIds : List String) (active : Bool) (since : ℤ) :
    flags (cacheActive cache assetIds active since) a =
      if a ∈ assetIds then (flags cache a).map fun _ => (active, since) else flags cache a := by
  rw [flags, flags, get_cacheActive, Markets.change]
  split_ifs with ha
  · rw [Option.map_map, Option.map_map]
    rfl
  · rfl

theorem flags_cacheTick {assetId : String} {timestampMs : ℤ} :
    flags (cacheTick cache assetId timestampMs) a = flags cache a := by
  rw [flags, flags, get_cacheTick, Markets.change]
  split_ifs
  · rw [Option.map_map]
    rfl
  · rfl

end Flags

section Complete

variable {s : Store} {fault : Option ℕ} {p : Pending}

theorem cache_complete (s : Store) (fault : Option ℕ) (p : Pending) : (complete s fault p).1.cache =
    if (complete s fault p).2 then p.finish (complete s fault p).1.conn.current s.cache
    else s.cache := by
  rw [complete]
  split <;> rfl

/-- The operations of other tasks leave the flags. -/
theorem flags_write {a : String} (hp : (∃ assetId ts, p = .tick assetId ts) ∨ p = .other) :
    flags (complete s fault p).1.cache a = flags s.cache a := by
  rw [cache_complete]
  split_ifs
  · rcases hp with ⟨assetId, ts, rfl⟩ | rfl
    · exact flags_cacheTick
    · rfl
  · rfl

end Complete

/-! ## Steps of other tasks than the gatekeeper -/

namespace SentinelApp

/-- The set of the client once it has processed the queue. -/
def eventual (s : SentinelApp) : Finset String := applied s.client s.queue

end SentinelApp

def AppEvent.polls : AppEvent → Bool
  | .poll _ _ | .polled _ => true
  | _ => false

/-- Of what the gatekeeper sees, only some markets are inactive now. -/
structure Unpolled (s s' : SentinelApp) : Prop where
  flags : ∀ a, flags s'.store.cache a = flags s.store.cache a ∨
    (flags s.store.cache a ≠ none ∧ flags s'.store.cache a = some (false, 0))
  phase : s'.phase = s.phase
  ranOnce : s'.ranOnce = s.ranOnce
  eventual : s'.eventual = s.eventual
  issued : s'.issued = s.issued

section Unpolled

variable {py : AlertBuiltins} {cfg : DetectorConfig} {s s' : SentinelApp} {a : String}
  {table : TrackedMarkets}

theorem Unpolled.active (h : Unpolled s s') (ha : a ∈ activeAssetIds s'.store.cache) :
    a ∈ activeAssetIds s.store.cache := by
  obtain ⟨since, hflags⟩ := mem_active_iff.mp ha
  rcases h.flags a with heq | ⟨-, heq⟩
  · exact mem_active_iff.mpr ⟨since, heq ▸ hflags⟩
  · exact nomatch heq.symm.trans hflags

theorem Unpolled.known (h : Unpolled s s') (ha : App.flags s.store.cache a ≠ none) :
    App.flags s'.store.cache a ≠ none := by
  rcases h.flags a with heq | ⟨-, heq⟩
  · rwa [heq]
  · rw [heq]
    exact Option.some_ne_none _

theorem unpolled_resolved {fault : Option ℕ} :
    Unpolled s (appStep py cfg s (.resolved fault)) := by
  rw [appStep]
  cases hresolving : s.resolving with
  | none => exact ⟨fun _ => Or.inl rfl, rfl, rfl, rfl, rfl⟩
  | some resolving =>
    obtain ⟨assetIds, nowMs⟩ := resolving
    have hcache := cache_complete s.store fault (.active assetIds false 0 nowMs)
    dsimp only
    split
    · next store heq =>
      rw [heq] at hcache
      have hcache : store.cache = cacheActive s.store.cache assetIds false 0 := hcache
      refine ⟨fun a => ?_, rfl, rfl, rfl, rfl⟩
      show flags store.cache a = _ ∨ _ ∧ flags store.cache a = _
      rw [hcache, flags_cacheActive]
      split_ifs
      · cases hflags : flags s.store.cache a with
        | none => exact Or.inl rfl
        | some _ => exact Or.inr ⟨Option.some_ne_none _, rfl⟩
      · exact Or.inl rfl
    · next store heq =>
      rw [heq] at hcache
      have hcache : store.cache = s.store.cache := hcache
      exact ⟨fun a => Or.inl (congrArg (flags · a) hcache), rfl, rfl, rfl, rfl⟩

/-- The client goes through the queue. -/
theorem eventual_command {sent : Bool} :
    (appStep py cfg s (.command sent)).eventual = s.eventual := by
  rw [appStep]
  split
  · next c queue _ hqueue =>
    rw [SentinelApp.eventual, SentinelApp.eventual, hqueue]
    rfl
  · rfl

theorem unpolled {e : AppEvent} (he : e.polls = false) : Unpolled s (appStep py cfg s e) := by
  cases e with
  | poll tracked nowMs => cases he
  | polled fault => cases he
  | resolved fault => exact unpolled_resolved
  | ingest nowMs tick => exact ⟨fun _ => Or.inl rfl, rfl, rfl, rfl, rfl⟩
  | command sent =>
    refine ⟨fun _ => Or.inl ?_, ?_, ?_, eventual_command, ?_⟩
    all_goals
      rw [appStep]
      split <;> rfl
  | scan nowMs =>
    refine ⟨fun _ => Or.inl ?_, ?_, ?_, ?_, ?_⟩
    all_goals
      rw [appStep, scanStep]
      split <;> rfl
  | write op fault =>
    cases op with
    | updateLastTick assetId timestampMs =>
      exact ⟨fun _ => Or.inl (flags_write (Or.inl ⟨_, _, rfl⟩)), rfl, rfl, rfl, rfl⟩
    | other => exact ⟨fun _ => Or.inl (flags_write (Or.inr rfl)), rfl, rfl, rfl, rfl⟩
    | _ => exact ⟨fun _ => Or.inl rfl, rfl, rfl, rfl, rfl⟩
  | connect | disconnect | resolve =>
    refine ⟨fun _ => Or.inl ?_, ?_, ?_, ?_, ?_⟩
    all_goals
      rw [appStep]
      split <;> rfl

/-! ## An upsert under way -/

/-- It is of the tracked markets, and those that the store does not have are new. -/
def Known (s : SentinelApp) : Prop :=
  ∀ run ps, s.phase = .upserting run ps → ps.map UpsertParams.market = run.tracked.markets ∧
    ∀ a ∈ run.tracked.assetIds, a ∈ run.newAssetIds ∨ flags s.store.cache a ≠ none

theorem phase_activate (s : SentinelApp) (run : RunOnce) :
    (activate s run).phase = .activating run ∨ (activate s run).phase = .deactivating run ∨
      (activate s run).phase = .idle := by
  rw [activate, deactivate]
  split_ifs
  · exact Or.inr (Or.inr rfl)
  · exact Or.inr (Or.inl rfl)
  · exact Or.inl rfl

theorem phase_deactivate (s : SentinelApp) (run : RunOnce) :
    (deactivate s run).phase = .deactivating run ∨ (deactivate s run).phase = .idle := by
  rw [deactivate]
  split_ifs
  · exact Or.inr rfl
  · exact Or.inl rfl

theorem known_activate {run : RunOnce} : Known (activate s run) := by
  intro run' ps hphase
  rcases phase_activate s run with h | h | h
  · exact nomatch h.symm.trans hphase
  · exact nomatch h.symm.trans hphase
  · exact nomatch h.symm.trans hphase

theorem Known.step (h : Known s) {e : AppEvent} : Known (appStep py cfg s e) := by
  cases hpolls : e.polls with
  | false =>
    have hsame : Unpolled s (appStep py cfg s e) := unpolled hpolls
    intro run ps hphase
    obtain ⟨hmarkets, hknown⟩ := h run ps (hsame.phase ▸ hphase)
    exact ⟨hmarkets, fun a ha => (hknown a ha).imp_right hsame.known⟩
  | true =>
    cases e with
    | poll tracked nowMs =>
      rw [appStep]
      split
      · dsimp only
        split_ifs
        · exact known_activate
        · intro run ps hphase
          obtain ⟨rfl, rfl⟩ := Phase.upserting.inj hphase
          refine ⟨?_, fun a ha => ?_⟩
          · rw [List.map_map]
            exact List.map_id _
          · by_cases hactive : a ∈ activeAssetIds s.store.cache
            · obtain ⟨since, hflags⟩ := mem_active_iff.mp hactive
              exact Or.inr (by rw [hflags]; exact Option.some_ne_none _)
            · exact Or.inl (mem_newAssetIds.mpr ⟨ha, hactive⟩)
      · exact h
    | polled fault =>
      rw [appStep]
      split
      · exact h
      · split
        · rw [goOn]
          split
          · next hidle => exact fun run ps hphase => nomatch hidle.symm.trans hphase
          · exact known_activate
          · intro run' ps hphase
            rcases phase_deactivate _ _ with h | h
            · exact nomatch h.symm.trans hphase
            · exact nomatch h.symm.trans hphase
          · exact fun run ps hphase => (nomatch hphase)
        · exact fun run ps hphase => (nomatch hphase)
    | _ => cases hpolls

end Unpolled

end Sentinel.App
