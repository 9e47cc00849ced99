import Sentinel.App.Process

/-!
# Every active market is subscribed

The client gets to know of markets by the differences that the gatekeeper sees, so it has the active
ones as long as every market became active with a command.  A restart loses the set of the client,
but not the flags in the table: what is active in it and still tracked is never subscribed again.

* `Covered`: what is active the client has once it has processed the queue, or the call of `run_once`
  under way sees to it.
* `active_subscribed`: if no tracked market is active in the first call after a start, then between
  calls the client has every active market when the queue is empty.
-/

namespace Sentinel.App

open Logic Storage Ingestion Processing

namespace SentinelApp

/-- Between the calls of `run_once`, the first of which has returned. -/
def Between (s : SentinelApp) : Prop := s.phase.run? = none ∧ s.ranOnce = true

instance (s : SentinelApp) : Decidable s.Between := by
  unfold Between
  infer_instance

end SentinelApp

/-- Until a call of `run_once` has returned, no market that is tracked is active; and no call that
has new markets fails after it has upserted them. -/
def Renews (s : SentinelApp) : HostEvent → Prop
  | .app (.poll tracked _) =>
    s.ranOnce = false → ∀ a ∈ tracked.assetIds, a ∉ activeAssetIds s.store.cache
  | .app (.polled fault) => match s.phase with
    | .activating run | .deactivating run => run.newAssetIds ≠ [] → fault = none
    | _ => True
  | _ => True

instance : ∀ (s : SentinelApp) (e : HostEvent), Decidable (Renews s e) := by
  intro s e
  unfold Renews
  split
  · infer_instance
  · split <;> infer_instance
  · infer_instance

/-! ## The invariant -/

/-- What is active the client has or will be told of, or it is what `run_once` has found gone. -/
structure Announced (s : SentinelApp) (run : RunOnce) : Prop where
  told : s.ranOnce = true → ∀ a ∈ activeAssetIds s.store.cache, a ∈ s.eventual ∨ a ∈ run.newAssetIds
  gone : ∀ a ∈ activeAssetIds s.store.cache,
    (a ∈ s.eventual ∨ a ∈ run.newAssetIds) ∨ a ∈ run.removedAssetIds

/-- Before the upsert, nothing new is active. -/
structure Compared (s : SentinelApp) (run : RunOnce) : Prop where
  told : s.ranOnce = true → ∀ a ∈ activeAssetIds s.store.cache, a ∈ s.eventual
  gone : ∀ a ∈ activeAssetIds s.store.cache, a ∈ s.eventual ∨ a ∈ run.removedAssetIds

def Covered (s : SentinelApp) : Prop :=
  match s.phase with
  | .idle => s.ranOnce = true → ∀ a ∈ activeAssetIds s.store.cache, a ∈ s.eventual
  | .upserting run _ => Compared s run
  | .activating run | .deactivating run => Announced s run

section Steps

variable {py : AlertBuiltins} {cfg : DetectorConfig} {s s' : SentinelApp} {run : RunOnce}
  {a : String} {table : TrackedMarkets}

theorem Covered.of_unpolled (h : Covered s) (hs : Unpolled s s') : Covered s' := by
  rw [Covered] at h ⊢
  rw [hs.phase]
  cases hphase : s.phase with
  | idle =>
    rw [hphase] at h
    rw [hs.ranOnce, hs.eventual]
    exact fun hran a ha => h hran a (hs.active ha)
  | upserting run ps =>
    rw [hphase] at h
    refine ⟨?_, ?_⟩
    · rw [hs.ranOnce, hs.eventual]
      exact fun hran a ha => h.told hran a (hs.active ha)
    · rw [hs.eventual]
      exact fun a ha => h.gone a (hs.active ha)
  | activating run | deactivating run =>
    rw [hphase] at h
    refine ⟨?_, ?_⟩
    · rw [hs.ranOnce, hs.eventual]
      exact fun hran a ha => h.told hran a (hs.active ha)
    · rw [hs.eventual]
      exact fun a ha => h.gone a (hs.active ha)

/-! ## The end of a call -/

/-- At the end of a call what was gone is not active, and what is new is announced. -/
theorem covered_finishRun (h : Announced s run)
    (hremoved : ∀ a ∈ activeAssetIds s.store.cache, a ∉ run.removedAssetIds) :
    Covered (finishRun s run) := by
  intro _ a ha
  show a ∈ applied s.client (s.queue ++ run.commands)
  rw [applied_append, mem_applied_commands]
  exact ⟨(h.gone a ha).resolve_right (hremoved a ha), hremoved a ha⟩

theorem covered_deactivate (h : Announced s run) : Covered (deactivate s run) := by
  rw [deactivate]
  split_ifs with hempty
  · refine covered_finishRun h fun a _ => ?_
    rw [hempty]
    exact List.not_mem_nil
  · exact ⟨h.told, h.gone⟩

theorem covered_activate (h : Announced s run) : Covered (activate s run) := by
  rw [activate]
  split_ifs
  · exact covered_deactivate h
  · exact ⟨h.told, h.gone⟩

/-- After the upsert: what was not in the cache is new. -/
theorem Compared.upserted {ps : List UpsertParams} (h : Compared s run) (hknown : Known s)
    (hphase : s.phase = .upserting run ps)
    (hcache : s'.store.cache = cacheUpserts s.store.cache (ps.map UpsertParams.market))
    (hran : s'.ranOnce = s.ranOnce) (heventual : s'.eventual = s.eventual) : Announced s' run := by
  obtain ⟨hmarkets, hknown⟩ := hknown run ps hphase
  have hactive : ∀ a ∈ activeAssetIds s'.store.cache,
      a ∈ activeAssetIds s.store.cache ∨ a ∈ run.newAssetIds := by
    intro a ha
    rw [mem_active_iff, hcache] at ha
    by_cases hflags : flags s.store.cache a = none
    · by_cases htracked : a ∈ run.tracked.assetIds
      · exact Or.inr ((hknown a htracked).resolve_right fun hne => hne hflags)
      · rw [flags_cacheUpserts_of_other (by rwa [hmarkets]), hflags] at ha
        obtain ⟨since, hsince⟩ := ha
        cases hsince
    · rw [flags_cacheUpserts_of_known hflags] at ha
      exact Or.inl (mem_active_iff.mpr ha)
  refine ⟨?_, ?_⟩
  · rw [hran, heventual]
    exact fun hran a ha => (hactive a ha).imp_left fun ha => h.told hran a ha
  · rw [heventual]
    intro a ha
    rcases hactive a ha with ha | ha
    · exact (h.gone a ha).imp_left Or.inl
    · exact Or.inl (Or.inr ha)

/-- A statement on the flags that has succeeded. -/
theorem mem_active_cacheActive {cache : MarketCache} {assetIds : List String} {active : Bool}
    {since : ℤ} (h : a ∈ activeAssetIds (cacheActive cache assetIds active since)) :
    (a ∈ assetIds ∧ active = true) ∨ (a ∉ assetIds ∧ a ∈ activeAssetIds cache) := by
  rw [mem_active_iff, flags_cacheActive] at h
  obtain ⟨since', h⟩ := h
  split_ifs at h with ha
  · obtain ⟨flag, -, heq⟩ := Option.map_eq_some_iff.mp h
    exact Or.inl ⟨ha, congrArg Prod.fst heq⟩
  · exact Or.inr ⟨ha, mem_active_iff.mpr ⟨since', h⟩⟩

theorem Announced.of_active (h : Announced s run)
    (hactive : ∀ a ∈ activeAssetIds s'.store.cache,
      a ∈ activeAssetIds s.store.cache ∨ a ∈ run.newAssetIds)
    (hran : s'.ranOnce = s.ranOnce) (heventual : s'.eventual = s.eventual) : Announced s' run := by
  refine ⟨?_, ?_⟩
  · rw [hran, heventual]
    exact fun hran a ha => (hactive a ha).elim (h.told hran a) Or.inr
  · rw [heventual]
    exact fun a ha => (hactive a ha).elim (h.gone a) fun hnew => Or.inl (Or.inr hnew)

/-! ## Every step -/

theorem Covered.poll (h : Covered s) {tracked : Tracked} {nowMs : ℤ}
    (he : Renews s (.app (.poll tracked nowMs))) :
    Covered (appStep py cfg s (.poll tracked nowMs)) := by
  rw [appStep]
  cases hphase : s.phase with
  | idle =>
    rw [Covered, hphase] at h
    have hgone : ∀ a ∈ activeAssetIds s.store.cache, a ∈ s.eventual ∨
        a ∈ (diff s.store.cache tracked nowMs).removedAssetIds := by
      intro a ha
      cases hran : s.ranOnce with
      | true => exact Or.inl (h hran a ha)
      | false => exact Or.inr (mem_removedAssetIds.mpr ⟨ha, fun htracked => he hran a htracked ha⟩)
    dsimp only
    split_ifs
    · exact covered_activate ⟨fun hran a ha => Or.inl (h hran a ha),
        fun a ha => (hgone a ha).imp_left Or.inl⟩
    · exact ⟨h, hgone⟩
  | upserting run ps => simpa only [hphase] using h
  | activating run => simpa only [hphase] using h
  | deactivating run => simpa only [hphase] using h

theorem Covered.polled (h : Covered s) (hknown : Known s) {fault : Option ℕ}
    (he : Renews s (.app (.polled fault))) : Covered (appStep py cfg s (.polled fault)) := by
  rw [appStep]
  cases hphase : s.phase with
  | idle => simpa only [waitsFor, hphase] using h
  | upserting run ps =>
    rw [Covered, hphase] at h
    have hcache := cache_complete s.store fault (.upsert ps)
    simp only [waitsFor]
    split
    · next store heq =>
      rw [heq] at hcache
      simp only [goOn]
      exact covered_activate (h.upserted hknown hphase hcache rfl rfl)
    · next store heq =>
      rw [heq] at hcache
      have hcache : store.cache = s.store.cache := hcache
      intro hran a ha
      rw [hcache] at ha
      exact h.told hran a ha
  | activating run =>
    rw [Covered, hphase] at h
    rw [Renews, hphase] at he
    have hcache := cache_complete s.store fault
      (.active run.newAssetIds true run.nowMs run.nowMs)
    simp only [waitsFor]
    split
    · next store heq =>
      rw [heq] at hcache
      have hcache : store.cache = cacheActive s.store.cache run.newAssetIds true run.nowMs := hcache
      simp only [goOn]
      refine covered_deactivate (h.of_active (fun a ha => ?_) rfl rfl)
      rw [hcache] at ha
      exact (mem_active_cacheActive ha).symm.imp And.right And.left
    · next store heq =>
      rw [heq] at hcache
      have hcache : store.cache = s.store.cache := hcache
      intro hran a ha
      rw [hcache] at ha
      refine (h.told hran a ha).resolve_right fun hnew => ?_
      -- with new markets the operation does not fail
      obtain rfl := he (List.ne_nil_of_mem hnew)
      cases heq
  | deactivating run =>
    rw [Covered, hphase] at h
    rw [Renews, hphase] at he
    have hcache := cache_complete s.store fault (.active run.removedAssetIds false 0 run.nowMs)
    simp only [waitsFor]
    split
    · next store heq =>
      rw [heq] at hcache
      have hcache : store.cache = cacheActive s.store.cache run.removedAssetIds false 0 := hcache
      simp only [goOn]
      have hactive : ∀ a ∈ activeAssetIds store.cache,
          a ∉ run.removedAssetIds ∧ a ∈ activeAssetIds s.store.cache := by
        intro a ha
        rw [hcache] at ha
        exact (mem_active_cacheActive ha).resolve_left fun hfalse => by cases hfalse.2
      exact covered_finishRun (h.of_active (fun a ha => Or.inl (hactive a ha).2) rfl rfl)
        fun a ha => (hactive a ha).1
    · next store heq =>
      rw [heq] at hcache
      have hcache : store.cache = s.store.cache := hcache
      intro hran a ha
      rw [hcache] at ha
      refine (h.told hran a ha).resolve_right fun hnew => ?_
      obtain rfl := he (List.ne_nil_of_mem hnew)
      cases heq

theorem Covered.step (h : Covered s) (hknown : Known s) {e : HostEvent} (he : Renews s e) :
    Covered (hostStep py cfg s e) := by
  cases e with
  | restart => exact fun hran => (nomatch hran)
  | app e =>
    show Covered (appStep py cfg s e)
    cases hpolls : e.polls with
    | false => exact h.of_unpolled (unpolled hpolls)
    | true =>
      cases e with
      | poll tracked nowMs => exact h.poll he
      | polled fault => exact h.polled hknown he
      | _ => cases hpolls

theorem covered (h : Reach (hostStep py cfg) (launched table) Renews s) : Covered s ∧ Known s := by
  refine h.invariant (I := fun s => Covered s ∧ Known s)
    ⟨fun hran => (nomatch hran), fun _ _ hphase => (nomatch hphase)⟩ ?_
  rintro s e - he ⟨hcovered, hknown⟩
  refine ⟨hcovered.step hknown he, ?_⟩
  cases e with
  | app e => exact Known.step hknown
  | restart => exact fun _ _ hphase => (nomatch hphase)

/-- In every run with restarts in which no market that is tracked is active in the table when
`run_once` is first called after a start, and no call that has new markets fails after it has upserted
them, the client has every active market in every state between calls in which the queue is empty. -/
theorem active_subscribed (h : Reach (hostStep py cfg) (launched table) Renews s)
    (hbetween : s.Between) (hqueue : s.queue = []) :
    ∀ a ∈ activeAssetIds s.store.cache, a ∈ s.client := by
  have hcovered := (covered h).1
  have hidle : s.phase = .idle := by
    have hrun := hbetween.1
    cases hphase : s.phase with
    | idle => rfl
    | _ =>
      rw [hphase] at hrun
      cases hrun
  rw [Covered, hidle] at hcovered
  intro a ha
  have heventual := hcovered hbetween.2 a ha
  rwa [SentinelApp.eventual, hqueue] at heventual

end Steps

namespace Sample

theorem market_once : ([Storage.Sample.market "a" "q"].map MarketMetadata.assetId).Nodup := by decide

def polledMarkets : Tracked := ⟨[Storage.Sample.market "a" "q"], market_once⟩

/-- A first call that finds the market new; the client connects and processes the command. -/
def firstRun : List HostEvent :=
  [.app (.poll polledMarkets 1000), .app (.polled none), .app (.polled none), .app .connect,
    .app (.command true)]

/-- After a restart the same market is tracked. -/
def rerun : List HostEvent := firstRun ++ [.restart, .app (.poll polledMarkets 2000),
  .app (.polled none)]

/-- A restart after the market was gone; the client loses and gets a connection meanwhile. -/
def goneRun : List HostEvent := firstRun ++ [.app (.poll ⟨[], List.nodup_nil⟩ 2000), .app (.polled none),
  .app .disconnect, .app .connect, .app (.command true), .restart] ++ firstRun

end Sample

theorem active_subscribed_gone :
    let s := Sample.goneRun.foldl (hostStep Processing.Sample.alertBuiltins
      Processing.Sample.detectorConfig) (launched .empty)
    ∀ a ∈ activeAssetIds s.store.cache, a ∈ s.client :=
  active_subscribed (reach_of_allowed (by decide +kernel)) (by decide +kernel) (by decide +kernel)

/-- The market is active in the table when the process starts again, so it is not new, and nobody
tells the client. -/
theorem active_unsubscribed : ¬ ∀ s, Reach (hostStep Processing.Sample.alertBuiltins
      Processing.Sample.detectorConfig) (launched .empty) Any s → s.Between → s.queue = [] →
    ∀ a ∈ activeAssetIds s.store.cache, a ∈ s.client := by
  intro h
  have hrerun := h _ (reach_foldl Sample.rerun) (by decide +kernel) (by decide +kernel) "a"
    (by decide +kernel)
  exact absurd hrerun (by decide +kernel)

end Sentinel.App
