import Mathlib.Data.List.Induction
import Sentinel.Storage.MarketCache

/-!
# Upserts that fail

When the database rejects a row, `upsert_tracked_markets` raises, but the rows before it are pending
on the connection, and the next operation commits them.  The failed call leaves no trace just if
those rows are in the table as it is.
-/

namespace Sentinel.Storage

open Logic Ingestion

/-! ## Operations one after the other -/

structure Store : Type where
  conn : Connection
  cache : MarketCache

/-- The operation, and whether it returned. -/
def Store.attempt (s : Store) (fault : Option ℕ) (op : StoreOp) : Store × Bool :=
  match op.begin s.cache with
  | none => (s, true)
  | some p => match p.execute s.conn fault with
    | (conn, true) => (⟨conn, p.finish conn.current s.cache⟩, true)
    | (conn, false) => (⟨conn, s.cache⟩, false)

/-- Operations that all succeed. -/
def Store.perform (s : Store) : List StoreOp → Option Store
  | [] => some s
  | op :: ops => match s.attempt none op with
    | (s', true) => s'.perform ops
    | (_, false) => none

/-- The store after `initialize` on a database with this table. -/
def initialized (table : TrackedMarkets) : Store := ⟨⟨table, table⟩, readCache table⟩

/-- It writes, and so it commits. -/
def StoreOp.commits : StoreOp → Bool
  | .upsertTrackedMarkets markets _ => markets ≠ []
  | .setMarketActive assetIds _ _ => assetIds ≠ []
  | .updateLastTick _ _ | .other => true
  | .refreshCache => false

def StoreOp.upserts (a : String) : StoreOp → Prop
  | .upsertTrackedMarkets markets _ => ∃ m ∈ markets, m.assetId = a
  | _ => False

/-- What the call leaves behind is gone: after operations of which one commits, the table has no
market that it did not have before the call and they have not upserted, and it is the cache. -/
def LeavesNoTrace (before failed : Store) : Prop :=
  ∀ ops store, failed.perform ops = some store → (∃ op ∈ ops, op.commits = true) →
    (∀ a ∈ store.conn.committed.keys, a ∈ before.conn.committed.keys ∨ ∃ op ∈ ops, op.upserts a) ∧
    ∀ a, store.cache.get a = (readCache store.conn.committed).get a

/-- The markets, the last one of each asset, are in the cache already. -/
def AlreadyThere (cache : MarketCache) (ms : List MarketMetadata) : Prop :=
  ∀ m ∈ ms, (ms.reverse.find? fun m' => m'.assetId = m.assetId) = some m →
    cache.get m.assetId = some (keepState m (cache.get m.assetId))

instance (cache : MarketCache) (ms : List MarketMetadata) : Decidable (AlreadyThere cache ms) :=
  inferInstanceAs (Decidable (∀ _ ∈ _, _ → _))

/-! ## The rows before the rejected one -/

section Upserts

variable {M : Markets} {ms : List MarketMetadata} {m m₀ : MarketMetadata} {a : String}

theorem upserts_append : M.upserts (ms ++ [m]) = (M.upserts ms).upsert m := by
  rw [Markets.upserts, List.foldl_append]
  rfl

/-- A market that is there gets the values of the last one upserted. -/
theorem upserts_of_some (h : M a = some m₀) :
    M.upserts ms a = some ((ms.reverse.find? fun m' => m'.assetId = a).elim m₀
      fun m => keepState m (some m₀)) := by
  induction ms using List.reverseRecOn with
  | nil => exact h
  | append_singleton ms m ih =>
    rw [upserts_append, Markets.upsert, Function.update_apply, List.reverse_append,
      List.reverse_singleton, List.singleton_append, List.find?_cons]
    by_cases ha : a = m.assetId
    · subst ha
      rw [if_pos rfl, ih]
      simp only [decide_true, Option.elim_some]
      refine congrArg some ?_
      cases ms.reverse.find? fun m' => m'.assetId = m.assetId <;> rfl
    · have hne : decide (m.assetId = a) = false := decide_eq_false (Ne.symm ha)
      rw [if_neg ha, ih, hne]

theorem upserts_ne_none (hm : m ∈ ms) : M.upserts ms m.assetId ≠ none := by
  induction ms using List.reverseRecOn with
  | nil => exact absurd hm List.not_mem_nil
  | append_singleton ms m' ih =>
    rw [upserts_append, Markets.upsert, Function.update_apply]
    split_ifs with ha
    · exact Option.some_ne_none _
    · rcases List.mem_append.mp hm with hm | hm
      · exact ih hm
      · exact absurd (congrArg MarketMetadata.assetId (List.mem_singleton.mp hm)) ha

theorem upserts_of_notMem (h : ∀ m ∈ ms, m.assetId ≠ a) : M.upserts ms a = M a := by
  induction ms using List.reverseRecOn with
  | nil => rfl
  | append_singleton ms m ih =>
    rw [upserts_append, Markets.upsert, Function.update_apply,
      if_neg (Ne.symm (h m (by simp))), ih fun m' hm' => h m' (List.mem_append_left _ hm')]

/-- Upserts change nothing just if the markets are there already. -/
theorem upserts_eq_iff {cache : MarketCache} :
    Markets.upserts cache.get ms = cache.get ↔ AlreadyThere cache ms := by
  constructor
  · intro h m hm hlast
    cases hget : cache.get m.assetId with
    | none => exact absurd ((congrFun h m.assetId).trans hget) (upserts_ne_none hm)
    | some m₀ =>
      have hsome : Markets.upserts cache.get ms m.assetId = _ := upserts_of_some hget
      rw [h, hget, hlast] at hsome
      exact hsome
  · intro h
    funext a
    by_cases hmem : ∃ m ∈ ms, m.assetId = a
    · obtain ⟨m, hm, ha⟩ := hmem
      obtain ⟨last, hlast⟩ : ∃ last, (ms.reverse.find? fun m' => m'.assetId = a) = some last := by
        rw [← Option.isSome_iff_exists, List.find?_isSome]
        exact ⟨m, List.mem_reverse.mpr hm, by simpa using ha⟩
      have hlastId : last.assetId = a := by simpa using List.find?_some hlast
      subst hlastId
      have hthere := h last (List.mem_reverse.mp (List.mem_of_find?_eq_some hlast)) hlast
      obtain ⟨m₀, hget⟩ : ∃ m₀, cache.get last.assetId = some m₀ := ⟨_, hthere⟩
      rw [upserts_of_some hget, hlast, hthere, hget]
      rfl
    · exact upserts_of_notMem fun m hm ha => hmem ⟨m, hm, ha⟩

end Upserts

/-! ## Operations after the failed one -/

section Continue

variable {s s' store : Store} {op : StoreOp} {ops : List StoreOp} {fault : Option ℕ} {a : String}
  {table : TrackedMarkets}

/-- The cache is what the connection sees. -/
def Store.Agrees (s : Store) : Prop := s.cache.get = markets s.conn.current

theorem begin_fits (h : s.Agrees) {p : Pending} (hp : op.begin s.cache = some p) :
    p.Fits s.conn.current := by
  have hcoherent : Coherent ⟨s.conn, s.cache, [], .free⟩ :=
    ⟨fun a ha => (congrFun h a).trans (markets_eq_none_iff.mpr ha),
      fun _ hp => absurd hp List.not_mem_nil, fun _ h => (nomatch h), fun _ => h,
      fun _ _ h => (nomatch h)⟩
  exact hcoherent.begin_fits hp

def Pending.commits : Pending → Bool
  | .refresh => false
  | _ => true

def Pending.upserts (a : String) : Pending → Prop
  | .upsert ps => ∃ p ∈ ps, p.market.assetId = a
  | _ => False

theorem begin_none (h : op.begin s.cache = none) : op.commits = false := by
  cases op with
  | upsertTrackedMarkets ms nowMs =>
    simp only [StoreOp.begin] at h
    split_ifs at h with hms
    simp [StoreOp.commits, hms]
  | setMarketActive assetIds active nowMs =>
    simp only [StoreOp.begin] at h
    split_ifs at h with hids
    simp [StoreOp.commits, hids]
  | _ => cases h

theorem begin_some {p : Pending} (h : op.begin s.cache = some p) :
    p.commits = op.commits ∧ ∀ a, p.upserts a → op.upserts a := by
  cases op with
  | upsertTrackedMarkets ms nowMs =>
    simp only [StoreOp.begin] at h
    split_ifs at h with hms
    obtain rfl := Option.some.inj h
    refine ⟨by simp [Pending.commits, StoreOp.commits, hms], ?_⟩
    rintro a ⟨q, hq, ha⟩
    obtain ⟨m, hm, rfl⟩ := List.mem_map.mp hq
    exact ⟨m, hm, ha⟩
  | setMarketActive assetIds active nowMs =>
    simp only [StoreOp.begin] at h
    split_ifs at h with hids
    all_goals
      obtain rfl := Option.some.inj h
      exact ⟨by simp [Pending.commits, StoreOp.commits, hids], fun a ha => ha⟩
  | updateLastTick assetId timestampMs =>
    obtain rfl := Option.some.inj h
    exact ⟨rfl, fun a ha => ha⟩
  | refreshCache =>
    obtain rfl := Option.some.inj h
    exact ⟨rfl, fun a ha => ha⟩
  | other =>
    obtain rfl := Option.some.inj h
    exact ⟨rfl, fun a ha => ha⟩

theorem execute_committed {conn : Connection} {p : Pending}
    (h : (p.execute conn fault).2 = true) :
    if p.commits then (p.execute conn fault).1.committed = (p.execute conn fault).1.current
    else (p.execute conn fault).1 = conn := by
  cases p with
  | upsert ps =>
    simp only [Pending.execute] at h ⊢
    split at h
    · cases h
    · rfl
  | refresh => rfl
  | _ =>
    rw [if_pos (show Pending.commits _ = true from rfl)]
    simp only [Pending.execute] at h ⊢
    split_ifs at h ⊢
    rfl

theorem apply_ne_none {M : Markets} {p : Pending} (h : p.apply M a ≠ none) :
    M a ≠ none ∨ p.upserts a := by
  have hchange : ∀ (q : String → Prop) [DecidablePred q] (f : MarketMetadata → MarketMetadata),
      M.change q f a ≠ none → M a ≠ none := by
    intro q _ f h hnone
    rw [Markets.change, hnone] at h
    split_ifs at h <;> exact h rfl
  cases p with
  | upsert ps =>
    by_cases hmem : ∃ p ∈ ps, p.market.assetId = a
    · exact Or.inr hmem
    · refine Or.inl ?_
      rwa [Pending.apply, upserts_of_notMem] at h
      intro m hm ha
      obtain ⟨p, hp, rfl⟩ := List.mem_map.mp hm
      exact hmem ⟨p, hp, ha⟩
  | active assetIds isActive subscribedAtMs nowMs => exact Or.inl (hchange (· ∈ assetIds) _ h)
  | tick assetId timestampMs => exact Or.inl (hchange (· = assetId) _ h)
  | refresh => exact Or.inl h
  | other => exact Or.inl h

/-- What an operation that succeeds does. -/
structure Succeeded (s : Store) (op : StoreOp) (s' : Store) : Prop where
  agrees : s'.Agrees
  committed : if op.commits then s'.conn.committed = s'.conn.current else s'.conn = s.conn
  upserted : ∀ a, markets s'.conn.current a ≠ none → markets s.conn.current a ≠ none ∨ op.upserts a

theorem attempt_succeeded (h : s.Agrees) (hok : s.attempt fault op = (s', true)) :
    Succeeded s op s' := by
  cases hp : op.begin s.cache with
  | none =>
    simp only [Store.attempt, hp] at hok
    obtain rfl := (Prod.mk.inj hok).1
    refine ⟨h, ?_, fun a ha => Or.inl ha⟩
    rw [begin_none hp]
    rfl
  | some p =>
    obtain ⟨hcommits, hupserts⟩ := begin_some hp
    simp only [Store.attempt, hp] at hok
    split at hok
    · next conn hconn =>
      obtain rfl := (Prod.mk.inj hok).1
      have htrue : (p.execute s.conn fault).2 = true := congrArg Prod.snd hconn
      have hmarkets := p.execute_markets (begin_fits h hp) htrue
      have hcommitted := execute_committed htrue
      have hfinish : (p.finish (p.execute s.conn fault).1.current s.cache).get =
          p.apply (markets s.conn.current) := p.finish_get h
      rw [hconn] at hmarkets hcommitted hfinish
      refine ⟨hfinish.trans hmarkets.symm, hcommits ▸ hcommitted, fun a ha => ?_⟩
      rw [hmarkets] at ha
      exact (apply_ne_none ha).imp_right (hupserts a)
    · cases (Prod.mk.inj hok).2

/-- What a sequence of operations that succeed does. -/
theorem perform_succeeded (h : s.Agrees) (hops : s.perform ops = some store) :
    store.Agrees ∧
    (s.conn.committed = s.conn.current ∨ (∃ op ∈ ops, op.commits = true) →
      store.conn.committed = store.conn.current) ∧
    ∀ a, markets store.conn.current a ≠ none →
      markets s.conn.current a ≠ none ∨ ∃ op ∈ ops, op.upserts a := by
  induction ops generalizing s with
  | nil =>
    obtain rfl := Option.some.inj hops
    exact ⟨h, fun hc => hc.elim id fun ⟨_, hmem, _⟩ => absurd hmem List.not_mem_nil,
      fun a ha => Or.inl ha⟩
  | cons op ops ih =>
    rw [Store.perform] at hops
    split at hops
    · next s' hs' =>
      have hsucc := attempt_succeeded h hs'
      obtain ⟨hagrees, hcommitted, hupserted⟩ := ih hsucc.agrees hops
      refine ⟨hagrees, fun hc => hcommitted ?_, fun a ha => ?_⟩
      · have hstep := hsucc.committed
        by_cases hop : op.commits = true
        · rw [if_pos hop] at hstep
          exact Or.inl hstep
        · rw [if_neg hop] at hstep
          rcases hc with hc | ⟨op', hmem, hop'⟩
          · exact Or.inl (hstep ▸ hc)
          · rcases List.mem_cons.mp hmem with rfl | hmem
            · exact absurd hop' hop
            · exact Or.inr ⟨op', hmem, hop'⟩
      · rcases hupserted a ha with ha | ⟨op', hmem, hop'⟩
        · rcases hsucc.upserted a ha with ha | hop
          · exact Or.inl ha
          · exact Or.inr ⟨op, List.mem_cons_self, hop⟩
        · exact Or.inr ⟨op', List.mem_cons_of_mem _ hmem, hop'⟩
    · cases hops

end Continue

/-! ## The failed call -/

section Failed

variable {table : TrackedMarkets} {before : List StoreOp} {s : Store} {ms : List MarketMetadata}
  {nowMs : ℤ} {fault : Option ℕ} {k : ℕ}

theorem storable_of_rejectedAt_some {ps : List UpsertParams} (h : rejectedAt fault ps = some k) :
    ∀ p ∈ ps.take k, storable p.market = true := by
  induction ps generalizing fault k with
  | nil => cases h
  | cons p ps ih =>
    have hstep : k = 0 ∨ storable p.market = true ∧
        ∃ k', k = k' + 1 ∧ rejectedAt (fault.map Nat.pred) ps = some k' := by
      rcases fault with - | - | n
      · rw [rejectedAt.eq_3 _ _ _ (by simp)] at h
        split_ifs at h with hp
        · obtain ⟨k', hk', rfl⟩ := Option.map_eq_some_iff.mp h
          exact Or.inr ⟨hp, k', rfl, hk'⟩
        · exact Or.inl (Option.some.inj h).symm
      · exact Or.inl (Option.some.inj h).symm
      · rw [rejectedAt.eq_3 _ _ _ (by simp)] at h
        split_ifs at h with hp
        · obtain ⟨k', hk', rfl⟩ := Option.map_eq_some_iff.mp h
          exact Or.inr ⟨hp, k', rfl, hk'⟩
        · exact Or.inl (Option.some.inj h).symm
    rcases hstep with rfl | ⟨hp, k', rfl, hk'⟩
    · exact fun _ hp => absurd hp List.not_mem_nil
    · exact List.forall_mem_cons.mpr ⟨hp, ih hk'⟩

theorem initialized_agrees (table : TrackedMarkets) : (initialized table).Agrees := rfl

/-- After a call that fails the connection sees the markets of the rows before the rejected one. -/
theorem attempt_rejected (h : s.Agrees)
    (hk : rejectedAt fault (ms.map (upsertParams s.cache nowMs)) = some k) :
    ∃ table, s.attempt fault (.upsertTrackedMarkets ms nowMs) =
        (⟨⟨s.conn.committed, table⟩, s.cache⟩, false) ∧
      markets table = Markets.upserts s.cache.get (ms.take k) := by
  have hne : ms ≠ [] := by
    rintro rfl
    cases fault with
    | none => cases hk
    | some n => cases n <;> cases hk
  have hbegin : (StoreOp.upsertTrackedMarkets ms nowMs).begin s.cache =
      some (.upsert (ms.map (upsertParams s.cache nowMs))) := if_neg hne
  refine ⟨upsertRows s.conn.current ((ms.map (upsertParams s.cache nowMs)).take k),
    by simp only [Store.attempt, hbegin, Pending.execute, hk], ?_⟩
  have hfits : Pending.Fits s.conn.current (.upsert (ms.map (upsertParams s.cache nowMs))) :=
    begin_fits h hbegin
  rw [markets_upsertRows (storable_of_rejectedAt_some hk)
    fun p hp => hfits p (List.mem_of_mem_take hp), ← h, ← List.map_take, List.map_map]
  exact congrArg _ (List.map_id _)

end Failed

namespace Sample

/-- `parse_float` has let a `nan` through. -/
def nanMarket : MarketMetadata := { market "n" "nan?" with volume24h := none }

/-- The database knows the market before the one it rejects. -/
def knownStore : Store :=
  ((initialized .empty).attempt none (.upsertTrackedMarkets [market "a" "q"] 1000)).1

end Sample

end Sentinel.Storage
