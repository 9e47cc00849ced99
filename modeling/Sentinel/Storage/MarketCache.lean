import Sentinel.Logic.Run
import Sentinel.Storage.TrackedMarkets

/-!
# The cache of the tracked markets

The operations of `SQLiteStore` on the tracked markets, with the points at which each can be
interrupted: an upsert binds its values from the cache, then waits for the lock; who has the lock
runs its statement, and updates the cache when the statement has returned.

* `storeStep`: the store under any interleaving of operations.
* `cache_agrees`: between a statement and its update of the cache apart, the cache is what
  `refresh_cache` would read.
-/

namespace Sentinel.Storage

open Logic Ingestion

inductive StoreOp : Type
  | upsertTrackedMarkets (markets : List MarketMetadata) (nowMs : ℤ)
  | setMarketActive (assetIds : List String) (active : Bool) (nowMs : ℤ)
  | updateLastTick (assetId : String) (timestampMs : ℤ)
  | refreshCache
  /-- An operation that writes another table. -/
  | other

def StoreOp.markMarketResolved (assetIds : List String) (nowMs : ℤ) : StoreOp :=
  .setMarketActive assetIds false nowMs

/-- What an operation does when it has the lock. -/
inductive Pending : Type
  | upsert (ps : List UpsertParams)
  | active (assetIds : List String) (isActive : Bool) (subscribedAtMs nowMs : ℤ)
  | tick (assetId : String) (timestampMs : ℤ)
  | refresh
  | other

/-- The operation up to the lock; none if it returns before. -/
def StoreOp.begin (cache : MarketCache) : StoreOp → Option Pending
  | .upsertTrackedMarkets markets nowMs =>
    if markets = [] then none else some (.upsert (markets.map (upsertParams cache nowMs)))
  | .setMarketActive assetIds active nowMs =>
    if assetIds = [] then none
    else some (.active assetIds active (if active then nowMs else 0) nowMs)
  | .updateLastTick assetId timestampMs => some (.tick assetId timestampMs)
  | .refreshCache => some .refresh
  | .other => some .other

/-! ## Statements on the connection -/

/-- The table as it is committed, and as the connection sees it with what is pending. -/
structure Connection : Type where
  committed : TrackedMarkets
  current : TrackedMarkets

/-- The index of the first row that the database rejects: one whose values cannot be stored, or the
one of index `fault`, at which the statement fails for another reason. -/
def rejectedAt : Option ℕ → List UpsertParams → Option ℕ
  | _, [] => none
  | some 0, _ :: _ => some 0
  | fault, p :: ps =>
    if storable p.market then (rejectedAt (fault.map Nat.pred) ps).map Nat.succ else some 0

/-- `_query`, `_mutate` and `_mutate_many`: the connection after the statement, and whether it has
succeeded; if so, it was committed. -/
def Pending.execute (conn : Connection) (fault : Option ℕ) : Pending → Connection × Bool
  | .upsert ps => match rejectedAt fault ps with
    | some k => (⟨conn.committed, upsertRows conn.current (ps.take k)⟩, false)
    | none => (⟨upsertRows conn.current ps, upsertRows conn.current ps⟩, true)
  | .active assetIds isActive subscribedAtMs nowMs =>
    let table := updateActive conn.current assetIds isActive subscribedAtMs nowMs
    if fault.isSome then (conn, false) else (⟨table, table⟩, true)
  | .tick assetId timestampMs =>
    let table := updateTick conn.current assetId timestampMs
    if fault.isSome then (conn, false) else (⟨table, table⟩, true)
  | .refresh => (conn, fault.isNone)
  | .other => if fault.isSome then (conn, false) else (⟨conn.current, conn.current⟩, true)

/-- The update of the cache after the statement, which returned these rows. -/
def Pending.finish (rows : TrackedMarkets) (cache : MarketCache) : Pending → MarketCache
  | .upsert ps => cacheUpserts cache (ps.map UpsertParams.market)
  | .active assetIds isActive subscribedAtMs _ => cacheActive cache assetIds isActive subscribedAtMs
  | .tick assetId timestampMs => cacheTick cache assetId timestampMs
  | .refresh => readCache rows
  | .other => cache

/-! ## The store under interleaving -/

inductive Lock : Type
  | free
  /-- The operation has the lock and has not run its statement. -/
  | entered (p : Pending)
  /-- The statement has returned, and the cache is not updated. -/
  | executed (p : Pending) (rows : TrackedMarkets)

structure StoreState : Type where
  conn : Connection
  cache : MarketCache
  waiting : List Pending
  lock : Lock

inductive StoreEvent : Type
  | call (op : StoreOp)
  /-- The `i`-th of those that wait gets the lock. -/
  | enter (i : ℕ)
  | execute (fault : Option ℕ)
  | finish

def storeStep (s : StoreState) : StoreEvent → StoreState
  | .call op => match op.begin s.cache with
    | none => s
    | some p => { s with waiting := s.waiting ++ [p] }
  | .enter i => match s.lock, s.waiting[i]? with
    | .free, some p => { s with waiting := s.waiting.eraseIdx i, lock := .entered p }
    | _, _ => s
  | .execute fault => match s.lock with
    | .entered p => match p.execute s.conn fault with
      | (conn, true) => { s with conn := conn, lock := .executed p conn.current }
      | (conn, false) => { s with conn := conn, lock := .free }
    | _ => s
  | .finish => match s.lock with
    | .executed p rows => { s with cache := p.finish rows s.cache, lock := .free }
    | _ => s

/-- The store after `initialize` on a database with this table. -/
def opened (table : TrackedMarkets) : StoreState := ⟨⟨table, table⟩, readCache table, [], .free⟩

/-! ## What an operation does to the markets -/

def Pending.apply (M : Markets) : Pending → Markets
  | .upsert ps => M.upserts (ps.map UpsertParams.market)
  | .active assetIds isActive subscribedAtMs _ => M.change (· ∈ assetIds) (setActive isActive subscribedAtMs)
  | .tick assetId timestampMs => M.change (· = assetId) fun m => { m with lastTickMs := timestampMs }
  | .refresh | .other => M

/-- What was bound fits the table. -/
def Pending.Fits (table : TrackedMarkets) : Pending → Prop
  | .upsert ps => ∀ p ∈ ps, FitsTable table p
  | _ => True

section Effects

variable {conn conn' : Connection} {cache : MarketCache} {fault : Option ℕ} {p : Pending}
  {table : TrackedMarkets}

theorem storable_of_rejectedAt {ps : List UpsertParams} (h : rejectedAt fault ps = none) :
    ∀ p ∈ ps, storable p.market = true := by
  induction ps generalizing fault with
  | nil => exact fun _ hp => absurd hp List.not_mem_nil
  | cons p ps ih =>
    have hstep : storable p.market = true ∧ rejectedAt (fault.map Nat.pred) ps = none := by
      rcases fault with - | - | n
      · rw [rejectedAt.eq_3 _ _ _ (by simp)] at h
        split_ifs at h with hp
        exact ⟨hp, Option.map_eq_none_iff.mp h⟩
      · cases h
      · rw [rejectedAt.eq_3 _ _ _ (by simp)] at h
        split_ifs at h with hp
        exact ⟨hp, Option.map_eq_none_iff.mp h⟩
    exact List.forall_mem_cons.mpr ⟨hstep.1, ih hstep.2⟩

theorem Pending.Fits.mono (h : p.Fits table) {table' : TrackedMarkets}
    (hle : ∀ a, table'.get a = none → table.get a = none) : p.Fits table' := by
  cases p with
  | upsert ps => exact fun q hq => (h q hq).mono hle
  | _ => trivial

/-- What the table has, it keeps. -/
theorem Pending.execute_keeps (a : String) (h : (p.execute conn fault).1.current.get a = none) :
    conn.current.get a = none := by
  cases p with
  | upsert ps =>
    simp only [execute] at h
    split at h
    · exact get_upsertRows_eq_none h
    · exact get_upsertRows_eq_none h
  | active assetIds isActive subscribedAtMs nowMs =>
    simp only [execute] at h
    split_ifs at h
    · exact h
    · exact OrderedMap.get_mapItems_eq_none.mp h
  | tick assetId timestampMs =>
    simp only [execute] at h
    split_ifs at h
    · exact h
    · exact OrderedMap.get_mapItems_eq_none.mp h
  | refresh => exact h
  | other =>
    simp only [execute] at h
    split_ifs at h <;> exact h

/-- A statement that succeeds does to the table what the operation does to the markets. -/
theorem Pending.execute_markets (hfits : p.Fits conn.current)
    (h : (p.execute conn fault).2 = true) :
    markets (p.execute conn fault).1.current = p.apply (markets conn.current) := by
  cases p with
  | upsert ps =>
    simp only [execute] at h ⊢
    split at h
    · cases h
    · next hrejected => exact markets_upsertRows (storable_of_rejectedAt hrejected) hfits
  | active assetIds isActive subscribedAtMs nowMs =>
    simp only [execute] at h ⊢
    split_ifs at h ⊢
    exact markets_updateActive assetIds isActive subscribedAtMs nowMs
  | tick assetId timestampMs =>
    simp only [execute] at h ⊢
    split_ifs at h ⊢
    exact markets_updateTick assetId timestampMs
  | refresh => rfl
  | other =>
    simp only [execute] at h ⊢
    split_ifs at h ⊢
    rfl

/-- And the update of the cache does the same to the cache. -/
theorem Pending.finish_get (hcache : cache.get = markets conn.current) :
    (p.finish (p.execute conn fault).1.current cache).get = p.apply (markets conn.current) := by
  cases p with
  | upsert ps =>
    rw [finish, get_cacheUpserts, hcache]
    rfl
  | active assetIds isActive subscribedAtMs nowMs =>
    rw [finish, get_cacheActive, hcache]
    rfl
  | tick assetId timestampMs =>
    rw [finish, get_cacheTick, hcache]
    rfl
  | refresh => rfl
  | other => exact hcache

end Effects

/-! ## The cache agrees -/

def Lock.settled : Lock → Bool
  | .executed _ _ => false
  | _ => true

/-- No operation is between its statement and its update of the cache. -/
def Settled (s : StoreState) : Prop := s.lock.settled = true

/-- The step does not raise. -/
def Succeeds (s : StoreState) : StoreEvent → Prop
  | .execute fault => match s.lock with
    | .entered p => (p.execute s.conn fault).2 = true
    | _ => True
  | _ => True

instance (s : StoreState) : Decidable (Settled s) := inferInstanceAs (Decidable (_ = _))

instance : ∀ (s : StoreState) (e : StoreEvent), Decidable (Succeeds s e) := by
  intro s e
  unfold Succeeds
  repeat' split
  all_goals infer_instance

/-- The cache is that of the table, once the operation that has the lock has updated it; and what
waits for the lock fits the table. -/
structure Coherent (s : StoreState) : Prop where
  known : ∀ a, s.conn.current.get a = none → s.cache.get a = none
  waiting : ∀ p ∈ s.waiting, p.Fits s.conn.current
  entered : ∀ p, s.lock = .entered p → p.Fits s.conn.current
  agrees : Settled s → s.cache.get = markets s.conn.current
  updates : ∀ p rows, s.lock = .executed p rows →
    (p.finish rows s.cache).get = markets s.conn.current

section Agree

variable {s : StoreState} {table : TrackedMarkets}

theorem coherent_opened : Coherent (opened table) where
  known _ h := OrderedMap.get_mapItems_eq_none.mpr h
  waiting _ hp := absurd hp List.not_mem_nil
  entered _ h := nomatch h
  agrees _ := rfl
  updates _ _ h := nomatch h

/-- What an operation binds fits, even while the cache is behind the table. -/
theorem Coherent.begin_fits (h : Coherent s) {op : StoreOp} {p : Pending}
    (hp : op.begin s.cache = some p) : p.Fits s.conn.current := by
  cases op with
  | upsertTrackedMarkets ms nowMs =>
    simp only [StoreOp.begin] at hp
    split_ifs at hp
    obtain rfl := Option.some.inj hp
    intro q hq
    obtain ⟨m, -, rfl⟩ := List.mem_map.mp hq
    exact fitsTable_upsertParams h.known
  | setMarketActive assetIds active nowMs =>
    simp only [StoreOp.begin] at hp
    split_ifs at hp
    all_goals
      obtain rfl := Option.some.inj hp
      trivial
  | updateLastTick assetId timestampMs =>
    obtain rfl := Option.some.inj hp
    trivial
  | refreshCache =>
    obtain rfl := Option.some.inj hp
    trivial
  | other =>
    obtain rfl := Option.some.inj hp
    trivial

theorem Coherent.step (h : Coherent s) {e : StoreEvent} (he : Succeeds s e) :
    Coherent (storeStep s e) := by
  cases e with
  | call op =>
    cases hp : op.begin s.cache with
    | none => simpa only [storeStep, hp] using h
    | some p =>
      simp only [storeStep, hp]
      refine ⟨h.known, fun q hq => ?_, h.entered, h.agrees, h.updates⟩
      rcases List.mem_append.mp hq with hq | hq
      · exact h.waiting q hq
      · obtain rfl := List.mem_singleton.mp hq
        exact h.begin_fits hp
  | enter i =>
    cases hlock : s.lock with
    | free =>
      cases hi : s.waiting[i]? with
      | none => simpa only [storeStep, hlock, hi] using h
      | some p =>
        simp only [storeStep, hlock, hi]
        refine ⟨h.known, fun q hq => h.waiting q (List.mem_of_mem_eraseIdx hq), fun q hq => ?_,
          fun _ => h.agrees (by rw [Settled, hlock]; rfl), fun q rows hq => (nomatch hq)⟩
        obtain rfl := Lock.entered.inj hq
        exact h.waiting p (List.mem_of_getElem? hi)
    | entered p => simpa only [storeStep, hlock] using h
    | executed p rows => simpa only [storeStep, hlock] using h
  | execute fault =>
    cases hlock : s.lock with
    | free => simpa only [storeStep, hlock] using h
    | executed p rows => simpa only [storeStep, hlock] using h
    | entered p =>
      have hok : (p.execute s.conn fault).2 = true := by
        simpa only [Succeeds, hlock] using he
      have hkeeps : ∀ a, (p.execute s.conn fault).1.current.get a = none →
          s.conn.current.get a = none := fun a => p.execute_keeps a
      have hfits := h.entered p hlock
      have hmarkets := p.execute_markets hfits hok
      have hcache : s.cache.get = markets s.conn.current :=
        h.agrees (by rw [Settled, hlock]; rfl)
      have hfinish : (p.finish (p.execute s.conn fault).1.current s.cache).get =
          p.apply (markets s.conn.current) := p.finish_get hcache
      have hstep : storeStep s (.execute fault) = { s with
          conn := (p.execute s.conn fault).1
          lock := .executed p (p.execute s.conn fault).1.current } := by
        simp only [storeStep, hlock]
        split
        · next conn heq => rw [heq]
        · next conn heq => exact nomatch hok.symm.trans (congrArg Prod.snd heq)
      rw [hstep]
      refine ⟨fun a ha => h.known a (hkeeps a ha), fun q hq => (h.waiting q hq).mono hkeeps,
        fun q hq => (nomatch hq), fun hsettled => (nomatch hsettled), fun q rows hq => ?_⟩
      obtain ⟨rfl, rfl⟩ := Lock.executed.inj hq
      exact hfinish.trans hmarkets.symm
  | finish =>
    cases hlock : s.lock with
    | free => simpa only [storeStep, hlock] using h
    | entered p => simpa only [storeStep, hlock] using h
    | executed p rows =>
      simp only [storeStep, hlock]
      have hagrees := h.updates p rows hlock
      refine ⟨fun a ha => ?_, h.waiting, fun q hq => (nomatch hq), fun _ => hagrees,
        fun q rows hq => (nomatch hq)⟩
      exact (congrFun hagrees a).trans (markets_eq_none_iff.mpr ha)

theorem coherent (h : Reach storeStep (opened table) Succeeds s) : Coherent s :=
  h.invariant coherent_opened fun _ _ _ he ih => ih.step he

/-- In every interleaving of operations that do not raise, the cache is what `refresh_cache` would
read from the table, unless an operation is between its statement and its update of the cache. -/
theorem cache_agrees (h : Reach storeStep (opened table) Succeeds s) (hsettled : Settled s) :
    ∀ a, s.cache.get a = (readCache s.conn.current).get a :=
  fun a => congrFun ((coherent h).agrees hsettled) a

end Agree

namespace Sample

def market (assetId question : String) : MarketMetadata :=
  { assetId := assetId, marketId := "m", conditionId := "c", marketSlug := "s"
    question := question, description := "d", category := "Economics", tags := ["fed"]
    eventId := "e", eventTitle := "Fed", eventSlug := "fed", siblingAssetIds := []
    siblingMarketSlugs := [], outcome := "Yes", endDate := "", volume24h := some 25000
    liquidity := some 15000, polymarketUrl := "" }

/-- The operation that was called first gets the lock, and ends. -/
def performed : List StoreEvent := [.enter 0, .execute none, .finish]

/-- Two upserts bind the values of a market that neither finds in the cache, one of them twice; a
tick is taken while the first is between its statement and the cache. -/
def interleavedEvents : List StoreEvent :=
  List.flatten [[.call (.upsertTrackedMarkets [market "a" "old"] 1000),
    .call (.upsertTrackedMarkets [market "a" "new", market "b" "x", market "a" "newest"] 2000),
    .enter 0, .execute none, .call (.updateLastTick "a" 1500), .finish], performed, performed,
    [.call (.markMarketResolved ["b", "b", "z"] 3000)], performed]

end Sample

theorem cache_agrees_interleaved :
    let s := Sample.interleavedEvents.foldl storeStep (opened .empty)
    ∀ a, s.cache.get a = (readCache s.conn.current).get a :=
  cache_agrees (reach_of_allowed (by decide +kernel)) (by decide +kernel)

end Sentinel.Storage
