import Mathlib.Data.Finset.Basic
import Mathlib.Data.List.Sort
import Sentinel.Storage.FailedUpsert

/-!
# The gatekeeper and the subscriptions

`Gatekeeper.run_once` compares the markets that are tracked upstream with those that the store has
as active, and `MarketWSClient` keeps the set of assets it subscribes to by the commands it is sent.

* `RunOnce`: what a call has computed before its first wait; `Phase`: where it waits.
* `SubscriptionCommand.apply`: what the client does with a command.
-/

namespace Sentinel.Ingestion

open Logic Storage

/-! ## What is new and what is gone -/

/-- `active_asset_ids`, in the order of the cache. -/
def activeAssetIds (cache : MarketCache) : List String :=
  (cache.items.filter fun item => item.2.active).map Prod.fst

/-- What `extract_tracked_markets` returns: the values of a dict by their assets. -/
structure Tracked : Type where
  markets : List MarketMetadata
  nodup : (markets.map MarketMetadata.assetId).Nodup

def Tracked.assetIds (tracked : Tracked) : List String :=
  tracked.markets.map MarketMetadata.assetId

structure RunOnce : Type where
  tracked : Tracked
  newAssetIds : List String
  removedAssetIds : List String
  nowMs : ℤ

def sorted (ids : List String) : List String := ids.insertionSort (· ≤ ·)

def diff (cache : MarketCache) (tracked : Tracked) (nowMs : ℤ) : RunOnce :=
  { tracked := tracked
    newAssetIds := sorted (tracked.assetIds.filter (· ∉ activeAssetIds cache))
    removedAssetIds := sorted ((activeAssetIds cache).filter (· ∉ tracked.assetIds))
    nowMs := nowMs }

/-- What is put on the queue of commands at the end. -/
def RunOnce.commands (run : RunOnce) : List SubscriptionCommand :=
  (if run.newAssetIds = [] then [] else [⟨.subscribe, run.newAssetIds⟩]) ++
    if run.removedAssetIds = [] then [] else [⟨.unsubscribe, run.removedAssetIds⟩]

/-- The operation of the store that a call waits for. -/
inductive Phase : Type
  | idle
  | upserting (run : RunOnce) (ps : List UpsertParams)
  | activating (run : RunOnce)
  | deactivating (run : RunOnce)

def Phase.run? : Phase → Option RunOnce
  | .idle => none
  | .upserting run _ | .activating run | .deactivating run => some run

section Diff

variable {cache : MarketCache} {tracked : Tracked} {nowMs : ℤ} {a : String}

theorem mem_activeAssetIds :
    a ∈ activeAssetIds cache ↔ ∃ m, cache.get a = some m ∧ m.active = true := by
  simp only [activeAssetIds, List.mem_map, List.mem_filter, Prod.exists, exists_and_right,
    exists_eq_right, OrderedMap.get_eq_some_iff]

theorem mem_sorted {ids : List String} : a ∈ sorted ids ↔ a ∈ ids :=
  (List.perm_insertionSort (· ≤ ·) ids).mem_iff

theorem mem_newAssetIds : a ∈ (diff cache tracked nowMs).newAssetIds ↔
    a ∈ tracked.assetIds ∧ a ∉ activeAssetIds cache := by
  simp only [diff, mem_sorted, List.mem_filter, decide_eq_true_eq]

theorem mem_removedAssetIds : a ∈ (diff cache tracked nowMs).removedAssetIds ↔
    a ∈ activeAssetIds cache ∧ a ∉ tracked.assetIds := by
  simp only [diff, mem_sorted, List.mem_filter, decide_eq_true_eq]

theorem mem_commands {run : RunOnce} {c : SubscriptionCommand} (h : c ∈ run.commands) :
    c = ⟨.subscribe, run.newAssetIds⟩ ∨ c = ⟨.unsubscribe, run.removedAssetIds⟩ := by
  rcases List.mem_append.mp h with h | h
  · split_ifs at h
    · exact absurd h List.not_mem_nil
    · exact Or.inl (List.mem_singleton.mp h)
  · split_ifs at h
    · exact absurd h List.not_mem_nil
    · exact Or.inr (List.mem_singleton.mp h)

theorem unsubscribe_mem_commands {run : RunOnce} (h : a ∈ run.removedAssetIds) :
    ⟨.unsubscribe, run.removedAssetIds⟩ ∈ run.commands := by
  have hne : run.removedAssetIds ≠ [] := List.ne_nil_of_mem h
  rw [RunOnce.commands, if_neg hne]
  exact List.mem_append_right _ (List.mem_singleton_self _)

end Diff

/-! ## The set of the client -/

/-- What `_command_loop` does to `_active_asset_ids`. -/
def SubscriptionCommand.apply (set : Finset String) (c : SubscriptionCommand) : Finset String :=
  match c.operation with
  | .subscribe => set ∪ c.assetIds.toFinset
  | .unsubscribe => set \ c.assetIds.toFinset

/-- The set after all commands of a queue. -/
def applied (set : Finset String) (queue : List SubscriptionCommand) : Finset String :=
  queue.foldl SubscriptionCommand.apply set

section Applied

variable {set : Finset String} {queue : List SubscriptionCommand} {a : String}

theorem applied_append {cs : List SubscriptionCommand} :
    applied set (queue ++ cs) = applied (applied set queue) cs := List.foldl_append

/-- The commands of a call subscribe to what is new and unsubscribe from what is gone. -/
theorem mem_applied_commands {run : RunOnce} : a ∈ applied set run.commands ↔
    (a ∈ set ∨ a ∈ run.newAssetIds) ∧ a ∉ run.removedAssetIds := by
  rw [RunOnce.commands, applied_append]
  split_ifs with hnew hremoved hremoved
  · simp [applied, hnew, hremoved]
  · simp [applied, SubscriptionCommand.apply, hnew]
  · simp [applied, SubscriptionCommand.apply, hremoved]
  · simp [applied, SubscriptionCommand.apply]

end Applied

end Sentinel.Ingestion
