import Sentinel.Ingestion.Tracking
import Sentinel.Logic.Paging

/-!
# Fetching the events

`Gatekeeper.fetch_events` asks for pages until one is empty or shorter than a page.  The upstream
may order its events anew between two requests, and may answer with fewer events than it is asked
for.

* `fetchLoop`: the loop; `fetchLoop_eq` says that it reads the list page by page.
* `Serves`: what the upstream promises, a limit of its own included.
* `fetchEvents_complete`: the loop ends, no event that does not move up is missed, and all events
  of a list that stands still are fetched if and only if the limit does not cut a page short.
-/

namespace Sentinel.Ingestion

open Logic

/-- The fields of `GatekeeperConfig` that `fetch_events` reads; the URL is left to the session. -/
structure EventsConfig : Type where
  pageSize : ℤ := 100
  orderBy : String := "volume24hr"
  ascending : Bool := false

structure EventsQuery : Type where
  active : Bool
  closed : Bool
  order : String
  ascending : Bool
  limit : ℤ
  offset : ℤ

inductive FetchError : Type
  /-- `raise_for_status`, or a failure of the connection. -/
  | response (error : String)
  /-- The payload is neither a list nor an object. -/
  | attributeError
  deriving DecidableEq

/-- The answers to the requests of one call, by number. -/
abbrev Upstream : Type := ℕ → EventsQuery → Except FetchError Value

section Fetch

variable (py : FeedBuiltins) (cfg : EventsConfig) (upstream : Upstream)

def EventsConfig.query (offset : ℤ) : EventsQuery :=
  ⟨true, false, cfg.orderBy, cfg.ascending, cfg.pageSize, offset⟩

/-- `payload if isinstance(payload, list) else ensure_list(payload.get("events"))`. -/
def batchOf : Value → Except FetchError (List Value)
  | .list items => .ok items
  | .dict payload => .ok (ensureList py (getKey payload "events"))
  | .null | .bool _ | .int _ | .float _ | .str _ => .error .attributeError

/-- The loop from request number `k` on; none if it has not ended after `fuel` requests. -/
def fetchLoop : ℕ → ℕ → ℤ → List Value → Option (Except FetchError (List Value))
  | 0, _, _, _ => none
  | fuel + 1, k, offset, events =>
    match (upstream k (cfg.query offset)).bind (batchOf py) with
    | .error e => some (.error e)
    | .ok batch =>
      if batch = [] then some (.ok events)
      else if batch.length < cfg.pageSize then some (.ok (events ++ batch))
      else fetchLoop fuel (k + 1) (offset + cfg.pageSize) (events ++ batch)

def fetchEvents (fuel : ℕ) : Option (Except FetchError (List Value)) :=
  fetchLoop py cfg upstream fuel 0 0 []

/-- The upstream has the events `lists k` when it answers request number `k`, and sends those from
the offset on, at most `cap` of them. -/
def Serves (cap : ℕ) (lists : ℕ → List Value) : Prop :=
  ∀ (k : ℕ) (offset : ℕ), (upstream k (cfg.query offset)).bind (batchOf py) =
    .ok (((lists k).drop offset).take (min cfg.pageSize.toNat cap))

end Fetch

variable {py : FeedBuiltins} {cfg : EventsConfig} {upstream : Upstream} {cap : ℕ}
  {lists : ℕ → List Value}

/-- What the upstream sends to request number `k`. -/
def sent (cfg : EventsConfig) (cap : ℕ) (lists : ℕ → List Value) (k : ℕ) : List Value :=
  ((lists k).drop (k * cfg.pageSize.toNat)).take (min cfg.pageSize.toNat cap)

theorem fetchLoop_eq (hpage : 0 < cfg.pageSize) (hserves : Serves py cfg upstream cap lists)
    (fuel k : ℕ) (events : List Value) :
    fetchLoop py cfg upstream fuel k (k * cfg.pageSize) events =
      (collect cfg.pageSize.toNat (sent cfg cap lists) fuel k events).map .ok := by
  obtain ⟨size, hsize⟩ := Int.eq_ofNat_of_zero_le hpage.le
  induction fuel generalizing k events with
  | zero => rfl
  | succ fuel ih =>
    have hoffset : (k * cfg.pageSize : ℤ) = (k * size : ℕ) := by
      rw [hsize]
      push_cast
      rfl
    have hbatch : (upstream k (cfg.query (k * cfg.pageSize))).bind (batchOf py) =
        .ok (sent cfg cap lists k) := by
      rw [hoffset, hserves k (k * size), sent, hsize, Int.toNat_natCast]
    have hnext : (k * cfg.pageSize + cfg.pageSize : ℤ) = (k + 1 : ℕ) * cfg.pageSize := by
      push_cast
      ring
    have hshort : ((sent cfg cap lists k).length : ℤ) < cfg.pageSize ↔
        (sent cfg cap lists k).length < cfg.pageSize.toNat := by omega
    rw [fetchLoop, hbatch, collect]
    dsimp only
    rw [hnext, ih]
    simp only [hshort]
    split_ifs <;> rfl

theorem fetchEvents_eq (hpage : 0 < cfg.pageSize) (hserves : Serves py cfg upstream cap lists)
    (fuel : ℕ) : fetchEvents py cfg upstream fuel =
      (collect cfg.pageSize.toNat (sent cfg cap lists) fuel 0 []).map .ok := by
  rw [← fetchLoop_eq hpage hserves, Nat.cast_zero, Int.zero_mul]
  rfl

/-- Without a shorter limit the upstream sends pages. -/
theorem sent_of_le (h : cfg.pageSize.toNat ≤ cap) : sent cfg cap lists = page cfg.pageSize.toNat lists := by
  unfold sent
  rw [Nat.min_eq_left h]
  rfl

/-- With one, the first batch is short. -/
theorem collect_sent_of_lt (h : cap < cfg.pageSize.toNat) (fuel : ℕ) :
    collect cfg.pageSize.toNat (sent cfg cap lists) (fuel + 1) 0 [] = some ((lists 0).take cap) := by
  have hfirst : sent cfg cap lists 0 = (lists 0).take cap := by
    rw [sent, Nat.zero_mul, List.drop_zero, Nat.min_eq_right h.le]
  rw [collect, hfirst, List.nil_append]
  split_ifs with hempty hshort
  · rw [hempty]
  · rfl
  · rw [List.length_take] at hshort
    omega

theorem fetchEvents_ends (hpage : 0 < cfg.pageSize) (hserves : Serves py cfg upstream cap lists)
    {bound : ℕ} (hbound : ∀ k, (lists k).length ≤ bound) :
    ∃ events, fetchEvents py cfg upstream (bound / cfg.pageSize.toNat + 1) = some (.ok events) := by
  rw [fetchEvents_eq hpage hserves]
  by_cases hcap : cfg.pageSize.toNat ≤ cap
  · rw [sent_of_le hcap]
    have hfuel : bound < (0 + (bound / cfg.pageSize.toNat + 1)) * cfg.pageSize.toNat := by
      rw [Nat.zero_add, Nat.mul_comm]
      exact Nat.lt_mul_div_succ bound (by omega)
    have hsome : (collect cfg.pageSize.toNat (page cfg.pageSize.toNat lists)
        (bound / cfg.pageSize.toNat + 1) 0 []).isSome :=
      collect_isSome hbound hfuel (by omega)
    obtain ⟨events, hevents⟩ := Option.isSome_iff_exists.mp hsome
    exact ⟨events, by rw [hevents]; rfl⟩
  · rw [collect_sent_of_lt (by omega)]
    exact ⟨_, rfl⟩

theorem fetchEvents_fixed (hpage : 0 < cfg.pageSize) {all events : List Value}
    (hserves : Serves py cfg upstream cap fun _ => all) {fuel : ℕ}
    (h : fetchEvents py cfg upstream fuel = some (.ok events)) :
    events = all ↔ cfg.pageSize ≤ cap ∨ all.length ≤ cap := by
  rw [fetchEvents_eq hpage hserves] at h
  obtain ⟨out, hout, heq⟩ := Option.map_eq_some_iff.mp h
  obtain rfl := Except.ok.inj heq
  by_cases hcap : cfg.pageSize.toNat ≤ cap
  · rw [sent_of_le hcap] at hout
    refine iff_of_true (collect_fixed (by omega) ?_ hout) (.inl (by omega))
    rw [Nat.zero_mul, List.take_zero]
  · cases fuel with
    | zero => cases hout
    | succ fuel =>
      rw [collect_sent_of_lt (by omega)] at hout
      obtain rfl := Option.some.inj hout
      rw [List.take_eq_self_iff, or_iff_right (by omega)]

/-- The loop ends if the list of the events stays bounded.  If the upstream sends full pages, every
event that never moves up the list is fetched, whatever moves around it and whatever of the event
itself changes but for `P` (its id, say); and of a list that stands
still all events are fetched, once and in their order, just if the upstream sends full pages or has
no more events than it sends at once. -/
theorem fetchEvents_complete (hpage : 0 < cfg.pageSize)
    (hserves : Serves py cfg upstream cap lists) :
    (∀ bound, (∀ k, (lists k).length ≤ bound) → ∃ events,
      fetchEvents py cfg upstream (bound / cfg.pageSize.toNat + 1) = some (.ok events)) ∧
    ∀ fuel events, fetchEvents py cfg upstream fuel = some (.ok events) →
      (cfg.pageSize ≤ cap → ∀ (P : Value → Prop) (place : ℕ → ℕ), Monotone place →
        (∀ k, ∃ event, (lists k)[place k]? = some event ∧ P event) → ∃ event ∈ events, P event) ∧
      ∀ all, (∀ k, lists k = all) →
        (events = all ↔ cfg.pageSize ≤ cap ∨ all.length ≤ cap) := by
  refine ⟨fun bound hbound => fetchEvents_ends hpage hserves hbound, fun fuel events hevents =>
    ⟨fun hcap P place hplace hevent => ?_, fun all hall => ?_⟩⟩
  · rw [fetchEvents_eq hpage hserves, sent_of_le (by omega)] at hevents
    obtain ⟨out, hout, heq⟩ := Option.map_eq_some_iff.mp hevents
    obtain rfl := Except.ok.inj heq
    exact mem_of_collect (by omega) hplace hevent (.inr (by omega)) hout
  · obtain rfl : lists = fun _ => all := funext hall
    exact fetchEvents_fixed hpage hserves hevents

namespace Sample

/-- An upstream that sends no more than two events at once. -/
def twoAtOnce (events : List Value) : Upstream := fun _ query =>
  .ok (.list ((events.drop query.offset.toNat).take (min query.limit.toNat 2)))

def threeEvents : List Value := [.int 1, .int 2, .int 3]

end Sample

/-- With pages of two everything is fetched, with pages of three the last event is missed. -/
theorem fetchEvents_complete_three :
    (∃ events, fetchEvents Sample.feedBuiltins { pageSize := 2 } (Sample.twoAtOnce Sample.threeEvents)
      2 = some (.ok events) ∧ events = Sample.threeEvents) ∧
    ∃ events, fetchEvents Sample.feedBuiltins { pageSize := 3 } (Sample.twoAtOnce Sample.threeEvents)
      2 = some (.ok events) ∧ events ≠ Sample.threeEvents := by
  have hserves : ∀ pageSize : ℤ, Serves Sample.feedBuiltins { pageSize := pageSize }
      (Sample.twoAtOnce Sample.threeEvents) 2 fun _ => Sample.threeEvents := fun _ _ _ => rfl
  constructor
  · obtain ⟨hends, hall⟩ := fetchEvents_complete (by decide) (hserves 2)
    obtain ⟨events, hevents⟩ := hends 3 fun _ => le_rfl
    exact ⟨events, hevents, ((hall 2 events hevents).2 _ fun _ => rfl).mpr (.inl (by decide))⟩
  · obtain ⟨hends, hall⟩ := fetchEvents_complete (by decide) (hserves 3)
    obtain ⟨events, hevents⟩ := hends 3 fun _ => le_rfl
    refine ⟨events, hevents, fun heq => ?_⟩
    exact absurd (((hall 2 events hevents).2 _ fun _ => rfl).mp heq) (by decide)

end Sentinel.Ingestion
