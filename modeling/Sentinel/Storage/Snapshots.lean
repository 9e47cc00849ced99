import Sentinel.Storage.ArchiverKept
import Sentinel.Storage.Pruning
import Sentinel.Storage.TrackedMarkets

/-!
# The archive and its snapshots

After the ticks of an hour `archive_once` writes the markets that the store knows at that time, for a
replay of the ticks to find.

* `exportStep`: the archiver beside the store, which only takes ticks of markets that it knows.
* `ExportsSafely`: the archiver loses no tick, and no snapshot fails.
* `ExportInv`: every tick of a file has its market in the snapshot of the hour, unless this is to be
  written next; no row is in the files more often than it was inserted.
* `pathText_le_iff`: the snapshots sorted by their paths are sorted by their hours.
-/

namespace Sentinel.Storage

open Logic Ingestion

structure ExportState : Type where
  archive : ArchiveState
  cache : MarketCache
  /-- The hour whose ticks have been written and whose snapshot has not. -/
  hour : Option ℤ
  /-- What the files `HH.markets.json` hold. -/
  markets : ℤ → Option (List MarketMetadata)

inductive ExportEvent : Type
  | upsertTrackedMarkets (ms : List MarketMetadata)
  | setMarketActive (assetIds : List String) (active : Bool) (subscribedAtMs : ℤ)
  | updateLastTick (assetId : String) (timestampMs : ℤ)
  | archive (e : ArchiveEvent)

/-- The hour of the file that is written next. -/
def Phase.writes : Phase → Option ℤ
  | .write _ hourStartMs _ _ => some hourStartMs
  | _ => none

/-- `ingest_tick` drops a tick of an unknown market. -/
def exportArchive (cfg : StorageConfig) (s : ExportState) : ArchiveEvent → ExportState
  | .insertPriceTick tick =>
    if (s.cache.get tick.assetId).isSome then
      { s with archive := archiveStep cfg s.archive (.insertPriceTick tick) }
    else s
  | .archiveOnce nowMs => { s with archive := archiveStep cfg s.archive (.archiveOnce nowMs) }
  | .fail => { s with archive := archiveStep cfg s.archive .fail, hour := none }
  | .advance =>
    { s with
      archive := archiveStep cfg s.archive .advance
      hour := s.archive.phase.writes
      markets := s.hour.elim s.markets fun h =>
        Function.update s.markets h (some (s.cache.items.map Prod.snd)) }

/-- A statement that the table rejects raises before the cache is changed. -/
def exportStep (cfg : StorageConfig) (s : ExportState) : ExportEvent → ExportState
  | .upsertTrackedMarkets ms =>
    if ms.all storable then { s with cache := cacheUpserts s.cache ms } else s
  | .setMarketActive assetIds active subscribedAtMs =>
    { s with cache := cacheActive s.cache assetIds active subscribedAtMs }
  | .updateLastTick assetId timestampMs => { s with cache := cacheTick s.cache assetId timestampMs }
  | .archive e => exportArchive cfg s e

def emptyExport : ExportState := ⟨emptyArchive, .empty, none, fun _ => none⟩

/-- The call does not end between the ticks of an hour and its snapshot. -/
def SnapshotsWritten (s : ExportState) : ArchiveEvent → Prop
  | .fail => s.hour = none
  | _ => True

def ExportsSafely (cfg : StorageConfig) (s : ExportState) : ExportEvent → Prop
  | .archive e => ArchivesSafely cfg s.archive e ∧ SnapshotsWritten s e
  | _ => True

instance (s : ExportState) : ∀ e, Decidable (SnapshotsWritten s e)
  | .fail => inferInstanceAs (Decidable (s.hour = none))
  | .insertPriceTick _ | .archiveOnce _ | .advance => isTrue trivial

instance (cfg : StorageConfig) (s : ExportState) : ∀ e, Decidable (ExportsSafely cfg s e)
  | .archive _ => inferInstanceAs (Decidable (_ ∧ _))
  | .upsertTrackedMarkets _ | .setMarketActive .. | .updateLastTick .. => isTrue trivial

/-! ## No tick is there twice -/

section Counts

variable {cfg : StorageConfig} {s : ArchiveState}

/-- No row is in a list more often than it was inserted. -/
structure Counted (s : ArchiveState) : Prop where
  table : ∀ t, s.disk.priceTicks.rows.count t ≤ s.inserted.count t
  files : ∀ h rows, s.disk.parquet h = some rows → ∀ t, rows.count t ≤ s.inserted.count t
  fetched : ∀ nowMs h rows hs, s.phase = .write nowMs h rows hs →
    ∀ t, rows.count t ≤ s.inserted.count t

theorem count_fetch (table : PriceTickTable) (a b : ℤ) (t : PriceTickRow) :
    (table.fetchPriceTicksBetween a b).count t ≤ table.rows.count t := by
  unfold PriceTickTable.fetchPriceTicksBetween
  rw [(List.perm_insertionSort _ _).count_eq]
  exact List.filter_sublist.count_le t

theorem Counted.step (h : Counted s) (e : ArchiveEvent) : Counted (archiveStep cfg s e) := by
  obtain ⟨d, phase, clock, inserted⟩ := s
  have hidle : ∀ (d' : Disk) (phase' : Phase) (clock' : ℤ), (∀ nowMs h rows hs,
      phase' ≠ .write nowMs h rows hs) → (∀ t, d'.priceTicks.rows.count t ≤ d.priceTicks.rows.count t) →
      d'.parquet = d.parquet → Counted ⟨d', phase', clock', inserted⟩ :=
    fun d' phase' clock' hphase htable hfiles => ⟨fun t => (htable t).trans (h.table t),
      fun h' rows hrows => h.files h' rows (hfiles ▸ hrows),
      fun nowMs h' rows hs heq => absurd heq (hphase nowMs h' rows hs)⟩
  cases e with
  | insertPriceTick tick =>
    have hmore : ∀ (l : List PriceTickRow) t, l.count t ≤ inserted.count t →
        l.count t ≤ (inserted ++ [d.priceTicks.nextRow tick]).count t := by
      intro l t hl
      rw [List.count_append]
      omega
    refine ⟨fun t => ?_, fun h' rows hrows t => hmore _ t (h.files h' rows hrows t),
      fun nowMs h' rows hs heq t => hmore _ t (h.fetched nowMs h' rows hs heq t)⟩
    show (d.priceTicks.rows ++ [_]).count t ≤ (inserted ++ [_]).count t
    rw [List.count_append, List.count_append]
    exact Nat.add_le_add_right (h.table t) _
  | fail => exact hidle d .idle clock (by simp) (fun _ => le_rfl) rfl
  | archiveOnce nowMs =>
    simp only [archiveStep]
    split
    · split_ifs
      · exact hidle d (.list nowMs) nowMs (by simp) (fun _ => le_rfl) rfl
      · exact h
    · exact h
  | advance =>
    cases phase with
    | idle => exact h
    | list nowMs => exact hidle d _ clock (by simp) (fun _ => le_rfl) rfl
    | snapshot nowMs hs => exact hidle d _ clock (by simp) (fun _ => le_rfl) rfl
    | write nowMs hour rows hs =>
      refine ⟨h.table, fun h' rows' hrows' t => ?_, fun _ _ _ _ heq => by cases heq⟩
      by_cases heq : h' = hour
      · subst heq
        simp only [archiveStep, advance, writeParquet, Function.update_self, Option.some.injEq] at hrows'
        subst hrows'
        exact h.fetched nowMs h' rows hs rfl t
      · simp only [archiveStep, advance, writeParquet, Function.update_of_ne heq] at hrows'
        exact h.files h' rows' hrows' t
    | fetch nowMs hs =>
      cases hs with
      | nil => exact hidle _ .idle clock (by simp) (fun t => List.filter_sublist.count_le t) rfl
      | cons hour hs =>
        have hcount := fun t => count_fetch d.priceTicks hour (hour + hourMs) t
        simp only [archiveStep, advance]
        cases hrows : d.priceTicks.fetchPriceTicksBetween hour (hour + hourMs) with
        | nil => exact hidle d _ clock (by simp) (fun _ => le_rfl) rfl
        | cons row rows =>
          rw [hrows] at hcount
          refine ⟨h.table, h.files, fun nowMs' h' rows' hs' heq t => ?_⟩
          cases heq
          exact (hcount t).trans (h.table t)

end Counts

/-! ## The invariant -/

/-- What is stored of an asset is a market of this asset that the table takes. -/
def WellStored (M : Markets) : Prop := ∀ a m, M a = some m → m.assetId = a ∧ storable m = true

structure ExportInv (cfg : StorageConfig) (s : ExportState) : Prop where
  archive : ArchiveInv cfg s.archive
  counted : Counted s.archive
  tracked : ∀ t ∈ s.archive.inserted, (s.cache.get t.assetId).isSome
  stored : WellStored s.cache.get
  writes : ∀ h ∈ s.archive.phase.writes, hourMs ∣ h
  hour : ∀ h ∈ s.hour, hourMs ∣ h ∧ s.archive.phase.writes = none
  listed : ∀ h rows, s.archive.disk.parquet h = some rows → s.hour = some h ∨
    ∃ ms, s.markets h = some ms ∧ ∀ t ∈ rows, ∃ m ∈ ms, m.assetId = t.assetId
  snapshots : ∀ h ms, s.markets h = some ms →
    hourMs ∣ h ∧ ∀ m ∈ ms, storable m = true

section Preservation

variable {cfg : StorageConfig} {s : ExportState} {M : Markets} {ms : List MarketMetadata}
  {m : MarketMetadata} {a : String}

theorem WellStored.upsert (h : WellStored M) (hm : storable m = true) : WellStored (M.upsert m) := by
  intro a m' heq
  rw [Markets.upsert, Function.update_apply] at heq
  split_ifs at heq with ha
  · obtain rfl := Option.some.inj heq
    exact ⟨ha.symm, hm⟩
  · exact h a m' heq

theorem isSome_upsert (h : (M a).isSome) : (M.upsert m a).isSome := by
  rw [Markets.upsert, Function.update_apply]
  split_ifs
  · rfl
  · exact h

theorem WellStored.upserts (h : WellStored M) (hms : ∀ m ∈ ms, storable m = true) :
    WellStored (M.upserts ms) ∧ ∀ a, (M a).isSome → (M.upserts ms a).isSome := by
  induction ms generalizing M with
  | nil => exact ⟨h, fun _ => id⟩
  | cons m ms ih =>
    obtain ⟨hstored, hmono⟩ := ih (h.upsert (hms m List.mem_cons_self))
      fun m' hm' => hms m' (List.mem_cons_of_mem _ hm')
    exact ⟨hstored, fun a ha => hmono a (isSome_upsert ha)⟩

/-- A change of the state of a market. -/
theorem WellStored.change (h : WellStored M) {p : String → Prop} [DecidablePred p]
    {f : MarketMetadata → MarketMetadata}
    (hf : ∀ m, (f m).assetId = m.assetId ∧ storable (f m) = storable m) :
    WellStored (M.change p f) ∧ ∀ a, (M a).isSome → (M.change p f a).isSome := by
  constructor
  · intro a m heq
    unfold Markets.change at heq
    split_ifs at heq
    · obtain ⟨m', hm', rfl⟩ := Option.map_eq_some_iff.mp heq
      obtain ⟨hasset, hstorable⟩ := h a m' hm'
      exact ⟨(hf m').1.trans hasset, (hf m').2.trans hstorable⟩
    · exact h a m heq
  · intro a ha
    unfold Markets.change
    split_ifs
    · rw [Option.isSome_map]
      exact ha
    · exact ha

/-- The store learns of markets or changes their states. -/
theorem ExportInv.cache (h : ExportInv cfg s) {cache : MarketCache}
    (hcache : WellStored cache.get ∧ ∀ a, (s.cache.get a).isSome → (cache.get a).isSome) :
    ExportInv cfg { s with cache := cache } where
  archive := h.archive
  counted := h.counted
  tracked t ht := hcache.2 _ (h.tracked t ht)
  stored := hcache.1
  writes := h.writes
  hour := h.hour
  listed := h.listed
  snapshots := h.snapshots

/-- Only the file of one hour is written. -/
theorem advance_parquet_ne {s : ArchiveState} {hour : ℤ} (h : s.phase.writes ≠ some hour) :
    (advance cfg s).disk.parquet hour = s.disk.parquet hour := by
  obtain ⟨d, phase, clock, inserted⟩ := s
  cases phase with
  | write nowMs written rows hs => exact Function.update_of_ne (fun heq => h (congrArg some heq.symm)) _ _
  | fetch nowMs hs =>
    cases hs with
    | nil => rfl
    | cons hour hs =>
      unfold advance
      dsimp only
      split <;> rfl
  | _ => rfl

/-- The hour that is going to be written was listed. -/
theorem advance_writes {s : ArchiveState} (h : PhaseInv cfg s) :
    ∀ hour ∈ (advance cfg s).phase.writes, hourMs ∣ hour ∧ s.phase.writes = none := by
  obtain ⟨d, phase, clock, inserted⟩ := s
  intro hour hwrites
  cases phase with
  | fetch nowMs hs =>
    cases hs with
    | nil => cases hwrites
    | cons first hs =>
      unfold advance at hwrites
      dsimp only at hwrites
      split at hwrites
      · cases hwrites
      · cases hwrites
        exact ⟨h.1 hour List.mem_cons_self, rfl⟩
  | _ => cases hwrites

theorem ExportInv.advance (hret : 1 ≤ cfg.hotRetentionHours) (h : ExportInv cfg s)
    (hsafe : ArchivesSafely cfg s.archive .advance) :
    ExportInv cfg (exportStep cfg s (.archive .advance)) := by
  have harchive := inv_step hret h.archive .advance hsafe
  have hinserted : (Storage.advance cfg s.archive).inserted = s.archive.inserted :=
    (advance_inserted cfg s.archive).1
  -- the snapshot has the market of every tick that was inserted
  have hknown : ∀ t ∈ s.archive.inserted, ∃ m ∈ s.cache.items.map Prod.snd,
      m.assetId = t.assetId := by
    intro t ht
    obtain ⟨m, hm⟩ := Option.isSome_iff_exists.mp (h.tracked t ht)
    exact ⟨m, List.mem_map_of_mem (OrderedMap.get_eq_some_iff.mp hm), (h.stored _ m hm).1⟩
  have hstorable : ∀ m ∈ s.cache.items.map Prod.snd, storable m = true := by
    intro m hm
    obtain ⟨⟨a, m⟩, hitem, rfl⟩ := List.mem_map.mp hm
    exact (h.stored a m (OrderedMap.get_eq_some_iff.mpr hitem)).2
  refine ⟨harchive, h.counted.step .advance, fun t ht => ?_, h.stored, fun hour hwrites => ?_,
    fun hour hwrites => ⟨h.writes hour hwrites, ?_⟩, fun hour rows hrows => ?_, fun hour ms hms => ?_⟩
  · exact h.tracked t (hinserted ▸ ht)
  · exact (advance_writes h.archive.phase hour hwrites).1
  · cases hnext : (Storage.advance cfg s.archive).phase.writes with
    | none => exact hnext
    | some next =>
      have hnone := (advance_writes h.archive.phase next hnext).2
      have hhour : s.archive.phase.writes = some hour := hwrites
      rw [hnone] at hhour
      cases hhour
  · cases hpending : s.hour with
    | none =>
      have hmarkets : (exportStep cfg s (.archive .advance)).markets = s.markets := by
        show s.hour.elim s.markets _ = _
        rw [hpending]
        rfl
      rw [hmarkets]
      by_cases hnew : s.archive.phase.writes = some hour
      · exact .inl hnew
      · refine .inr ((h.listed hour rows ?_).resolve_left (by rw [hpending]; simp))
        have hold : (Storage.advance cfg s.archive).disk.parquet hour = some rows := hrows
        rwa [advance_parquet_ne hnew] at hold
    | some written =>
      obtain ⟨-, hnone⟩ := h.hour written hpending
      have hold : (Storage.advance cfg s.archive).disk.parquet hour = some rows := hrows
      rw [advance_parquet_ne (by rw [hnone]; simp)] at hold
      refine .inr ?_
      show ∃ ms, s.hour.elim s.markets _ hour = some ms ∧ _
      rw [hpending]
      by_cases hsame : hour = written
      · subst hsame
        exact ⟨_, Function.update_self .., fun t ht => hknown t (h.archive.filed hour rows hold t ht).1⟩
      · rw [Option.elim_some, Function.update_of_ne hsame]
        refine (h.listed hour rows hold).resolve_left fun heq => hsame ?_
        exact Option.some.inj (heq.symm.trans hpending)
  · have hlook : s.hour.elim s.markets (fun h => Function.update s.markets h
        (some (s.cache.items.map Prod.snd))) hour = some ms := hms
    cases hpending : s.hour with
    | none =>
      rw [hpending] at hlook
      exact h.snapshots hour ms hlook
    | some written =>
      rw [hpending, Option.elim_some] at hlook
      by_cases hsame : hour = written
      · rw [hsame, Function.update_self] at hlook
        obtain rfl := Option.some.inj hlook
        exact ⟨hsame ▸ (h.hour written hpending).1, hstorable⟩
      · rw [Function.update_of_ne hsame] at hlook
        exact h.snapshots hour ms hlook

theorem ExportInv.archived (hret : 1 ≤ cfg.hotRetentionHours) (h : ExportInv cfg s)
    {e : ArchiveEvent} (hsafe : ArchivesSafely cfg s.archive e) (hwritten : SnapshotsWritten s e) :
    ExportInv cfg (exportStep cfg s (.archive e)) := by
  have harchive := inv_step hret h.archive e hsafe
  have hcounted : Counted (archiveStep cfg s.archive e) := h.counted.step e
  cases e with
  | advance => exact h.advance hret hsafe
  | insertPriceTick tick =>
    unfold exportStep exportArchive
    dsimp only
    split_ifs with hknown
    · refine ⟨harchive, hcounted, fun t ht => ?_, h.stored, h.writes, h.hour, h.listed,
        h.snapshots⟩
      rcases List.mem_append.mp ht with ht | ht
      · exact h.tracked t ht
      · rw [List.mem_singleton.mp ht]
        exact hknown
    · exact h
  | archiveOnce nowMs =>
    have hsame : ∀ hour, (archiveStep cfg s.archive (.archiveOnce nowMs)).phase.writes = some hour →
        s.archive.phase.writes = some hour := by
      intro hour
      unfold archiveStep
      dsimp only
      split
      · split_ifs
        · exact fun heq => by cases heq
        · exact id
      · exact id
    have hdisk : (archiveStep cfg s.archive (.archiveOnce nowMs)).disk = s.archive.disk ∧
        (archiveStep cfg s.archive (.archiveOnce nowMs)).inserted = s.archive.inserted := by
      unfold archiveStep
      dsimp only
      split
      · split_ifs <;> exact ⟨rfl, rfl⟩
      · exact ⟨rfl, rfl⟩
    refine ⟨harchive, hcounted, fun t ht => h.tracked t (hdisk.2 ▸ ht), h.stored,
      fun hour hwrites => h.writes hour (hsame hour hwrites), fun hour hhour => ?_,
      fun hour rows hrows => ?_, h.snapshots⟩
    · obtain ⟨hdvd, hnone⟩ := h.hour hour hhour
      refine ⟨hdvd, ?_⟩
      by_contra hsome
      obtain ⟨next, hnext⟩ := Option.ne_none_iff_exists'.mp hsome
      rw [hsame next hnext] at hnone
      cases hnone
    · have hold : (archiveStep cfg s.archive (.archiveOnce nowMs)).disk.parquet hour = some rows := hrows
      rw [hdisk.1] at hold
      exact h.listed hour rows hold
  | fail =>
    refine ⟨harchive, hcounted, h.tracked, h.stored, fun _ hwrites => (by cases hwrites),
      fun _ hhour => (by cases hhour), fun hour rows hrows => .inr ?_, h.snapshots⟩
    refine (h.listed hour rows hrows).resolve_left fun heq => ?_
    rw [hwritten] at heq
    cases heq

theorem ExportInv.step (hret : 1 ≤ cfg.hotRetentionHours) (h : ExportInv cfg s) {e : ExportEvent}
    (hsafe : ExportsSafely cfg s e) : ExportInv cfg (exportStep cfg s e) := by
  cases e with
  | archive e => exact h.archived hret hsafe.1 hsafe.2
  | upsertTrackedMarkets ms =>
    unfold exportStep
    dsimp only
    split_ifs with hms
    · refine h.cache ?_
      rw [get_cacheUpserts]
      exact h.stored.upserts (List.all_eq_true.mp hms)
    · exact h
  | setMarketActive assetIds active subscribedAtMs =>
    refine h.cache ?_
    rw [get_cacheActive]
    exact h.stored.change fun _ => ⟨rfl, rfl⟩
  | updateLastTick assetId timestampMs =>
    refine h.cache ?_
    rw [get_cacheTick]
    exact h.stored.change fun _ => ⟨rfl, rfl⟩

theorem exportInv (hret : 1 ≤ cfg.hotRetentionHours)
    (h : Reach (exportStep cfg) emptyExport (ExportsSafely cfg) s) : ExportInv cfg s := by
  refine h.invariant ?_ fun _ _ _ hsafe ih => ih.step hret hsafe
  exact {
    archive := inv_reach hret .init
    counted := ⟨fun _ => le_rfl, fun _ _ h => (by cases h), fun _ _ _ _ h => (by cases h)⟩
    tracked := fun _ h => absurd h List.not_mem_nil
    stored := fun _ _ h => by cases h
    writes := fun _ h => by cases h
    hour := fun _ h => by cases h
    listed := fun _ _ h => by cases h
    snapshots := fun _ _ h => by cases h }

end Preservation

/-! ## What a replay finds -/

/-- The text of a path below the archive. -/
def pathText (path : List FileName) : List Char := ['/'].intercalate path

/-- `sorted(glob.glob(...))` for the snapshots, by the hours of the files. -/
structure Globbed (markets : ℤ → Option (List MarketMetadata)) (hours : List ℤ) : Prop where
  found : ∀ h, h ∈ hours ↔ (markets h).isSome
  nodup : hours.Nodup
  named : ∀ h ∈ hours, (marketsPath h).isSome
  sorted : hours.Pairwise fun a b => ∀ p ∈ marketsPath a, ∀ q ∈ marketsPath b,
    lexLe (pathText p) (pathText q) = true

/-- The contents of the snapshots. -/
def contents (markets : ℤ → Option (List MarketMetadata)) (hours : List ℤ) :
    List (List MarketMetadata) := hours.map fun h => (markets h).getD []

/-- What a query of all files may return: the rows are ordered by their times, and those of one time
in any way. -/
structure Queried (disk : Disk) (rows : List PriceTickRow) : Prop where
  filed : ∃ hours : List ℤ, hours.Nodup ∧ (∀ h, h ∈ hours ↔ (disk.parquet h).isSome) ∧
    rows.Perm (hours.flatMap fun h => (disk.parquet h).getD [])
  sorted : rows.Pairwise fun a b => a.tsMs ≤ b.tsMs

section Replay

variable {cfg : StorageConfig} {s : ExportState} {hours : List ℤ} {rows : List PriceTickRow}

theorem pathText_archivePath (dt : DateTime) (ending : FileName) :
    pathText (archivePath dt ending) = padded 4 dt.year ++ '/' :: (padded 2 dt.month ++ '/' ::
      (padded 2 dt.day ++ '/' :: (padded 2 dt.hour ++ ending))) := by
  simp [pathText, archivePath, List.intercalate]

/-- The numbers are padded, so that the paths are ordered like the hours. -/
theorem pathText_le_iff {a b : ℤ} {p q : List FileName} (ha : hourMs ∣ a) (hb : hourMs ∣ b)
    (hp : marketsPath a = some p) (hq : marketsPath b = some q) :
    lexLe (pathText p) (pathText q) = true ↔ a ≤ b := by
  obtain ⟨da, hda, rfl⟩ := Option.map_eq_some_iff.mp hp
  obtain ⟨db, hdb, rfl⟩ := Option.map_eq_some_iff.mp hq
  have hta : da.toTime = a * 1000 := DateTime.ofTime?_eq_some_iff.mp hda
  have htb : db.toTime = b * 1000 := DateTime.ofTime?_eq_some_iff.mp hdb
  have honHour : ∀ (dt : DateTime) (h : ℤ), hourMs ∣ h → dt.toTime = h * 1000 → OnHour dt := by
    intro dt h hdvd htime
    obtain ⟨k, rfl⟩ := hdvd
    have hmicros := dt.toTime_add_epoch
    have h₁ := dt.minute_lt
    have h₂ := dt.second_lt
    have h₃ := dt.microsecond_lt
    rw [htime, hourMs, DateTime.epoch, DateTime.micros] at hmicros
    push_cast at hmicros
    exact ⟨by omega, by omega, by omega⟩
  obtain ⟨ha₁, ha₂, ha₃⟩ := honHour da a ha hta
  obtain ⟨hb₁, hb₂, hb₃⟩ := honHour db b hb htb
  have hle : a ≤ b ↔ da.toTime ≤ db.toTime := by
    rw [hta, htb]
    omega
  have hya := da.year_mem
  have hyb := db.year_mem
  have hma := da.month_mem
  have hmb := db.month_mem
  have hda' := da.day_lt
  have hdb' := db.day_lt
  have hha := da.hour_lt
  have hhb := db.hour_lt
  rw [hle, DateTime.toTime_le_iff, DateTime.micros_le_iff, DateTime.dayNumber_lt_iff,
    DateTime.dayNumber_eq_iff, ha₁, ha₂, ha₃, hb₁, hb₂, hb₃, pathText_archivePath,
    pathText_archivePath, lexLe_padded_cons (by omega) (by omega),
    lexLe_padded_cons (by omega) (by omega), lexLe_padded_cons (by omega) (by omega),
    lexLe_padded (by omega) (by omega), lexLe_refl]
  simp only [lt_self_iff_false, le_refl, and_true, false_or]
  omega

theorem Globbed.ascending (h : Globbed s.markets hours) (hinv : ExportInv cfg s) :
    hours.Pairwise (· < ·) := by
  have hdvd : ∀ hour ∈ hours, hourMs ∣ hour := by
    intro hour hhour
    obtain ⟨ms, hms⟩ := Option.isSome_iff_exists.mp ((h.found hour).mp hhour)
    exact (hinv.snapshots hour ms hms).1
  refine (h.nodup.and h.sorted).imp_of_mem fun {a b} ha hb hab => ?_
  obtain ⟨p, hp⟩ := Option.isSome_iff_exists.mp (h.named a ha)
  obtain ⟨q, hq⟩ := Option.isSome_iff_exists.mp (h.named b hb)
  have hle := (pathText_le_iff (hdvd a ha) (hdvd b hb) hp hq).mp (hab.2 p hp q hq)
  exact lt_of_le_of_ne hle hab.1

theorem Queried.mem_iff (h : Queried s.archive.disk rows) {t : PriceTickRow} :
    t ∈ rows ↔ ∃ hour filed, s.archive.disk.parquet hour = some filed ∧ t ∈ filed := by
  obtain ⟨hours, -, hfound, hperm⟩ := h.filed
  rw [hperm.mem_iff, List.mem_flatMap]
  constructor
  · rintro ⟨hour, hhour, ht⟩
    obtain ⟨filed, hfiled⟩ := Option.isSome_iff_exists.mp ((hfound hour).mp hhour)
    rw [hfiled] at ht
    exact ⟨hour, filed, hfiled, ht⟩
  · rintro ⟨hour, filed, hfiled, ht⟩
    refine ⟨hour, (hfound hour).mpr (by rw [hfiled]; rfl), ?_⟩
    rw [hfiled]
    exact ht

/-- A row is in the file of its own hour only. -/
theorem Queried.count_le (h : Queried s.archive.disk rows) (hinv : ExportInv cfg s) (t : PriceTickRow) :
    rows.count t ≤ s.archive.inserted.count t := by
  obtain ⟨hours, hnodup, -, hperm⟩ := h.filed
  rw [hperm.count_eq]
  clear hperm h
  induction hours with
  | nil => exact Nat.zero_le _
  | cons hour hours ih =>
    obtain ⟨hnew, hrest⟩ := List.nodup_cons.mp hnodup
    rw [List.flatMap_cons, List.count_append]
    by_cases hown : hour = hourStart t.tsMs
    · -- in no other file
      have hnone : t ∉ hours.flatMap fun h => (s.archive.disk.parquet h).getD [] := by
        intro hmem
        obtain ⟨other, hother, ht⟩ := List.mem_flatMap.mp hmem
        cases hfiled : s.archive.disk.parquet other with
        | none =>
          rw [hfiled] at ht
          exact List.not_mem_nil ht
        | some filed =>
          rw [hfiled] at ht
          have heq := (hinv.archive.filed other filed hfiled t ht).2
          exact hnew (hown ▸ heq ▸ hother)
      rw [List.count_eq_zero_of_not_mem hnone, Nat.add_zero]
      cases hfiled : s.archive.disk.parquet hour with
      | none => exact Nat.zero_le _
      | some filed => exact hinv.counted.files hour filed hfiled t
    · have hnone : t ∉ (s.archive.disk.parquet hour).getD [] := by
        intro ht
        cases hfiled : s.archive.disk.parquet hour with
        | none =>
          rw [hfiled] at ht
          exact List.not_mem_nil ht
        | some filed =>
          rw [hfiled] at ht
          exact hown (hinv.archive.filed hour filed hfiled t ht).2.symm
      rw [List.count_eq_zero_of_not_mem hnone, Nat.zero_add]
      exact ih hrest

/-- No row is read twice. -/
theorem Queried.nodup (h : Queried s.archive.disk rows) (hinv : ExportInv cfg s) : rows.Nodup := by
  rw [List.nodup_iff_count_le_one]
  intro t
  exact (h.count_le hinv t).trans (List.nodup_iff_count_le_one.mp hinv.archive.numbered.nodup t)

end Replay

end Sentinel.Storage
