import Mathlib.Data.List.Sort
import Mathlib.Data.List.Dedup
import Mathlib.Data.Rat.Init

/-!
# The tick table of the store

The `price_ticks` table of `SQLiteStore` with the queries the archiver and the retention jobs run
on it.  Every query holds the store's lock and is one step.  Timestamps are integer milliseconds.
-/

namespace Sentinel.Storage

def hourMs : ℤ := 3600000

/-- What a row of `price_ticks` holds beside its id. -/
structure PriceTick : Type where
  assetId : String
  marketSlug : String
  price : ℚ
  bestBid : Option ℚ
  bestAsk : Option ℚ
  spread : Option ℚ
  signalSource : String
  quoteTsMs : Option ℤ
  tsMs : ℤ
  deriving DecidableEq, Repr

/-- The table, where no two rows of equal ticks need to be told apart. -/
abbrev PriceTicks : Type := List PriceTick

/-- A row of `price_ticks`.  No query reads the id; here it stays with the row wherever the row is
written, so that of two inserts of equal ticks it can be said which one is there. -/
structure PriceTickRow : Type extends PriceTick where
  id : ℕ
  deriving DecidableEq, Repr

/-- `price_ticks`; `lastId` is what `AUTOINCREMENT` remembers of the table. -/
structure PriceTickTable : Type where
  rows : List PriceTickRow
  lastId : ℕ

namespace PriceTickTable

/-- The row that the next insert makes. -/
def nextRow (table : PriceTickTable) (tick : PriceTick) : PriceTickRow :=
  { tick with id := table.lastId + 1 }

def insertPriceTick (table : PriceTickTable) (tick : PriceTick) : PriceTickTable :=
  { rows := table.rows ++ [table.nextRow tick], lastId := table.lastId + 1 }

/-- `SELECT DISTINCT (ts_ms / 3600000) * 3600000 ... WHERE ts_ms < ? ORDER BY hour_start ASC`; the
integer division of SQLite truncates towards zero. -/
def listArchivableHours (table : PriceTickTable) (cutoffMs : ℤ) : List ℤ :=
  (((table.rows.filter fun t => t.tsMs < cutoffMs).map fun t => t.tsMs.tdiv hourMs * hourMs).dedup
    ).insertionSort (· ≤ ·)

/-- `SELECT ... WHERE ts_ms >= ? AND ts_ms < ? ORDER BY ts_ms ASC`. -/
def fetchPriceTicksBetween (table : PriceTickTable) (startMs endMs : ℤ) : List PriceTickRow :=
  (table.rows.filter fun t => startMs ≤ t.tsMs && t.tsMs < endMs).insertionSort fun a b =>
    a.tsMs ≤ b.tsMs

/-- `DELETE FROM price_ticks WHERE ts_ms < ?`. -/
def deletePriceTicksBefore (table : PriceTickTable) (cutoffMs : ℤ) : PriceTickTable :=
  { table with rows := table.rows.filter fun t => ¬ t.tsMs < cutoffMs }

variable {table : PriceTickTable} {tick : PriceTick} {t : PriceTickRow} {a b cutoffMs h : ℤ}

@[simp] theorem mem_insertPriceTick :
    t ∈ (table.insertPriceTick tick).rows ↔ t ∈ table.rows ∨ t = table.nextRow tick := by
  simp [insertPriceTick]

@[simp] theorem mem_fetchPriceTicksBetween :
    t ∈ table.fetchPriceTicksBetween a b ↔ t ∈ table.rows ∧ a ≤ t.tsMs ∧ t.tsMs < b := by
  simp [fetchPriceTicksBetween]

@[simp] theorem mem_deletePriceTicksBefore :
    t ∈ (table.deletePriceTicksBefore cutoffMs).rows ↔ t ∈ table.rows ∧ cutoffMs ≤ t.tsMs := by
  simp [deletePriceTicksBefore]

@[simp] theorem mem_listArchivableHours :
    h ∈ table.listArchivableHours cutoffMs ↔
      ∃ t ∈ table.rows, t.tsMs < cutoffMs ∧ t.tsMs.tdiv hourMs * hourMs = h := by
  simp [listArchivableHours, and_assoc]

end PriceTickTable

/-! ## Hours -/

/-- The start of the hour that contains `ms` (`//` of the source rounds down). -/
def hourStart (ms : ℤ) : ℤ := ms / hourMs * hourMs

theorem lt_hourStart_add (ms : ℤ) : ms < hourStart ms + hourMs := by
  simp only [hourStart, hourMs]
  omega

/-- On times that are not negative SQLite's hour is the hour of the source. -/
theorem tdiv_hourStart {ms : ℤ} (h : 0 ≤ ms) : ms.tdiv hourMs * hourMs = hourStart ms := by
  rw [hourStart, Int.tdiv_eq_ediv_of_nonneg h]

/-- The ticks of one hour are what `fetchPriceTicksBetween` returns for it. -/
theorem hourStart_eq_iff {ms h : ℤ} (hh : hourMs ∣ h) :
    hourStart ms = h ↔ h ≤ ms ∧ ms < h + hourMs := by
  obtain ⟨k, rfl⟩ := hh
  simp only [hourStart, hourMs]
  omega

theorem dvd_of_mem_listArchivableHours {table : PriceTickTable} {c h : ℤ}
    (hh : h ∈ table.listArchivableHours c) : hourMs ∣ h := by
  obtain ⟨t, -, -, rfl⟩ := PriceTickTable.mem_listArchivableHours.mp hh
  exact Int.dvd_mul_left _ _

end Sentinel.Storage
