import Sentinel.Storage.Archiver

/-!
# When the archiver loses nothing

`Kept s` says that the row of every insert so far is in the table or in the parquet file of its own
hour.  The archiver does not keep it: the delete cutoff is not aligned to hours, and a later export
of an hour overwrites its file with what is left of the hour.  `ArchivesSafely` is the condition on
a step under which it does.

The invariant behind `archive_keeps`: up to the final delete nothing leaves the table, so an hour
that was complete when it was fetched is complete in the rows about to be written.
-/

namespace Sentinel.Storage

open Logic

/-! ## Rows -/

/-- The inserts are numbered through. -/
def Numbered (s : ArchiveState) : Prop :=
  s.inserted.map PriceTickRow.id = List.range' 1 s.disk.priceTicks.lastId

theorem advance_inserted (cfg : StorageConfig) (s : ArchiveState) :
    (advance cfg s).inserted = s.inserted ∧
      (advance cfg s).disk.priceTicks.lastId = s.disk.priceTicks.lastId := by
  obtain ⟨d, phase, clock, inserted⟩ := s
  cases phase with
  | fetch nowMs hs =>
    cases hs with
    | nil => exact ⟨rfl, rfl⟩
    | cons hour hs =>
      unfold advance
      dsimp only
      split <;> exact ⟨rfl, rfl⟩
  | _ => exact ⟨rfl, rfl⟩

theorem Numbered.step {cfg : StorageConfig} {s : ArchiveState} (h : Numbered s) (e : ArchiveEvent) :
    Numbered (archiveStep cfg s e) := by
  cases e with
  | insertPriceTick tick =>
    unfold Numbered archiveStep PriceTickTable.insertPriceTick
    rw [List.map_append, h, List.range'_concat]
    simp [PriceTickTable.nextRow, Nat.add_comm]
  | fail => exact h
  | archiveOnce nowMs =>
    simp only [archiveStep]
    split
    · split_ifs <;> exact h
    · exact h
  | advance =>
    obtain ⟨hinserted, hlast⟩ := advance_inserted cfg s
    show (advance cfg s).inserted.map _ = List.range' 1 (advance cfg s).disk.priceTicks.lastId
    rw [hinserted, hlast]
    exact h

/-- No two inserts have one row. -/
theorem Numbered.nodup {s : ArchiveState} (h : Numbered s) : s.inserted.Nodup := by
  refine List.Nodup.of_map PriceTickRow.id ?_
  rw [h]
  exact List.nodup_range'

/-! ## What is lost -/

def InFile (d : Disk) (t : PriceTickRow) : Prop :=
  ∃ rows, d.parquet (hourStart t.tsMs) = some rows ∧ t ∈ rows

/-- No insert so far is lost: its row is in the table or in the file. -/
def Kept (s : ArchiveState) : Prop :=
  ∀ t ∈ s.inserted, t ∈ s.disk.priceTicks.rows ∨ InFile s.disk t

/-- Every row of every file of `d` is still in that file of `d'`. -/
def FilesKept (d d' : Disk) : Prop :=
  ∀ h rows, d.parquet h = some rows → ∃ rows', d'.parquet h = some rows' ∧ rows ⊆ rows'

/-- The hours the call under way still has to fetch, with its clock value. -/
def Phase.pending : Phase → Option (ℤ × List ℤ)
  | .idle | .list _ => none
  | .fetch nowMs hourStarts | .write nowMs _ _ hourStarts | .snapshot nowMs hourStarts =>
    some (nowMs, hourStarts)

/-- No tick of the hour has left the table. -/
def HourIntact (s : ArchiveState) (h : ℤ) : Prop :=
  ∀ t ∈ s.inserted, hourStart t.tsMs = h → t ∈ s.disk.priceTicks.rows

/-- The step is one of those under which the archiver loses nothing:
* a tick inserted during a call and older than its delete cutoff is of an hour still to be fetched;
* when the hours are listed, every row before 1970 and older than the cutoff has its hour listed;
* when an hour is fetched that still has rows, none of its rows has been deleted before. -/
def ArchivesSafely (cfg : StorageConfig) (s : ArchiveState) : ArchiveEvent → Prop
  | .insertPriceTick tick => ∀ p ∈ s.phase.pending,
    tick.tsMs < retentionCutoff cfg p.1 → hourStart tick.tsMs ∈ p.2
  | .advance =>
    match s.phase with
    | .list nowMs => ∀ t ∈ s.disk.priceTicks.rows, t.tsMs < retentionCutoff cfg nowMs → t.tsMs < 0 →
      hourStart t.tsMs ∈ s.disk.priceTicks.listArchivableHours (currentHourStart nowMs)
    | .fetch _ (h :: _) => (∃ t ∈ s.disk.priceTicks.rows, hourStart t.tsMs = h) → HourIntact s h
    | _ => True
  | _ => True

instance (s : ArchiveState) (h : ℤ) : Decidable (HourIntact s h) :=
  inferInstanceAs (Decidable (∀ t ∈ s.inserted, hourStart t.tsMs = h → t ∈ s.disk.priceTicks.rows))

instance (cfg : StorageConfig) : (s : ArchiveState) → (e : ArchiveEvent) →
    Decidable (ArchivesSafely cfg s e)
  | s, .insertPriceTick tick => inferInstanceAs (Decidable (∀ p ∈ s.phase.pending,
      tick.tsMs < retentionCutoff cfg p.1 → hourStart tick.tsMs ∈ p.2))
  | ⟨d, .list nowMs, _, _⟩, .advance => inferInstanceAs (Decidable (∀ t ∈ d.priceTicks.rows,
      t.tsMs < retentionCutoff cfg nowMs → t.tsMs < 0 →
      hourStart t.tsMs ∈ d.priceTicks.listArchivableHours (currentHourStart nowMs)))
  | ⟨d, .fetch nowMs (h :: hs), c, ins⟩, .advance => inferInstanceAs (Decidable
      ((∃ t ∈ d.priceTicks.rows, hourStart t.tsMs = h) → HourIntact ⟨d, .fetch nowMs (h :: hs), c, ins⟩ h))
  | ⟨_, .idle, _, _⟩, .advance | ⟨_, .fetch _ [], _, _⟩, .advance
  | ⟨_, .write .., _, _⟩, .advance | ⟨_, .snapshot .., _, _⟩, .advance => isTrue trivial
  | _, .archiveOnce _ | _, .fail => isTrue trivial

/-! ## The invariant -/

/-- The rows held between the fetch of an hour and its write. -/
structure Fetched (s : ArchiveState) (h : ℤ) (rows : List PriceTickRow) : Prop where
  sound : ∀ t ∈ rows, t ∈ s.inserted ∧ hourStart t.tsMs = h
  intact : HourIntact s h
  filed : ∀ old, s.disk.parquet h = some old → old ⊆ rows

/-- Every row the call is going to delete is in its file, or its hour is still to be written. -/
def Covered (cfg : StorageConfig) (s : ArchiveState) (nowMs : ℤ) (hourStarts : List ℤ)
    (rows : List PriceTickRow) : Prop :=
  ∀ t ∈ s.disk.priceTicks.rows, t.tsMs < retentionCutoff cfg nowMs →
    hourStart t.tsMs ∈ hourStarts ∨ InFile s.disk t ∨ t ∈ rows

def PhaseInv (cfg : StorageConfig) (s : ArchiveState) : Prop :=
  match s.phase with
  | .idle | .list _ => True
  | .fetch nowMs hourStarts | .snapshot nowMs hourStarts =>
    (∀ h ∈ hourStarts, hourMs ∣ h) ∧ Covered cfg s nowMs hourStarts []
  | .write nowMs h rows hourStarts =>
    (∀ h ∈ hourStarts, hourMs ∣ h) ∧ Fetched s h rows ∧ Covered cfg s nowMs hourStarts rows

structure ArchiveInv (cfg : StorageConfig) (s : ArchiveState) : Prop where
  numbered : Numbered s
  kept : Kept s
  stored : ∀ t ∈ s.disk.priceTicks.rows, t ∈ s.inserted
  filed : ∀ h rows, s.disk.parquet h = some rows → ∀ t ∈ rows, t ∈ s.inserted ∧ hourStart t.tsMs = h
  phase : PhaseInv cfg s

section Preservation

variable {cfg : StorageConfig} {s : ArchiveState}

theorem inv_insert (hi : ArchiveInv cfg s) (tick : PriceTick)
    (hsafe : ArchivesSafely cfg s (.insertPriceTick tick)) :
    ArchiveInv cfg (archiveStep cfg s (.insertPriceTick tick)) := by
  have hcov : ∀ nowMs hourStarts rows, s.phase.pending = some (nowMs, hourStarts) →
      Covered cfg s nowMs hourStarts rows →
      Covered cfg (archiveStep cfg s (.insertPriceTick tick)) nowMs hourStarts rows := by
    intro nowMs hourStarts rows hp hc t ht hlt
    rcases PriceTickTable.mem_insertPriceTick.mp ht with ht | rfl
    · exact hc t ht hlt
    · exact Or.inl (hsafe _ hp hlt)
  refine ⟨hi.numbered.step _, ?_, ?_, ?_, ?_⟩
  · intro t ht
    rcases List.mem_append.mp ht with ht | ht
    · exact (hi.kept t ht).imp_left fun h => PriceTickTable.mem_insertPriceTick.mpr (Or.inl h)
    · exact Or.inl (PriceTickTable.mem_insertPriceTick.mpr (Or.inr (List.mem_singleton.mp ht)))
  · intro t ht
    rcases PriceTickTable.mem_insertPriceTick.mp ht with ht | rfl
    · exact List.mem_append_left _ (hi.stored t ht)
    · exact List.mem_append_right _ (List.mem_singleton.mpr rfl)
  · intro h rows hr t ht
    obtain ⟨h1, h2⟩ := hi.filed h rows hr t ht
    exact ⟨List.mem_append_left _ h1, h2⟩
  · have hphase := hi.phase
    obtain ⟨d, phase, c, ins⟩ := s
    cases phase with
    | idle => trivial
    | list nowMs => trivial
    | fetch nowMs hourStarts => exact ⟨hphase.1, hcov _ _ _ rfl hphase.2⟩
    | snapshot nowMs hourStarts => exact ⟨hphase.1, hcov _ _ _ rfl hphase.2⟩
    | write nowMs h rows hourStarts =>
      obtain ⟨hdvd, hf, hc⟩ := hphase
      refine ⟨hdvd, ⟨?_, ?_, hf.filed⟩, hcov _ _ _ rfl hc⟩
      · intro t ht
        exact ⟨List.mem_append_left _ (hf.sound t ht).1, (hf.sound t ht).2⟩
      · intro t ht hh
        rcases List.mem_append.mp ht with ht | ht
        · exact PriceTickTable.mem_insertPriceTick.mpr (Or.inl (hf.intact t ht hh))
        · exact PriceTickTable.mem_insertPriceTick.mpr (Or.inr (List.mem_singleton.mp ht))

/-- Listing: with a retention of at least one hour every row older than the cutoff lies before the
current hour. -/
theorem covered_list (hret : 1 ≤ cfg.hotRetentionHours) {nowMs : ℤ} (hp : s.phase = .list nowMs)
    (hsafe : ArchivesSafely cfg s .advance) :
    Covered cfg s nowMs (s.disk.priceTicks.listArchivableHours (currentHourStart nowMs)) [] := by
  intro t ht hlt
  refine Or.inl ?_
  by_cases hneg : t.tsMs < 0
  · simp only [ArchivesSafely, hp] at hsafe
    exact hsafe t ht hlt hneg
  · refine PriceTickTable.mem_listArchivableHours.mpr ⟨t, ht, ?_, tdiv_hourStart (by omega)⟩
    have hcut : retentionCutoff cfg nowMs ≤ nowMs - hourMs := by
      have : hourMs ≤ cfg.hotRetentionHours * hourMs := by unfold hourMs; omega
      simp only [retentionCutoff]
      omega
    have hcur := lt_hourStart_add nowMs
    simp only [currentHourStart, hourStart] at hcur ⊢
    omega

/-- Fetching: the rows returned are the whole hour. -/
theorem fetched (hi : ArchiveInv cfg s) {h : ℤ} (hdvd : hourMs ∣ h) (hint : HourIntact s h) :
    Fetched s h (s.disk.priceTicks.fetchPriceTicksBetween h (h + hourMs)) := by
  refine ⟨?_, hint, ?_⟩
  · intro t ht
    obtain ⟨htab, hb⟩ := PriceTickTable.mem_fetchPriceTicksBetween.mp ht
    exact ⟨hi.stored t htab, (hourStart_eq_iff hdvd).mpr hb⟩
  · intro old hold t ht
    obtain ⟨hins, hh⟩ := hi.filed h old hold t ht
    exact PriceTickTable.mem_fetchPriceTicksBetween.mpr
      ⟨hint t hins hh, (hourStart_eq_iff hdvd).mp hh⟩

/-- Writing: a row in a file stays in a file. -/
theorem inFile_writeParquet {h : ℤ} {rows : List PriceTickRow} (hf : Fetched s h rows) {t : PriceTickRow}
    (ht : InFile s.disk t ∨ t ∈ rows) : InFile (writeParquet s.disk h rows) t := by
  by_cases hh : hourStart t.tsMs = h
  · refine ⟨rows, by simp [writeParquet, hh], ?_⟩
    rcases ht with ⟨old, hold, hmem⟩ | ht
    · exact hf.filed old (hh ▸ hold) hmem
    · exact ht
  · rcases ht with ⟨old, hold, hmem⟩ | ht
    · exact ⟨old, by simp [writeParquet, Function.update_of_ne hh, hold], hmem⟩
    · exact absurd (hf.sound t ht).2 hh

theorem filesKept_writeParquet {h : ℤ} {rows : List PriceTickRow} (hf : Fetched s h rows) :
    FilesKept s.disk (writeParquet s.disk h rows) := by
  intro h' old hold
  by_cases hh : h' = h
  · subst hh
    exact ⟨rows, by simp [writeParquet], hf.filed old hold⟩
  · exact ⟨old, by simp [writeParquet, Function.update_of_ne hh, hold], List.Subset.refl _⟩

theorem inv_advance (hret : 1 ≤ cfg.hotRetentionHours) (hi : ArchiveInv cfg s)
    (hsafe : ArchivesSafely cfg s .advance) : ArchiveInv cfg (advance cfg s) := by
  have hphase := hi.phase
  have hnumbered : Numbered (advance cfg s) := hi.numbered.step .advance
  obtain ⟨d, phase, c, ins⟩ := s
  cases phase with
  | idle => exact hi
  | list nowMs =>
    have hcov := covered_list hret (s := ⟨d, .list nowMs, c, ins⟩) rfl hsafe
    exact ⟨hnumbered, hi.kept, hi.stored, hi.filed, fun h hh => dvd_of_mem_listArchivableHours hh, hcov⟩
  | snapshot nowMs hourStarts => exact ⟨hnumbered, hi.kept, hi.stored, hi.filed, hphase⟩
  | write nowMs h rows hourStarts =>
    obtain ⟨hdvd, hf, hc⟩ := hphase
    refine ⟨hnumbered, ?_, hi.stored, ?_, hdvd, ?_⟩
    · intro t ht
      exact (hi.kept t ht).imp_right fun h' => inFile_writeParquet hf (Or.inl h')
    · intro h' rows' hr t ht
      by_cases hh : h' = h
      · subst hh
        simp only [advance, writeParquet, Function.update_self, Option.some.injEq] at hr
        subst hr
        exact hf.sound t ht
      · simp only [advance, writeParquet, Function.update_of_ne hh] at hr
        exact hi.filed h' rows' hr t ht
    · intro t ht hlt
      rcases hc t ht hlt with h1 | h1
      · exact Or.inl h1
      · exact Or.inr (Or.inl (inFile_writeParquet hf h1))
  | fetch nowMs hourStarts =>
    obtain ⟨hdvd, hc⟩ := hphase
    cases hourStarts with
    | nil =>
      refine ⟨hnumbered, ?_, ?_, hi.filed, trivial⟩
      · -- a row that is deleted is covered, and no hour is left to be written
        intro t ht
        rcases hi.kept t ht with htab | hfile
        · by_cases hlt : t.tsMs < retentionCutoff cfg nowMs
          · rcases hc t htab hlt with h1 | h1 | h1
            · simp at h1
            · exact Or.inr h1
            · simp at h1
          · exact Or.inl (PriceTickTable.mem_deletePriceTicksBefore.mpr ⟨htab, by omega⟩)
        · exact Or.inr hfile
      · intro t ht
        exact hi.stored t (PriceTickTable.mem_deletePriceTicksBefore.mp ht).1
    | cons h hourStarts =>
      have hdvdh : hourMs ∣ h := hdvd h (List.mem_cons_self ..)
      have hdvd' : ∀ h' ∈ hourStarts, hourMs ∣ h' := fun h' hh => hdvd h' (List.mem_cons_of_mem _ hh)
      have hmem : ∀ t ∈ d.priceTicks.rows, hourStart t.tsMs = h →
          t ∈ d.priceTicks.fetchPriceTicksBetween h (h + hourMs) := fun t ht hh =>
        PriceTickTable.mem_fetchPriceTicksBetween.mpr ⟨ht, (hourStart_eq_iff hdvdh).mp hh⟩
      have hcov : Covered cfg ⟨d, .fetch nowMs (h :: hourStarts), c, ins⟩ nowMs hourStarts
          (d.priceTicks.fetchPriceTicksBetween h (h + hourMs)) := by
        intro t ht hlt
        rcases hc t ht hlt with h1 | h1 | h1
        · rcases List.mem_cons.mp h1 with h2 | h2
          · exact Or.inr (Or.inr (hmem t ht h2))
          · exact Or.inl h2
        · exact Or.inr (Or.inl h1)
        · simp at h1
      cases hrows : d.priceTicks.fetchPriceTicksBetween h (h + hourMs) with
      | nil =>
        rw [hrows] at hcov
        simp only [advance, hrows] at hnumbered ⊢
        exact ⟨hnumbered, hi.kept, hi.stored, hi.filed, hdvd', hcov⟩
      | cons row rows =>
        have hne : ∃ t ∈ d.priceTicks.rows, hourStart t.tsMs = h := by
          have hrow : row ∈ d.priceTicks.fetchPriceTicksBetween h (h + hourMs) := by simp [hrows]
          obtain ⟨h1, h2⟩ := PriceTickTable.mem_fetchPriceTicksBetween.mp hrow
          exact ⟨row, h1, (hourStart_eq_iff hdvdh).mpr h2⟩
        have hf := fetched hi hdvdh (hsafe hne)
        simp only [hrows] at hf hcov
        simp only [advance, hrows] at hnumbered ⊢
        exact ⟨hnumbered, hi.kept, hi.stored, hi.filed, hdvd', ⟨hf.sound, hf.intact, hf.filed⟩, hcov⟩

theorem inv_step (hret : 1 ≤ cfg.hotRetentionHours) (hi : ArchiveInv cfg s) (e : ArchiveEvent)
    (hsafe : ArchivesSafely cfg s e) : ArchiveInv cfg (archiveStep cfg s e) := by
  cases e with
  | insertPriceTick tick => exact inv_insert hi tick hsafe
  | advance => exact inv_advance hret hi hsafe
  | fail => exact ⟨hi.numbered, hi.kept, hi.stored, hi.filed, trivial⟩
  | archiveOnce nowMs =>
    simp only [archiveStep]
    split
    · split_ifs
      · exact ⟨hi.numbered, hi.kept, hi.stored, hi.filed, trivial⟩
      · exact hi
    · exact hi

theorem inv_reach (hret : 1 ≤ cfg.hotRetentionHours)
    (h : Reach (archiveStep cfg) emptyArchive (ArchivesSafely cfg) s) : ArchiveInv cfg s := by
  refine h.invariant ⟨rfl, ?_, ?_, ?_, trivial⟩ fun s e _ hsafe hi => inv_step hret hi e hsafe
  · intro t ht
    simp [emptyArchive] at ht
  · intro t ht
    simp [emptyArchive] at ht
  · intro h rows hr
    simp [emptyArchive] at hr

theorem filesKept_step (hi : ArchiveInv cfg s) (e : ArchiveEvent) :
    FilesKept s.disk (archiveStep cfg s e).disk := by
  have hrefl : FilesKept s.disk s.disk := fun h rows hr => ⟨rows, hr, List.Subset.refl _⟩
  have hphase := hi.phase
  obtain ⟨d, phase, c, ins⟩ := s
  cases e with
  | insertPriceTick tick => exact hrefl
  | fail => exact hrefl
  | archiveOnce nowMs =>
    simp only [archiveStep]
    split
    · split_ifs <;> exact hrefl
    · exact hrefl
  | advance =>
    cases phase with
    | idle => exact hrefl
    | list nowMs => exact hrefl
    | snapshot nowMs hourStarts => exact hrefl
    | write nowMs h rows hourStarts => exact filesKept_writeParquet hphase.2.1
    | fetch nowMs hourStarts =>
      cases hourStarts with
      | nil => exact hrefl
      | cons h hourStarts =>
        simp only [archiveStep, advance]
        split <;> exact hrefl

end Preservation

/-! ## The result -/

/-- Along a run of safe steps no insert is lost and no export drops rows of an earlier one. -/
theorem archive_keeps {cfg : StorageConfig} (hret : 1 ≤ cfg.hotRetentionHours) {s : ArchiveState}
    (h : Reach (archiveStep cfg) emptyArchive (ArchivesSafely cfg) s) :
    Kept s ∧ ∀ e, FilesKept s.disk (archiveStep cfg s e).disk :=
  ⟨(inv_reach hret h).kept, filesKept_step (inv_reach hret h)⟩

/-- A price tick of one market at the given time. -/
def tickAt (tsMs : ℤ) : PriceTick :=
  ⟨"asset-1", "market-slug", 11/20, some (27/50), some (14/25), some (1/50), "midpoint_book",
    some tsMs, tsMs⟩

/-- The row of an insert of it. -/
def rowAt (tsMs : ℤ) (id : ℕ) : PriceTickRow := { tickAt tsMs with id := id }

/-- Two ticks of the first hour, at 00:10 and 00:50, archived at 01:20. -/
def firstExport : List ArchiveEvent :=
  [.insertPriceTick (tickAt 600000), .insertPriceTick (tickAt 3000000), .archiveOnce 4800000,
    .advance, .advance, .advance, .advance, .advance]

/-- The same hour archived again at 02:20: only the tick of 00:50 is left of it. -/
def secondExport : List ArchiveEvent :=
  firstExport ++ [.archiveOnce 8400000, .advance, .advance, .advance, .advance, .advance]

/-- The first of the two exports is safe. -/
theorem archive_keeps_first_export :
    Kept (firstExport.foldl (archiveStep ⟨1⟩) emptyArchive) ∧
      ∀ e, FilesKept (firstExport.foldl (archiveStep ⟨1⟩) emptyArchive).disk
        (archiveStep ⟨1⟩ (firstExport.foldl (archiveStep ⟨1⟩) emptyArchive) e).disk :=
  archive_keeps (by decide) (reach_of_allowed (by decide +kernel))

/-- A tick that is inserted again after it was deleted: to fetch its hour once more is not safe. -/
example : ¬ ArchivesSafely ⟨1⟩ (([.insertPriceTick (tickAt 600000), .archiveOnce 4800000, .advance,
    .advance, .advance, .advance, .advance, .insertPriceTick (tickAt 600000), .archiveOnce 8400000,
    .advance] : List ArchiveEvent).foldl (archiveStep ⟨1⟩) emptyArchive) .advance := by
  decide +kernel

/-- The second is not: the tick of 00:10 was deleted after the first, and the file written then is
overwritten. -/
theorem archive_loses_on_reexport :
    ¬ ∀ (cfg : StorageConfig) (s : ArchiveState), 1 ≤ cfg.hotRetentionHours →
      Reach (archiveStep cfg) emptyArchive Any s → s.phase = .idle → Kept s := by
  intro h
  have hkept := h ⟨1⟩ _ (by decide) (reach_foldl secondExport) rfl (rowAt 600000 1)
    (by decide +kernel)
  have htable : rowAt 600000 1 ∉
      (secondExport.foldl (archiveStep ⟨1⟩) emptyArchive).disk.priceTicks.rows := by decide +kernel
  have hfile : (secondExport.foldl (archiveStep ⟨1⟩) emptyArchive).disk.parquet 0 =
      some [rowAt 3000000 2] := by decide +kernel
  rcases hkept with hmem | ⟨rows, hrows, hmem⟩
  · exact htable hmem
  · have hrows' : some [rowAt 3000000 2] = some rows := hfile.symm.trans hrows
    obtain rfl := Option.some.inj hrows'
    exact absurd hmem (by decide +kernel)

end Sentinel.Storage
