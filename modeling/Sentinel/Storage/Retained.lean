import Sentinel.Storage.Retention

/-!
# What is retained, and what is swept

The calls of `prune_once` delete while alerts are raised and sent and the archiver writes.

* `Retains`: nothing that is not too old is missing, nor changed since it was last written.
* `OnlyWritten`: nothing is there that was not written.
* `Swept`: what is too old for a call and yet there was written after the call had begun.
* `RetentionInv`: the invariant; every step of the manager deletes only, and only what is too old.
* `retains_and_swept`: the first two hold all along every run, the third after every call that ends.
-/

namespace Sentinel.Storage

open Logic Contracts Processing Notifications

/-! ## What the manager is for -/

/-- Older than the retention; with a retention of no days nothing is. -/
def Stale (retentionDays nowMs tsMs : ℤ) : Prop :=
  0 < retentionDays ∧ tsMs < cutoffMs nowMs retentionDays

instance {retentionDays nowMs tsMs : ℤ} : Decidable (Stale retentionDays nowMs tsMs) :=
  inferInstanceAs (Decidable (_ ∧ _))

/-- Not too old for any of the calls. -/
def Fresh (retentionDays : ℤ) (readings : List ℤ) (tsMs : ℤ) : Prop :=
  ∀ nowMs ∈ readings, ¬ Stale retentionDays nowMs tsMs

instance {retentionDays tsMs : ℤ} {readings : List ℤ} : Decidable (Fresh retentionDays readings tsMs) :=
  inferInstanceAs (Decidable (∀ nowMs ∈ readings, _))

def freshRows (cfg : RetentionConfig) (readings : List ℤ) (rows : List ShiftEvent) : List ShiftEvent :=
  rows.filter fun row => Fresh cfg.shiftEventRetentionDays readings row.tsMs

def staleRows (cfg : RetentionConfig) (nowMs : ℤ) (rows : List ShiftEvent) : List ShiftEvent :=
  rows.filter fun row => Stale cfg.shiftEventRetentionDays nowMs row.tsMs

/-- The time of a file of an alert: that of the alert, but that of the last change if the name would
begin with a sign. -/
def AlertFile.timeMs (file : AlertFile) (timestampMs : ℤ) : ℤ :=
  if 0 ≤ timestampMs then timestampMs else file.mtimeMs

/-- The archiver writes a file of the hour to the path. -/
def ArchivesTo (hour : ℤ) (path : List FileName) : Prop :=
  parquetPath (hour * hourMs) = some path ∨ marketsPath (hour * hourMs) = some path

/-- What is not too old is there as it was last written, and no call has raised. -/
structure Retains (cfg : RetentionConfig) (s : RetentionState) : Prop where
  shiftEvents : freshRows cfg s.readings s.shiftEvents =
    freshRows cfg s.readings (s.inserted.map Prod.snd)
  alertFiles : ∀ timestampMs assetId,
    (∀ entry ∈ s.sent.get (timestampMs, assetId),
      Fresh cfg.jsonFileRetentionDays s.readings (entry.2.timeMs timestampMs)) →
    s.alertFiles.get (alertFileName timestampMs assetId) =
      (s.sent.get (timestampMs, assetId)).map Prod.snd
  archive : ∀ hour path, ArchivesTo hour path →
    Fresh cfg.archiveRetentionDays s.readings (hour * hourMs) →
    s.archive.contents.get path = (s.archived.get path).map Prod.snd
  raised : s.raised = []

/-- Nothing is there but what was written, and files only as they were last written. -/
structure OnlyWritten (s : RetentionState) : Prop where
  shiftEvents : s.shiftEvents.Sublist (s.inserted.map Prod.snd)
  alertFiles : ∀ name, ∀ file ∈ s.alertFiles.get name, ∃ timestampMs assetId,
    name = alertFileName timestampMs assetId ∧
      (s.sent.get (timestampMs, assetId)).map Prod.snd = some file
  archive : ∀ path, ∀ file ∈ s.archive.contents.get path,
    (∃ hour, ArchivesTo hour path) ∧ (s.archived.get path).map Prod.snd = some file

/-- What was last written was written after the call had begun. -/
def Since {α : Type} (call : ℕ) (last : Option (ℕ × α)) : Prop := ∃ entry ∈ last, call ≤ entry.1

/-- The rows that are too old for the call are among those inserted after it had begun. -/
def RowsSwept (cfg : RetentionConfig) (s : RetentionState) (call : ℕ) (nowMs : ℤ) : Prop :=
  (staleRows cfg nowMs s.shiftEvents).Sublist
    ((s.inserted.filter fun entry => call ≤ entry.1).map Prod.snd)

/-- So are the files of the alerts, but for those that are still to be looked at. -/
def AlertFilesSwept (cfg : RetentionConfig) (s : RetentionState) (call : ℕ) (nowMs : ℤ)
    (names : List FileName) : Prop :=
  ∀ timestampMs assetId, ∀ file ∈ s.alertFiles.get (alertFileName timestampMs assetId),
    Stale cfg.jsonFileRetentionDays nowMs (file.timeMs timestampMs) →
    alertFileName timestampMs assetId ∈ names ∨ Since call (s.sent.get (timestampMs, assetId))

def ArchiveSwept (cfg : RetentionConfig) (s : RetentionState) (call : ℕ) (nowMs : ℤ)
    (entries : List Entry) : Prop :=
  ∀ hour path, ArchivesTo hour path → Stale cfg.archiveRetentionDays nowMs (hour * hourMs) →
    (s.archive.contents.get path).isSome →
    ⟨path, .file⟩ ∈ entries ∨ Since call (s.archived.get path)

structure Swept (cfg : RetentionConfig) (s : RetentionState) (call : ℕ) (nowMs : ℤ) : Prop where
  shiftEvents : RowsSwept cfg s call nowMs
  alertFiles : AlertFilesSwept cfg s call nowMs []
  archive : ArchiveSwept cfg s call nowMs []

/-! ## The invariant -/

def RetentionPhase.nowMs : RetentionPhase → Option ℤ
  | .idle => none
  | .shiftEvents nowMs | .alertFiles nowMs | .alertFile nowMs _ | .archive nowMs
  | .archiveFile nowMs _ | .directory nowMs _ => some nowMs

/-- What the call under way has swept so far. -/
def PhaseSwept (cfg : RetentionConfig) (s : RetentionState) : Prop :=
  match s.phase with
  | .idle | .shiftEvents _ => True
  | .alertFiles nowMs => RowsSwept cfg s s.calls nowMs
  | .alertFile nowMs names => RowsSwept cfg s s.calls nowMs ∧
    AlertFilesSwept cfg s s.calls nowMs names ∧ 0 < cfg.jsonFileRetentionDays ∧
    ∀ name ∈ names, ∃ timestampMs assetId, name = alertFileName timestampMs assetId
  | .archive nowMs => RowsSwept cfg s s.calls nowMs ∧ AlertFilesSwept cfg s s.calls nowMs []
  | .archiveFile nowMs entries => RowsSwept cfg s s.calls nowMs ∧
    AlertFilesSwept cfg s s.calls nowMs [] ∧ ArchiveSwept cfg s s.calls nowMs entries ∧
    0 < cfg.archiveRetentionDays ∧
    ∀ entry ∈ entries, entry.kind = .file → ∃ hour, ArchivesTo hour entry.path
  | .directory nowMs _ => Swept cfg s s.calls nowMs

structure RetentionInv (cfg : RetentionConfig) (s : RetentionState) : Prop where
  retains : Retains cfg s
  written : OnlyWritten s
  reading : ∀ nowMs ∈ s.phase.nowMs, nowMs ∈ s.readings
  phase : PhaseSwept cfg s
  completed : ∀ entry ∈ s.completed, entry.1 ≤ s.calls ∧ Swept cfg s entry.1 entry.2

section Moves

variable {cfg : RetentionConfig} {s s' : RetentionState} {call : ℕ} {nowMs : ℤ}
  {names : List FileName} {entries : List Entry}

/-- Only the notifier writes files of alerts, and only the archiver those of the archive. -/
theorem RetentionInv.alertName (h : RetentionInv cfg s) {name : FileName}
    (hname : (s.alertFiles.get name).isSome) :
    ∃ timestampMs assetId, name = alertFileName timestampMs assetId := by
  obtain ⟨file, hfile⟩ := Option.isSome_iff_exists.mp hname
  obtain ⟨timestampMs, assetId, heq, -⟩ := h.written.alertFiles name file hfile
  exact ⟨timestampMs, assetId, heq⟩

theorem RetentionInv.archivePath (h : RetentionInv cfg s) {path : List FileName}
    (hthere : (s.archive.contents.get path).isSome) : ∃ hour, ArchivesTo hour path := by
  obtain ⟨file, hfile⟩ := Option.isSome_iff_exists.mp hthere
  exact (h.written.archive path file hfile).1

theorem freshRows_append (readings : List ℤ) (rows rows' : List ShiftEvent) :
    freshRows cfg readings (rows ++ rows') =
      freshRows cfg readings rows ++ freshRows cfg readings rows' := List.filter_append ..

theorem Fresh.before {days tsMs : ℤ} {readings later : List ℤ}
    (h : Fresh days (readings ++ later) tsMs) : Fresh days readings tsMs :=
  fun nowMs hmem => h nowMs (List.mem_append_left _ hmem)

/-- What is fresh later was fresh before. -/
theorem freshRows_later (readings later : List ℤ) (rows : List ShiftEvent) :
    freshRows cfg (readings ++ later) (freshRows cfg readings rows) =
      freshRows cfg (readings ++ later) rows := by
  unfold freshRows
  rw [List.filter_filter]
  refine List.filter_congr fun row _ => ?_
  by_cases h : Fresh cfg.shiftEventRetentionDays (readings ++ later) row.tsMs
  · simp [h, h.before]
  · simp [h]

theorem since_of_le {α : Type} {n : ℕ} (h : call ≤ n) (a : α) : Since call (some (n, a)) :=
  ⟨_, rfl, h⟩

/-- A step of another task, which leaves the calls alone. -/
theorem RetentionInv.frame (h : RetentionInv cfg s) (hretains : Retains cfg s')
    (hwritten : OnlyWritten s')
    (hphase : s'.phase = s.phase) (hreadings : s'.readings = s.readings)
    (hcompleted : s'.completed = s.completed)
    (hrows : ∀ call ≤ s.calls, ∀ nowMs, RowsSwept cfg s call nowMs → RowsSwept cfg s' call nowMs)
    (halerts : ∀ call ≤ s.calls, ∀ nowMs names, AlertFilesSwept cfg s call nowMs names →
      AlertFilesSwept cfg s' call nowMs names)
    (harchive : ∀ call ≤ s.calls, ∀ nowMs entries, ArchiveSwept cfg s call nowMs entries →
      ArchiveSwept cfg s' call nowMs entries) :
    RetentionInv cfg s' := by
  have hcalls : s'.calls = s.calls := congrArg List.length hreadings
  have hswept : ∀ call ≤ s.calls, ∀ nowMs, Swept cfg s call nowMs → Swept cfg s' call nowMs :=
    fun call hle nowMs hold => ⟨hrows call hle nowMs hold.shiftEvents,
      halerts call hle nowMs [] hold.alertFiles, harchive call hle nowMs [] hold.archive⟩
  refine ⟨hretains, hwritten, ?_, ?_, ?_⟩
  · rw [hphase, hreadings]
    exact h.reading
  · have hold := h.phase
    unfold PhaseSwept at hold ⊢
    rw [hphase, hcalls]
    split at hold
    · trivial
    · trivial
    · exact hrows _ le_rfl _ hold
    · exact ⟨hrows _ le_rfl _ hold.1, halerts _ le_rfl _ _ hold.2.1, hold.2.2⟩
    · exact ⟨hrows _ le_rfl _ hold.1, halerts _ le_rfl _ _ hold.2⟩
    · exact ⟨hrows _ le_rfl _ hold.1, halerts _ le_rfl _ _ hold.2.1, harchive _ le_rfl _ _ hold.2.2.1,
        hold.2.2.2⟩
    · exact hswept _ le_rfl _ hold
  · rw [hcompleted, hcalls]
    intro entry hdone
    obtain ⟨hle, hold⟩ := h.completed entry hdone
    exact ⟨hle, hswept _ hle _ hold⟩

end Moves

/-! ## Those who write -/

section Writers

variable {cfg : RetentionConfig} {s : RetentionState}

theorem retention_insertShiftEvent (h : RetentionInv cfg s) (row : ShiftEvent) : RetentionInv cfg
    { s with shiftEvents := s.shiftEvents ++ [row], inserted := s.inserted ++ [(s.calls, row)] } := by
  refine h.frame ⟨?_, h.retains.alertFiles, h.retains.archive, h.retains.raised⟩
    ⟨?_, h.written.alertFiles, h.written.archive⟩ rfl rfl rfl (fun call hle nowMs hold => ?_)
    (fun _ _ _ _ hold => hold) fun _ _ _ _ hold => hold
  · show freshRows cfg s.readings (s.shiftEvents ++ [row]) = _
    rw [List.map_append, freshRows_append, freshRows_append, h.retains.shiftEvents]
    rfl
  · dsimp only
    rw [List.map_append]
    exact h.written.shiftEvents.append (List.Sublist.refl [row])
  · unfold RowsSwept staleRows at hold ⊢
    rw [List.filter_append, List.filter_append, List.map_append]
    have hsince : (([(s.calls, row)].filter fun entry => call ≤ entry.1).map Prod.snd) = [row] := by
      simp [hle]
    rw [hsince]
    exact hold.append List.filter_sublist

theorem retention_send (py : Builtins) (takes : FileName → Bool) (h : RetentionInv cfg s)
    (alert : ShiftAlert) (mtimeMs : ℤ) : RetentionInv cfg (sendToFile py takes s alert mtimeMs) := by
  unfold sendToFile
  split
  · exact h
  · rename_i assetId hasset
    dsimp only
    split_ifs with htakes
    · -- the file and the entry of the alert are those of its time and asset, and of no other
      have hentry : ∀ timestampMs assetId', alertFileName timestampMs assetId' =
          alertFileName alert.timestampMs assetId ↔
            (timestampMs, assetId') = (alert.timestampMs, assetId) := by
        intro timestampMs assetId'
        constructor
        · intro heq
          obtain ⟨rfl, rfl⟩ := alertFileName_inj heq
          rfl
        · intro heq
          rw [(Prod.mk.inj heq).1, (Prod.mk.inj heq).2]
      refine h.frame ⟨h.retains.shiftEvents, ?_, h.retains.archive, h.retains.raised⟩
        ⟨h.written.shiftEvents, ?_, h.written.archive⟩ rfl rfl rfl (fun _ _ _ hold => hold)
        (fun call hle nowMs names hold => ?_) fun _ _ _ _ hold => hold
      · intro timestampMs assetId' hfresh
        dsimp only at hfresh ⊢
        rw [OrderedMap.get_set] at hfresh ⊢
        rw [OrderedMap.get_set]
        by_cases heq : (timestampMs, assetId') = (alert.timestampMs, assetId)
        · rw [if_pos ((hentry _ _).mpr heq), if_pos heq]
          rfl
        · rw [if_neg heq] at hfresh
          rw [if_neg fun hname => heq ((hentry _ _).mp hname), if_neg heq]
          exact h.retains.alertFiles timestampMs assetId' hfresh
      · intro name file hfile
        dsimp only at hfile ⊢
        rw [OrderedMap.get_set] at hfile
        split_ifs at hfile with hname
        · refine ⟨alert.timestampMs, assetId, hname, ?_⟩
          rw [OrderedMap.get_set, if_pos rfl]
          exact hfile
        · obtain ⟨timestampMs, assetId', rfl, hsent⟩ := h.written.alertFiles name file hfile
          refine ⟨timestampMs, assetId', rfl, ?_⟩
          rw [OrderedMap.get_set, if_neg fun heq => hname ((hentry _ _).mpr heq)]
          exact hsent
      · intro timestampMs assetId' file hfile hstale
        dsimp only at hfile ⊢
        rw [OrderedMap.get_set] at hfile ⊢
        by_cases heq : (timestampMs, assetId') = (alert.timestampMs, assetId)
        · rw [if_pos heq]
          exact .inr (since_of_le hle _)
        · rw [if_neg fun hname => heq ((hentry _ _).mp hname)] at hfile
          rw [if_neg heq]
          exact hold timestampMs assetId' file hfile hstale
    · exact h

theorem retention_mkdirs (h : RetentionInv cfg s) (path : List FileName) :
    RetentionInv cfg { s with archive := s.archive.mkdirs path } :=
  h.frame ⟨h.retains.shiftEvents, h.retains.alertFiles, h.retains.archive, h.retains.raised⟩
    ⟨h.written.shiftEvents, h.written.alertFiles, h.written.archive⟩ rfl rfl rfl
    (fun _ _ _ hold => hold) (fun _ _ _ _ hold => hold) fun _ _ _ _ hold => hold

theorem contents_write {archive archive' : Archive} {path : List FileName} {file : ArchiveFile}
    (h : archive.write path file = some archive') :
    archive'.contents = archive.contents.set path file := by
  unfold Archive.write at h
  obtain ⟨-, heq⟩ := Option.ite_none_right_eq_some.mp h
  rw [← Option.some.inj heq]

theorem ArchiveFile.archivesTo {file : ArchiveFile} {hour : ℤ} {path : List FileName}
    (h : file.path (hour * hourMs) = some path) : ArchivesTo hour path := by
  cases file with
  | parquet rows => exact .inl h
  | markets payload => exact .inr h

theorem retention_writeArchive (h : RetentionInv cfg s) {file : ArchiveFile} {hour : ℤ}
    {path : List FileName} (hpath : file.path (hour * hourMs) = some path) {archive : Archive}
    (hwrite : s.archive.write path file = some archive) : RetentionInv cfg
    { s with archive := archive, archived := s.archived.set path (s.calls, file) } := by
  have hcontents := contents_write hwrite
  refine h.frame ⟨h.retains.shiftEvents, h.retains.alertFiles, fun hour' path' hpath' hfresh => ?_,
    h.retains.raised⟩ ⟨h.written.shiftEvents, h.written.alertFiles, fun path' file' hthere => ?_⟩
    rfl rfl rfl (fun _ _ _ hold => hold) (fun _ _ _ _ hold => hold)
    fun call hle nowMs entries hold hour' path' hpath' hstale hthere => ?_
  · dsimp only
    rw [hcontents, OrderedMap.get_set, OrderedMap.get_set]
    split_ifs
    · rfl
    · exact h.retains.archive hour' path' hpath' hfresh
  · dsimp only at hthere ⊢
    rw [hcontents, OrderedMap.get_set] at hthere
    rw [OrderedMap.get_set]
    split_ifs at hthere ⊢ with heq
    · rw [heq]
      exact ⟨⟨hour, ArchiveFile.archivesTo hpath⟩, hthere⟩
    · exact h.written.archive path' file' hthere
  · dsimp only at hthere ⊢
    rw [hcontents, OrderedMap.get_set] at hthere
    rw [OrderedMap.get_set]
    split_ifs at hthere ⊢
    · exact .inr (since_of_le hle _)
    · exact hold hour' path' hpath' hstale hthere

end Writers

/-! ## The call -/

section Call

variable {u : Unicode} {cfg : RetentionConfig} {s s' : RetentionState} {call : ℕ} {nowMs : ℤ}

theorem retention_pruneOnce (h : RetentionInv cfg s) (nowMs : ℤ) :
    RetentionInv cfg { s with phase := .shiftEvents nowMs, readings := s.readings ++ [nowMs] } := by
  refine ⟨⟨?_, fun timestampMs assetId hfresh => ?_, fun hour path hpath hfresh => ?_,
    h.retains.raised⟩, ⟨h.written.shiftEvents, h.written.alertFiles, h.written.archive⟩,
    fun now hnow => ?_, trivial, fun entry hdone => ?_⟩
  · show freshRows cfg (s.readings ++ [nowMs]) s.shiftEvents =
      freshRows cfg (s.readings ++ [nowMs]) (s.inserted.map Prod.snd)
    rw [← freshRows_later, h.retains.shiftEvents, freshRows_later]
  · exact h.retains.alertFiles timestampMs assetId fun entry hsent => (hfresh entry hsent).before
  · exact h.retains.archive hour path hpath hfresh.before
  · rw [← Option.some.inj hnow]
    exact List.mem_append_right _ (List.mem_singleton.mpr rfl)
  · obtain ⟨hle, hswept⟩ := h.completed entry hdone
    refine ⟨hle.trans ?_, hswept.shiftEvents, hswept.alertFiles, hswept.archive⟩
    simp [RetentionState.calls]

/-- A step of the call deletes, and writes nothing. -/
structure DeletesOnly (s s' : RetentionState) : Prop where
  shiftEvents : s'.shiftEvents.Sublist s.shiftEvents
  alertFiles : ∀ name, (s'.alertFiles.get name).isSome → s'.alertFiles.get name = s.alertFiles.get name
  archive : ∀ path, (s'.archive.contents.get path).isSome →
    s'.archive.contents.get path = s.archive.contents.get path
  inserted : s'.inserted = s.inserted
  sent : s'.sent = s.sent
  archived : s'.archived = s.archived
  readings : s'.readings = s.readings

theorem DeletesOnly.rows (h : DeletesOnly s s') (hold : RowsSwept cfg s call nowMs) :
    RowsSwept cfg s' call nowMs := by
  unfold RowsSwept staleRows at hold ⊢
  rw [h.inserted]
  exact (h.shiftEvents.filter _).trans hold

theorem DeletesOnly.alerts (h : DeletesOnly s s') {names : List FileName}
    (hold : AlertFilesSwept cfg s call nowMs names) : AlertFilesSwept cfg s' call nowMs names := by
  intro timestampMs assetId file hfile hstale
  rw [h.alertFiles _ (Option.isSome_of_mem hfile)] at hfile
  rw [h.sent]
  exact hold timestampMs assetId file hfile hstale

theorem DeletesOnly.archives (h : DeletesOnly s s') {entries : List Entry}
    (hold : ArchiveSwept cfg s call nowMs entries) : ArchiveSwept cfg s' call nowMs entries := by
  intro hour path hpath hstale hthere
  rw [h.archive path hthere] at hthere
  rw [h.archived]
  exact hold hour path hpath hstale hthere

theorem DeletesOnly.swept (h : DeletesOnly s s') (hold : Swept cfg s call nowMs) :
    Swept cfg s' call nowMs :=
  ⟨h.rows hold.shiftEvents, h.alerts hold.alertFiles, h.archives hold.archive⟩

theorem DeletesOnly.written (h : DeletesOnly s s') (hold : OnlyWritten s) : OnlyWritten s' := by
  refine ⟨?_, fun name file hfile => ?_, fun path file hfile => ?_⟩
  · rw [h.inserted]
    exact h.shiftEvents.trans hold.shiftEvents
  · rw [h.alertFiles name (Option.isSome_of_mem hfile)] at hfile
    rw [h.sent]
    exact hold.alertFiles name file hfile
  · rw [h.archive path (Option.isSome_of_mem hfile)] at hfile
    rw [h.archived]
    exact hold.archive path file hfile

theorem RetentionInv.deletes (h : RetentionInv cfg s) (hdeletes : DeletesOnly s s')
    (hretains : Retains cfg s') (hreading : ∀ nowMs ∈ s'.phase.nowMs, nowMs ∈ s.readings)
    (hphase : PhaseSwept cfg s')
    (hcompleted : s'.completed = s.completed ∨ ∃ nowMs,
      s'.completed = s.completed ++ [(s.calls, nowMs)] ∧ Swept cfg s s.calls nowMs) :
    RetentionInv cfg s' := by
  have hcalls : s'.calls = s.calls := congrArg List.length hdeletes.readings
  refine ⟨hretains, hdeletes.written h.written, fun now hnow => ?_, hphase, fun entry hdone => ?_⟩
  · rw [hdeletes.readings]
    exact hreading now hnow
  · rw [hcalls]
    rcases hcompleted with hsame | ⟨nowMs, hnew, hswept⟩
    · rw [hsame] at hdone
      obtain ⟨hle, hold⟩ := h.completed entry hdone
      exact ⟨hle, hdeletes.swept hold⟩
    · rw [hnew] at hdone
      rcases List.mem_append.mp hdone with hdone | hdone
      · obtain ⟨hle, hold⟩ := h.completed entry hdone
        exact ⟨hle, hdeletes.swept hold⟩
      · rw [List.mem_singleton.mp hdone]
        exact ⟨le_rfl, hdeletes.swept hswept⟩

/-- A step that only moves the call on. -/
theorem deletesOnly_phase (s : RetentionState) (phase : RetentionPhase) (completed : List (ℕ × ℤ)) :
    DeletesOnly s { s with phase := phase, completed := completed } :=
  ⟨List.Sublist.refl _, fun _ _ => rfl, fun _ _ => rfl, rfl, rfl, rfl, rfl⟩

theorem Retains.of_phase (h : Retains cfg s) (phase : RetentionPhase) (completed : List (ℕ × ℤ)) :
    Retains cfg { s with phase := phase, completed := completed } :=
  ⟨h.shiftEvents, h.alertFiles, h.archive, h.raised⟩

theorem RetentionInv.moves (h : RetentionInv cfg s) {phase : RetentionPhase}
    (hreading : ∀ nowMs ∈ phase.nowMs, nowMs ∈ s.readings)
    (hphase : PhaseSwept cfg { s with phase := phase }) : RetentionInv cfg { s with phase := phase } :=
  h.deletes (deletesOnly_phase s phase s.completed) (h.retains.of_phase phase s.completed)
    hreading hphase (.inl rfl)

theorem retention_fail (h : RetentionInv cfg s) : RetentionInv cfg { s with phase := .idle } :=
  h.moves (fun _ hnow => by cases hnow) trivial

/-- The call ends. -/
theorem RetentionInv.ends (h : RetentionInv cfg s) (hswept : Swept cfg s s.calls nowMs) :
    RetentionInv cfg { s with phase := .idle, completed := s.completed ++ [(s.calls, nowMs)] } :=
  h.deletes (deletesOnly_phase s _ _) (h.retains.of_phase _ _) (fun _ hnow => by cases hnow) trivial
    (.inr ⟨_, rfl, hswept⟩)

theorem not_stale_of_nonpos {days tsMs : ℤ} (h : ¬ 0 < days) : ¬ Stale days nowMs tsMs :=
  fun hstale => h hstale.1

/-- The clock of the call under way has been read. -/
theorem RetentionInv.clock (h : RetentionInv cfg s) (hnow : s.phase.nowMs = some nowMs) :
    ∀ now ∈ some nowMs, now ∈ s.readings := by
  rw [← hnow]
  exact h.reading

theorem retention_shiftEvents (h : RetentionInv cfg s) (hphase : s.phase = .shiftEvents nowMs) :
    RetentionInv cfg (pruneNext u cfg s) := by
  have hreading := h.clock (congrArg RetentionPhase.nowMs hphase)
  have hmem : nowMs ∈ s.readings := hreading nowMs rfl
  unfold pruneNext
  rw [hphase]
  dsimp only
  split_ifs with hdays
  · refine h.deletes ⟨List.filter_sublist, fun _ _ => rfl, fun _ _ => rfl, rfl, rfl,
      rfl, rfl⟩ ⟨?_, h.retains.alertFiles, h.retains.archive, h.retains.raised⟩ hreading ?_ (.inl rfl)
    · rw [← h.retains.shiftEvents]
      unfold freshRows
      rw [List.filter_filter]
      refine List.filter_congr fun row _ => ?_
      by_cases hfresh : Fresh cfg.shiftEventRetentionDays s.readings row.tsMs
      · have hold : ¬ row.tsMs < cutoffMs nowMs cfg.shiftEventRetentionDays := fun hlt =>
          hfresh nowMs hmem ⟨hdays, hlt⟩
        simp [hfresh, hold]
      · simp [hfresh]
    · show (staleRows cfg nowMs _).Sublist _
      have hnone : staleRows cfg nowMs (s.shiftEvents.filter fun row =>
          ¬ row.tsMs < cutoffMs nowMs cfg.shiftEventRetentionDays) = [] := by
        rw [staleRows, List.filter_eq_nil_iff]
        intro row hrow
        have hkept := of_decide_eq_true (List.mem_filter.mp hrow).2
        rw [decide_eq_true_eq]
        exact fun hstale => hkept hstale.2
      dsimp only
      rw [hnone]
      exact List.nil_sublist _
  · refine h.moves hreading ?_
    show (staleRows cfg nowMs s.shiftEvents).Sublist _
    have hnone : staleRows cfg nowMs s.shiftEvents = [] := by
      rw [staleRows, List.filter_eq_nil_iff]
      intro row _
      rw [decide_eq_true_eq]
      exact not_stale_of_nonpos hdays
    rw [hnone]
    exact List.nil_sublist _

theorem retention_alertFiles (h : RetentionInv cfg s) (hphase : s.phase = .alertFiles nowMs) :
    RetentionInv cfg (pruneNext u cfg s) := by
  have hreading := h.clock (congrArg RetentionPhase.nowMs hphase)
  have hrows : RowsSwept cfg s s.calls nowMs := by
    have hold := h.phase
    unfold PhaseSwept at hold
    rw [hphase] at hold
    exact hold
  unfold pruneNext
  rw [hphase]
  dsimp only
  split_ifs with hdays
  · refine h.moves hreading ⟨hrows, fun timestampMs assetId file hfile _ => .inl ?_, hdays,
      fun name hname => ?_⟩
    · exact List.mem_filter.mpr ⟨OrderedMap.mem_keys_iff.mpr (Option.isSome_of_mem hfile),
        jsonSuffix_suffix timestampMs assetId⟩
    · exact h.alertName (OrderedMap.mem_keys_iff.mp (List.mem_filter.mp hname).1)
  · exact h.moves hreading ⟨hrows, fun _ _ _ _ hstale => absurd hstale (not_stale_of_nonpos hdays)⟩

/-- The manager reads the time of a file that the notifier wrote. -/
theorem parse_isOk (hminus : u.isDigit '-' = false) (timestampMs : ℤ) (assetId : List Char)
    (file : Option AlertFile) :
    ∃ fileTsMs, parseAlertTsMs u (alertFileName timestampMs assetId) (file.map AlertFile.mtimeMs) =
      .ok fileTsMs ∧ ∀ f ∈ file, fileTsMs = some (f.timeMs timestampMs) := by
  by_cases hpos : 0 ≤ timestampMs
  · refine ⟨_, parse_alertFileName u hpos assetId _, fun f _ => ?_⟩
    rw [AlertFile.timeMs, if_pos hpos]
  · refine ⟨_, parse_alertFileName_of_neg hminus (by omega) assetId _, fun f hf => ?_⟩
    rw [AlertFile.timeMs, if_neg hpos, hf]
    rfl

theorem retention_alertFile (hminus : u.isDigit '-' = false) (h : RetentionInv cfg s) {name : FileName}
    {names : List FileName} (hphase : s.phase = .alertFile nowMs (name :: names)) :
    RetentionInv cfg (pruneAlertFile u cfg s nowMs name names) := by
  have hreading := h.clock (congrArg RetentionPhase.nowMs hphase)
  have hmem : nowMs ∈ s.readings := hreading nowMs rfl
  have hold := h.phase
  unfold PhaseSwept at hold
  rw [hphase] at hold
  obtain ⟨hrows, halerts, hdays, hnames⟩ := hold
  obtain ⟨timestampMs, assetId, rfl⟩ := hnames name List.mem_cons_self
  have hrest : ∀ name' ∈ names, ∃ timestampMs assetId, name' = alertFileName timestampMs assetId :=
    fun name' hname' => hnames name' (List.mem_cons_of_mem _ hname')
  obtain ⟨fileTsMs, hparse, htime⟩ := parse_isOk hminus timestampMs assetId
    (s.alertFiles.get (alertFileName timestampMs assetId))
  unfold pruneAlertFile
  rw [hparse]
  dsimp only
  split_ifs with hdelete
  · have hget : ∀ name' ≠ alertFileName timestampMs assetId,
        (s.alertFiles.erase (alertFileName timestampMs assetId)).get name' = s.alertFiles.get name' :=
      fun name' hne => by rw [OrderedMap.get_erase, if_neg hne]
    have hgone : (s.alertFiles.erase (alertFileName timestampMs assetId)).get
        (alertFileName timestampMs assetId) = none := by rw [OrderedMap.get_erase, if_pos rfl]
    have hne : ∀ name', ((s.alertFiles.erase (alertFileName timestampMs assetId)).get name').isSome →
        name' ≠ alertFileName timestampMs assetId := by
      rintro name' hthere rfl
      rw [hgone] at hthere
      cases hthere
    refine h.deletes ⟨List.Sublist.refl _, fun name' hthere => hget name' (hne name' hthere),
      fun _ _ => rfl, rfl, rfl, rfl, rfl⟩
      ⟨h.retains.shiftEvents, fun ts' asset' hfresh => ?_, h.retains.archive, h.retains.raised⟩ hreading
      ⟨hrows, fun ts' asset' file hfile hstale => ?_, hdays, hrest⟩ (.inl rfl)
    · have hkept := h.retains.alertFiles ts' asset' hfresh
      dsimp only
      by_cases heq : alertFileName ts' asset' = alertFileName timestampMs assetId
      · -- a file that is deleted is too old
        obtain ⟨rfl, rfl⟩ := alertFileName_inj heq
        rw [hgone]
        cases hsent : s.sent.get (ts', asset') with
        | none => rfl
        | some entry =>
          rw [hsent] at hkept
          rw [htime entry.2 hkept] at hdelete
          exact absurd ⟨hdays, of_decide_eq_true hdelete⟩ (hfresh entry hsent nowMs hmem)
      · rw [hget _ heq]
        exact hkept
    · have hother := hne _ (Option.isSome_of_mem hfile)
      dsimp only at hfile
      rw [hget _ hother] at hfile
      refine (halerts ts' asset' file hfile hstale).imp_left fun hmem => ?_
      exact (List.mem_cons.mp hmem).resolve_left hother
  · refine h.moves hreading ⟨hrows, fun ts' asset' file hfile hstale => ?_, hdays, hrest⟩
    refine (halerts ts' asset' file hfile hstale).imp_left fun hmem => ?_
    rcases List.mem_cons.mp hmem with heq | hmem
    · obtain ⟨rfl, rfl⟩ := alertFileName_inj heq
      rw [htime file hfile] at hdelete
      exact absurd (decide_eq_true hstale.2) hdelete
    · exact hmem

theorem isCandidate_file {path : List FileName} (h : suffix (path.getLastD []) ∈ archiveSuffixes) :
    isCandidate ⟨path, .file⟩ = true := by
  unfold isCandidate
  simpa using h

/-- A file of the archive is read as its hour, and has one of the suffixes. -/
theorem ArchivesTo.parse {hour : ℤ} {path : List FileName} (hpath : ArchivesTo hour path) :
    parseArchiveHourMs u path = .ok (some (hour * hourMs)) :=
  parse_written (Dvd.intro_left hour rfl) hpath

theorem ArchivesTo.isCandidate {hour : ℤ} {path : List FileName} (hpath : ArchivesTo hour path) :
    Storage.isCandidate ⟨path, .file⟩ = true := by
  have hpadded : ∀ n, padded 2 n ≠ [] := by
    intro n
    rw [padded]
    simp
  rcases hpath with hpath | hpath
  · obtain ⟨dt, -, rfl⟩ := Option.map_eq_some_iff.mp hpath
    have hsuffix : suffix (padded 2 dt.hour ++ ".parquet".toList) = ".parquet".toList :=
      suffix_point (hpadded _) (by decide) (by decide)
    refine isCandidate_file ?_
    show suffix (padded 2 dt.hour ++ ".parquet".toList) ∈ archiveSuffixes
    rw [hsuffix]
    exact List.mem_cons_self
  · obtain ⟨dt, -, rfl⟩ := Option.map_eq_some_iff.mp hpath
    have hsplit : padded 2 dt.hour ++ ".markets.json".toList =
        (padded 2 dt.hour ++ ".markets".toList) ++ ".json".toList := by
      rw [List.append_assoc]
      rfl
    have hsuffix : suffix (padded 2 dt.hour ++ ".markets.json".toList) = ".json".toList := by
      rw [hsplit]
      exact suffix_point (by simp) (by decide) (by decide)
    refine isCandidate_file ?_
    show suffix (padded 2 dt.hour ++ ".markets.json".toList) ∈ archiveSuffixes
    rw [hsuffix]
    exact List.mem_cons_of_mem _ List.mem_cons_self

theorem retention_archive (h : RetentionInv cfg s) (hphase : s.phase = .archive nowMs) :
    RetentionInv cfg (pruneNext u cfg s) := by
  have hreading := h.clock (congrArg RetentionPhase.nowMs hphase)
  have hold := h.phase
  unfold PhaseSwept at hold
  rw [hphase] at hold
  unfold pruneNext
  rw [hphase]
  dsimp only
  split_ifs with hdays
  · refine h.moves hreading ⟨hold.1, hold.2, fun hour path _ _ hthere => .inl ?_, hdays,
      fun entry hentry hfile => ?_⟩
    · exact (s.archive.filled path).mp hthere
    · obtain ⟨path, kind⟩ := entry
      dsimp only at hfile
      subst hfile
      exact h.archivePath ((s.archive.filled path).mpr hentry)
  · exact h.ends ⟨hold.1, hold.2, fun _ _ _ hstale => absurd hstale (not_stale_of_nonpos hdays)⟩

theorem retention_archiveFile (h : RetentionInv cfg s) {entry : Entry} {entries : List Entry}
    (hphase : s.phase = .archiveFile nowMs (entry :: entries)) :
    RetentionInv cfg (pruneArchiveFile u cfg s nowMs entry entries) := by
  have hreading := h.clock (congrArg RetentionPhase.nowMs hphase)
  have hmem : nowMs ∈ s.readings := hreading nowMs rfl
  have hold := h.phase
  unfold PhaseSwept at hold
  rw [hphase] at hold
  obtain ⟨hrows, halerts, harchive, hdays, hfiles⟩ := hold
  have hrest : ∀ entry' ∈ entries, entry'.kind = .file → ∃ hour, ArchivesTo hour entry'.path :=
    fun entry' hentry' => hfiles entry' (List.mem_cons_of_mem _ hentry')
  -- an entry that is not deleted is not the file of an hour that is too old
  have hskip : (∀ hour, ArchivesTo hour entry.path → entry.kind = .file →
      ¬ Stale cfg.archiveRetentionDays nowMs (hour * hourMs)) →
      RetentionInv cfg { s with phase := .archiveFile nowMs entries } := by
    intro hkeep
    refine h.moves hreading ⟨hrows, halerts, fun hour path hpath hstale hthere => ?_, hdays, hrest⟩
    refine (harchive hour path hpath hstale hthere).imp_left fun hmem => ?_
    refine (List.mem_cons.mp hmem).resolve_left ?_
    rintro rfl
    exact hkeep hour hpath rfl hstale
  unfold pruneArchiveFile
  by_cases hcandidate : isCandidate entry = true
  · obtain ⟨path, kind⟩ := entry
    obtain rfl : kind = .file := by
      rw [isCandidate, Bool.and_eq_true, decide_eq_true_eq] at hcandidate
      exact hcandidate.1
    obtain ⟨hour, hpath⟩ := hfiles _ List.mem_cons_self rfl
    have hsame : ∀ hour', ArchivesTo hour' path → hour' * hourMs = hour * hourMs := by
      intro hour' hpath'
      have hread := (hpath'.parse (u := u)).symm.trans hpath.parse
      exact Option.some.inj (Except.ok.inj hread)
    rw [if_pos hcandidate, hpath.parse]
    dsimp only
    split_ifs with hdelete
    · have hstale : Stale cfg.archiveRetentionDays nowMs (hour * hourMs) :=
        ⟨hdays, of_decide_eq_true hdelete⟩
      have hget : ∀ path' ≠ path,
          (s.archive.unlink path).contents.get path' = s.archive.contents.get path' :=
        fun path' hne => by rw [Archive.unlink, OrderedMap.get_erase, if_neg hne]
      have hleft : ∀ path', ((s.archive.unlink path).contents.get path').isSome →
          path' ≠ path ∧ (s.archive.contents.get path').isSome := by
        intro path' hthere
        have hne : path' ≠ path := by
          rintro rfl
          rw [Archive.unlink, OrderedMap.get_erase, if_pos rfl] at hthere
          cases hthere
        rw [hget path' hne] at hthere
        exact ⟨hne, hthere⟩
      refine h.deletes ⟨List.Sublist.refl _, fun _ _ => rfl,
        fun path' hthere => hget path' (hleft path' hthere).1, rfl, rfl, rfl, rfl⟩
        ⟨h.retains.shiftEvents, h.retains.alertFiles, fun hour' path' hpath' hfresh => ?_,
          h.retains.raised⟩ hreading
        ⟨hrows, halerts, fun hour' path' hpath' hstale' hthere => ?_, hdays, hrest⟩ (.inl rfl)
      · have hne : path' ≠ path := by
          rintro rfl
          rw [hsame hour' hpath'] at hfresh
          exact hfresh nowMs hmem hstale
        exact (hget path' hne).trans (h.retains.archive hour' path' hpath' hfresh)
      · obtain ⟨hne, hbefore⟩ := hleft path' hthere
        refine (harchive hour' path' hpath' hstale' hbefore).imp_left fun hmem => ?_
        exact (List.mem_cons.mp hmem).resolve_left fun hentry => hne (Entry.mk.inj hentry).1
    · refine hskip fun hour' hpath' _ hstale => ?_
      rw [hsame hour' hpath'] at hstale
      exact hdelete (decide_eq_true hstale.2)
  · rw [if_neg hcandidate]
    refine hskip fun hour hpath hfile => ?_
    obtain ⟨path, kind⟩ := entry
    dsimp only at hfile
    subst hfile
    exact absurd hpath.isCandidate hcandidate

theorem retention_directory (h : RetentionInv cfg s) {directory : Entry} {directories : List Entry}
    (hphase : s.phase = .directory nowMs (directory :: directories)) : RetentionInv cfg
    { s with archive := s.archive.rmdir directory, phase := .directory nowMs directories } := by
  have hold := h.phase
  unfold PhaseSwept at hold
  rw [hphase] at hold
  exact h.deletes ⟨List.Sublist.refl _, fun _ _ => rfl, fun _ _ => rfl, rfl, rfl,
    rfl, rfl⟩ ⟨h.retains.shiftEvents, h.retains.alertFiles, h.retains.archive, h.retains.raised⟩
    (h.clock (congrArg RetentionPhase.nowMs hphase))
    ⟨hold.shiftEvents, hold.alertFiles, hold.archive⟩ (.inl rfl)

theorem retention_list (h : RetentionInv cfg s) {entry : Entry} {entries : List Entry}
    (hphase : s.phase = .archiveFile nowMs entries) (hentry : entry ∈ s.archive.tree) :
    RetentionInv cfg { s with phase := .archiveFile nowMs (entry :: entries) } := by
  have hold := h.phase
  unfold PhaseSwept at hold
  rw [hphase] at hold
  obtain ⟨hrows, halerts, harchive, hdays, hfiles⟩ := hold
  refine h.moves (h.clock (congrArg RetentionPhase.nowMs hphase)) ⟨hrows, halerts,
    fun hour path hpath hstale hthere => ?_, hdays, fun entry' hentry' hfile => ?_⟩
  · exact (harchive hour path hpath hstale hthere).imp_left (List.mem_cons_of_mem _)
  · rcases List.mem_cons.mp hentry' with rfl | hentry'
    · obtain ⟨path, kind⟩ := entry'
      dsimp only at hfile
      subst hfile
      exact h.archivePath ((s.archive.filled path).mpr hentry)
    · exact hfiles entry' hentry' hfile

/-- An operation of the call. -/
theorem retention_advance (hminus : u.isDigit '-' = false) (h : RetentionInv cfg s) :
    RetentionInv cfg (pruneNext u cfg s) := by
  have hold := h.phase
  have hreading := h.reading
  unfold PhaseSwept at hold
  cases hphase : s.phase with
  | idle =>
    unfold pruneNext
    rw [hphase]
    exact h
  | shiftEvents nowMs => exact retention_shiftEvents h hphase
  | alertFiles nowMs => exact retention_alertFiles h hphase
  | alertFile nowMs names =>
    rw [hphase] at hold hreading
    unfold pruneNext
    rw [hphase]
    cases names with
    | nil => exact h.moves hreading ⟨hold.1, hold.2.1⟩
    | cons name names => exact retention_alertFile hminus h hphase
  | archive nowMs => exact retention_archive h hphase
  | archiveFile nowMs entries =>
    rw [hphase] at hold hreading
    unfold pruneNext
    rw [hphase]
    cases entries with
    | nil => exact h.moves hreading ⟨hold.1, hold.2.1, hold.2.2.1⟩
    | cons entry entries => exact retention_archiveFile h hphase
  | directory nowMs directories =>
    rw [hphase] at hold
    unfold pruneNext
    rw [hphase]
    cases directories with
    | nil => exact h.ends hold
    | cons directory directories => exact retention_directory h hphase

end Call

/-! ## Every run -/

theorem retentionInv_nothingStored (cfg : RetentionConfig) : RetentionInv cfg nothingStored where
  retains := ⟨rfl, fun _ _ _ => rfl, fun _ _ _ _ => rfl, rfl⟩
  written := ⟨List.nil_sublist _, fun _ _ hfile => (by cases hfile), fun _ _ hfile => (by cases hfile)⟩
  reading _ hnow := by cases hnow
  phase := trivial
  completed _ hdone := absurd hdone List.not_mem_nil

theorem retentionInv_step {py : Builtins} {u : Unicode} {takes : FileName → Bool}
    {cfg : RetentionConfig} {s : RetentionState} (hminus : u.isDigit '-' = false)
    (h : RetentionInv cfg s) (e : RetentionEvent) :
    RetentionInv cfg (retentionStep py u takes cfg s e) := by
  unfold retentionStep
  split
  · exact retention_insertShiftEvent h _
  · exact retention_send py takes h _ _
  · split
    · exact h
    · exact retention_mkdirs h _
  · split
    · exact h
    · rename_i hpath
      split
      · exact h
      · exact retention_writeArchive h hpath (by assumption)
  · split
    · exact retention_pruneOnce h _
    · exact h
  · exact retention_advance hminus h
  · split
    · split_ifs with hentry
      · exact retention_list h (by assumption) hentry
      · exact h
    · exact h
  · exact retention_fail h

/-- Whatever is written while the manager deletes: no call raises, what is not older than its
retention for any call is there as it was last written, nothing is there that was not written, and
what is older than its retention for a call that has ended was written after that call had begun.  Two alerts share a file exactly if they
are of one time and asset. -/
theorem retains_and_swept {py : Builtins} {u : Unicode} {takes : FileName → Bool}
    {cfg : RetentionConfig} {s : RetentionState} (hminus : u.isDigit '-' = false)
    (h : Reach (retentionStep py u takes cfg) nothingStored Any s) :
    Retains cfg s ∧ OnlyWritten s ∧ (∀ entry ∈ s.completed, Swept cfg s entry.1 entry.2) ∧
      ∀ timestampMs timestampMs' assetId assetId',
        alertFileName timestampMs assetId = alertFileName timestampMs' assetId' ↔
          timestampMs = timestampMs' ∧ assetId = assetId' := by
  have hinv : RetentionInv cfg s := h.invariant (I := RetentionInv cfg)
    (retentionInv_nothingStored cfg) fun _ e _ _ hs => retentionInv_step hminus hs e
  refine ⟨hinv.retains, hinv.written, fun entry hdone => (hinv.completed entry hdone).2,
    fun _ _ _ _ => ?_⟩
  constructor
  · exact alertFileName_inj
  · rintro ⟨rfl, rfl⟩
    rfl

namespace Sample

def alertAt (timestampMs : ℤ) : ShiftAlert :=
  { Notifications.Sample.alertOf "fed" timestampMs with market := [(.other "asset_id", .str (lit "7"))] }

def nineDays : RetentionConfig where
  archiveRetentionDays := 9

def row : PriceTickRow :=
  ⟨⟨"7", "fed", 11/20, some (27/50), some (14/25), some (1/50), "midpoint_book", some 1000, 1000⟩, 1⟩

/-- Two alerts are sent and two hours archived, and ten days after the first ones the manager is
called. -/
def tenDays : List RetentionEvent :=
  [.send (alertAt 1000) 1000, .send (alertAt 864000000) 864000000,
    .mkdirs (.parquet [row]) 0, .writeArchive (.parquet [row]) 0,
    .mkdirs (.markets (.arr [])) 239, .writeArchive (.markets (.arr [])) 239, .pruneOnce 864001000] ++
  List.replicate 18 .advance

def afterTenDays : RetentionState :=
  tenDays.foldl (retentionStep Notifications.Sample.builtins ascii (fun _ => true) nineDays) nothingStored

end Sample

theorem retains_and_swept_tenDays :
    Sample.afterTenDays.alertFiles.keys = ["864000000_7.json".toList] ∧
      Sample.afterTenDays.archive.contents.keys =
        [["1970".toList, "01".toList, "10".toList, "23.markets.json".toList]] ∧
      Sample.afterTenDays.completed = [(1, 864001000)] ∧
      Retains Sample.nineDays Sample.afterTenDays ∧ OnlyWritten Sample.afterTenDays ∧
      Swept Sample.nineDays Sample.afterTenDays 1 864001000 ∧
      alertFileName 1000 "7".toList ≠ alertFileName 864000000 "7".toList := by
  obtain ⟨hretains, hwritten, hswept, hnames⟩ := @retains_and_swept Notifications.Sample.builtins Sample.ascii
    (fun _ => true) Sample.nineDays _ (by decide) (reach_foldl Sample.tenDays)
  have hleft : Sample.afterTenDays.alertFiles.keys = ["864000000_7.json".toList] ∧
      Sample.afterTenDays.archive.contents.keys =
        [["1970".toList, "01".toList, "10".toList, "23.markets.json".toList]] ∧
      Sample.afterTenDays.completed = [(1, 864001000)] := by decide +kernel
  obtain ⟨halerts, harchive, hdone⟩ := hleft
  refine ⟨halerts, harchive, hdone, hretains, hwritten, hswept (1, 864001000) ?_, fun heq => ?_⟩
  · show _ ∈ Sample.afterTenDays.completed
    rw [hdone]
    exact List.mem_singleton.mpr rfl
  · exact absurd ((hnames _ _ _ _).mp heq).1 (by decide)

end Sentinel.Storage
