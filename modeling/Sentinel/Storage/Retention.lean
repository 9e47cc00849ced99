import Mathlib.Logic.Function.Iterate
import Sentinel.Logic.Run
import Sentinel.Notifications.AlertFiles

/-!
# Retention

`RetentionManager.prune_once` deletes, one after the other, the rows of `shift_events`, the files of
the alerts and the files of the archive that are older than their retentions, and then the folders
of the archive that are empty.  Between its operations alerts are raised and sent and the archiver
writes, so the call is a machine that deletes the rows, or a single file or folder, in a step.

* `Archive`: the directory of the archive with what its files hold.
* `retentionStep`: the manager and those who write what it deletes.
* `pruneArchive_runs`: left alone, the machine computes `pruneArchiveFiles`.
-/

namespace Sentinel.Storage

open Logic Contracts Processing Notifications

/-! ## What is kept -/

/-- The fields of `StorageConfig` and `NotificationsConfig` that the manager reads. -/
structure RetentionConfig : Type where
  shiftEventRetentionDays : ℤ := 30
  jsonFileRetentionDays : ℤ := 7
  archiveRetentionDays : ℤ := 30

/-- A row of `shift_events`. -/
structure ShiftEvent : Type where
  assetId : JsonValue
  marketSlug : JsonValue
  question : JsonValue
  category : JsonValue
  level : String
  direction : String
  deltaPct : ℚ
  signedDeltaPct : ℚ
  priceStart : ℚ
  priceEnd : ℚ
  windowSec : ℤ
  ticksInWindow : ℤ
  signalSource : String
  spreadAtAlert : Option ℚ
  quoteAgeSec : Option ℚ
  confidence : String
  tsMs : ℤ

/-- The row that `insert_shift_event` inserts; none if the market lacks a key. -/
def ShiftEvent.ofAlert (alert : ShiftAlert) : Option ShiftEvent := do
  let assetId ← alert.market.lookup (.other "asset_id")
  let marketSlug ← alert.market.lookup (.other "market_slug")
  let question ← alert.market.lookup (.other "question")
  let category ← alert.market.lookup (.other "category")
  return {
    assetId, marketSlug, question, category
    level := alert.alertLevel
    direction := alert.shift.direction
    deltaPct := alert.shift.deltaPct
    signedDeltaPct := alert.shift.signedDeltaPct
    priceStart := alert.shift.priceStart
    priceEnd := alert.shift.priceEnd
    windowSec := alert.shift.windowSec
    ticksInWindow := alert.shift.ticksInWindow
    signalSource := alert.signalQuality.signalSource
    spreadAtAlert := alert.signalQuality.spread
    quoteAgeSec := alert.signalQuality.quoteAgeSec
    confidence := alert.signalQuality.confidence
    tsMs := alert.timestampMs }

/-- A file of an alert. -/
structure AlertFile : Type where
  /-- What `to_json` prints. -/
  payload : JsonValue
  mtimeMs : ℤ

/-- What the archiver writes for an hour. -/
inductive ArchiveFile : Type
  | parquet (rows : List PriceTickRow)
  /-- The markets that are tracked. -/
  | markets (payload : JsonValue)

def ArchiveFile.path (hourStartMs : ℤ) : ArchiveFile → Option (List FileName)
  | .parquet _ => parquetPath hourStartMs
  | .markets _ => marketsPath hourStartMs

/-- `output_path.parent.mkdir(parents=True, exist_ok=True)`. -/
def mkdirs (tree : Tree) (path : List FileName) : Tree :=
  tree ++ ((List.range (path.length - 1)).map fun n => ⟨path.take (n + 1), .directory⟩).filter
    fun directory => directory ∉ tree

/-- Making folders makes no file. -/
theorem file_mem_mkdirs {tree : Tree} {path path' : List FileName} :
    (⟨path', .file⟩ : Entry) ∈ mkdirs tree path ↔ ⟨path', .file⟩ ∈ tree := by
  unfold mkdirs
  rw [List.mem_append, or_iff_left]
  intro hmem
  obtain ⟨n, -, heq⟩ := List.mem_map.mp (List.mem_filter.mp hmem).1
  cases heq

/-- The directory of the archive: what is listed in it, and what the files hold. -/
structure Archive : Type where
  tree : Tree
  contents : OrderedMap (List FileName) ArchiveFile
  filled : ∀ path, (contents.get path).isSome ↔ ⟨path, .file⟩ ∈ tree

namespace Archive

def empty : Archive := ⟨[], .empty, fun path => by simp⟩

def mkdirs (archive : Archive) (path : List FileName) : Archive where
  tree := Storage.mkdirs archive.tree path
  contents := archive.contents
  filled path' := (archive.filled path').trans file_mem_mkdirs.symm

/-- The file is written; none if its folder is gone. -/
def write (archive : Archive) (path : List FileName) (file : ArchiveFile) : Option Archive :=
  if ⟨path.dropLast, .directory⟩ ∈ archive.tree then
    some {
      tree :=
        if ⟨path, .file⟩ ∈ archive.tree then archive.tree else archive.tree ++ [⟨path, .file⟩]
      contents := archive.contents.set path file
      filled := by
        intro path'
        rw [OrderedMap.get_set]
        by_cases heq : path' = path
        · rw [if_pos heq, heq]
          split_ifs with hthere <;> simp [hthere]
        · rw [if_neg heq, archive.filled]
          split_ifs
          · rfl
          · simp [heq] }
  else none

/-- `path.unlink(missing_ok=True)`. -/
def unlink (archive : Archive) (path : List FileName) : Archive where
  tree := archive.tree.filter fun entry => entry ≠ ⟨path, .file⟩
  contents := archive.contents.erase path
  filled := by
    intro path'
    rw [OrderedMap.get_erase, List.mem_filter, decide_eq_true_eq]
    by_cases heq : path' = path
    · rw [if_pos heq, heq]
      simp
    · rw [if_neg heq, archive.filled]
      simp [heq]

/-- `directory.rmdir()`; a file and a folder that is not empty stay. -/
def rmdir (archive : Archive) (directory : Entry) : Archive where
  tree := if directory.kind = .directory then Storage.rmdir archive.tree directory else archive.tree
  contents := archive.contents
  filled := by
    intro path
    rw [archive.filled]
    split_ifs with hkind
    · refine (mem_rmdir ?_).symm
      rintro rfl
      cases hkind
    · rfl

end Archive

/-! ## The manager as a machine -/

def dayMs : ℤ := 86400000

def cutoffMs (nowMs retentionDays : ℤ) : ℤ := nowMs - retentionDays * dayMs

/-- What `prune_once` does next. -/
inductive RetentionPhase : Type
  /-- No call is under way. -/
  | idle
  /-- `delete_shift_events_before`. -/
  | shiftEvents (nowMs : ℤ)
  /-- The listing of the files of the alerts. -/
  | alertFiles (nowMs : ℤ)
  /-- The loop over them, with those that are left. -/
  | alertFile (nowMs : ℤ) (names : List FileName)
  /-- The listing of the archive. -/
  | archive (nowMs : ℤ)
  /-- The loop over it, with the entries that are left. -/
  | archiveFile (nowMs : ℤ) (entries : List Entry)
  /-- The loop over its folders. -/
  | directory (nowMs : ℤ) (directories : List Entry)

structure RetentionState : Type where
  shiftEvents : List ShiftEvent
  alertFiles : OrderedMap FileName AlertFile
  archive : Archive
  phase : RetentionPhase
  /-- What `time_fn` has returned to the calls so far, which may go back. -/
  readings : List ℤ
  /-- What was written, and how many calls had begun by then; of the alerts of one time and asset
  and of the files of one path, the last. -/
  inserted : List (ℕ × ShiftEvent)
  sent : OrderedMap (ℤ × List Char) (ℕ × AlertFile)
  archived : OrderedMap (List FileName) (ℕ × ArchiveFile)
  /-- What the calls have raised. -/
  raised : List ParseError
  /-- The calls that have ended: which one it was, and its time. -/
  completed : List (ℕ × ℤ)

/-- How many calls have begun. -/
def RetentionState.calls (s : RetentionState) : ℕ := s.readings.length

inductive RetentionEvent : Type
  | insertShiftEvent (row : ShiftEvent)
  /-- `JsonFileNotifier.send`. -/
  | send (alert : ShiftAlert) (mtimeMs : ℤ)
  /-- The archiver makes the folders of a file of the hour. -/
  | mkdirs (file : ArchiveFile) (hour : ℤ)
  | writeArchive (file : ArchiveFile) (hour : ℤ)
  /-- `prune_once` is called and reads the clock. -/
  | pruneOnce (nowMs : ℤ)
  /-- The call under way makes its next operation. -/
  | advance
  /-- `rglob` lists a folder when it comes to it, and with it what was written meanwhile. -/
  | list (entry : Entry)
  /-- The operation raises; `run_forever` logs it and calls again later. -/
  | fail

section Machine

variable (py : Builtins) (u : Unicode) (takes : FileName → Bool) (cfg : RetentionConfig)

/-- One file of `_prune_alert_files`. -/
def pruneAlertFile (s : RetentionState) (nowMs : ℤ) (name : FileName) (names : List FileName) :
    RetentionState :=
  match parseAlertTsMs u name ((s.alertFiles.get name).map AlertFile.mtimeMs) with
  | .error e => { s with phase := .idle, raised := s.raised ++ [e] }
  | .ok fileTsMs =>
    if fileTsMs.any fun tsMs => tsMs < cutoffMs nowMs cfg.jsonFileRetentionDays then
      { s with alertFiles := s.alertFiles.erase name, phase := .alertFile nowMs names }
    else { s with phase := .alertFile nowMs names }

/-- One entry of the loop over the files in `_prune_archive_files`. -/
def pruneArchiveFile (s : RetentionState) (nowMs : ℤ) (entry : Entry) (entries : List Entry) :
    RetentionState :=
  if isCandidate entry then
    match parseArchiveHourMs u entry.path with
    | .error e => { s with phase := .idle, raised := s.raised ++ [e] }
    | .ok fileHourMs =>
      if fileHourMs.any fun hourMs => hourMs < cutoffMs nowMs cfg.archiveRetentionDays then
        { s with archive := s.archive.unlink entry.path, phase := .archiveFile nowMs entries }
      else { s with phase := .archiveFile nowMs entries }
  else { s with phase := .archiveFile nowMs entries }

def pruneNext (s : RetentionState) : RetentionState :=
  match s.phase with
  | .idle => s
  | .shiftEvents nowMs =>
    if 0 < cfg.shiftEventRetentionDays then
      { s with
        shiftEvents := s.shiftEvents.filter fun row =>
          ¬ row.tsMs < cutoffMs nowMs cfg.shiftEventRetentionDays
        phase := .alertFiles nowMs }
    else { s with phase := .alertFiles nowMs }
  | .alertFiles nowMs =>
    if 0 < cfg.jsonFileRetentionDays then
      { s with phase := .alertFile nowMs (s.alertFiles.keys.filter jsonSuffix.isSuffixOf) }
    else { s with phase := .archive nowMs }
  | .alertFile nowMs [] => { s with phase := .archive nowMs }
  | .alertFile nowMs (name :: names) => pruneAlertFile u cfg s nowMs name names
  | .archive nowMs =>
    if 0 < cfg.archiveRetentionDays then
      { s with phase := .archiveFile nowMs s.archive.tree }
    else { s with phase := .idle, completed := s.completed ++ [(s.calls, nowMs)] }
  | .archiveFile nowMs [] => { s with phase := .directory nowMs (directories s.archive.tree) }
  | .archiveFile nowMs (entry :: entries) => pruneArchiveFile u cfg s nowMs entry entries
  | .directory nowMs [] =>
    { s with phase := .idle, completed := s.completed ++ [(s.calls, nowMs)] }
  | .directory nowMs (directory :: directories) =>
    { s with archive := s.archive.rmdir directory, phase := .directory nowMs directories }

/-- `path.write_text(alert.to_json())`; raises if the market has no asset or if the directory does
not take the name. -/
def sendToFile (s : RetentionState) (alert : ShiftAlert) (mtimeMs : ℤ) : RetentionState :=
  match assetText py alert with
  | none => s
  | some assetId =>
    let name := alertFileName alert.timestampMs assetId
    let file : AlertFile := ⟨alert.toDict, mtimeMs⟩
    if takes name then
      { s with
        alertFiles := s.alertFiles.set name file
        sent := s.sent.set (alert.timestampMs, assetId) (s.calls, file) }
    else s

/-- The hours of the archiver are those of `list_archivable_hours`, which are whole.  There is one
loop of calls. -/
def retentionStep (s : RetentionState) : RetentionEvent → RetentionState
  | .insertShiftEvent row =>
    { s with shiftEvents := s.shiftEvents ++ [row], inserted := s.inserted ++ [(s.calls, row)] }
  | .send alert mtimeMs => sendToFile py takes s alert mtimeMs
  | .mkdirs file hour =>
    match file.path (hour * hourMs) with
    | none => s
    | some path => { s with archive := s.archive.mkdirs path }
  | .writeArchive file hour =>
    match file.path (hour * hourMs) with
    | none => s
    | some path =>
      match s.archive.write path file with
      | none => s
      | some archive =>
        { s with archive := archive, archived := s.archived.set path (s.calls, file) }
  | .pruneOnce nowMs =>
    match s.phase with
    | .idle => { s with phase := .shiftEvents nowMs, readings := s.readings ++ [nowMs] }
    | _ => s
  | .advance => pruneNext u cfg s
  | .list entry =>
    match s.phase with
    | .archiveFile nowMs entries =>
      if entry ∈ s.archive.tree then { s with phase := .archiveFile nowMs (entry :: entries) } else s
    | _ => s
  | .fail => { s with phase := .idle }

end Machine

def nothingStored : RetentionState :=
  { shiftEvents := [], alertFiles := .empty, archive := .empty, phase := .idle, readings := []
    inserted := [], sent := .empty, archived := .empty, raised := [], completed := [] }

/-! ## The machine computes `pruneArchiveFiles` -/

section Runs

variable {u : Unicode} {cfg : RetentionConfig} {nowMs : ℤ}

/-- An entry of the loop is deleted exactly if `deletes` says so. -/
theorem pruneArchiveFile_of_not_raises (cfg : RetentionConfig) (nowMs : ℤ) {entry : Entry}
    (h : ¬ Raises u entry) (s : RetentionState) (entries : List Entry) : ∃ archive,
      pruneArchiveFile u cfg s nowMs entry entries =
        { s with archive := archive, phase := .archiveFile nowMs entries } ∧
      archive.tree = s.archive.tree.filter fun entry' =>
        !(entry' = entry && deletes u (cutoffMs nowMs cfg.archiveRetentionDays) entry) := by
  have hkept : deletes u (cutoffMs nowMs cfg.archiveRetentionDays) entry = false →
      s.archive.tree = s.archive.tree.filter fun entry' =>
        !(entry' = entry && deletes u (cutoffMs nowMs cfg.archiveRetentionDays) entry) := by
    intro hdeletes
    rw [hdeletes]
    simp
  unfold pruneArchiveFile
  by_cases hcandidate : isCandidate entry = true
  · rw [if_pos hcandidate]
    cases hparse : parseArchiveHourMs u entry.path with
    | error e => exact absurd ⟨hcandidate, e, hparse⟩ h
    | ok hour =>
      have hdeletes : deletes u (cutoffMs nowMs cfg.archiveRetentionDays) entry =
          hour.any fun hourMs => hourMs < cutoffMs nowMs cfg.archiveRetentionDays := by
        rw [deletes, hcandidate, hparse]
        cases hour <;> rfl
      dsimp only
      split_ifs with hold
      · refine ⟨_, rfl, ?_⟩
        obtain ⟨path, kind⟩ := entry
        obtain rfl : kind = .file := by
          rw [isCandidate, Bool.and_eq_true, decide_eq_true_eq] at hcandidate
          exact hcandidate.1
        rw [hdeletes, hold]
        simp [Archive.unlink]
      · exact ⟨s.archive, rfl, hkept (by rw [hdeletes]; simpa using hold)⟩
  · rw [if_neg hcandidate]
    refine ⟨s.archive, rfl, hkept ?_⟩
    rw [deletes, Bool.eq_false_of_not_eq_true hcandidate, Bool.false_and]

theorem archiveFiles_run (cfg : RetentionConfig) {entries : List Entry}
    (h : ∀ entry ∈ entries, ¬ Raises u entry) (s : RetentionState) (hphase : s.phase = .archiveFile nowMs entries) :
    ∃ n archive, (pruneNext u cfg)^[n] s =
        { s with archive := archive, phase := .archiveFile nowMs [] } ∧
      archive.tree = s.archive.tree.filter fun entry =>
        !(entry ∈ entries && deletes u (cutoffMs nowMs cfg.archiveRetentionDays) entry) := by
  induction entries generalizing s with
  | nil =>
    refine ⟨0, s.archive, ?_, by simp⟩
    rw [← hphase]
    rfl
  | cons entry entries ih =>
    obtain ⟨hentry, hentries⟩ := List.forall_mem_cons.1 h
    obtain ⟨archive, hstep, htree⟩ := pruneArchiveFile_of_not_raises cfg nowMs hentry s entries
    obtain ⟨n, archive', hrun, htree'⟩ := ih hentries _ (congrArg RetentionState.phase hstep)
    refine ⟨n + 1, archive', ?_, ?_⟩
    · have hnext : pruneNext u cfg s = pruneArchiveFile u cfg s nowMs entry entries := by
        simp only [pruneNext, hphase]
      rw [Function.iterate_succ_apply, hnext, hrun, hstep]
    · rw [htree', hstep, htree, List.filter_filter]
      refine List.filter_congr fun entry' _ => ?_
      by_cases heq : entry' = entry
      · simp [heq]
        tauto
      · simp [heq]

theorem directories_run (u : Unicode) (cfg : RetentionConfig) (dirs : List Entry)
    (h : ∀ d ∈ dirs, d.kind = .directory) (s : RetentionState) (hphase : s.phase = .directory nowMs dirs) :
    ∃ n archive, (pruneNext u cfg)^[n] s =
        { s with archive := archive, phase := .directory nowMs [] } ∧
      archive.tree = dirs.foldl rmdir s.archive.tree := by
  induction dirs generalizing s with
  | nil =>
    refine ⟨0, s.archive, ?_, rfl⟩
    rw [← hphase]
    rfl
  | cons d dirs ih =>
    obtain ⟨hd, hdirs⟩ := List.forall_mem_cons.1 h
    have hstep : pruneNext u cfg s =
        { s with archive := s.archive.rmdir d, phase := .directory nowMs dirs } := by
      simp only [pruneNext, hphase]
    obtain ⟨n, archive, hrun, htree⟩ := ih hdirs _ (congrArg RetentionState.phase hstep)
    refine ⟨n + 1, archive, ?_, ?_⟩
    · rw [Function.iterate_succ_apply, hrun, hstep]
    · rw [htree, hstep, List.foldl_cons]
      simp [Archive.rmdir, hd]

/-- A call that comes to the archive and is left alone prunes it as `pruneArchiveFiles` does, if
that does not raise, and ends. -/
theorem pruneArchive_runs (hdays : 0 < cfg.archiveRetentionDays) (s : RetentionState)
    (hphase : s.phase = .archive nowMs) (h : ∀ entry ∈ s.archive.tree, ¬ Raises u entry) :
    ∃ n archive, (pruneNext u cfg)^[n] s =
        { s with archive := archive, phase := .idle, completed := s.completed ++ [(s.calls, nowMs)] } ∧
      archive.tree =
        (pruneArchiveFiles u (cutoffMs nowMs cfg.archiveRetentionDays) s.archive.tree).tree := by
  have hlist : pruneNext u cfg s = { s with phase := .archiveFile nowMs s.archive.tree } := by
    simp only [pruneNext, hphase, if_pos hdays]
  obtain ⟨n, archive, hfiles, htree⟩ := archiveFiles_run cfg h _ (congrArg RetentionState.phase hlist)
  have hdirs : pruneNext u cfg { s with archive := archive, phase := .archiveFile nowMs [] } =
      { s with archive := archive, phase := .directory nowMs (directories archive.tree) } := rfl
  obtain ⟨m, archive', hfolders, htree'⟩ := directories_run u cfg _
    (fun d => kind_of_mem_directories) _ (congrArg RetentionState.phase hdirs)
  rw [hlist] at hfiles
  rw [hdirs] at hfolders htree'
  have hlooped : (pruneNext u cfg)^[n + 1] s =
      { s with archive := archive, phase := .archiveFile nowMs [] } := by
    rw [Function.iterate_succ_apply, hlist, hfiles]
  have hemptied : (pruneNext u cfg)^[m + 1]
      { s with archive := archive, phase := .archiveFile nowMs [] } =
      { s with archive := archive', phase := .directory nowMs [] } := by
    rw [Function.iterate_succ_apply, hdirs, hfolders]
  refine ⟨1 + (m + 1 + (n + 1)), archive', ?_, ?_⟩
  · rw [Function.iterate_add_apply, Function.iterate_add_apply, hlooped, hemptied]
    rfl
  · obtain ⟨k, hloop⟩ := pruneFiles_of_not_raises (cutoffMs nowMs cfg.archiveRetentionDays) h
    rw [hlist] at htree
    have hkept : archive.tree = s.archive.tree.filter fun entry =>
        !deletes u (cutoffMs nowMs cfg.archiveRetentionDays) entry := by
      rw [htree]
      exact List.filter_congr fun entry hentry => by simp [hentry]
    rw [pruneArchiveFiles, hloop, htree', ← hkept]
    rfl

end Runs

end Sentinel.Storage
