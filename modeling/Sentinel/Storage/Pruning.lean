import Mathlib.Data.List.TakeWhile
import Sentinel.Logic.Calendar
import Sentinel.Storage.Archiver

/-!
# Pruning the archive

`RetentionManager._prune_archive_files` deletes the files of the archive whose hour lies before a
cutoff, and then the folders that are empty.  It takes four names of digits for an hour without
asking whether there is such an hour.

* `parquetPath`, `marketsPath`: where `Archiver` writes; `parseArchiveHourMs`: what the pruner reads.
* `pruneArchiveFiles`: the pruner on the entries of a tree, in the order in which they are listed.
* `Orderly`: a path on which the two agree.
-/

namespace Sentinel.Storage

open Logic

/-! ## Names -/

abbrev FileName : Type := List Char

/-- `str.isdigit` of a character, and the digit that `int` reads it as: not every character that
`isdigit` accepts is one. -/
structure Unicode : Type where
  isDigit : Char → Bool
  decimal : Char → Option ℕ
  isDigit_digit : ∀ d < 10, isDigit (digit d) = true
  decimal_digit : ∀ d < 10, decimal (digit d) = some d

namespace Unicode

variable (u : Unicode)

/-- `token.isdigit()`. -/
def isdigit (token : FileName) : Bool := !token.isEmpty && token.all u.isDigit

/-- `int(token)`; none if it raises. -/
def int (token : FileName) : Option ℕ :=
  token.foldlM (fun value c => (u.decimal c).map fun d => 10 * value + d) 0

theorem isdigit_padded {w : ℕ} (hw : 0 < w) (n : ℕ) : u.isdigit (padded w n) = true := by
  have hall : ∀ (w n : ℕ), (padded w n).all u.isDigit = true := by
    intro w
    induction w with
    | zero => exact fun _ => rfl
    | succ w ih =>
      intro n
      rw [padded, List.all_append, ih, List.all_cons, u.isDigit_digit _ (Nat.mod_lt _ (by omega))]
      rfl
  obtain ⟨w, rfl⟩ := Nat.exists_eq_succ_of_ne_zero hw.ne'
  rw [isdigit, hall, padded]
  simp

theorem int_concat (token : FileName) (c : Char) : u.int (token ++ [c]) =
    (u.int token).bind fun value => (u.decimal c).map fun d => 10 * value + d := by
  simp [int, List.foldlM_append]

theorem int_padded {w n : ℕ} (hn : n < 10 ^ w) : u.int (padded w n) = some n := by
  induction w generalizing n with
  | zero =>
    obtain rfl : n = 0 := by simpa using hn
    rfl
  | succ w ih =>
    rw [Nat.pow_succ] at hn
    rw [padded, int_concat, ih (by omega), u.decimal_digit _ (Nat.mod_lt _ (by omega)),
      Option.bind_some, Option.map_some, Nat.div_add_mod]

end Unicode

/-- `path.suffix`: from the last point on, if that is neither the first nor the last character. -/
def suffix (name : FileName) : FileName :=
  let tail := (name.reverse.takeWhile fun c => c ≠ '.').reverse
  if tail = [] ∨ name.length ≤ tail.length + 1 then [] else '.' :: tail

def archiveSuffixes : List FileName := [".parquet".toList, ".json".toList]

/-- `filename.split(".", 1)[0]`. -/
def hourToken (filename : FileName) : FileName := filename.takeWhile fun c => c ≠ '.'

/-! ## The paths of the archiver -/

/-- The path of an hour, relative to the archive. -/
def archivePath (dt : DateTime) (ending : FileName) : List FileName :=
  [padded 4 dt.year, padded 2 dt.month, padded 2 dt.day, padded 2 dt.hour ++ ending]

/-- The path `_write_parquet` writes to. -/
def parquetPath (hourStartMs : ℤ) : Option (List FileName) :=
  (DateTime.ofTime? (hourStartMs * 1000)).map fun dt => archivePath dt ".parquet".toList

/-- The path `_write_market_snapshot` writes to. -/
def marketsPath (hourStartMs : ℤ) : Option (List FileName) :=
  (DateTime.ofTime? (hourStartMs * 1000)).map fun dt => archivePath dt ".markets.json".toList

/-! ## The pruner -/

inductive ParseError : Type
  | valueError
  deriving DecidableEq, Repr

/-- `datetime(year=int(year), month=int(month), day=int(day), hour=int(hour_token))`. -/
def archiveHour? (u : Unicode) (year month day hour : FileName) : Option DateTime :=
  (u.int year).bind fun y => (u.int month).bind fun m => (u.int day).bind fun d =>
    (u.int hour).bind fun h => DateTime.ofFields? y m d h 0 0 0

/-- `_parse_archive_hour_ms`. -/
def parseArchiveHourMs (u : Unicode) : List FileName → Except ParseError (Option ℤ)
  | [year, month, day, filename] =>
    if u.isdigit year && u.isdigit month && u.isdigit day && u.isdigit (hourToken filename) then
      match archiveHour? u year month day (hourToken filename) with
      | some dt => .ok (some (dt.toTime / 1000))
      | none => .error .valueError
    else .ok none
  | _ => .ok none

inductive EntryKind : Type
  | file | directory | other
  deriving DecidableEq, Repr

structure Entry : Type where
  path : List FileName
  kind : EntryKind
  deriving DecidableEq, Repr

/-- What `root.rglob("*")` lists, in its order; nothing when there is no root. -/
abbrev Tree : Type := List Entry

def isCandidate (entry : Entry) : Bool :=
  entry.kind = .file && suffix (entry.path.getLastD []) ∈ archiveSuffixes

/-- The loop over the files: what is left, and the number deleted. -/
def pruneFiles (u : Unicode) (cutoffMs : ℤ) : Tree → Tree × Except ParseError ℕ
  | [] => ([], .ok 0)
  | entry :: entries =>
    if isCandidate entry then
      match parseArchiveHourMs u entry.path with
      | .error e => (entry :: entries, .error e)
      | .ok hour =>
        let (kept, deleted) := pruneFiles u cutoffMs entries
        if hour.any fun fileHourMs => fileHourMs < cutoffMs then (kept, deleted.map (· + 1))
        else (entry :: kept, deleted)
    else
      let (kept, deleted) := pruneFiles u cutoffMs entries
      (entry :: kept, deleted)

/-- `directory.rmdir()`; a folder that is not empty stays. -/
def rmdir (tree : Tree) (directory : Entry) : Tree :=
  if tree.any fun entry => directory.path.isPrefixOf entry.path && entry.path ≠ directory.path then tree
  else tree.filter fun entry => entry ≠ directory

/-- The folders, the deepest first. -/
def directories (tree : Tree) : List Entry :=
  (tree.filter fun entry => entry.kind = .directory).insertionSort fun a b =>
    b.path.length ≤ a.path.length

/-- The loop over the folders. -/
def removeDirectories (tree : Tree) : Tree := (directories tree).foldl rmdir tree

structure PruneResult : Type where
  tree : Tree
  deleted : Except ParseError ℕ

/-- `_prune_archive_files`. -/
def pruneArchiveFiles (u : Unicode) (cutoffMs : ℤ) (tree : Tree) : PruneResult :=
  match pruneFiles u cutoffMs tree with
  | (kept, .ok n) => ⟨removeDirectories kept, .ok n⟩
  | (kept, .error e) => ⟨kept, .error e⟩

/-! ## What is to be deleted -/

/-- The start of an hour. -/
def OnHour (dt : DateTime) : Prop := dt.minute = 0 ∧ dt.second = 0 ∧ dt.microsecond = 0

/-- A file `YYYY/MM/DD/HH.*` of an hour before the cutoff. -/
def Expired (cutoffMs : ℤ) (path : List FileName) : Prop :=
  ∃ dt rest, OnHour dt ∧ path = archivePath dt ('.' :: rest) ∧
    suffix (padded 2 dt.hour ++ '.' :: rest) ∈ archiveSuffixes ∧ dt.toTime / 1000 < cutoffMs

/-- The pruner does not raise, deletes the expired files and keeps the others. -/
def PrunesExactly (u : Unicode) (cutoffMs : ℤ) (tree : Tree) : Prop :=
  (∃ n, (pruneArchiveFiles u cutoffMs tree).deleted = .ok n) ∧
  ∀ entry : Entry, entry.kind = .file →
    (entry ∈ (pruneArchiveFiles u cutoffMs tree).tree ↔ entry ∈ tree ∧ ¬ Expired cutoffMs entry.path)

/-- If the path has the suffix of the archive and is made of four numbers, they denote an hour, and
they are padded if that hour is before the cutoff. -/
def Orderly (u : Unicode) (cutoffMs : ℤ) (path : List FileName) : Prop :=
  ∀ year month day filename, path = [year, month, day, filename] →
    suffix filename ∈ archiveSuffixes →
    (u.isdigit year && u.isdigit month && u.isdigit day && u.isdigit (hourToken filename)) = true →
    ∃ dt, OnHour dt ∧ u.int year = some dt.year ∧ u.int month = some dt.month ∧
      u.int day = some dt.day ∧ u.int (hourToken filename) = some dt.hour ∧
      (dt.toTime / 1000 < cutoffMs → year = padded 4 dt.year ∧ month = padded 2 dt.month ∧
        day = padded 2 dt.day ∧ hourToken filename = padded 2 dt.hour)

variable {u : Unicode} {cutoffMs : ℤ} {tree : Tree} {entry : Entry} {dt : DateTime}

/-! ## Reading what was written -/

theorem archiveHour?_eq_some_iff {year month day hour : FileName} :
    archiveHour? u year month day hour = some dt ↔ OnHour dt ∧ u.int year = some dt.year ∧
      u.int month = some dt.month ∧ u.int day = some dt.day ∧ u.int hour = some dt.hour := by
  unfold archiveHour?
  constructor
  · intro h
    obtain ⟨y, hy, h⟩ := Option.bind_eq_some_iff.1 h
    obtain ⟨m, hm, h⟩ := Option.bind_eq_some_iff.1 h
    obtain ⟨d, hd, h⟩ := Option.bind_eq_some_iff.1 h
    obtain ⟨k, hk, h⟩ := Option.bind_eq_some_iff.1 h
    obtain ⟨rfl, rfl, rfl, rfl, hminute, hsecond, hmicro⟩ := DateTime.ofFields?_eq_some_iff.1 h
    exact ⟨⟨hminute, hsecond, hmicro⟩, hy, hm, hd, hk⟩
  · rintro ⟨⟨hminute, hsecond, hmicro⟩, hy, hm, hd, hk⟩
    rw [hy, hm, hd, hk]
    exact DateTime.ofFields?_eq_some_iff.2 ⟨rfl, rfl, rfl, rfl, hminute, hsecond, hmicro⟩

theorem digit_ne_point {d : ℕ} (hd : d < 10) : digit d ≠ '.' := by
  have h : ∀ d < 10, digit d ≠ '.' := by decide
  exact h d hd

theorem padded_ne_point (w n : ℕ) : ∀ c ∈ padded w n, c ≠ '.' := by
  induction w generalizing n with
  | zero => simp [padded]
  | succ w ih =>
    intro c hc
    rcases List.mem_append.1 hc with hc | hc
    · exact ih _ c hc
    · rw [List.mem_singleton.1 hc]
      exact digit_ne_point (Nat.mod_lt _ (by omega))

theorem hourToken_padded (w n : ℕ) (rest : FileName) :
    hourToken (padded w n ++ '.' :: rest) = padded w n := by
  rw [hourToken, List.takeWhile_append_of_pos]
  · simp
  · intro c hc
    simpa using padded_ne_point w n c hc

theorem isdigit_archivePath (dt : DateTime) (rest : FileName) :
    (u.isdigit (padded 4 dt.year) && u.isdigit (padded 2 dt.month) && u.isdigit (padded 2 dt.day) &&
      u.isdigit (hourToken (padded 2 dt.hour ++ '.' :: rest))) = true := by
  rw [hourToken_padded, u.isdigit_padded (by omega), u.isdigit_padded (by omega),
    u.isdigit_padded (by omega), u.isdigit_padded (by omega)]
  rfl

theorem archiveHour?_padded (hdt : OnHour dt) : archiveHour? u (padded 4 dt.year)
    (padded 2 dt.month) (padded 2 dt.day) (padded 2 dt.hour) = some dt := by
  have hyear := dt.year_mem
  have hmonth := dt.month_mem
  have hday := dt.day_lt
  have hhour := dt.hour_lt
  exact archiveHour?_eq_some_iff.2 ⟨hdt, u.int_padded (by omega), u.int_padded (by omega),
    u.int_padded (by omega), u.int_padded (by omega)⟩

theorem parse_archivePath (hdt : OnHour dt) (rest : FileName) :
    parseArchiveHourMs u (archivePath dt ('.' :: rest)) = .ok (some (dt.toTime / 1000)) := by
  rw [archivePath, parseArchiveHourMs, isdigit_archivePath, if_pos rfl, hourToken_padded,
    archiveHour?_padded hdt]

/-- The paths of an hour are read as that hour. -/
theorem parse_written {hourStartMs : ℤ} (hhour : hourMs ∣ hourStartMs) {path : List FileName}
    (h : parquetPath hourStartMs = some path ∨ marketsPath hourStartMs = some path) :
    parseArchiveHourMs u path = .ok (some hourStartMs) := by
  have hread : ∀ (dt : DateTime) (rest : FileName), dt.toTime = hourStartMs * 1000 →
      parseArchiveHourMs u (archivePath dt ('.' :: rest)) = .ok (some hourStartMs) := by
    intro dt rest htime
    have hdt : OnHour dt := by
      obtain ⟨k, rfl⟩ := hhour
      have hmicros := dt.toTime_add_epoch
      have h₁ := dt.minute_lt
      have h₂ := dt.second_lt
      have h₃ := dt.microsecond_lt
      rw [htime, hourMs, DateTime.epoch, DateTime.micros] at hmicros
      push_cast at hmicros
      exact ⟨by omega, by omega, by omega⟩
    rw [parse_archivePath hdt, htime, Int.mul_ediv_cancel _ (by decide)]
  rcases h with h | h
  · obtain ⟨dt, hdt, rfl⟩ := Option.map_eq_some_iff.1 h
    exact hread dt _ (DateTime.ofTime?_eq_some_iff.1 hdt)
  · obtain ⟨dt, hdt, rfl⟩ := Option.map_eq_some_iff.1 h
    exact hread dt _ (DateTime.ofTime?_eq_some_iff.1 hdt)

/-! ## The loops -/

/-- The loop deletes the entry, if it comes to it. -/
def deletes (u : Unicode) (cutoffMs : ℤ) (entry : Entry) : Bool :=
  isCandidate entry && match parseArchiveHourMs u entry.path with
    | .ok (some fileHourMs) => fileHourMs < cutoffMs
    | _ => false

/-- The loop raises at the entry. -/
def Raises (u : Unicode) (entry : Entry) : Prop :=
  isCandidate entry = true ∧ ∃ e, parseArchiveHourMs u entry.path = .error e

theorem pruneFiles_of_raises (cutoffMs : ℤ) (h : ∃ entry ∈ tree, Raises u entry) :
    ∃ kept e, pruneFiles u cutoffMs tree = (kept, .error e) := by
  induction tree with
  | nil =>
    obtain ⟨entry, hentry, -⟩ := h
    cases hentry
  | cons entry tree ih =>
    rw [pruneFiles]
    by_cases hcandidate : isCandidate entry = true
    · rw [if_pos hcandidate]
      cases hparse : parseArchiveHourMs u entry.path with
      | error e => exact ⟨_, e, rfl⟩
      | ok hour =>
        obtain ⟨kept, e, hrest⟩ := ih (by
          obtain ⟨entry', hentry', hraises⟩ := h
          rcases List.mem_cons.1 hentry' with rfl | hentry'
          · obtain ⟨-, e, herror⟩ := hraises
            cases hparse.symm.trans herror
          · exact ⟨entry', hentry', hraises⟩)
        dsimp only
        rw [hrest]
        split_ifs <;> exact ⟨_, e, rfl⟩
    · rw [if_neg hcandidate]
      obtain ⟨kept, e, hrest⟩ := ih (by
        obtain ⟨entry', hentry', hraises⟩ := h
        rcases List.mem_cons.1 hentry' with rfl | hentry'
        · exact absurd hraises.1 hcandidate
        · exact ⟨entry', hentry', hraises⟩)
      dsimp only
      rw [hrest]
      exact ⟨_, e, rfl⟩

theorem pruneFiles_of_not_raises (cutoffMs : ℤ) (h : ∀ entry ∈ tree, ¬ Raises u entry) :
    ∃ n, pruneFiles u cutoffMs tree =
      (tree.filter fun entry => !deletes u cutoffMs entry, .ok n) := by
  induction tree with
  | nil => exact ⟨0, rfl⟩
  | cons entry tree ih =>
    obtain ⟨hentry, htree⟩ := List.forall_mem_cons.1 h
    obtain ⟨n, hrest⟩ := ih htree
    rw [pruneFiles]
    dsimp only
    rw [hrest]
    by_cases hcandidate : isCandidate entry = true
    · rw [if_pos hcandidate]
      cases hparse : parseArchiveHourMs u entry.path with
      | error e => exact absurd ⟨hcandidate, e, hparse⟩ hentry
      | ok hour =>
        dsimp only
        have hdeletes : deletes u cutoffMs entry =
            hour.any fun fileHourMs => fileHourMs < cutoffMs := by
          rw [deletes, hcandidate, hparse]
          cases hour <;> rfl
        by_cases hold : (hour.any fun fileHourMs => fileHourMs < cutoffMs) = true
        · rw [if_pos hold, List.filter_cons_of_neg (by rw [hdeletes, hold]; simp)]
          exact ⟨n + 1, rfl⟩
        · rw [if_neg hold, List.filter_cons_of_pos (by rw [hdeletes]; simpa using hold)]
          exact ⟨n, rfl⟩
    · have hkeeps : deletes u cutoffMs entry = false := by
        rw [deletes, Bool.eq_false_of_not_eq_true hcandidate]
        rfl
      rw [if_neg hcandidate, List.filter_cons_of_pos (by rw [hkeeps]; rfl)]
      exact ⟨n, rfl⟩

theorem kind_of_mem_directories (h : entry ∈ directories tree) : entry.kind = .directory := by
  rw [directories, List.mem_insertionSort, List.mem_filter, decide_eq_true_eq] at h
  exact h.2

/-- Only the folder is removed. -/
theorem mem_rmdir {directory : Entry} (hne : entry ≠ directory) :
    entry ∈ rmdir tree directory ↔ entry ∈ tree := by
  unfold rmdir
  split_ifs
  · rfl
  · rw [List.mem_filter, decide_eq_true hne, and_iff_left rfl]

theorem mem_removeDirectories (hfile : entry.kind = .file) :
    entry ∈ removeDirectories tree ↔ entry ∈ tree := by
  have hloop : ∀ directories : List Entry, (∀ d ∈ directories, d.kind = .directory) →
      ∀ tree, entry ∈ directories.foldl rmdir tree ↔ entry ∈ tree := by
    intro directories
    induction directories with
    | nil => exact fun _ _ => Iff.rfl
    | cons d directories ih =>
      intro hkinds tree
      obtain ⟨hd, hkinds⟩ := List.forall_mem_cons.1 hkinds
      have hne : entry ≠ d := by
        rintro rfl
        cases hfile.symm.trans hd
      rw [List.foldl_cons, ih hkinds, mem_rmdir hne]
  exact hloop _ (fun d hd => kind_of_mem_directories hd) tree

/-! ## Exactly the expired files -/

/-- What an expired file is to the loop. -/
theorem Expired.deletes (hfile : entry.kind = .file) (h : Expired cutoffMs entry.path) :
    deletes u cutoffMs entry = true := by
  obtain ⟨dt, rest, hdt, hpath, hsuffix, hold⟩ := h
  have hcandidate : isCandidate entry = true := by
    rw [isCandidate, hfile, hpath]
    exact decide_eq_true hsuffix
  rw [Storage.deletes, hcandidate, hpath, parse_archivePath hdt]
  exact decide_eq_true hold

/-- Four numbers with the suffix of the archive. -/
theorem exists_numbers_of_parse {path : List FileName} (h : parseArchiveHourMs u path ≠ .ok none) :
    ∃ year month day filename, path = [year, month, day, filename] ∧
      (u.isdigit year && u.isdigit month && u.isdigit day && u.isdigit (hourToken filename)) = true := by
  unfold parseArchiveHourMs at h
  split at h
  · rename_i year month day filename
    split_ifs at h with hdigits
    · exact ⟨year, month, day, filename, rfl, hdigits⟩
    · exact absurd rfl h
  · exact absurd rfl h

theorem parse_eq_of_numbers {year month day filename : FileName}
    (hdigits : (u.isdigit year && u.isdigit month && u.isdigit day &&
      u.isdigit (hourToken filename)) = true) :
    parseArchiveHourMs u [year, month, day, filename] =
      match archiveHour? u year month day (hourToken filename) with
      | some dt => .ok (some (dt.toTime / 1000))
      | none => .error .valueError := by
  rw [parseArchiveHourMs, if_pos hdigits]

/-- The archiver writes orderly paths. -/
theorem orderly_archivePath (hdt : OnHour dt) (rest : FileName) :
    Orderly u cutoffMs (archivePath dt ('.' :: rest)) := by
  have hyear := dt.year_mem
  have hmonth := dt.month_mem
  have hday := dt.day_lt
  have hhour := dt.hour_lt
  intro year month day filename hpath _ _
  simp only [archivePath, List.cons.injEq, and_true] at hpath
  obtain ⟨rfl, rfl, rfl, rfl⟩ := hpath
  rw [hourToken_padded]
  exact ⟨dt, hdt, u.int_padded (by omega), u.int_padded (by omega), u.int_padded (by omega),
    u.int_padded (by omega), fun _ => ⟨rfl, rfl, rfl, rfl⟩⟩

/-- So is a path that is not made of four names. -/
theorem orderly_of_length_ne {path : List FileName} (h : path.length ≠ 4) :
    Orderly u cutoffMs path := by
  rintro year month day filename rfl
  exact absurd rfl h

theorem not_raises_of_orderly (h : Orderly u cutoffMs entry.path) : ¬ Raises u entry := by
  rintro ⟨hcandidate, e, hparse⟩
  have hsome : parseArchiveHourMs u entry.path ≠ .ok none := by
    rw [hparse]
    exact fun h => by cases h
  obtain ⟨year, month, day, filename, hpath, hdigits⟩ := exists_numbers_of_parse hsome
  rw [isCandidate, Bool.and_eq_true, decide_eq_true_eq, hpath] at hcandidate
  obtain ⟨dt, hdt, hy, hm, hd, hh, -⟩ := h _ _ _ _ hpath (of_decide_eq_true hcandidate.2) hdigits
  rw [hpath, parse_eq_of_numbers hdigits, archiveHour?_eq_some_iff.2 ⟨hdt, hy, hm, hd, hh⟩] at hparse
  cases hparse

theorem point_mem_of_suffix {name : FileName} (h : suffix name ∈ archiveSuffixes) : '.' ∈ name := by
  by_contra hnone
  have htail : (name.reverse.takeWhile fun c => c ≠ '.') = name.reverse := by
    rw [List.takeWhile_eq_self_iff]
    intro c hc
    rw [decide_eq_true_eq]
    rintro rfl
    exact hnone (List.mem_reverse.1 hc)
  rw [suffix, htail, List.reverse_reverse, if_pos (.inr (Nat.le_succ _))] at h
  revert h
  decide

/-- The name of a file is the hour, a point and the rest. -/
theorem exists_rest {name : FileName} (h : suffix name ∈ archiveSuffixes) :
    ∃ rest, name = hourToken name ++ '.' :: rest := by
  have hsplit := List.takeWhile_append_dropWhile (p := fun c => decide (c ≠ '.')) (l := name)
  cases hrest : name.dropWhile fun c => decide (c ≠ '.') with
  | nil =>
    rw [List.dropWhile_eq_nil_iff] at hrest
    exact absurd (hrest _ (point_mem_of_suffix h)) (by decide)
  | cons c rest =>
    have hpoint := List.head?_dropWhile_not (fun c => decide (c ≠ '.')) name
    rw [hrest] at hpoint hsplit
    have hc : c = '.' := by simpa using hpoint
    rw [hc] at hsplit
    exact ⟨rest, hsplit.symm⟩

theorem expired_of_deletes (horderly : Orderly u cutoffMs entry.path)
    (h : Storage.deletes u cutoffMs entry = true) : Expired cutoffMs entry.path := by
  rw [Storage.deletes, Bool.and_eq_true] at h
  obtain ⟨hcandidate, hold⟩ := h
  have hnumbers : parseArchiveHourMs u entry.path ≠ .ok none := by
    intro hnone
    rw [hnone] at hold
    cases hold
  obtain ⟨year, month, day, filename, hpath, hdigits⟩ := exists_numbers_of_parse hnumbers
  rw [isCandidate, Bool.and_eq_true, hpath] at hcandidate
  have hsuffix : suffix filename ∈ archiveSuffixes := of_decide_eq_true hcandidate.2
  obtain ⟨dt, hdt, hy, hm, hd, hh, hpadded⟩ := horderly _ _ _ _ hpath hsuffix hdigits
  rw [hpath, parse_eq_of_numbers hdigits,
    archiveHour?_eq_some_iff.2 ⟨hdt, hy, hm, hd, hh⟩] at hold
  have hold : dt.toTime / 1000 < cutoffMs := of_decide_eq_true hold
  obtain ⟨rfl, rfl, rfl, hhour⟩ := hpadded hold
  obtain ⟨rest, hname⟩ := exists_rest hsuffix
  rw [hhour] at hname
  refine ⟨dt, rest, hdt, ?_, ?_, hold⟩
  · rw [hpath, archivePath, ← hname]
  · rw [← hname]
    exact hsuffix

/-- What the pruner does to a tree without an entry at which it raises. -/
theorem pruneArchiveFiles_of_not_raises (cutoffMs : ℤ) (h : ∀ entry ∈ tree, ¬ Raises u entry) :
    (∃ n, (pruneArchiveFiles u cutoffMs tree).deleted = .ok n) ∧ ∀ entry : Entry,
      entry.kind = .file → (entry ∈ (pruneArchiveFiles u cutoffMs tree).tree ↔
        entry ∈ tree ∧ deletes u cutoffMs entry = false) := by
  obtain ⟨n, hloop⟩ := pruneFiles_of_not_raises cutoffMs h
  rw [pruneArchiveFiles, hloop]
  refine ⟨⟨n, rfl⟩, fun entry hfile => ?_⟩
  rw [mem_removeDirectories hfile, List.mem_filter, Bool.not_eq_true']

theorem orderly_of_prunesExactly (h : PrunesExactly u cutoffMs tree) (hentry : entry ∈ tree)
    (hfile : entry.kind = .file) : Orderly u cutoffMs entry.path := by
  have hnone : ∀ entry ∈ tree, ¬ Raises u entry := by
    intro entry' hentry' hraises
    obtain ⟨kept, e, hloop⟩ := pruneFiles_of_raises cutoffMs ⟨entry', hentry', hraises⟩
    obtain ⟨n, hok⟩ := h.1
    rw [pruneArchiveFiles, hloop] at hok
    cases hok
  intro year month day filename hpath hsuffix hdigits
  have hcandidate : isCandidate entry = true := by
    rw [isCandidate, hfile, hpath]
    exact decide_eq_true hsuffix
  have hparse := parse_eq_of_numbers hdigits
  cases hhour : archiveHour? u year month day (hourToken filename) with
  | none =>
    rw [hhour, ← hpath] at hparse
    exact absurd ⟨hcandidate, _, hparse⟩ (hnone entry hentry)
  | some dt =>
    obtain ⟨hdt, hy, hm, hd, hh⟩ := archiveHour?_eq_some_iff.1 hhour
    refine ⟨dt, hdt, hy, hm, hd, hh, fun hold => ?_⟩
    rw [hhour, ← hpath] at hparse
    have hdeletes : deletes u cutoffMs entry = true := by
      rw [deletes, hcandidate, hparse]
      exact decide_eq_true hold
    -- a deleted file is one that was to be deleted
    have hexpired : Expired cutoffMs entry.path := by
      by_contra hkeep
      have hkept := (h.2 entry hfile).2 ⟨hentry, hkeep⟩
      have hleft := (((pruneArchiveFiles_of_not_raises cutoffMs hnone).2 entry hfile).1
        hkept).2
      cases hdeletes.symm.trans hleft
    obtain ⟨dt', rest, hdt', hpath', -, -⟩ := hexpired
    rw [hpath, archivePath] at hpath'
    obtain ⟨rfl, rfl, rfl, rfl⟩ : year = padded 4 dt'.year ∧ month = padded 2 dt'.month ∧
        day = padded 2 dt'.day ∧ filename = padded 2 dt'.hour ++ '.' :: rest := by
      simpa using hpath'
    rw [hourToken_padded, archiveHour?_padded hdt', Option.some_inj] at hhour
    subst hhour
    exact ⟨rfl, rfl, rfl, hourToken_padded _ _ _⟩

theorem prunesExactly_of_orderly
    (h : ∀ entry ∈ tree, entry.kind = .file → Orderly u cutoffMs entry.path) :
    PrunesExactly u cutoffMs tree := by
  have hnone : ∀ entry ∈ tree, ¬ Raises u entry := by
    intro entry hentry hraises
    have hfile : entry.kind = .file := by
      have hcandidate := hraises.1
      rw [isCandidate, Bool.and_eq_true, decide_eq_true_eq] at hcandidate
      exact hcandidate.1
    exact not_raises_of_orderly (h entry hentry hfile) hraises
  obtain ⟨hok, hmem⟩ := pruneArchiveFiles_of_not_raises cutoffMs hnone
  refine ⟨hok, fun entry hfile => ?_⟩
  rw [hmem entry hfile]
  refine and_congr_right fun hentry => ?_
  rw [← Bool.not_eq_true, not_iff_not]
  exact ⟨expired_of_deletes (h entry hentry hfile), Expired.deletes hfile⟩

/-- Every hour is read off the paths it is written to.  The pruner does what it is for exactly on
the trees whose files of four numbers denote hours, and write them in full when they are old. -/
theorem prunesExactly_iff (u : Unicode) (cutoffMs : ℤ) (tree : Tree) :
    (∀ hourStartMs path, hourMs ∣ hourStartMs →
      parquetPath hourStartMs = some path ∨ marketsPath hourStartMs = some path →
        parseArchiveHourMs u path = .ok (some hourStartMs)) ∧
    (PrunesExactly u cutoffMs tree ↔
      ∀ entry ∈ tree, entry.kind = .file → Orderly u cutoffMs entry.path) :=
  ⟨fun _ _ hhour => parse_written hhour,
    fun h _ hentry => orderly_of_prunesExactly h hentry, prunesExactly_of_orderly⟩

namespace Sample

/-- The digits of ASCII only. -/
def ascii : Unicode where
  isDigit := Char.isDigit
  decimal c := if c.isDigit then some (c.toNat - 48) else none
  isDigit_digit := by decide
  decimal_digit := by decide

def fileAt (year month day filename : String) : Entry :=
  ⟨[year.toList, month.toList, day.toList, filename.toList], .file⟩

/-- The hour after `DateTime.leapDay`. -/
def later : DateTime := { DateTime.leapDay with hour := 13, hour_lt := by omega }

/-- An old file of the archive, a younger one, and one that is not of the archive. -/
def leapAndLater : Tree :=
  [⟨archivePath DateTime.leapDay ".parquet".toList, .file⟩,
    ⟨archivePath later ".markets.json".toList, .file⟩, ⟨["notes.json".toList], .file⟩]

/-- A file in the folder of a thirteenth month, and one of the archive after it. -/
def thirteenthMonth : Tree :=
  [fileAt "2024" "13" "01" "00.json", fileAt "2024" "12" "01" "00.parquet"]

end Sample

theorem prunesExactly_iff_written :
    parseArchiveHourMs Sample.ascii (archivePath DateTime.leapDay ".parquet".toList) =
      .ok (some 1709208000000) ∧
    PrunesExactly Sample.ascii 1709210000000 Sample.leapAndLater ∧
    (pruneArchiveFiles Sample.ascii 1709210000000 Sample.leapAndLater).tree =
      [⟨archivePath Sample.later ".markets.json".toList, .file⟩, ⟨["notes.json".toList], .file⟩] := by
  obtain ⟨hwritten, hiff⟩ := prunesExactly_iff Sample.ascii 1709210000000 Sample.leapAndLater
  refine ⟨hwritten 1709208000000 _ (by decide) (.inl ?_), hiff.2 fun entry hentry _ => ?_,
    by decide +kernel⟩
  · have htime : DateTime.leapDay.toTime = 1709208000000 * 1000 := by decide +kernel
    rw [parquetPath, DateTime.ofTime?_eq_some_iff.2 htime]
    rfl
  · simp only [Sample.leapAndLater, List.mem_cons, List.not_mem_nil, or_false] at hentry
    rcases hentry with rfl | rfl | rfl
    · exact orderly_archivePath ⟨rfl, rfl, rfl⟩ "parquet".toList
    · exact orderly_archivePath ⟨rfl, rfl, rfl⟩ "markets.json".toList
    · exact orderly_of_length_ne (by decide)

/-- The thirteenth month stops the pruner. -/
theorem not_prunesExactly : ¬ ∀ (u : Unicode) (cutoffMs : ℤ) (tree : Tree),
    PrunesExactly u cutoffMs tree := by
  intro h
  obtain ⟨⟨n, hok⟩, -⟩ := h Sample.ascii 1800000000000 Sample.thirteenthMonth
  have hraises : Raises Sample.ascii (Sample.fileAt "2024" "13" "01" "00.json") := by
    refine ⟨by decide +kernel, .valueError, ?_⟩
    have hdigits : (Sample.ascii.isdigit "2024".toList && Sample.ascii.isdigit "13".toList &&
      Sample.ascii.isdigit "01".toList &&
        Sample.ascii.isdigit (hourToken "00.json".toList)) = true := by decide +kernel
    have hnone : archiveHour? Sample.ascii "2024".toList "13".toList "01".toList
      (hourToken "00.json".toList) = none := by rfl
    rw [Sample.fileAt, parse_eq_of_numbers hdigits, hnone]
  obtain ⟨kept, e, hloop⟩ := pruneFiles_of_raises 1800000000000
    ⟨_, List.mem_cons_self, hraises⟩
  rw [Sample.thirteenthMonth, pruneArchiveFiles, hloop] at hok
  cases hok

end Sentinel.Storage
