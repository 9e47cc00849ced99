import Sentinel.Notifications.Dispatcher
import Sentinel.Storage.Pruning

/-!
# The files of the alerts

`JsonFileNotifier.send` writes an alert to a file that is named after its time and its asset;
`RetentionManager._parse_alert_ts_ms` reads the time off the name, or takes the time of the last
change when the name does not begin with a number.

* `alertFileName`, `parseAlertTsMs`: the name that is written and what is read off it.
* `parse_alertFileName`: a time that is not negative is read back.
* `alertFileName_inj`: alerts of different times or assets have different files.
-/

namespace Sentinel.Notifications

open Logic Contracts Processing Storage

/-! ## Numbers as they are printed -/

theorem digitChar_eq_digit {d : ℕ} (hd : d < 10) : d.digitChar = digit d := by
  have h : ∀ d < 10, Nat.digitChar d = digit d := by decide
  exact h d hd

theorem toDigits_of_lt {n : ℕ} (h : n < 10) : Nat.toDigits 10 n = [digit n] := by
  rw [Nat.toDigits_of_lt_base h, digitChar_eq_digit h]

theorem toDigits_of_le {n : ℕ} (h : 10 ≤ n) :
    Nat.toDigits 10 n = Nat.toDigits 10 (n / 10) ++ [digit (n % 10)] := by
  rw [Nat.toDigits_of_base_le (by omega) h, digitChar_eq_digit (Nat.mod_lt _ (by omega))]

/-- What is printed is read as a number. -/
theorem isdigit_toDigits (u : Unicode) (n : ℕ) : u.isdigit (Nat.toDigits 10 n) = true := by
  have hall : (Nat.toDigits 10 n).all u.isDigit = true := by
    induction n using Nat.strong_induction_on with
    | _ n ih =>
      by_cases h : n < 10
      · rw [toDigits_of_lt h, List.all_cons, u.isDigit_digit n h]
        rfl
      · rw [toDigits_of_le (by omega), List.all_append, ih _ (by omega), List.all_cons,
          u.isDigit_digit _ (Nat.mod_lt _ (by omega))]
        rfl
  have hne : Nat.toDigits 10 n ≠ [] := by
    by_cases h : n < 10
    · rw [toDigits_of_lt h]
      simp
    · rw [toDigits_of_le (by omega)]
      simp
  rw [Unicode.isdigit, hall, Bool.and_true, Bool.not_eq_true', List.isEmpty_eq_false_iff]
  exact hne

theorem int_toDigits (u : Unicode) (n : ℕ) : u.int (Nat.toDigits 10 n) = some n := by
  induction n using Nat.strong_induction_on with
  | _ n ih =>
    by_cases h : n < 10
    · have hone : u.int ([] ++ [digit n]) = some n := by
        rw [u.int_concat, u.decimal_digit n h]
        simp [Unicode.int]
      rw [toDigits_of_lt h]
      exact hone
    · rw [toDigits_of_le (by omega), u.int_concat, ih _ (by omega),
        u.decimal_digit _ (Nat.mod_lt _ (by omega)), Option.bind_some, Option.map_some,
        Nat.div_add_mod]

/-- `str` of an integer. -/
def printed (k : ℤ) : List Char := (toString k).toList

theorem printed_natCast (n : ℕ) : printed n = Nat.toDigits 10 n := by
  unfold printed
  rw [Int.toString_eq_repr]
  show (Nat.repr n).toList = _
  rw [Nat.toList_repr]

theorem printed_negSucc (n : ℕ) : printed (.negSucc n) = '-' :: Nat.toDigits 10 (n + 1) := by
  unfold printed
  rw [Int.toString_eq_repr]
  show (("-" : String) ++ Nat.repr (n + 1)).toList = _
  rw [String.toList_append, Nat.toList_repr]
  rfl

theorem not_mem_toDigits {c : Char} (hc : c.isDigit = false) (n : ℕ) : c ∉ Nat.toDigits 10 n := by
  intro h
  have hdigit := Nat.isDigit_of_mem_toDigits (by decide) (by decide) h
  rw [hc] at hdigit
  cases hdigit

theorem toDigits_inj {m n : ℕ} (h : Nat.toDigits 10 m = Nat.toDigits 10 n) : m = n := by
  have hread := congrArg (fun digits => Nat.ofDigitChars 10 digits 0) h
  simpa using hread

theorem underscore_not_mem_printed (k : ℤ) : '_' ∉ printed k := by
  cases k with
  | ofNat n =>
    rw [Int.ofNat_eq_natCast, printed_natCast]
    exact not_mem_toDigits rfl n
  | negSucc n =>
    rw [printed_negSucc, List.mem_cons]
    rintro (h | h)
    · exact absurd h (by decide)
    · exact not_mem_toDigits rfl _ h

theorem printed_inj {j k : ℤ} (h : printed j = printed k) : j = k := by
  have hsign : ∀ m n : ℕ, Nat.toDigits 10 m ≠ '-' :: Nat.toDigits 10 n := by
    intro m n h
    refine not_mem_toDigits (c := '-') rfl m ?_
    rw [h]
    exact List.mem_cons_self
  cases j with
  | ofNat m =>
    rw [Int.ofNat_eq_natCast, printed_natCast] at h
    cases k with
    | ofNat n =>
      rw [Int.ofNat_eq_natCast, printed_natCast] at h
      rw [toDigits_inj h]
    | negSucc n =>
      rw [printed_negSucc] at h
      exact absurd h (hsign _ _)
  | negSucc m =>
    rw [printed_negSucc] at h
    cases k with
    | ofNat n =>
      rw [Int.ofNat_eq_natCast, printed_natCast] at h
      exact absurd h.symm (hsign _ _)
    | negSucc n =>
      rw [printed_negSucc] at h
      have hmn := toDigits_inj (List.cons.inj h).2
      have heq : m = n := by omega
      rw [heq]

/-! ## The names -/

def jsonSuffix : List Char := ".json".toList

/-- `f"{alert.timestamp_ms}_{alert.market['asset_id']}.json"`. -/
def alertFileName (timestampMs : ℤ) (assetId : List Char) : FileName :=
  printed timestampMs ++ '_' :: (assetId ++ jsonSuffix)

/-- `alert.market['asset_id']` as it is printed; none if there is no such key. -/
def assetText (py : Builtins) (alert : ShiftAlert) : Option (List Char) :=
  (alert.market.lookup (.other "asset_id")).map fun value => (py.str value).toList

/-- `path.stem`. -/
def stem (name : FileName) : FileName := name.take (name.length - (suffix name).length)

/-- `_parse_alert_ts_ms` of a file that was last changed at `mtimeMs`, or that is gone. -/
def parseAlertTsMs (u : Unicode) (name : FileName) (mtimeMs : Option ℤ) :
    Except ParseError (Option ℤ) :=
  let number := (stem name).takeWhile fun c => c ≠ '_'
  if u.isdigit number then
    match u.int number with
    | some n => .ok (some n)
    | none => .error .valueError
  else .ok mtimeMs

/-- The last point of a name begins the suffix. -/
theorem suffix_point {name ext : List Char} (hname : name ≠ []) (hext : ext ≠ []) (h : '.' ∉ ext) :
    suffix (name ++ '.' :: ext) = '.' :: ext := by
  have htail : ((name ++ '.' :: ext).reverse.takeWhile fun c => decide (c ≠ '.')) = ext.reverse := by
    rw [List.reverse_append, List.reverse_cons, List.append_assoc, List.takeWhile_append_of_pos]
    · simp
    · intro c hc
      rw [decide_eq_true_eq]
      rintro rfl
      exact h (List.mem_reverse.mp hc)
  have hlen : 0 < name.length := List.length_pos_iff.mpr hname
  have hlength : (name ++ '.' :: ext).length = name.length + (ext.length + 1) := List.length_append
  rw [suffix, htail, List.reverse_reverse, if_neg]
  rintro (hnil | hle)
  · exact hext hnil
  · omega

theorem suffix_json {name : List Char} (h : name ≠ []) : suffix (name ++ jsonSuffix) = jsonSuffix :=
  suffix_point h (by decide) (by decide)

theorem stem_json {name : List Char} (h : name ≠ []) : stem (name ++ jsonSuffix) = name := by
  rw [stem, suffix_json h, List.length_append, Nat.add_sub_cancel, List.take_left']
  rfl

theorem alertFileName_eq (timestampMs : ℤ) (assetId : List Char) : alertFileName timestampMs assetId =
    (printed timestampMs ++ '_' :: assetId) ++ jsonSuffix := by
  rw [alertFileName, List.append_assoc, List.cons_append]

/-- The part of the name before the first underscore is the time. -/
theorem number_alertFileName (timestampMs : ℤ) (assetId : List Char) :
    (stem (alertFileName timestampMs assetId)).takeWhile (fun c => c ≠ '_') = printed timestampMs := by
  rw [alertFileName_eq, stem_json (by simp), List.takeWhile_append_of_pos]
  · simp
  · intro c hc
    rw [decide_eq_true_eq]
    rintro rfl
    exact underscore_not_mem_printed _ hc

/-- The time is read back. -/
theorem parse_alertFileName (u : Unicode) {timestampMs : ℤ} (h : 0 ≤ timestampMs)
    (assetId : List Char) (mtimeMs : Option ℤ) :
    parseAlertTsMs u (alertFileName timestampMs assetId) mtimeMs = .ok (some timestampMs) := by
  obtain ⟨n, rfl⟩ := Int.eq_ofNat_of_zero_le h
  dsimp only [parseAlertTsMs]
  rw [number_alertFileName, printed_natCast, isdigit_toDigits, int_toDigits]
  rfl

/-- A name that begins with a sign has no number. -/
theorem parse_alertFileName_of_neg {u : Unicode} (hminus : u.isDigit '-' = false) {timestampMs : ℤ}
    (h : timestampMs < 0) (assetId : List Char) (mtimeMs : Option ℤ) :
    parseAlertTsMs u (alertFileName timestampMs assetId) mtimeMs = .ok mtimeMs := by
  obtain ⟨n, rfl⟩ := Int.eq_negSucc_of_lt_zero h
  dsimp only [parseAlertTsMs]
  rw [number_alertFileName, printed_negSucc, Unicode.isdigit, List.all_cons, hminus, Bool.false_and,
    Bool.and_false]
  rfl

theorem alertFileName_inj {j k : ℤ} {a b : List Char} (h : alertFileName j a = alertFileName k b) :
    j = k ∧ a = b := by
  have hnumber : printed j = printed k := by
    rw [← number_alertFileName j a, h, number_alertFileName]
  obtain rfl := printed_inj hnumber
  rw [alertFileName, alertFileName, List.append_cancel_left_eq] at h
  exact ⟨rfl, List.append_cancel_right (List.cons.inj h).2⟩

/-- `root.glob("*.json")` lists the file. -/
theorem jsonSuffix_suffix (timestampMs : ℤ) (assetId : List Char) :
    jsonSuffix.isSuffixOf (alertFileName timestampMs assetId) = true := by
  rw [alertFileName_eq, List.isSuffixOf_iff_suffix]
  exact List.suffix_append _ _

end Sentinel.Notifications
