import Sentinel.Processing.Interleaved

/-!
# Scans that fail

`scan_once` starts the cooldown of an asset and a level, stores the event of the alert, and passes all
stored alerts to the dispatcher at its end.  When `insert_shift_event` raises, the scan ends there.

* `scanOnceStep`: one scan, with what happens at its waits.
* `EatsNothing`: what was stored is passed on, and only what was passed on is armed.
* `eatsNothing_iff`: so it is just when no call of `insert_shift_event` raises.
-/

namespace Sentinel.Processing

open Logic Ingestion ShiftDetector

/-- An alert, with the asset and the level whose cooldown it has started. -/
structure ArmedAlert : Type where
  assetId : String
  level : AlertLevel
  alert : ShiftAlert

def ArmedAlert.key (x : ArmedAlert) : String × AlertLevel := (x.assetId, x.level)

inductive ScanPhase : Type
  | running | returned | raised
  deriving DecidableEq

structure ScanOnce : Type where
  loop : Interleaving
  /-- Whose cooldowns were started. -/
  armed : List ArmedAlert
  /-- `alerts`: whose events were stored. -/
  stored : List ArmedAlert
  /-- What `dispatch_many` was called with. -/
  dispatched : List ArmedAlert
  phase : ScanPhase

/-- The steps of the scan, and of other tasks at its waits. -/
inductive ScanEvent : Type
  | ingest (nowMs : ℤ) (tick : PriceTick)
  | remove (assetId : String)
  | nextAsset (pruneMs skipMs : ℤ) (market : Option MarketMetadata)
  /-- `fault`: a call of `insert_shift_event` raises. -/
  | nextLevel (nowMs : ℤ) (market : Option MarketMetadata) (fault : Bool)
  | dispatch

/-- The scan has come to its end, by a return or an exception. -/
def ScanOnce.Ended (s : ScanOnce) : Prop := s.phase ≠ .running

section Steps

variable (py : AlertBuiltins) (cfg : DetectorConfig)

/-- The scan when it has read the buffers. -/
def scanBegun (w : Interleaving) : ScanOnce :=
  ⟨loopStep py cfg w .beginScan, [], [], [], .running⟩

/-- The cooldown is started before the event is stored. -/
def stepLevelOrRaise (nowMs : ℤ) (market : Option MarketMetadata) (fault : Bool) (s : ScanOnce) :
    ScanOnce :=
  match s.loop.levels with
  | [] => s
  | (assetId, id, level) :: _ =>
    let loop := loopStep py cfg s.loop (.nextLevel nowMs market)
    match (s.loop.detector.maybeCreateAlert py cfg nowMs market assetId id level).2 with
    | none => { s with loop := loop }
    | some (_, alert) =>
      let armed := s.armed ++ [⟨assetId, level, alert⟩]
      if fault then { s with loop := loop, armed := armed, phase := .raised }
      else { s with loop := loop, armed := armed, stored := s.stored ++ [⟨assetId, level, alert⟩] }

def scanOnceStep (s : ScanOnce) : ScanEvent → ScanOnce
  | .ingest nowMs tick => { s with loop := loopStep py cfg s.loop (.ingest nowMs tick) }
  | .remove assetId => { s with loop := loopStep py cfg s.loop (.remove assetId) }
  | .nextAsset pruneMs skipMs market =>
    if s.phase = .running then
      { s with loop := loopStep py cfg s.loop (.nextAsset pruneMs skipMs market) }
    else s
  | .nextLevel nowMs market fault =>
    if s.phase = .running then stepLevelOrRaise py cfg nowMs market fault s else s
  | .dispatch =>
    if s.phase = .running ∧ s.loop.levels = [] ∧ s.loop.pending = [] then
      { s with dispatched := s.stored, phase := .returned }
    else s

end Steps

/-! ## What is asked of a scan -/

/-- What the scan has stored is passed to the dispatcher, and a cooldown is started only for an alert
that is stored and passed to the dispatcher. -/
structure EatsNothing (s : ScanOnce) : Prop where
  stored : ∀ x ∈ s.stored, x ∈ s.dispatched
  armed : ∀ x ∈ s.armed, x ∈ s.stored ∧ x ∈ s.dispatched

/-- The step calls `insert_shift_event`, and the call raises: there is a shift, and its cooldown is
over. -/
def InsertRaises (cfg : DetectorConfig) (s : ScanOnce) : ScanEvent → Prop
  | .nextLevel nowMs market fault => fault = true ∧ s.phase = .running ∧
    ∃ item ∈ s.loop.levels.head?, s.loop.detector.Shifted cfg market item.1 item.2.1 item.2.2 ∧
      ¬ s.loop.detector.OnCooldown nowMs item.1 item.2.2
  | _ => False

/-- The pairs of an asset and a level that the scan has still to look at. -/
def remaining (w : Interleaving) : List (String × AlertLevel) :=
  (w.levels.map fun item => (item.1, item.2.2)) ++
    w.pending.flatMap fun item => scanOrder.map fun level => (item.1, level)

/-- How far the alerts have come, by the phase of the scan. -/
def Progress (s : ScanOnce) : Prop :=
  match s.phase with
  | .running => s.stored = s.armed
  | .returned => s.stored = s.armed ∧ s.dispatched = s.armed
  | .raised => ∃ x, s.armed = s.stored ++ [x]

/-- No pair is looked at twice. -/
structure ScanInv (s : ScanOnce) : Prop where
  keys : (s.armed.map ArmedAlert.key ++ remaining s.loop).Nodup
  progress : Progress s

section Proofs

variable {py : AlertBuiltins} {cfg : DetectorConfig} {s : ScanOnce} {w : Interleaving}

theorem nodup_remaining_beginScan (py : AlertBuiltins) (cfg : DetectorConfig) (w : Interleaving) :
    (remaining (loopStep py cfg w .beginScan)).Nodup := by
  show ([] ++ w.detector.barsByAsset.items.flatMap _).Nodup
  rw [List.nil_append, List.nodup_flatMap]
  constructor
  · intro item _
    exact List.Nodup.map (fun level level' h => (Prod.mk.inj h).2) (by decide)
  · have hnodup := w.detector.barsByAsset.nodup
    rw [List.nodup_iff_pairwise_ne, List.pairwise_map] at hnodup
    refine hnodup.imp fun {item item'} hne => ?_
    intro p hp hp'
    obtain ⟨level, -, rfl⟩ := List.mem_map.mp hp
    obtain ⟨level', -, heq⟩ := List.mem_map.mp hp'
    exact hne (Prod.mk.inj heq).1.symm

theorem scanInv_begun : ScanInv (scanBegun py cfg w) :=
  ⟨nodup_remaining_beginScan py cfg w, rfl⟩

/-- The levels of the next asset are looked at, or the asset is skipped. -/
theorem remaining_nextAsset {pruneMs skipMs : ℤ} {market : Option MarketMetadata} :
    List.Sublist (remaining (loopStep py cfg w (.nextAsset pruneMs skipMs market))) (remaining w) := by
  rw [loopStep, stepAsset]
  split
  · next a id pending hlevels hpending =>
    rw [remaining, remaining, hlevels, hpending, List.map_nil, List.nil_append, List.flatMap_cons]
    dsimp only
    split_ifs
    · rw [List.map_nil, List.nil_append]
      exact List.sublist_append_right _ _
    · rw [List.map_map]
      exact List.Sublist.refl _
  · exact List.Sublist.refl _

/-- What a look at a level does to the scan. -/
theorem stepLevelOrRaise_cases (py : AlertBuiltins) (cfg : DetectorConfig) (s : ScanOnce)
    (nowMs : ℤ) (market : Option MarketMetadata) (fault : Bool) :
    (s.loop.levels = [] ∧ stepLevelOrRaise py cfg nowMs market fault s = s) ∨
    ∃ a id level levels, s.loop.levels = (a, id, level) :: levels ∧
      ((¬ (s.loop.detector.Shifted cfg market a id level ∧
            ¬ s.loop.detector.OnCooldown nowMs a level) ∧
          stepLevelOrRaise py cfg nowMs market fault s =
            { s with loop := loopStep py cfg s.loop (.nextLevel nowMs market) }) ∨
        (s.loop.detector.Shifted cfg market a id level ∧
            ¬ s.loop.detector.OnCooldown nowMs a level) ∧ ∃ alert,
          stepLevelOrRaise py cfg nowMs market fault s =
            { s with
              loop := loopStep py cfg s.loop (.nextLevel nowMs market)
              armed := s.armed ++ [⟨a, level, alert⟩]
              stored := if fault then s.stored else s.stored ++ [⟨a, level, alert⟩]
              phase := if fault then .raised else s.phase }) := by
  cases hlevels : s.loop.levels with
  | nil =>
    refine Or.inl ⟨rfl, ?_⟩
    rw [stepLevelOrRaise, hlevels]
  | cons item levels =>
    obtain ⟨a, id, level⟩ := item
    refine Or.inr ⟨a, id, level, levels, rfl, ?_⟩
    rcases maybeCreateAlert_cases py cfg s.loop.detector nowMs market a id level with
      ⟨heq, hnot⟩ | ⟨delta, m, tick, -, hshifted, hcool, -, -, heq⟩
    · refine Or.inl ⟨hnot, ?_⟩
      simp only [stepLevelOrRaise, hlevels, heq]
    · refine Or.inr ⟨⟨hshifted, hcool⟩, shiftAlert py cfg nowMs a level delta m tick, ?_⟩
      simp only [stepLevelOrRaise, hlevels, heq]
      cases fault <;> rfl

/-- A look at a level is the first of what remains. -/
theorem remaining_nextLevel {a : String} {id : ℕ} {level : AlertLevel}
    {levels : List (String × ℕ × AlertLevel)} {nowMs : ℤ} {market : Option MarketMetadata}
    (h : w.levels = (a, id, level) :: levels) :
    remaining w = (a, level) :: remaining (loopStep py cfg w (.nextLevel nowMs market)) := by
  rw [loopStep, stepLevel, h, remaining, h]
  rfl

theorem ScanInv.nextLevel (h : ScanInv s) (hrunning : s.phase = .running) (nowMs : ℤ)
    (market : Option MarketMetadata) (fault : Bool) :
    ScanInv (stepLevelOrRaise py cfg nowMs market fault s) := by
  have hprogress : s.stored = s.armed := by
    have hp := h.progress
    rwa [Progress, hrunning] at hp
  rcases stepLevelOrRaise_cases py cfg s nowMs market fault with
    ⟨-, heq⟩ | ⟨a, id, level, levels, hlevels, hcases⟩
  · rw [heq]
    exact h
  · have hkeys := h.keys
    rw [@remaining_nextLevel py cfg s.loop a id level levels nowMs market hlevels] at hkeys
    rcases hcases with ⟨-, heq⟩ | ⟨-, alert, heq⟩
    · rw [heq]
      refine ⟨hkeys.sublist ?_, ?_⟩
      · exact (List.Sublist.refl _).append (List.sublist_cons_self _ _)
      · rw [Progress, hrunning]
        exact hprogress
    · rw [heq]
      refine ⟨?_, ?_⟩
      · simp only [List.map_append, List.append_assoc]
        exact hkeys
      · cases fault with
        | true => exact ⟨_, by rw [hprogress]; rfl⟩
        | false =>
          simp only [Progress, hrunning, Bool.false_eq_true, if_false]
          rw [hprogress]

theorem ScanInv.step (h : ScanInv s) (e : ScanEvent) : ScanInv (scanOnceStep py cfg s e) := by
  cases e with
  | ingest nowMs tick => exact ⟨h.keys, h.progress⟩
  | remove assetId => exact ⟨h.keys, h.progress⟩
  | nextAsset pruneMs skipMs market =>
    rw [scanOnceStep]
    split_ifs
    · exact ⟨h.keys.sublist ((List.Sublist.refl _).append (@remaining_nextAsset py cfg _ _ _ _)), h.progress⟩
    · exact h
  | nextLevel nowMs market fault =>
    rw [scanOnceStep]
    split_ifs with hrunning
    · exact h.nextLevel hrunning nowMs market fault
    · exact h
  | dispatch =>
    rw [scanOnceStep]
    split_ifs with hend
    · have hp := h.progress
      rw [Progress, hend.1] at hp
      exact ⟨h.keys, hp, hp⟩
    · exact h

/-- The step is the one that ends the scan with an exception just if an insert raises. -/
theorem raised_step (h : s.phase ≠ .raised) (e : ScanEvent) :
    (scanOnceStep py cfg s e).phase ≠ .raised ↔ ¬ InsertRaises cfg s e := by
  cases e with
  | ingest nowMs tick => exact iff_of_true h id
  | remove assetId => exact iff_of_true h id
  | nextAsset pruneMs skipMs market =>
    rw [scanOnceStep]
    split_ifs <;> exact iff_of_true h id
  | dispatch =>
    rw [scanOnceStep]
    split_ifs
    · exact iff_of_true (by simp) id
    · exact iff_of_true h id
  | nextLevel nowMs market fault =>
    rw [scanOnceStep, InsertRaises]
    by_cases hrunning : s.phase = .running
    · rw [if_pos hrunning]
      rcases stepLevelOrRaise_cases py cfg s nowMs market fault with
        ⟨hnil, heq⟩ | ⟨a, id, level, levels, hlevels, hcases⟩
      · rw [heq, hnil]
        exact iff_of_true h (by simp)
      · rw [hlevels]
        rcases hcases with ⟨hnot, heq⟩ | ⟨hshift, alert, heq⟩
        · rw [heq]
          refine iff_of_true h ?_
          rintro ⟨-, -, item, hitem, hshift⟩
          obtain rfl := Option.some.inj hitem
          exact hnot hshift
        · rw [heq]
          cases fault with
          | true =>
            refine iff_of_false (fun hne => hne rfl) (fun hno => hno ?_)
            exact ⟨rfl, hrunning, _, rfl, hshift⟩
          | false => exact iff_of_true h (by simp)
    · rw [if_neg hrunning]
      exact iff_of_true h fun hraises => hrunning hraises.2.1

/-- A scan that has ended eats nothing just if it has returned. -/
theorem ScanInv.eats_iff_raised (h : ScanInv s) (hended : s.Ended) :
    EatsNothing s ↔ s.phase ≠ .raised := by
  have hp := h.progress
  unfold Progress at hp
  cases hphase : s.phase with
  | running => exact absurd hphase hended
  | returned =>
    rw [hphase] at hp
    obtain ⟨hstored, hdispatched⟩ := hp
    refine iff_of_true ⟨fun x hx => ?_, fun x hx => ?_⟩ (by simp)
    · rw [hdispatched, ← hstored]
      exact hx
    · rw [hdispatched, hstored]
      exact ⟨hx, hx⟩
  | raised =>
    rw [hphase] at hp
    obtain ⟨x, harmed⟩ := hp
    refine iff_of_false (fun heats => ?_) (fun hne => hne rfl)
    -- the cooldown of the last alert is started, and the alert is not stored
    have hstored : x ∈ s.stored := (heats.armed x (by rw [harmed]; simp)).1
    have hkeys := h.keys
    rw [harmed, List.map_append, List.append_assoc, List.nodup_append] at hkeys
    exact hkeys.2.2 x.key (List.mem_map_of_mem hstored) x.key (by simp) rfl

/-- A scan eats no alert if and only if no call of `insert_shift_event` in it raises.  The scan is on
any buffers, cooldowns and markets, at any times, with whatever other tasks do at its waits. -/
theorem eatsNothing_iff (py : AlertBuiltins) (cfg : DetectorConfig) (w : Interleaving)
    (es : List ScanEvent) (hended : (es.foldl (scanOnceStep py cfg) (scanBegun py cfg w)).Ended) :
    EatsNothing (es.foldl (scanOnceStep py cfg) (scanBegun py cfg w)) ↔ ∀ es' e, es' ++ [e] <+: es →
      ¬ InsertRaises cfg (es'.foldl (scanOnceStep py cfg) (scanBegun py cfg w)) e := by
  have hinv : ∀ es : List ScanEvent, ScanInv (es.foldl (scanOnceStep py cfg) (scanBegun py cfg w)) := by
    intro es
    refine (reach_foldl es).invariant scanInv_begun ?_
    intro s e _ _ h
    exact h.step e
  have hraised : ∀ (s : ScanOnce) (e : ScanEvent), s.phase = .raised →
      (scanOnceStep py cfg s e).phase = .raised := by
    intro s e hs
    cases e <;> simp [scanOnceStep, hs]
  have hall : (∀ es', es' <+: es →
        (es'.foldl (scanOnceStep py cfg) (scanBegun py cfg w)).phase ≠ .raised) ↔
      (scanBegun py cfg w).phase ≠ .raised ∧ ∀ es' e, es' ++ [e] <+: es →
        ¬ InsertRaises cfg (es'.foldl (scanOnceStep py cfg) (scanBegun py cfg w)) e :=
    @foldl_invariant_iff _ _ (scanOnceStep py cfg) (scanBegun py cfg w)
      (fun s => s.phase ≠ .raised) (fun _ => True) (fun s e => ¬ InsertRaises cfg s e)
      (fun _ _ _ => trivial) (fun s e _ hs => raised_step hs e) es trivial
  rw [(hinv es).eats_iff_raised hended]
  constructor
  · intro hreturned
    refine (hall.mp fun es' hpre => ?_).2
    intro hes'
    obtain ⟨rest, rfl⟩ := hpre
    refine hreturned ?_
    rw [List.foldl_append]
    generalize es'.foldl (scanOnceStep py cfg) (scanBegun py cfg w) = s at hes'
    clear hended hreturned hall
    induction rest generalizing s with
    | nil => exact hes'
    | cons e rest ih => exact ih _ (hraised s e hes')
  · intro hno
    exact hall.mpr ⟨by simp [scanBegun], hno⟩ es List.prefix_rfl

/-- Whether or not the event of an alert is stored, there is no other alert of its asset and level
before the cooldown is over. -/
theorem suppressed_of_armed {a : String} {id : ℕ} {level : AlertLevel}
    {levels : List (String × ℕ × AlertLevel)} {nowMs laterMs : ℤ} {market : Option MarketMetadata}
    (fault : Bool) (hlevels : s.loop.levels = (a, id, level) :: levels)
    (hshifted : s.loop.detector.Shifted cfg market a id level)
    (hcool : ¬ s.loop.detector.OnCooldown nowMs a level)
    (hlater : laterMs < nowMs + cfg.cooldownSec * 1000) :
    (stepLevelOrRaise py cfg nowMs market fault s).loop.detector.OnCooldown laterMs a level := by
  have hloop : (stepLevelOrRaise py cfg nowMs market fault s).loop =
      loopStep py cfg s.loop (.nextLevel nowMs market) := by
    rcases stepLevelOrRaise_cases py cfg s nowMs market fault with
      ⟨hnil, -⟩ | ⟨a, id, level, levels, -, ⟨-, heq⟩ | ⟨-, alert, heq⟩⟩
    · rw [hnil] at hlevels
      cases hlevels
    · rw [heq]
    · rw [heq]
  have hdetector : (loopStep py cfg s.loop (.nextLevel nowMs market)).detector =
      (s.loop.detector.maybeCreateAlert py cfg nowMs market a id level).1 := by
    rw [loopStep, stepLevel, hlevels]
  rw [OnCooldown, hloop, hdetector]
  rcases maybeCreateAlert_cases py cfg s.loop.detector nowMs market a id level with
    ⟨-, hnot⟩ | ⟨delta, m, tick, -, -, -, -, -, heq⟩
  · exact absurd ⟨hshifted, hcool⟩ hnot
  · rw [heq, OrderedMap.get_set_self]
    exact hlater

end Proofs

namespace Sample

/-- Two ticks that are a shift at every level. -/
def shiftedLoop : Interleaving :=
  [LoopEvent.ingest 1000500 (quotedTick (1 / 10) 1000500),
    LoopEvent.ingest 1001500 (quotedTick (1 / 5) 1001500)].foldl
    (loopStep alertBuiltins detectorConfig) (loopStart 1000000)

/-- A scan with one insert for every level. -/
def scanWith (faults : List Bool) : List ScanEvent :=
  .nextAsset 1002000 1002000 (some (Storage.Sample.market "a" "q")) ::
    (faults.map fun fault => .nextLevel 1002000 (some (Storage.Sample.market "a" "q")) fault) ++
    [.dispatch]

def scanAfter (faults : List Bool) : ScanOnce :=
  (scanWith faults).foldl (scanOnceStep alertBuiltins detectorConfig)
    (scanBegun alertBuiltins detectorConfig shiftedLoop)

end Sample

theorem eatsNothing_iff_stored : (Sample.scanAfter [false, false, false]).dispatched.length = 3 ∧
    (EatsNothing (Sample.scanAfter [false, false, false]) ↔
      ∀ es' e, es' ++ [e] <+: Sample.scanWith [false, false, false] →
        ¬ InsertRaises Sample.detectorConfig (es'.foldl (scanOnceStep Sample.alertBuiltins
          Sample.detectorConfig) (scanBegun Sample.alertBuiltins Sample.detectorConfig
            Sample.shiftedLoop)) e) :=
  ⟨by decide +kernel, eatsNothing_iff Sample.alertBuiltins Sample.detectorConfig Sample.shiftedLoop
    (Sample.scanWith [false, false, false]) (by rw [ScanOnce.Ended]; decide +kernel)⟩

/-- The second insert raises: the first alert is stored and not passed on, and the cooldown of the
second is started. -/
theorem scan_eats : ¬ ∀ (w : Interleaving) (es : List ScanEvent),
    (es.foldl (scanOnceStep Sample.alertBuiltins Sample.detectorConfig)
      (scanBegun Sample.alertBuiltins Sample.detectorConfig w)).Ended →
    EatsNothing (es.foldl (scanOnceStep Sample.alertBuiltins Sample.detectorConfig)
      (scanBegun Sample.alertBuiltins Sample.detectorConfig w)) := by
  intro h
  have heats : EatsNothing (Sample.scanAfter [false, true]) :=
    h Sample.shiftedLoop (Sample.scanWith [false, true]) (by rw [ScanOnce.Ended]; decide +kernel)
  have hstored : (Sample.scanAfter [false, true]).stored.length = 1 := by decide +kernel
  have hdispatched : (Sample.scanAfter [false, true]).dispatched.length = 0 := by decide +kernel
  obtain ⟨x, hx⟩ := List.exists_mem_of_length_pos (by rw [hstored]; exact Nat.one_pos)
  have hmem := heats.stored x hx
  rw [List.length_eq_zero_iff.mp hdispatched] at hmem
  exact absurd hmem List.not_mem_nil

end Sentinel.Processing
