import Sentinel.Processing.Interleaved

/-!
# The deques through a run

Every step of `Interleaving` puts a tick in one deque, drops the old bars of one deque, or leaves
them all.

* `Kept`: a deque that is not in use has no ticks, and the latest tick of an asset is the last one
  of its deque.
* `dequeRule`: what an empty deque satisfies, and ticks and pruning keep, is true of every deque.
-/

namespace Sentinel.Processing

open Logic Ingestion ShiftDetector

/-! ## The deques after a step of the detector -/

section Detector

variable {cfg : DetectorConfig} {d : ShiftDetector} {nowMs : ℤ} {tick : PriceTick} {a : String}
  {id id' : ℕ}

theorem bars_unused (h : d.deques.length ≤ id) : d.bars id = [] := by
  simp [ShiftDetector.bars, List.getElem?_eq_none h]

theorem dequeFor_of_get (h : d.barsByAsset.get a = some id) : d.dequeFor a = id := by
  rw [dequeFor, h, Option.getD_some]

theorem dequeFor_of_none (h : d.barsByAsset.get a = none) : d.dequeFor a = d.deques.length := by
  rw [dequeFor, h, Option.getD_none]

theorem OwnDeques.bars_ingestTick (h : OwnDeques d) (cfg : DetectorConfig) (nowMs : ℤ)
    (tick : PriceTick) (id : ℕ) :
    (d.ingestTick cfg nowMs tick).bars id =
      if id = d.dequeFor tick.assetId then pruneBars cfg nowMs (upsertBar (d.bars id) tick)
      else d.bars id := by
  cases hget : d.barsByAsset.get tick.assetId with
  | some id' =>
    rw [dequeFor_of_get hget, ShiftDetector.ingestTick, hget]
    split_ifs with hid
    · subst hid
      exact bars_set_self (d := d) (h.valid _ _ hget)
    · exact bars_set_ne hid
  | none =>
    rw [dequeFor_of_none hget, ShiftDetector.ingestTick, hget]
    split_ifs with hid
    · subst hid
      rw [bars_unused le_rfl]
      simp [ShiftDetector.bars]
    · rcases Nat.lt_or_gt_of_ne hid with hlt | hgt
      · simp [ShiftDetector.bars, List.getElem?_append_left hlt]
      · rw [bars_unused hgt.le]
        exact bars_unused (by simpa using Nat.succ_le_of_lt hgt)

theorem bars_openAsset (d : ShiftDetector) (cfg : DetectorConfig) (nowMs : ℤ)
    (market : Option MarketMetadata) (a : String) (id id' : ℕ) :
    (d.openAsset cfg nowMs market a id).1.bars id' =
      if id' = id then pruneBars cfg nowMs (d.bars id) else d.bars id' := by
  rw [openAsset]
  by_cases hempty : d.bars id = []
  · rw [if_pos hempty, hempty]
    split_ifs with hid
    · rw [hid, hempty]
      rfl
    · rfl
  · have hvalid : id < d.deques.length := by
      by_contra hge
      exact hempty (bars_unused (not_lt.mp hge))
    have hset : ({ d with deques := d.deques.set id (pruneBars cfg nowMs (d.bars id)) } :
        ShiftDetector).bars id' = if id' = id then pruneBars cfg nowMs (d.bars id) else d.bars id' := by
      split_ifs with hid
      · subst hid
        exact bars_set_self hvalid
      · exact bars_set_ne hid
    rw [if_neg hempty]
    dsimp only
    split_ifs at hset ⊢ <;> exact hset

theorem openAsset_map {market : Option MarketMetadata} :
    ((d.openAsset cfg nowMs market a id).1.barsByAsset = d.barsByAsset ∧
      (d.openAsset cfg nowMs market a id).1.latestTickByAsset = d.latestTickByAsset) ∨
    ((d.openAsset cfg nowMs market a id).1.barsByAsset = d.barsByAsset.erase a ∧
      (d.openAsset cfg nowMs market a id).1.latestTickByAsset = d.latestTickByAsset.erase a) := by
  rw [openAsset]
  dsimp only
  split_ifs
  · exact Or.inl ⟨rfl, rfl⟩
  · exact Or.inr ⟨rfl, rfl⟩
  · exact Or.inl ⟨rfl, rfl⟩

theorem length_openAsset {market : Option MarketMetadata} :
    (d.openAsset cfg nowMs market a id).1.deques.length = d.deques.length := by
  rw [openAsset]
  dsimp only
  split_ifs
  · rfl
  · exact List.length_set
  · exact List.length_set

theorem maybeCreateAlert_frame (py : AlertBuiltins) (cfg : DetectorConfig) (d : ShiftDetector)
    (nowMs : ℤ) (market : Option MarketMetadata) (a : String) (id : ℕ) (level : AlertLevel) :
    (d.maybeCreateAlert py cfg nowMs market a id level).1.deques = d.deques ∧
    (d.maybeCreateAlert py cfg nowMs market a id level).1.barsByAsset = d.barsByAsset ∧
    (d.maybeCreateAlert py cfg nowMs market a id level).1.latestTickByAsset = d.latestTickByAsset := by
  rcases maybeCreateAlert_cases py cfg d nowMs market a id level with
    ⟨heq, -⟩ | ⟨delta, m, tick, -, -, -, -, -, heq⟩
  · rw [heq]
    exact ⟨rfl, rfl, rfl⟩
  · rw [heq]
    exact ⟨rfl, rfl, rfl⟩

end Detector

/-! ## What a step does with the deques -/

section Steps

variable {py : AlertBuiltins} {cfg : DetectorConfig} {w w' : Interleaving} {e : LoopEvent}
  {startMs : ℤ}

/-- The deque that an event puts a tick in or drops bars of, and when. -/
def prunedBy (w : Interleaving) : LoopEvent → Option (ℕ × ℤ)
  | .ingest nowMs tick => some (w.detector.dequeFor tick.assetId, nowMs)
  | .nextAsset pruneMs _ _ =>
    if w.levels = [] then w.pending.head?.map fun (_, id) => (id, pruneMs) else none
  | _ => none

/-- The clock does not go back. -/
def Forward (w : Interleaving) : LoopEvent → Prop
  | .ingest nowMs _ => w.clockMs ≤ nowMs
  | .nextAsset pruneMs skipMs _ => w.clockMs ≤ pruneMs ∧ pruneMs ≤ skipMs
  | .nextLevel nowMs _ => w.clockMs ≤ nowMs
  | _ => True

instance : ∀ (w : Interleaving) (e : LoopEvent), Decidable (Forward w e) := by
  intro w e
  unfold Forward
  split <;> infer_instance

structure Kept (w : Interleaving) : Prop where
  own : OwnDeques w.detector
  unused : ∀ id, w.detector.deques.length ≤ id → w.ticks id = []
  latest : ∀ a id, w.detector.barsByAsset.get a = some id →
    w.detector.latestTickByAsset.get a = (w.ticks id).getLast?

/-- A step of a scan changes no ticks, and takes at most one asset off both maps. -/
theorem Kept.frame (h : Kept w) (hlength : w'.detector.deques.length = w.detector.deques.length)
    (hticks : w'.ticks = w.ticks) {a : String}
    (hmap : (w'.detector.barsByAsset = w.detector.barsByAsset ∧
        w'.detector.latestTickByAsset = w.detector.latestTickByAsset) ∨
      (w'.detector.barsByAsset = w.detector.barsByAsset.erase a ∧
        w'.detector.latestTickByAsset = w.detector.latestTickByAsset.erase a)) : Kept w' := by
  have hsub : ∀ b id, w'.detector.barsByAsset.get b = some id →
      w.detector.barsByAsset.get b = some id ∧
        w'.detector.latestTickByAsset.get b = w.detector.latestTickByAsset.get b := by
    intro b id hb
    rcases hmap with ⟨hbars, hlatest⟩ | ⟨hbars, hlatest⟩
    · rw [hbars] at hb
      exact ⟨hb, by rw [hlatest]⟩
    · rw [hbars, OrderedMap.get_erase] at hb
      split_ifs at hb with hne
      rw [hlatest, OrderedMap.get_erase, if_neg hne]
      exact ⟨hb, rfl⟩
  refine ⟨⟨fun b id hb => ?_, fun b c id hb hc => ?_⟩, fun id hid => ?_, fun b id hb => ?_⟩
  · rw [hlength]
    exact h.own.valid b id (hsub b id hb).1
  · exact h.own.own b c id (hsub b id hb).1 (hsub c id hc).1
  · rw [hticks]
    exact h.unused id (hlength ▸ hid)
  · rw [(hsub b id hb).2, hticks]
    exact h.latest b id (hsub b id hb).1

theorem Kept.ingest (h : Kept w) {nowMs : ℤ} {tick : PriceTick} :
    Kept (loopStep py cfg w (.ingest nowMs tick)) := by
  have hown : OwnDeques (w.detector.ingestTick cfg nowMs tick) := h.own.ingestTick cfg
  have hmap : ∀ b id, (w.detector.ingestTick cfg nowMs tick).barsByAsset.get b = some id →
      if b = tick.assetId then id = w.detector.dequeFor b else w.detector.barsByAsset.get b = some id := by
    intro b id hb
    rw [ingestTick] at hb
    split_ifs with hne
    · subst hne
      cases hget : w.detector.barsByAsset.get tick.assetId with
      | some id' =>
        rw [hget] at hb
        rw [dequeFor_of_get hget]
        exact (Option.some.inj (hget.symm.trans hb)).symm
      | none =>
        rw [hget] at hb
        rw [dequeFor_of_none hget]
        exact (Option.some.inj (OrderedMap.get_set_self.symm.trans hb)).symm
    · cases hget : w.detector.barsByAsset.get tick.assetId with
      | some id' =>
        rw [hget] at hb
        exact hb
      | none =>
        rw [hget] at hb
        exact (OrderedMap.get_set_ne hne).symm.trans hb
  have hlatest : (w.detector.ingestTick cfg nowMs tick).latestTickByAsset =
      w.detector.latestTickByAsset.set tick.assetId tick := by
    rw [ingestTick]
    cases w.detector.barsByAsset.get tick.assetId <;> rfl
  have hlength : w.detector.deques.length ≤ (w.detector.ingestTick cfg nowMs tick).deques.length ∧
      w.detector.dequeFor tick.assetId < (w.detector.ingestTick cfg nowMs tick).deques.length := by
    rw [ingestTick]
    cases hget : w.detector.barsByAsset.get tick.assetId with
    | some id' =>
      rw [dequeFor_of_get hget]
      simpa using h.own.valid _ _ hget
    | none =>
      rw [dequeFor_of_none hget]
      simp
  refine ⟨hown, fun id hid => ?_, fun b id hb => ?_⟩
  · have hne : id ≠ w.detector.dequeFor tick.assetId := by
      rintro rfl
      exact absurd hlength.2 (not_lt.mpr hid)
    show Function.update w.ticks _ _ id = []
    rw [Function.update_of_ne hne]
    exact h.unused id (hlength.1.trans hid)
  · show (w.detector.ingestTick cfg nowMs tick).latestTickByAsset.get b =
      (Function.update w.ticks _ _ id).getLast?
    have hid := hmap b id hb
    rw [hlatest, OrderedMap.get_set]
    by_cases hne : b = tick.assetId
    · subst hne
      rw [if_pos rfl] at hid ⊢
      rw [hid, Function.update_self, List.getLast?_concat]
    · rw [if_neg hne] at hid ⊢
      have hid' : id ≠ w.detector.dequeFor tick.assetId := by
        rintro rfl
        cases hget : w.detector.barsByAsset.get tick.assetId with
        | some id' =>
          rw [dequeFor_of_get hget] at hid
          exact hne (h.own.own b _ id' hid hget)
        | none =>
          rw [dequeFor_of_none hget] at hid
          exact absurd (h.own.valid b _ hid) (lt_irrefl _)
      rw [Function.update_of_ne hid']
      exact h.latest b id hid

theorem Kept.step (h : Kept w) (e : LoopEvent) : Kept (loopStep py cfg w e) := by
  cases e with
  | ingest nowMs tick => exact h.ingest
  | remove a => exact h.frame rfl rfl (Or.inr ⟨rfl, rfl⟩)
  | beginScan => exact ⟨h.own, h.unused, h.latest⟩
  | nextAsset pruneMs skipMs market =>
    rw [loopStep, stepAsset]
    split
    · exact h.frame length_openAsset rfl openAsset_map
    · exact h
  | nextLevel nowMs market =>
    rw [loopStep, stepLevel]
    split
    · next a id level levels _ =>
      obtain ⟨hdeques, hbars, hlatest⟩ := maybeCreateAlert_frame py cfg w.detector nowMs market a id level
      exact h.frame (a := a) (congrArg List.length hdeques) rfl (Or.inl ⟨hbars, hlatest⟩)
    · exact h

theorem kept {C : Interleaving → LoopEvent → Prop}
    (h : Reach (loopStep py cfg) (loopStart startMs) C w) : Kept w :=
  h.invariant ⟨⟨fun _ _ h => (nomatch h), fun _ _ _ h => (nomatch h)⟩, fun _ _ => rfl,
    fun _ _ h => (nomatch h)⟩ fun _ e _ _ ih => ih.step e

/-! ## One deque -/

/-- What a step does with a deque. -/
inductive DequeStep (cfg : DetectorConfig) (id : ℕ) (w w' : Interleaving) (e : LoopEvent) : Prop
  | same (hnot : ∀ nowMs, prunedBy w e ≠ some (id, nowMs))
      (hbars : w'.detector.bars id = w.detector.bars id) (hticks : w'.ticks id = w.ticks id)
  | pruned (nowMs : ℤ) (hpruned : prunedBy w e = some (id, nowMs))
      (hbars : w'.detector.bars id = pruneBars cfg nowMs (w.detector.bars id))
      (hticks : w'.ticks id = w.ticks id)
  | ingested (nowMs : ℤ) (tick : PriceTick) (he : e = .ingest nowMs tick)
      (hid : w.detector.dequeFor tick.assetId = id)
      (hbars : w'.detector.bars id =
        pruneBars cfg nowMs (upsertBar (w.detector.bars id) tick))
      (hticks : w'.ticks id = w.ticks id ++ [tick])

theorem dequeStep (py : AlertBuiltins) (cfg : DetectorConfig) (h : Kept w) (e : LoopEvent) (id : ℕ) :
    DequeStep cfg id w (loopStep py cfg w e) e := by
  cases e with
  | ingest nowMs tick =>
    have hbars := h.own.bars_ingestTick cfg nowMs tick id
    by_cases hid : id = w.detector.dequeFor tick.assetId
    · rw [if_pos hid] at hbars
      subst hid
      exact .ingested nowMs tick rfl rfl hbars (Function.update_self ..)
    · rw [if_neg hid] at hbars
      refine .same (fun nowMs' heq => hid ?_) hbars (Function.update_of_ne hid ..)
      exact (Prod.mk.inj (Option.some.inj heq)).1.symm
  | remove a => exact .same (fun _ h => (by cases h)) rfl rfl
  | beginScan => exact .same (fun _ h => (by cases h)) rfl rfl
  | nextAsset pruneMs skipMs market =>
    rw [loopStep, stepAsset]
    split
    · next a id' pending hlevels hpending =>
      have hpruned : prunedBy w (.nextAsset pruneMs skipMs market) = some (id', pruneMs) := by
        rw [prunedBy, if_pos hlevels, hpending]
        rfl
      have hbars := bars_openAsset w.detector cfg pruneMs market a id' id
      by_cases hid : id = id'
      · subst hid
        rw [if_pos rfl] at hbars
        exact .pruned pruneMs hpruned hbars rfl
      · rw [if_neg hid] at hbars
        refine .same (fun nowMs heq => hid ?_) hbars rfl
        exact (Prod.mk.inj (Option.some.inj (hpruned.symm.trans heq))).1.symm
    · next hnot =>
      refine .same (fun nowMs heq => ?_) rfl rfl
      rw [prunedBy] at heq
      split_ifs at heq with hlevels
      cases hpending : w.pending with
      | nil =>
        rw [hpending] at heq
        cases heq
      | cons p pending => exact hnot p.1 p.2 pending hlevels hpending
  | nextLevel nowMs market =>
    refine .same (fun _ h => (by cases h)) ?_ ?_
    · rw [loopStep, stepLevel]
      split
      · next a id' level levels _ =>
        obtain ⟨hdeques, -⟩ := maybeCreateAlert_frame py cfg w.detector nowMs market a id' level
        exact congrFun (bars_congr hdeques) id
      · rfl
    · rw [loopStep, stepLevel]
      split <;> rfl

theorem Forward.step (py : AlertBuiltins) (cfg : DetectorConfig) (h : Forward w e) :
    w.clockMs ≤ (loopStep py cfg w e).clockMs ∧
    ∀ id nowMs, prunedBy w e = some (id, nowMs) →
      w.clockMs ≤ nowMs ∧ nowMs ≤ (loopStep py cfg w e).clockMs := by
  cases e with
  | ingest nowMs tick =>
    refine ⟨h, fun id nowMs' heq => ?_⟩
    obtain ⟨-, rfl⟩ := Prod.mk.inj (Option.some.inj heq)
    exact ⟨h, le_rfl⟩
  | remove a => exact ⟨le_rfl, fun _ _ h => (by cases h)⟩
  | beginScan => exact ⟨le_rfl, fun _ _ h => (by cases h)⟩
  | nextAsset pruneMs skipMs market =>
    obtain ⟨hprune, hskip⟩ := h
    rw [loopStep, stepAsset]
    split
    · next a id' pending hlevels hpending =>
      refine ⟨hprune.trans hskip, fun id nowMs heq => ?_⟩
      rw [prunedBy, if_pos hlevels, hpending] at heq
      obtain ⟨-, rfl⟩ := Prod.mk.inj (Option.some.inj heq)
      exact ⟨hprune, hskip⟩
    · next hnot =>
      refine ⟨le_rfl, fun id nowMs heq => ?_⟩
      rw [prunedBy] at heq
      split_ifs at heq with hlevels
      cases hpending : w.pending with
      | nil =>
        rw [hpending] at heq
        cases heq
      | cons p pending => exact absurd hpending (hnot p.1 p.2 pending hlevels)
  | nextLevel nowMs market =>
    refine ⟨?_, fun _ _ h => (by cases h)⟩
    rw [loopStep, stepLevel]
    split
    · exact h
    · exact le_rfl

/-- The rule of invariants for a deque, its ticks and the clock. -/
theorem dequeRule {P : ℤ → List SecondBar → List PriceTick → Prop}
    {C : Interleaving → LoopEvent → Prop} (id : ℕ) (hforward : ∀ w e, C w e → Forward w e)
    (hempty : ∀ nowMs, P nowMs [] [])
    (hmono : ∀ {nowMs nowMs' bars ticks}, nowMs ≤ nowMs' → P nowMs bars ticks → P nowMs' bars ticks)
    (hprune : ∀ {nowMs bars ticks}, P nowMs bars ticks → P nowMs (pruneBars cfg nowMs bars) ticks)
    (hingest : ∀ {w : Interleaving} {nowMs tick}, C w (.ingest nowMs tick) →
      w.detector.dequeFor tick.assetId = id → P nowMs (w.detector.bars id) (w.ticks id) →
      P nowMs (pruneBars cfg nowMs (upsertBar (w.detector.bars id) tick)) (w.ticks id ++ [tick]))
    (h : Reach (loopStep py cfg) (loopStart startMs) C w) :
    P w.clockMs (w.detector.bars id) (w.ticks id) := by
  refine Reach.invariant (I := fun w => P w.clockMs (w.detector.bars id) (w.ticks id)) h
    (hempty startMs) fun w e hw he ih => ?_
  obtain ⟨hclock, hpruneClock⟩ := (hforward w e he).step py cfg
  cases dequeStep py cfg (kept hw) e id with
  | same _ hbars hticks =>
    rw [hbars, hticks]
    exact hmono hclock ih
  | pruned nowMs hpruned hbars hticks =>
    obtain ⟨hbefore, hafter⟩ := hpruneClock id nowMs hpruned
    rw [hbars, hticks]
    exact hmono hafter (hprune (hmono hbefore ih))
  | ingested nowMs tick heq hid hbars hticks =>
    subst heq
    rw [hbars, hticks]
    exact hingest he hid (hmono hclock ih)

end Steps

end Sentinel.Processing
