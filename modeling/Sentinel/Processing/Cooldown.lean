import Sentinel.Processing.Interleaved

/-!
# The cooldown

`alerts_apart`: however ticks, removals and the steps of scans come, and whatever the clock says, two
alerts of an asset at a level without a removal between them are at least `cooldown_sec` apart, and
nothing but time is needed for the next one.
-/

namespace Sentinel.Processing

open Logic Ingestion ShiftDetector

/-! ## What is asked of the alerts -/

/-- Two alerts of an asset at a level between which it was not removed are the cooldown apart. -/
def Spaced (cfg : DetectorConfig) (log : List Note) : Prop :=
  ∀ ⦃a level l₁ x l₂ y l₃⦄, log = l₁ ++ Note.created a level x :: (l₂ ++ Note.created a level y :: l₃) →
    Note.removed a ∉ l₂ → x.timestampMs + cfg.cooldownSec * 1000 ≤ y.timestampMs

/-- After the last alert, what makes an alert makes one again just from the end of the cooldown. -/
def FreeAgain (py : AlertBuiltins) (cfg : DetectorConfig) (w : Interleaving) : Prop :=
  ∀ ⦃a level l₁ x l₂⦄, w.log = l₁ ++ Note.created a level x :: l₂ → Note.removed a ∉ l₂ →
    (∀ y, Note.created a level y ∉ l₂) → ∀ nowMs market id, w.detector.Shifted cfg market a id level →
      ((w.detector.maybeCreateAlert py cfg nowMs market a id level).2.isSome ↔
        x.timestampMs + cfg.cooldownSec * 1000 ≤ nowMs)

/-- The hash keeps the alerts apart that differ in asset, level or time. -/
def NoCollision (py : AlertBuiltins) (log : List Note) : Prop :=
  ∀ ⦃a level x a' level' x'⦄, Note.created a level x ∈ log → Note.created a' level' x' ∈ log →
    py.alertId a level x.timestampMs = py.alertId a' level' x'.timestampMs →
      a = a' ∧ level = level' ∧ x.timestampMs = x'.timestampMs

/-- Two alerts of an asset at a level between which it was not removed have different ids. -/
def OwnIds (log : List Note) : Prop :=
  ∀ ⦃a level l₁ x l₂ y l₃⦄, log = l₁ ++ Note.created a level x :: (l₂ ++ Note.created a level y :: l₃) →
    Note.removed a ∉ l₂ → x.alertId ≠ y.alertId

/-! ## What a step does with the cooldowns -/

section Steps

variable (py : AlertBuiltins) (cfg : DetectorConfig)

/-- The id of an alert is made of its asset, its level and its time. -/
def Stamped (log : List Note) : Prop :=
  ∀ ⦃a level x⦄, Note.created a level x ∈ log → x.alertId = py.alertId a level x.timestampMs

/-- An alert starts the cooldown, a removal ends it. -/
inductive Cooled (w w' : Interleaving) : Prop
  | quiet (hcooldowns : w'.detector.cooldowns = w.detector.cooldowns) (hlog : w'.log = w.log)
  | removed (a : String)
      (hcooldowns : w'.detector.cooldowns = w.detector.cooldowns.filterKeys fun key => key.1 ≠ a)
      (hlog : w'.log = w.log ++ [.removed a])
  | created (a : String) (level : AlertLevel) (x : ShiftAlert)
      (hfree : ¬ w.detector.OnCooldown x.timestampMs a level)
      (hid : x.alertId = py.alertId a level x.timestampMs)
      (hcooldowns : w'.detector.cooldowns =
        w.detector.cooldowns.set (a, level) (x.timestampMs + cfg.cooldownSec * 1000))
      (hlog : w'.log = w.log ++ [.created a level x])

theorem cooldowns_ingestTick (d : ShiftDetector) (nowMs : ℤ) (tick : PriceTick) :
    (d.ingestTick cfg nowMs tick).cooldowns = d.cooldowns := by
  rw [ingestTick]
  cases d.barsByAsset.get tick.assetId <;> rfl

theorem cooldowns_openAsset (d : ShiftDetector) (nowMs : ℤ) (market : Option MarketMetadata)
    (a : String) (id : ℕ) : (d.openAsset cfg nowMs market a id).1.cooldowns = d.cooldowns := by
  rw [openAsset]
  dsimp only
  split_ifs <;> rfl

theorem cooled_step (w : Interleaving) (e : LoopEvent) : Cooled py cfg w (loopStep py cfg w e) := by
  cases e with
  | ingest nowMs tick => exact .quiet (cooldowns_ingestTick cfg w.detector nowMs tick) rfl
  | remove a => exact .removed a rfl rfl
  | beginScan => exact .quiet rfl rfl
  | nextAsset pruneMs skipMs market =>
    rw [loopStep, stepAsset]
    split
    · exact .quiet (cooldowns_openAsset cfg w.detector pruneMs market _ _) rfl
    · exact .quiet rfl rfl
  | nextLevel nowMs market =>
    rw [loopStep, stepLevel]
    split
    · next a id level levels hlevels =>
      rcases maybeCreateAlert_cases py cfg w.detector nowMs market a id level with
        ⟨heq, -⟩ | ⟨delta, m, tick, -, -, hfree, -, -, heq⟩
      · refine .quiet ?_ ?_
        · show (w.detector.maybeCreateAlert py cfg nowMs market a id level).1.cooldowns = _
          rw [heq]
        · show w.log ++ createdNote a level
            (w.detector.maybeCreateAlert py cfg nowMs market a id level).2 = _
          rw [heq]
          exact List.append_nil _
      · refine .created a level (shiftAlert py cfg nowMs a level delta m tick) hfree rfl ?_ ?_
        · show (w.detector.maybeCreateAlert py cfg nowMs market a id level).1.cooldowns = _
          rw [heq]
          rfl
        · show w.log ++ createdNote a level
            (w.detector.maybeCreateAlert py cfg nowMs market a id level).2 = _
          rw [heq]
          rfl
    · exact .quiet rfl rfl

end Steps

/-! ## The invariant -/

section Invariant

variable {py : AlertBuiltins} {cfg : DetectorConfig} {w w' : Interleaving} {startMs : ℤ}

/-- Until when an alert that was not followed by a removal keeps its successors off. -/
def Cools (cfg : DetectorConfig) (w : Interleaving) : Prop :=
  ∀ ⦃a level l₁ x l₂⦄, w.log = l₁ ++ Note.created a level x :: l₂ → Note.removed a ∉ l₂ →
    ∃ untilMs, w.detector.cooldowns.get (a, level) = some untilMs ∧
      x.timestampMs + cfg.cooldownSec * 1000 ≤ untilMs ∧
      ((∀ y, Note.created a level y ∉ l₂) → untilMs = x.timestampMs + cfg.cooldownSec * 1000)

/-- An element of a list with one more at the end is the last one or one of those before it. -/
theorem concat_eq_split {α : Type} {l l₁ l₂ : List α} {m n : α} (h : l ++ [n] = l₁ ++ m :: l₂) :
    (l₂ = [] ∧ l = l₁ ∧ n = m) ∨ ∃ l₃, l₂ = l₃ ++ [n] ∧ l = l₁ ++ m :: l₃ := by
  rcases List.eq_nil_or_concat' l₂ with rfl | ⟨l₃, n', rfl⟩
  · obtain ⟨hl, hn⟩ := List.append_inj' h rfl
    exact Or.inl ⟨rfl, hl, List.singleton_inj.mp hn⟩
  · have h' : l ++ [n] = (l₁ ++ m :: l₃) ++ [n'] := by rw [h, List.append_assoc, List.cons_append]
    obtain ⟨hl, hn⟩ := List.append_inj' h' rfl
    obtain rfl := List.singleton_inj.mp hn
    exact Or.inr ⟨l₃, rfl, hl⟩

theorem Cools.step (h : Cools cfg w) (hcooldown : 0 ≤ cfg.cooldownSec) (hstep : Cooled py cfg w w') :
    Cools cfg w' := by
  intro a level l₁ x l₂ hlog hkept
  cases hstep with
  | quiet hcooldowns hsame =>
    rw [hcooldowns]
    exact h (hsame ▸ hlog) hkept
  | removed b hcooldowns hnew =>
    rcases concat_eq_split (hnew.symm.trans hlog) with ⟨-, -, heq⟩ | ⟨l₃, rfl, hold⟩
    · cases heq
    · obtain ⟨untilMs, hget, hle, hlast⟩ := h hold fun hmem => hkept (List.mem_append_left _ hmem)
      have hne : a ≠ b := by
        rintro rfl
        exact hkept (List.mem_append_right _ List.mem_cons_self)
      refine ⟨untilMs, ?_, hle, fun hnone => hlast fun y hy => hnone y (List.mem_append_left _ hy)⟩
      rw [hcooldowns, OrderedMap.get_filterKeys, if_pos (by simpa using hne), hget]
  | created b level' z hfree hid hcooldowns hnew =>
    rcases concat_eq_split (hnew.symm.trans hlog) with ⟨rfl, -, heq⟩ | ⟨l₃, rfl, hold⟩
    · obtain ⟨rfl, rfl, rfl⟩ : b = a ∧ level' = level ∧ z = x := by simpa using heq
      refine ⟨_, ?_, le_rfl, fun _ => rfl⟩
      rw [hcooldowns, OrderedMap.get_set_self]
    · obtain ⟨untilMs, hget, hle, hlast⟩ := h hold fun hmem => hkept (List.mem_append_left _ hmem)
      by_cases hkey : (a, level) = (b, level')
      · obtain ⟨rfl, rfl⟩ := Prod.mk.inj hkey
        refine ⟨_, by rw [hcooldowns, OrderedMap.get_set_self], ?_, fun hnone => ?_⟩
        · -- the new alert is not before the end of the cooldown of the old one
          rw [OnCooldown, hget, Option.getD_some, not_lt] at hfree
          omega
        · exact absurd (List.mem_append_right _ List.mem_cons_self) (hnone z)
      · refine ⟨untilMs, ?_, hle,
          fun hnone => hlast fun y hy => hnone y (List.mem_append_left _ hy)⟩
        rw [hcooldowns, OrderedMap.get_set_ne hkey, hget]

theorem Spaced.step (h : Spaced cfg w.log) (hcools : Cools cfg w) (hstep : Cooled py cfg w w') :
    Spaced cfg w'.log := by
  intro a level l₁ x l₂ y l₃ hlog hkept
  have hsplit : ∀ n, w'.log = w.log ++ [n] →
      (n = Note.created a level y ∧ w.log = l₁ ++ Note.created a level x :: l₂) ∨
        ∃ l₄, w.log = l₁ ++ Note.created a level x :: (l₂ ++ Note.created a level y :: l₄) := by
    intro n hnew
    have hlog' : w.log ++ [n] = (l₁ ++ Note.created a level x :: l₂) ++ Note.created a level y :: l₃ := by
      rw [← hnew, hlog, List.append_assoc, List.cons_append]
    rcases concat_eq_split hlog' with ⟨-, hold, hn⟩ | ⟨l₄, -, hold⟩
    · exact Or.inl ⟨hn, hold⟩
    · exact Or.inr ⟨l₄, by rw [hold, List.append_assoc, List.cons_append]⟩
  cases hstep with
  | quiet hcooldowns hsame => exact h (hsame ▸ hlog) hkept
  | removed b hcooldowns hnew =>
    rcases hsplit _ hnew with ⟨hn, -⟩ | ⟨l₄, hold⟩
    · cases hn
    · exact h hold hkept
  | created b level' z hfree hid hcooldowns hnew =>
    rcases hsplit _ hnew with ⟨hn, hold⟩ | ⟨l₄, hold⟩
    · obtain ⟨rfl, rfl, rfl⟩ : b = a ∧ level' = level ∧ z = y := by simpa using hn
      obtain ⟨untilMs, hget, hle, -⟩ := hcools hold hkept
      rw [OnCooldown, hget, Option.getD_some, not_lt] at hfree
      exact hle.trans hfree
    · exact h hold hkept

theorem Stamped.step (h : Stamped py w.log) (hstep : Cooled py cfg w w') : Stamped py w'.log := by
  intro a level x hx
  cases hstep with
  | quiet hcooldowns hsame => exact h (hsame ▸ hx)
  | removed b hcooldowns hnew =>
    rw [hnew] at hx
    rcases List.mem_append.mp hx with hx | hx
    · exact h hx
    · cases List.mem_singleton.mp hx
  | created b level' z hfree hid hcooldowns hnew =>
    rw [hnew] at hx
    rcases List.mem_append.mp hx with hx | hx
    · exact h hx
    · obtain ⟨rfl, rfl, rfl⟩ : a = b ∧ level = level' ∧ x = z := by simpa using List.mem_singleton.mp hx
      exact hid

theorem cooling (h : Reach (loopStep py cfg) (loopStart startMs) Any w)
    (hcooldown : 0 ≤ cfg.cooldownSec) : Cools cfg w ∧ Spaced cfg w.log ∧ Stamped py w.log := by
  refine Reach.invariant (I := fun w => Cools cfg w ∧ Spaced cfg w.log ∧ Stamped py w.log) h
    ⟨fun a level l₁ x l₂ hlog => ?_, fun a level l₁ x l₂ y l₃ hlog => ?_,
      fun a level x hx => absurd hx List.not_mem_nil⟩ fun w e _ _ ih => ?_
  · exact absurd hlog (by simp [loopStart])
  · exact absurd hlog (by simp [loopStart])
  · have hstep := cooled_step py cfg w e
    exact ⟨ih.1.step hcooldown hstep, ih.2.1.step ih.1 hstep, ih.2.2.step hstep⟩

theorem alerts_apart (h : Reach (loopStep py cfg) (loopStart startMs) Any w)
    (hcooldown : 1 ≤ cfg.cooldownSec) :
    Spaced cfg w.log ∧ FreeAgain py cfg w ∧ (NoCollision py w.log → OwnIds w.log) := by
  obtain ⟨hcools, hspaced, hstamped⟩ := cooling h (zero_le_one.trans hcooldown)
  refine ⟨hspaced, fun a level l₁ x l₂ hlog hkept hlast nowMs market id hshifted => ?_,
    fun hhash a level l₁ x l₂ y l₃ hlog hkept hsame => ?_⟩
  · obtain ⟨untilMs, hget, -, huntil⟩ := hcools hlog hkept
    rw [maybeCreateAlert_isSome, and_iff_right hshifted, OnCooldown, hget, Option.getD_some, not_lt,
      huntil hlast]
  · have hx : Note.created a level x ∈ w.log := by simp [hlog]
    have hy : Note.created a level y ∈ w.log := by simp [hlog]
    rw [hstamped hx, hstamped hy] at hsame
    have hapart := hspaced hlog hkept
    have htime := (hhash hx hy hsame).2.2
    omega

end Invariant

namespace Sample

/-- Only the scout level is low enough. -/
def scoutConfig : DetectorConfig :=
  { detectorConfig with thresholds := fun level => ⟨600, if level = .scout then 5 else 500, 2⟩ }

/-- The digests that are needed below. -/
def digests : AlertBuiltins where
  alertId assetId level timestampMs :=
    if (assetId, level, timestampMs) = ("a", .scout, 1002000) then "aafc01398e97024d"
    else if (assetId, level, timestampMs) = ("a", .scout, 1062000) then "50ad16061cdaee02" else ""
  timestampIso _ := "now"

def scanAt (nowMs : ℤ) : List LoopEvent :=
  .beginScan :: .nextAsset nowMs nowMs (some (Storage.Sample.market "a" "q")) ::
    scanOrder.map fun _ => .nextLevel nowMs (some (Storage.Sample.market "a" "q"))

/-- The second scan is a millisecond too early. -/
def cooldownEvents : List LoopEvent :=
  [.ingest 1000500 (quotedTick (1 / 10) 1000500), .ingest 1001500 (quotedTick (1 / 5) 1001500)] ++
    scanAt 1002000 ++ scanAt 1061999 ++ scanAt 1062000

/-- What the hash is taken of. -/
def hashed : Note → Option (String × AlertLevel × ℤ)
  | .created assetId level alert => some (assetId, level, alert.timestampMs)
  | .removed _ => none

end Sample

theorem alerts_apart_exactly :
    let w := Sample.cooldownEvents.foldl (loopStep Sample.digests Sample.scoutConfig)
      (loopStart 1000000)
    w.log.filterMap Sample.hashed = [("a", .scout, 1002000), ("a", .scout, 1062000)] ∧
      Spaced Sample.scoutConfig w.log ∧ FreeAgain Sample.digests Sample.scoutConfig w ∧
      OwnIds w.log := by
  intro w
  have hlog : w.log.filterMap Sample.hashed =
      [("a", .scout, 1002000), ("a", .scout, 1062000)] := by decide +kernel
  have hhash : NoCollision Sample.digests w.log := by
    intro a level x a' level' x' hx hx' hsame
    have hkey := List.mem_filterMap.mpr ⟨_, hx, show Sample.hashed _ = some _ from rfl⟩
    have hkey' := List.mem_filterMap.mpr ⟨_, hx', show Sample.hashed _ = some _ from rfl⟩
    rw [hlog] at hkey hkey'
    simp only [List.mem_cons, List.not_mem_nil, or_false, Prod.mk.injEq] at hkey hkey'
    obtain ⟨rfl, rfl, hx⟩ | ⟨rfl, rfl, hx⟩ := hkey <;>
      obtain ⟨rfl, rfl, hx'⟩ | ⟨rfl, rfl, hx'⟩ := hkey' <;>
      simp_all [Sample.digests]
  have hreach : Reach (loopStep Sample.digests Sample.scoutConfig) (loopStart 1000000) Any w :=
    reach_foldl Sample.cooldownEvents
  obtain ⟨hspaced, hfree, hids⟩ := alerts_apart hreach (by decide)
  exact ⟨hlog, hspaced, hfree, hids hhash⟩

end Sentinel.Processing
