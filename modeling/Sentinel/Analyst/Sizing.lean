import Mathlib.Algebra.Order.Ring.Rat
import Mathlib.Tactic.Linarith
import Sentinel.Analyst.Built

/-!
# The size of a candidate

The analyst sizes every candidate by a rule of its own, a twentieth of the equity and at most nineteen
twentieths of the cash, and does not look at the limits of the executor.

* `SizeAgrees`: the size is positive and passes the two checks of it.
* `stored_sizes`: in every stored report the candidates do just if there is equity and cash, and the
  configured limit is not below what the rule gives.
-/

namespace Sentinel.Pipeline

open Logic Contracts PipelineDB

variable {host : Host} {C : State → PipelineEvent → Prop} {s : State} {log : Log}
  {portfolio : PortfolioSnapshot} {c : TradeCandidate}

/-! ## The checks of the size -/

/-- The names of the checks that compare the size with the snapshot alone. -/
def sizeChecks : List Text := [lit "max_position_pct", lit "cash_available"]

/-- Whenever the executor evaluates the candidate against the snapshot, these are passed. -/
def PassesSizeChecks (cfg : ExecutorSection) (portfolio : PortfolioSnapshot) (c : TradeCandidate) :
    Prop :=
  ∀ now breaker, ∃ checks, evaluate cfg now c portfolio breaker = .ok checks ∧
    ∀ check ∈ checks, check.name ∈ sizeChecks → check.passed = true

structure SizeAgrees (cfg : ExecutorSection) (portfolio : PortfolioSnapshot) (c : TradeCandidate) :
    Prop where
  positive : 0 < c.maxNotional
  passes : PassesSizeChecks cfg portfolio c

/-- There is equity and cash, and what the sizing rule gives is inside the configured limit. -/
structure WithinLimits (cfg : ExecutorSection) (portfolio : PortfolioSnapshot) : Prop where
  equity : 0 < portfolio.equity
  cash : 0 < portfolio.cash
  limit : 1 / 20 ≤ cfg.maxPositionPct ∨
    portfolio.cash * (19 / 20) ≤ portfolio.equity * cfg.maxPositionPct

/-- A candidate of the analyst can be evaluated. -/
theorem evaluate_buildCandidate (cfg : ExecutorSection) (analyst : AnalystSection)
    (hypothesis : AssetHypothesis) (snapshot : MarketDataSnapshot) (builtAt now : Time) (id : UUID)
    (breaker : CircuitBreakerState) :
    evaluate cfg now (buildCandidate analyst portfolio hypothesis snapshot builtAt id) portfolio
      breaker = .ok (riskChecks cfg now
        (buildCandidate analyst portfolio hypothesis snapshot builtAt id) portfolio breaker
        snapshot.lastPrice snapshot.quoteAgeSec) := by
  have hprice : candidateLastPrice (buildCandidate analyst portfolio hypothesis snapshot builtAt id) =
      some snapshot.lastPrice := rfl
  have hage : candidateQuoteAge (buildCandidate analyst portfolio hypothesis snapshot builtAt id) =
      some snapshot.quoteAgeSec := by
    show (JsonValue.orElse (some (.int snapshot.quoteAgeSec)) (.int 0)).pyInt = _
    by_cases hzero : snapshot.quoteAgeSec = 0
    · rw [hzero]
      rfl
    · simp [JsonValue.orElse, JsonValue.truthy, hzero, JsonValue.pyInt]
  rw [evaluate, hprice, hage]

theorem passesSizeChecks_iff {cfg : ExecutorSection} {analyst : AnalystSection}
    {hypothesis : AssetHypothesis} {snapshot : MarketDataSnapshot} {builtAt : Time} {id : UUID}
    (hc : c = buildCandidate analyst portfolio hypothesis snapshot builtAt id) :
    PassesSizeChecks cfg portfolio c ↔
      c.maxNotional ≤ portfolio.equity * cfg.maxPositionPct ∧ c.maxNotional ≤ portfolio.cash := by
  have heval : ∀ now breaker, evaluate cfg now c portfolio breaker =
      .ok (riskChecks cfg now c portfolio breaker snapshot.lastPrice snapshot.quoteAgeSec) := by
    intro now breaker
    rw [hc]
    exact evaluate_buildCandidate cfg analyst hypothesis snapshot builtAt now id breaker
  have hchecks : ∀ now breaker, (∀ check ∈ riskChecks cfg now c portfolio breaker snapshot.lastPrice
      snapshot.quoteAgeSec, check.name ∈ sizeChecks → check.passed = true) ↔
      c.maxNotional ≤ portfolio.equity * cfg.maxPositionPct ∧ c.maxNotional ≤ portfolio.cash := by
    intro now breaker
    simp [riskChecks, riskCheck, sizeChecks]
  constructor
  · intro h
    obtain ⟨checks, hok, hpassed⟩ := h 0 ⟨0, 0, none⟩
    rw [heval] at hok
    obtain rfl := Except.ok.inj hok
    exact (hchecks _ _).mp hpassed
  · exact fun h now breaker => ⟨_, heval now breaker, (hchecks now breaker).mpr h⟩

/-! ## The rule and the limits -/

theorem sizeAgrees_iff {cfg : ExecutorSection} {analyst : AnalystSection}
    {hypothesis : AssetHypothesis} {snapshot : MarketDataSnapshot} {builtAt : Time} {id : UUID}
    (hc : c = buildCandidate analyst portfolio hypothesis snapshot builtAt id) :
    SizeAgrees cfg portfolio c ↔ WithinLimits cfg portfolio := by
  have hsize : c.maxNotional = min (portfolio.equity * (1 / 20)) (portfolio.cash * (19 / 20)) := by
    rw [hc]
    rfl
  have hpasses : PassesSizeChecks cfg portfolio c ↔ _ := passesSizeChecks_iff hc
  constructor
  · rintro ⟨hpositive, h⟩
    obtain ⟨hlimit, -⟩ := hpasses.mp h
    rw [hsize] at hpositive hlimit
    obtain ⟨hequity', hcash'⟩ := lt_min_iff.mp hpositive
    have hequity'' : 0 < portfolio.equity := by linarith
    refine ⟨hequity'', by linarith, ?_⟩
    rcases min_le_iff.mp hlimit with h | h
    · exact Or.inl (le_of_mul_le_mul_left h hequity'')
    · exact Or.inr h
  · rintro ⟨hequity', hcash', hlimit⟩
    refine ⟨?_, hpasses.mpr ⟨?_, ?_⟩⟩
    · rw [hsize]
      exact lt_min (by linarith) (by linarith)
    · rw [hsize]
      rcases hlimit with h | h
      · exact (min_le_left _ _).trans (mul_le_mul_of_nonneg_left h hequity'.le)
      · exact (min_le_right _ _).trans h
    · rw [hsize]
      exact (min_le_right _ _).trans (by linarith)

/-! ## The reports -/

/-- The report is on the snapshot that was saved, and its candidates were built from it. -/
structure Sized (cfg : PipelineConfig) (log : Log) (portfolio : PortfolioSnapshot)
    (report : AnalysisReport) : Prop where
  saved : Answered log (.tx (.savePortfolioSnapshot portfolio)) report.portfolioSnapshotId
  built : ∀ c ∈ report.candidates, ∃ hypothesis snapshot builtAt id,
    c = buildCandidate cfg.analyst portfolio hypothesis snapshot builtAt id

/-- What the analyst completes its job with. -/
def Sizes (cfg : PipelineConfig) (log : Log) : Op → Prop
  | .tx (.completeJobSuccess _ (some envelope) _ _ _ _) => ∃ portfolio report,
    envelope.payload = AnalysisReport.contract.dump report ∧ Sized cfg log portfolio report
  | _ => True

theorem sizes_buildCandidates {cfg : PipelineConfig} {analyst : AnalystSection}
    {portfolio : PortfolioSnapshot} (hypotheses : List AssetHypothesis) :
    Always (Sizes cfg) (Returns fun _ p => ∀ c ∈ p.1, ∃ hypothesis snapshot builtAt id,
        c = buildCandidate analyst portfolio hypothesis snapshot builtAt id)
      (buildCandidates analyst portfolio hypotheses) log := by
  induction hypotheses generalizing log with
  | nil => exact fun c hc => absurd hc List.not_mem_nil
  | cons hypothesis hypotheses ih =>
    refine always_op trivial fun snapshot => always_op trivial fun t => always_op trivial fun id => ?_
    refine ih.bind (fun l p _ hl => ?_) fun l e _ hl => hl
    dsimp only
    split_ifs
    · intro c hc
      rcases List.mem_cons.mp hc with rfl | hc
      · exact ⟨hypothesis, snapshot, t, id, rfl⟩
      · exact hl c hc
    · exact hl

namespace AnalystWorker

theorem sizes_process {cfg : PipelineConfig} {lease : JobLease} :
    Always (Sizes cfg) (Clean fun _ _ => True) (process cfg lease) log := by
  simp only [process, getMessage, Prog.bind_def, Prog.bind_assoc]
  refine always_op trivial fun row => ?_
  cases row with
  | none => exact fun _ => trivial
  | some row =>
    refine always_op trivial fun alertId => ?_
    cases alertId with
    | none => exact fun _ => trivial
    | some alertId =>
      rw [Prog.getD, Prog.bind]
      refine always_getD_bind (fun report _ => ?_) fun _ _ => trivial
      refine always_op trivial fun portfolio => always_op trivial fun snapshotId => ?_
      refine (sizes_buildCandidates _).returns fun l p hpre hbuilt => ?_
      have hsaved : Answered l (.tx (.savePortfolioSnapshot portfolio)) snapshotId :=
        answered_last.prefix_of hpre
      simp only [childEnvelope, newEnvelope, completeJobSuccess, Prog.bind_def, Prog.bind_assoc]
      refine always_op trivial fun id => always_op trivial fun t => always_op trivial fun t' => ?_
      refine always_op ⟨portfolio, analysisReport snapshotId p.1 p.2, rfl, ?_, ?_⟩ fun out => ?_
      · exact hsaved.prefix_of (by simp [List.append_assoc])
      · intro c hc
        exact hbuilt c ((perm_sortedByScore p.1).subset hc)
      · cases out with
        | none => exact fun _ => trivial
        | some messageId => exact always_op trivial fun _ _ => trivial

theorem sizes_worker {cfg : PipelineConfig} {workerId : Text} :
    Always (Sizes cfg) (fun _ _ => True) (processNext cfg workerId) [] := by
  have htolerant : Tolerant fun (_ : Log) (_ : Except Exn Bool) => True := ⟨fun _ _ _ _ => trivial⟩
  simp only [processNext, Pipeline.processNext, leaseNextJob, Prog.bind_def, Prog.bind_assoc]
  refine always_op trivial fun t => always_op trivial fun lease => ?_
  cases lease with
  | none => trivial
  | some lease =>
    refine sizes_process.tryCatch (fun _ _ _ _ => trivial) fun l e _ _ =>
      always_retires fun l op hop => ?_
    cases op with
    | tx x => cases x <;> trivial
    | _ => trivial

end AnalystWorker

theorem sizes (h : Reachable host C s) {j : ℕ} {th : Thread Op Op.Ans Exn Out Task}
    (hth : s.threads[j]? = some th) :
    Issued (fun t l op => t.stage = some .analysis → Sizes host.cfg l op) (fun _ _ _ => True) th := by
  refine issued_reach (M := machine host) (fun t => ?_) h j th hth
  cases t with
  | analyst workerId =>
    have htolerant : Tolerant fun (_ : Log) (_ : Except Exn Out) => True :=
      ⟨fun _ _ _ _ => trivial⟩
    refine (AnalystWorker.sizes_worker.mono' (fun _ _ _ hop _ => hop) fun _ _ _ _ => trivial).bind
      (Ψ := fun _ _ => True) (fun _ _ _ _ => trivial) fun _ _ _ _ => trivial
  | _ => exact always_of (fun _ _ h => nomatch h) fun _ _ => trivial

/-! ## The snapshot stays -/

theorem Called.snapshots {w w' : World} {op : Op} {r : Except Exn op.Ans} (h : Called w op r w') :
    ∀ S ∈ w.db.portfolioSnapshots, S ∈ w'.db.portfolioSnapshots := by
  intro S hS
  cases h with
  | snapshot S' => exact List.mem_append_left _ hS
  | _ => exact hS

theorem saved_snapshot (h : Reachable host C s) {j : ℕ} {th : Thread Op Op.Ans Exn Out Task}
    (hth : s.threads[j]? = some th) {id : UUID}
    (hen : Answered th.log (.tx (.savePortfolioSnapshot portfolio)) id) :
    portfolio ∈ s.world.db.portfolioSnapshots ∧ portfolio.snapshotId = id := by
  refine fact_reach (M := machine host) (F := fun en w => ∀ S id,
    en = ⟨.tx (.savePortfolioSnapshot S), .ok id⟩ → S ∈ w.db.portfolioSnapshots ∧ S.snapshotId = id)
    ?_ ?_ (fun _ e _ hF => by cases e <;> exact hF) h j th hth _ hen _ _ rfl
  · intro w op inp r w' hc S id heq
    obtain ⟨rfl, heq⟩ := Entry.mk.inj heq
    obtain rfl := eq_of_heq heq
    have hcalled := called hc
    generalize ha : (Except.ok id : Except Exn UUID) = a at hcalled
    cases hcalled with
    | asked op r hop => exact hop.elim
    | raised => cases ha
    | snapshot S =>
      exact ⟨List.mem_append_right _ List.mem_cons_self, (Except.ok.inj ha).symm⟩
  · intro w op inp r w' en hc hF S id heq
    obtain ⟨hmem, hid⟩ := hF S id heq
    exact ⟨(called hc).snapshots S hmem, hid⟩

/-- In every stored report, the candidates agree with the limits just if the snapshot leaves room. -/
theorem stored_sizes (h : Reachable host C s) {m : StageMessage}
    (hm : m ∈ s.world.db.stageMessages) (hstage : m.stage = .analysis) :
    ∃ report portfolio, AnalysisReport.contract.load m.payload = some report ∧
      portfolio ∈ s.world.db.portfolioSnapshots ∧
      portfolio.snapshotId = report.portfolioSnapshotId ∧
      ∀ c ∈ report.candidates, SizeAgrees host.cfg.executor portfolio c ↔
        WithinLimits host.cfg.executor portfolio := by
  obtain ⟨j, th, l, l', lease, envelope, next, availableAt, status, t, out, hth, htask, rfl, hlog⟩ :=
    analysis_completed h hm hstage
  obtain ⟨portfolio, report, hpayload, hsaved, hbuilt⟩ := (sizes h hth).2 l _ l' hlog htask
  obtain ⟨hmem, hid⟩ := saved_snapshot h hth (hsaved.prefix_of ⟨_, hlog.symm⟩)
  refine ⟨report, portfolio, ?_, hmem, hid, fun c hc => ?_⟩
  · show AnalysisReport.contract.load envelope.payload = some report
    rw [hpayload, AnalysisReport.contract.load_dump]
  · obtain ⟨hypothesis, snapshot, builtAt, id, heq⟩ := hbuilt c hc
    exact sizeAgrees_iff heq

namespace Sample

/-- An account with nothing in it. -/
def emptyPortfolio : PortfolioSnapshot := ⟨1001, 0, lit "acc", 10000, 0, 10000, 0, 0, []⟩

def sizedEvents (portfolio : PortfolioSnapshot) : List PipelineEvent :=
  List.flatten [ingested 0, researched 1, analysed 2 portfolio]

end Sample

theorem stored_sizes_sample :
    let s := run (Sample.host "auto") (Sample.sizedEvents (Sample.portfolio 1001 0))
    ∃ m ∈ s.world.db.stageMessages, m.stage = .analysis ∧ ∃ report portfolio,
      AnalysisReport.contract.load m.payload = some report ∧
      portfolio ∈ s.world.db.portfolioSnapshots ∧
      portfolio.snapshotId = report.portfolioSnapshotId ∧
      ∀ c ∈ report.candidates, SizeAgrees (Sample.host "auto").cfg.executor portfolio c ↔
        WithinLimits (Sample.host "auto").cfg.executor portfolio := by
  intro s
  obtain ⟨m, hm, hstage⟩ : ∃ m ∈ s.world.db.stageMessages, m.stage = .analysis := by decide +kernel
  exact ⟨m, hm, hstage, stored_sizes (reachable_run _ _) hm hstage⟩

/-- With equity and without cash the analyst proposes to buy for nothing. -/
theorem sized_at_nothing :
    let s := run (Sample.host "auto") (Sample.sizedEvents Sample.emptyPortfolio)
    Reachable (Sample.host "auto") Any s ∧
      (0 < (Sample.host "auto").cfg.executor.maxPositionPct ∧
        (Sample.host "auto").cfg.executor.maxPositionPct ≤ 1) ∧
      ∃ m ∈ s.world.db.stageMessages, m.stage = .analysis ∧
        ∃ report ∈ AnalysisReport.contract.load m.payload,
        ∃ portfolio ∈ s.world.db.portfolioSnapshots,
          portfolio.snapshotId = report.portfolioSnapshotId ∧ 0 ≤ portfolio.equity ∧
          0 ≤ portfolio.cash ∧
          ∃ c ∈ report.candidates, ¬ SizeAgrees (Sample.host "auto").cfg.executor portfolio c := by
  intro s
  obtain ⟨m, hm, hstage, report, hreport, portfolio, hportfolio, hid, hequity, hcash, c, hc, hsize⟩ :
      ∃ m ∈ s.world.db.stageMessages, m.stage = .analysis ∧
        ∃ report ∈ AnalysisReport.contract.load m.payload,
        ∃ portfolio ∈ s.world.db.portfolioSnapshots,
          portfolio.snapshotId = report.portfolioSnapshotId ∧ 0 ≤ portfolio.equity ∧
          0 ≤ portfolio.cash ∧ ∃ c ∈ report.candidates, ¬ 0 < c.maxNotional := by decide +kernel
  exact ⟨reachable_run _ _, by decide +kernel, m, hm, hstage, report, hreport, portfolio, hportfolio,
    hid, hequity, hcash, c, hc, fun h => hsize h.positive⟩

end Sentinel.Pipeline
