import Sentinel.Pipeline.Lineage
import Sentinel.Pipeline.Stages

/-!
# How a candidate was built

The log of an analyst tells from which market snapshot, and when, each hypothesis was made into a
candidate; the report it stores is made of these candidates and nothing else.

* `buildsIn`: the builds of a log; `candidatesIn`: the candidates, one for each hypothesis.
* `Submits.built`: the candidate of an order was built by an analyst.
-/

namespace Sentinel.Pipeline

open Logic Contracts PipelineDB

variable {host : Host} {C : State → PipelineEvent → Prop} {s : State} {log : Log}

/-! ## Reading a log -/

structure Build : Type where
  candidateId : UUID
  snapshot : MarketDataSnapshot
  builtAt : Time

def marketsIn (log : Log) : List MarketDataSnapshot :=
  log.filterMap fun
    | ⟨.getMarketSnapshot _, .ok snapshot⟩ => some snapshot
    | _ => none

/-- The times from which the expiries of candidates count. -/
def buildTimesIn (log : Log) : List Time :=
  log.filterMap fun
    | ⟨.now .candidateExpiry, .ok t⟩ => some t
    | _ => none

/-- Each build reads the market, then the clock, then draws the id. -/
def buildsIn (log : Log) : List Build :=
  ((drawsIn .candidate log).zip ((marketsIn log).zip (buildTimesIn log))).map
    fun (id, snapshot, t) => ⟨id, snapshot, t⟩

/-- The candidate of a hypothesis. -/
def Build.candidate (cfg : AnalystSection) (portfolio : PortfolioSnapshot)
    (hypothesis : AssetHypothesis) (b : Build) : TradeCandidate :=
  buildCandidate cfg portfolio hypothesis b.snapshot b.builtAt b.candidateId

def candidatesFrom (cfg : AnalystSection) (portfolio : PortfolioSnapshot)
    (hypotheses : List AssetHypothesis) (builds : List Build) : List TradeCandidate :=
  List.zipWith (Build.candidate cfg portfolio) hypotheses builds

def passesFilters (c : TradeCandidate) : Bool := c.filters.all FilterResult.passed

/-- The report on the candidates. -/
def reportOn (snapshotId : UUID) (cs : List TradeCandidate) : AnalysisReport :=
  analysisReport snapshotId (cs.filter passesFilters) (cs.filter fun c => !passesFilters c)

section Append

variable {log' : Log}

@[simp] theorem marketsIn_append : marketsIn (log ++ log') = marketsIn log ++ marketsIn log' := by
  simp [marketsIn]

@[simp] theorem buildTimesIn_append :
    buildTimesIn (log ++ log') = buildTimesIn log ++ buildTimesIn log' := by
  simp [buildTimesIn]

/-- The log has built these candidates and no other. -/
structure Builds (log : Log) (builds : List Build) : Prop where
  ids : drawsIn .candidate log = builds.map Build.candidateId
  markets : marketsIn log = builds.map Build.snapshot
  times : buildTimesIn log = builds.map Build.builtAt

theorem Builds.buildsIn_eq {builds : List Build} (h : Builds log builds) :
    buildsIn log = builds := by
  rw [buildsIn, h.ids, h.markets, h.times]
  clear h
  induction builds with
  | nil => rfl
  | cons b builds ih => simpa using ih

theorem Builds.append {builds builds' : List Build} (h : Builds log builds)
    (h' : Builds log' builds') : Builds (log ++ log') (builds ++ builds') := by
  refine ⟨?_, ?_, ?_⟩
  · rw [drawsIn_append, h.ids, h'.ids, List.map_append]
  · rw [marketsIn_append, h.markets, h'.markets, List.map_append]
  · rw [buildTimesIn_append, h.times, h'.times, List.map_append]

theorem zip_isPrefix {α β : Type} {as as' : List α} {bs bs' : List β} (h : as <+: as')
    (h' : bs <+: bs') : as.zip bs <+: as'.zip bs' := by
  obtain ⟨ra, rfl⟩ := h
  obtain ⟨rb, rfl⟩ := h'
  induction as generalizing bs with
  | nil => exact List.nil_prefix
  | cons a as ih =>
    cases bs with
    | nil => exact List.nil_prefix
    | cons b bs => exact List.cons_prefix_cons.mpr ⟨rfl, ih⟩

/-- What has been built stays built. -/
theorem buildsIn_mono (hpre : log <+: log') : buildsIn log <+: buildsIn log' := by
  have hdraws : drawsIn .candidate log <+: drawsIn .candidate log' := hpre.filterMap _
  have hmarkets : marketsIn log <+: marketsIn log' := hpre.filterMap _
  have htimes : buildTimesIn log <+: buildTimesIn log' := hpre.filterMap _
  exact (zip_isPrefix hdraws (zip_isPrefix hmarkets htimes)).map _

end Append

/-! ## The report that is stored -/

/-- The analyst stores the report on the candidates that its log has built, one for each
hypothesis of the research report. -/
def Analyses (cfg : PipelineConfig) (log : Log) : Op → Prop
  | .tx (.completeJobSuccess lease (some envelope) _ _ _ _) =>
    ∃ parent report portfolio snapshotId, Holds log .analysis lease parent ∧
      ResearchReport.contract.load parent.payload = some report ∧
      report.assetHypotheses.length = (buildsIn log).length ∧
      envelope.payload = AnalysisReport.contract.dump (reportOn snapshotId
        (candidatesFrom cfg.analyst portfolio report.assetHypotheses (buildsIn log)))
  | _ => True

theorem analyses_buildCandidates {cfg : PipelineConfig} {analyst : AnalystSection}
    {portfolio : PortfolioSnapshot} (hypotheses : List AssetHypothesis) {builds : List Build}
    (hlog : Builds log builds) :
    Always (Analyses cfg) (Returns fun l p => ∃ builds', Builds l (builds ++ builds') ∧
        hypotheses.length = builds'.length ∧
        p = ((candidatesFrom analyst portfolio hypotheses builds').filter passesFilters,
          (candidatesFrom analyst portfolio hypotheses builds').filter fun c => !passesFilters c))
      (buildCandidates analyst portfolio hypotheses) log := by
  induction hypotheses generalizing log builds with
  | nil => exact ⟨[], by rwa [List.append_nil], rfl, rfl⟩
  | cons hypothesis hypotheses ih =>
    refine always_op trivial fun snapshot => always_op trivial fun t => always_op trivial fun id => ?_
    have hlog' := hlog.append (show Builds ([⟨.getMarketSnapshot hypothesis.symbol, .ok snapshot⟩] ++
      [⟨.now .candidateExpiry, .ok t⟩] ++ [⟨.uuid4 .candidate, .ok id⟩]) [⟨id, snapshot, t⟩]
      from ⟨rfl, rfl, rfl⟩)
    rw [← List.append_assoc, ← List.append_assoc] at hlog'
    refine (ih hlog').bind (fun l p _ hl => ?_) fun l e _ hl => hl
    obtain ⟨builds', hbuilds, hlength, rfl⟩ := hl
    have hend : Builds l (builds ++ (⟨id, snapshot, t⟩ :: builds')) := by
      rw [List.append_assoc] at hbuilds
      exact hbuilds
    dsimp only
    split_ifs with hall
    · refine ⟨_, hend, by simp [hlength], ?_⟩
      have hpass : passesFilters (Build.candidate analyst portfolio hypothesis ⟨id, snapshot, t⟩) =
          true := hall
      simp only [candidatesFrom, List.zipWith_cons_cons, List.filter_cons, hpass]
      rfl
    · refine ⟨_, hend, by simp [hlength], ?_⟩
      have hpass : passesFilters (Build.candidate analyst portfolio hypothesis ⟨id, snapshot, t⟩) =
          false := Bool.eq_false_of_not_eq_true hall
      simp only [candidatesFrom, List.zipWith_cons_cons, List.filter_cons, hpass]
      rfl

namespace AnalystWorker

theorem analyses_process {cfg : PipelineConfig} {lease : JobLease} (hlog : Builds log [])
    (h : Leased log .analysis lease) :
    Always (Analyses cfg) (Clean fun _ _ => True) (process cfg lease) log := by
  simp only [process, getMessage, Prog.bind_def, Prog.bind_assoc]
  refine always_op trivial fun row => ?_
  cases row with
  | none => exact fun _ => trivial
  | some row =>
    refine always_op trivial fun alertId => ?_
    cases alertId with
    | none => exact fun _ => trivial
    | some alertId =>
      rw [Prog.getD, Prog.bind]
      refine always_getD_bind (fun report hload => ?_) fun _ _ => trivial
      refine always_op trivial fun portfolio => always_op trivial fun snapshotId => ?_
      generalize hlog' : log ++ _ ++ _ ++ _ ++ _ = log'
      have hbuilds : Builds log' [] := by
        subst hlog'
        have hend := hlog.append (show Builds
          ([⟨.tx (.fetchMessage lease.messageId), .ok (some row)⟩] ++
            [⟨.tx (.sourceAlertIdForTrace row.traceId), .ok (some alertId)⟩] ++
            [⟨.getSnapshot, .ok portfolio⟩] ++
            [⟨.tx (.savePortfolioSnapshot portfolio), .ok snapshotId⟩]) [] from ⟨rfl, rfl, rfl⟩)
        simpa only [← List.append_assoc, List.append_nil] using hend
      have hholds : Holds log' .analysis lease (row.toEnvelope alertId) := by
        subst hlog'
        exact ⟨h.prefix_of (by simp [List.append_assoc]), row, alertId, by simp [Answered],
          by simp [Answered], rfl⟩
      refine (analyses_buildCandidates _ hbuilds).returns fun l p hpre hl => ?_
      obtain ⟨builds, hbuilds, hlength, rfl⟩ := hl
      simp only [childEnvelope, newEnvelope, completeJobSuccess, Prog.bind_def, Prog.bind_assoc]
      refine always_op trivial fun id => always_op trivial fun t => always_op trivial fun t' => ?_
      have hbuilds' := hbuilds.append (show Builds ([⟨.uuid4 .message, .ok id⟩] ++
        [⟨.now .envelope, .ok t⟩] ++ [⟨.now .complete, .ok t'⟩]) [] from ⟨rfl, rfl, rfl⟩)
      rw [← List.append_assoc, ← List.append_assoc, List.nil_append, List.append_nil] at hbuilds'
      refine always_op ?_ fun out => ?_
      · refine ⟨_, report, portfolio, snapshotId, hholds.prefix_of (hpre.trans ?_), hload, ?_, ?_⟩
        · simp [List.append_assoc]
        · rw [hbuilds'.buildsIn_eq, hlength]
        · rw [hbuilds'.buildsIn_eq]
          rfl
      · cases out with
        | none => exact fun _ => trivial
        | some messageId => exact always_op trivial fun _ _ => trivial

theorem analyses_worker {cfg : PipelineConfig} {workerId : Text} :
    Always (Analyses cfg) (fun _ _ => True) (processNext cfg workerId) [] := by
  have htolerant : Tolerant fun (_ : Log) (_ : Except Exn Bool) => True := ⟨fun _ _ _ _ => trivial⟩
  simp only [processNext, Pipeline.processNext, leaseNextJob, Prog.bind_def, Prog.bind_assoc]
  refine always_op trivial fun t => always_op trivial fun lease => ?_
  cases lease with
  | none => trivial
  | some lease =>
    refine (analyses_process ⟨rfl, rfl, rfl⟩ ⟨rfl, workerId, _, t, answered_last⟩).tryCatch
      (fun _ _ _ _ => trivial) fun l e _ _ => always_retires fun l op hop => ?_
    cases op with
    | tx x => cases x <;> trivial
    | _ => trivial

end AnalystWorker

theorem analyses (h : Reachable host C s) {j : ℕ} {th : Thread Op Op.Ans Exn Out Task}
    (hth : s.threads[j]? = some th) :
    Issued (fun t l op => t.stage = some .analysis → Analyses host.cfg l op) (fun _ _ _ => True) th := by
  refine issued_reach (M := machine host) (fun t => ?_) h j th hth
  cases t with
  | analyst workerId =>
    have htolerant : Tolerant fun (_ : Log) (_ : Except Exn Out) => True :=
      ⟨fun _ _ _ _ => trivial⟩
    refine (AnalystWorker.analyses_worker.mono' (fun _ _ _ hop _ => hop) fun _ _ _ _ => trivial).bind
      (Ψ := fun _ _ => True) (fun _ _ _ _ => trivial) fun _ _ _ _ => trivial
  | _ => exact always_of (fun _ _ h => nomatch h) fun _ _ => trivial

/-! ## The candidates of stored reports -/

/-- The candidate was built in the log from a hypothesis of the research report that the log holds,
and passed the filters. -/
structure BuiltIn (cfg : PipelineConfig) (log : Log) (lease : JobLease) (parent : PipelineEnvelope)
    (report : ResearchReport) (hypothesis : AssetHypothesis) (b : Build) (c : TradeCandidate) :
    Prop where
  holds : Holds log .analysis lease parent
  loaded : ResearchReport.contract.load parent.payload = some report
  mem : (hypothesis, b) ∈ report.assetHypotheses.zip (buildsIn log)
  candidate : ∃ portfolio, c = b.candidate cfg.analyst portfolio hypothesis
  passes : passesFilters c = true

/-- The best candidate of a report was built for it. -/
theorem Analyses.best_built {cfg : PipelineConfig} {lease : JobLease} {envelope : PipelineEnvelope}
    {next : Option StageName} {availableAt : Option Time} {status : String} {t : Time}
    (h : Analyses cfg log (.tx (.completeJobSuccess lease (some envelope) next availableAt status t)))
    {c : TradeCandidate} (hc : bestCandidate envelope.payload = some c) :
    ∃ lease parent report hypothesis b, BuiltIn cfg log lease parent report hypothesis b c := by
  obtain ⟨parent, report, portfolio, snapshotId, hholds, hload, -, hpayload⟩ := h
  obtain ⟨output, houtput, hhead⟩ := Option.bind_eq_some_iff.mp hc
  rw [hpayload, AnalysisReport.contract.load_dump] at houtput
  obtain rfl := Option.some.inj houtput
  have hmem := (perm_sortedByScore _).subset (List.mem_of_mem_head? hhead)
  have hmem := (perm_sortedByScore _).subset hmem
  obtain ⟨hmem, hpasses⟩ := List.mem_filter.mp hmem
  obtain ⟨p, hp, rfl⟩ : ∃ p ∈ report.assetHypotheses.zip (buildsIn log),
      Build.candidate cfg.analyst portfolio p.1 p.2 = c := by
    rw [candidatesFrom, ← List.map_uncurry_zip_eq_zipWith] at hmem
    exact List.mem_map.mp hmem
  exact ⟨_, parent, report, p.1, p.2, hholds, hload, hp, ⟨portfolio, rfl⟩, hpasses⟩

/-- A stored report is the output of a completion, by an analyst. -/
theorem analysis_completed (h : Reachable host C s) {m : StageMessage}
    (hm : m ∈ s.world.db.stageMessages) (hstage : m.stage = .analysis) :
    ∃ (j : ℕ) (th : Thread Op Op.Ans Exn Out Task) (l l' : Log) (lease : JobLease)
      (envelope : PipelineEnvelope) (next : Option StageName) (availableAt : Option Time)
      (status : String) (t : Time) (out : Option UUID), s.threads[j]? = some th ∧
      th.task.stage = some .analysis ∧ m = .ofEnvelope envelope ∧
      th.log = l ++ ⟨.tx (.completeJobSuccess lease (some envelope) next availableAt status t),
        .ok out⟩ :: l' := by
  obtain ⟨envelope, next, rfl, hsource⟩ := message_origin h hm
  have hstage : envelope.stage = .analysis := hstage
  cases hsource with
  | ingested l alertId hl hi => cases hi.stage.symm.trans hstage
  | completed l lease next availableAt status t out hl hcompletes =>
    obtain ⟨j, th, hth, l', hl'⟩ := hl
    have hlog : th.log = l ++ ⟨.tx (.completeJobSuccess lease (some envelope) next availableAt status
        t), .ok out⟩ :: l' := by
      rw [← hl', List.append_assoc]
      rfl
    have hholds : ∃ parent, Holds l .analysis lease parent := by
      cases hcompletes with
      | analysed parent envelope report snapshot output next hh => exact ⟨parent, hh⟩
      | researched parent envelope ingested report next hh hload hreport he =>
        cases he.stage.symm.trans hstage
      | rejected parent envelope decision hh hstatus he => cases he.stage.symm.trans hstage
      | awaiting l parent envelope candidate intent checks approvalId hmode hl hh he =>
        cases he.stage.symm.trans hstage
      | submitted l parent envelope intent checks stage brokerOrderId hl hh hs he =>
        obtain rfl := he.stage.symm.trans hstage
        rcases hs with hs | hs <;> cases hs
      | ended parent envelope status decision hh he => cases he.stage.symm.trans hstage
      | observed parent envelope rows rows' t next hh hdue hupdated hrows' he =>
        cases he.stage.symm.trans hstage
    obtain ⟨parent, hh⟩ := hholds
    exact ⟨j, th, l, l', lease, envelope, next, availableAt, status, t, out, hth,
      hh.leased.stage h hth ⟨_, hlog.symm⟩, rfl, hlog⟩

/-- So was the best candidate of every stored report, by an analyst. -/
theorem message_built (h : Reachable host C s) {m : StageMessage}
    (hm : m ∈ s.world.db.stageMessages) (hstage : m.stage = .analysis) {c : TradeCandidate}
    (hc : bestCandidate m.payload = some c) : ∃ (j : ℕ) (th : Thread Op Op.Ans Exn Out Task)
      (l : Log) (lease : JobLease) (parent : PipelineEnvelope) (report : ResearchReport)
      (hypothesis : AssetHypothesis) (b : Build), s.threads[j]? = some th ∧ l <+: th.log ∧
      BuiltIn host.cfg l lease parent report hypothesis b c := by
  obtain ⟨j, th, l, l', lease, envelope, next, availableAt, status, t, out, hth, htask, rfl, hlog⟩ :=
    analysis_completed h hm hstage
  have hanalyses := (analyses h hth).2 l _ l' hlog htask
  obtain ⟨lease, parent, report, hypothesis, b, hbuilt⟩ := hanalyses.best_built hc
  exact ⟨j, th, l, lease, parent, report, hypothesis, b, hth, ⟨_, hlog.symm⟩, hbuilt⟩

/-- The report whose best candidate was evaluated. -/
theorem Evaluated.report {l : Log} {lease : JobLease} {parent : PipelineEnvelope}
    {c : TradeCandidate} {intent : TradeIntent} (he : Evaluated host.cfg l lease parent c intent)
    (hl : Logged s l) (h : Reachable host C s) :
    ∃ m ∈ s.world.db.stageMessages, m.stage = .analysis ∧ bestCandidate m.payload = some c := by
  have hheld := he.holds.held hl h
  obtain ⟨envelope, hm, -, -, hqueued⟩ := job_message h hheld.job
  have hstage : lease.key.stage = .execution := hheld.stage
  rw [hstage] at hqueued
  cases hqueued with
  | analysis l' lease' parent'' capturedAt output hl' hh hc =>
    have heq := Option.some.inj (hheld.message.symm.trans hm)
    refine ⟨_, (mem_of_findMessage hheld.message).1, ?_, he.best⟩
    rw [heq]
    exact hc.stage

theorem Submits.report {l : Log} {lease : JobLease} {parent : PipelineEnvelope}
    {intent : TradeIntent} (hs : Submits host.cfg l lease parent intent) (hl : Logged s l)
    (h : Reachable host C s) : ∃ m ∈ s.world.db.stageMessages, m.stage = .analysis ∧
      ∃ c, bestCandidate m.payload = some c ∧ c.candidateId = intent.candidateId ∧
        c.side = intent.side := by
  obtain ⟨l', lease', parent', c, hl', he, -, -⟩ := hs.evaluated hl h
  obtain ⟨m, hm, hstage, hbest⟩ := he.report hl' h
  obtain ⟨limitPrice, rfl⟩ := he.intent
  exact ⟨m, hm, hstage, c, hbest, rfl, rfl⟩

/-! ## Orders placed -/

theorem Called.placed_or {w w' : World} {op : Op} {r : Except Exn op.Ans} (h : Called w op r w') :
    w'.placed = w.placed ∨ ∃ intent id, op = .placeOrder intent id ∧
      w'.placed = w.placed ++ [⟨intent, id, w.clock⟩] := by
  cases h with
  | placed intent id r => exact Or.inr ⟨intent, id, rfl, rfl⟩
  | _ => exact Or.inl rfl

/-- What the broker was asked to place was submitted. -/
theorem placed_submitted (h : Reachable host C s) {o : PlacedOrder} (ho : o ∈ s.world.placed) :
    ∃ l lease parent, Logged s l ∧ Submits host.cfg l lease parent o.intent := by
  obtain ⟨j, th, hth, en, hen, r, rfl⟩ :=
    origin_reach (M := machine host) (R := fun w (o : PlacedOrder) => o ∈ w.placed)
      (O := fun o en _ => ∃ r, en = ⟨.placeOrder o.intent o.clientOrderId, r⟩)
      (fun _ => List.not_mem_nil)
      (fun w op inp r w' o hc ho => by
        rcases (called hc).placed_or with heq | ⟨intent, id, rfl, heq⟩
        · exact Or.inl (heq ▸ ho)
        · rcases List.mem_append.mp (heq ▸ ho) with hold | hlast
          · exact Or.inl hold
          · rw [List.mem_singleton.mp hlast]
            exact Or.inr ⟨r, rfl⟩)
      (fun _ e _ ho => by cases e <;> exact ho) (fun _ _ _ _ _ _ _ _ hO => hO)
      (fun _ _ _ _ hO => hO) h o ho
  obtain ⟨l, l', hl, ⟨l₀, lease, parent, hsubmits, -, hlog⟩, -⟩ := (issued h hth).mem hen
  exact ⟨l₀, lease, parent, ⟨j, th, hth, (List.prefix_append _ _).trans ⟨_, (hlog ▸ hl).symm⟩⟩,
    hsubmits⟩

end Sentinel.Pipeline
