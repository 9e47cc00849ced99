import Sentinel.Analyst.Built
import Sentinel.Pipeline.Ancestry

/-!
# Where an order comes from

Every order on record leads back, message by message, to the alert of its trace: the report whose
best candidate it buys, the hypothesis and the market data from which the candidate was built, and
the research on the alert.

* `Trail`, `Trail.Backs`: the messages behind an order, and what they say about it.
* `Held.ingested`, `Held.researched`, `Held.analysed`: the trail behind a message that is held.
* `order_traced`: every order has a trail.
-/

namespace Sentinel.Pipeline

open Logic Contracts PipelineDB

variable {host : Host} {C : State → PipelineEvent → Prop} {s : State}

/-- The messages behind an order with what they carry. -/
structure Trail : Type where
  alert : StageMessage
  ingested : IngestedAlert
  research : StageMessage
  report : ResearchReport
  analysis : StageMessage
  output : AnalysisReport
  hypothesis : AssetHypothesis
  market : MarketDataSnapshot
  candidate : TradeCandidate

namespace Trail

/-- The messages are on record, each made from the one before. -/
structure Stored (db : PipelineDB) (t : Trail) : Prop where
  alert : t.alert ∈ db.stageMessages
  research : t.research ∈ db.stageMessages
  analysis : t.analysis ∈ db.stageMessages
  researched : t.alert.MadeFrom t.research
  analysed : t.research.MadeFrom t.analysis

/-- The messages carry the values: an alert of the trace, a report that passed on it, and a report
that passed with the candidate at its head. -/
structure Carries (db : PipelineDB) (t : Trail) : Prop where
  ingested : t.alert.payload = IngestedAlert.contract.dump t.ingested
  source : db.sourceAlertIdForTrace t.alert.traceId = some t.ingested.shiftAlert.alertId
  report : t.research.payload = ResearchReport.contract.dump t.report
  reportPassed : t.report.status = .pass
  output : t.analysis.payload = AnalysisReport.contract.dump t.output
  outputPassed : t.output.status = .pass
  best : (sortedByScore t.output.candidates).head? = some t.candidate

/-- The candidate is that of the hypothesis, in a market that passed all filters. -/
structure Built (cfg : PipelineConfig) (t : Trail) : Prop where
  hypothesis : t.hypothesis ∈ t.report.assetHypotheses
  candidate : ∃ portfolio now, t.candidate =
    buildCandidate cfg.analyst portfolio t.hypothesis t.market now t.candidate.candidateId
  filters : ∀ f ∈ evaluateFilters t.market cfg.analyst, f.passed = true

/-- The trail is one of the order. -/
structure Backs (cfg : PipelineConfig) (db : PipelineDB) (o : BrokerOrder) (t : Trail) : Prop where
  stored : t.Stored db
  carries : t.Carries db
  built : t.Built cfg
  trace : o.traceId = t.analysis.traceId
  candidate : o.candidateId = t.candidate.candidateId
  symbol : o.symbol = t.hypothesis.symbol
  side : o.side = .buy
  notional : o.notional = some t.candidate.maxNotional
  risk : ∃ now portfolio breaker, RiskPassed cfg.executor now t.candidate portfolio breaker

end Trail

/-! ## The message a worker read -/

/-- Two readings of the message of one job are one. -/
theorem Held.same_payload {stage stage' : StageName} {lease : JobLease}
    {parent parent' : PipelineEnvelope} (h : Held s.world.db stage lease parent)
    (h' : Held s.world.db stage' lease parent') :
    StageMessage.ofEnvelope parent = .ofEnvelope parent' :=
  Option.some.inj (h.message.symm.trans h'.message)

/-- The message of a RESEARCH job is the alert of its trace. -/
theorem Held.ingested {lease : JobLease} {parent : PipelineEnvelope}
    (hheld : Held s.world.db .research lease parent) (h : Reachable host C s) :
    ∃ ingested, parent.stage = .ingest ∧ parent.payload = IngestedAlert.contract.dump ingested ∧
      s.world.db.sourceAlertIdForTrace parent.traceId = some ingested.shiftAlert.alertId := by
  obtain ⟨envelope, hm, -, -, hqueued⟩ := job_message h hheld.job
  have heq := Option.some.inj (hheld.message.symm.trans hm)
  have hstage : parent.stage = envelope.stage := congrArg StageMessage.stage heq
  have hpayload : parent.payload = envelope.payload := congrArg StageMessage.payload heq
  have htrace : parent.traceId = envelope.traceId := congrArg StageMessage.traceId heq
  have hkey : lease.key.stage = .research := hheld.stage
  rw [hkey] at hqueued
  cases hqueued with
  | alert l alertId hl hi =>
    obtain ⟨ingested, rfl, hdump⟩ := hi.payload
    exact ⟨ingested, hstage.trans hi.stage, hpayload.trans hdump, htrace ▸ hi.alert hl h⟩

/-- The message of an ANALYSIS job is a report that passed, on the alert of its trace. -/
theorem Held.researched {lease : JobLease} {parent : PipelineEnvelope}
    (hheld : Held s.world.db .analysis lease parent) (h : Reachable host C s) :
    ∃ report alert ingested, parent.payload = ResearchReport.contract.dump report ∧
      report.status = .pass ∧ alert ∈ s.world.db.stageMessages ∧
      alert.MadeFrom (.ofEnvelope parent) ∧ alert.payload = IngestedAlert.contract.dump ingested ∧
      s.world.db.sourceAlertIdForTrace alert.traceId = some ingested.shiftAlert.alertId := by
  obtain ⟨envelope, hm, -, -, hsource⟩ := job_origin h hheld.job
  have heq := Option.some.inj (hheld.message.symm.trans hm)
  have hkey : lease.key.stage = .analysis := hheld.stage
  rw [hkey] at hsource
  generalize hnext : some StageName.analysis = next at hsource
  cases hsource with
  | ingested l alertId hl hi => cases hnext
  | completed l lease' next availableAt status t out hl hc =>
    have hlog : Logged s l := hl.prefix_of (List.prefix_append _ _)
    cases hc with
    | researched parent' envelope ingested report next hh hload hreport he hstatus =>
      have hpass : report.status = .pass := by
        by_contra hne
        rw [if_neg hne] at hstatus
        cases hnext.trans hstatus
      have hheld' := hh.held hlog h
      obtain ⟨ingested', hstage, hdump, halert⟩ := hheld'.ingested h
      refine ⟨report, .ofEnvelope parent', ingested', ?_, hpass,
        (mem_of_findMessage hheld'.message).1, ?_, hdump, halert⟩
      · exact (congrArg StageMessage.payload heq).trans he.payload
      · rw [heq]
        refine ⟨he.parentId, he.traceId, ?_⟩
        show rank parent'.stage < rank envelope.stage
        rw [hstage, he.stage]
        decide
    | analysed parent' envelope report snapshot output next hh hload hsnapshot he hstatus =>
      split_ifs at hstatus <;> cases hnext.trans hstatus
    | observed parent' envelope rows rows' t next hw hdue hupdated hrows' he hstatus =>
      split_ifs at hstatus <;> cases hnext.trans hstatus
    | _ => cases hnext

/-- The message of an EXECUTION job is a report that passed, with candidates built from the
hypotheses of the report it is about. -/
theorem Held.analysed {lease : JobLease} {parent : PipelineEnvelope}
    (hheld : Held s.world.db .execution lease parent) (h : Reachable host C s)
    {c : TradeCandidate} (hbest : bestCandidate parent.payload = some c) :
    ∃ t : Trail, t.Stored s.world.db ∧ t.Carries s.world.db ∧ t.Built host.cfg ∧
      t.analysis = .ofEnvelope parent ∧ t.candidate = c := by
  obtain ⟨envelope, hm, -, -, hsource⟩ := job_origin h hheld.job
  have heq := Option.some.inj (hheld.message.symm.trans hm)
  have hkey : lease.key.stage = .execution := hheld.stage
  rw [hkey] at hsource
  generalize hnext : some StageName.execution = next at hsource
  cases hsource with
  | ingested l alertId hl hi => cases hnext
  | completed l lease' next availableAt status t out hl hc =>
    have hlog : Logged s l := hl.prefix_of (List.prefix_append _ _)
    cases hc with
    | analysed parent' envelope report snapshot output next hh hload hsnapshot he hstatus =>
      have hpass : output.status = .pass := by
        by_contra hne
        rw [if_neg hne] at hstatus
        cases hnext.trans hstatus
      have hheld' := hh.held hlog h
      obtain ⟨report', alert, ingested, hreport, hreportPass, halert, hmade, hdump, hsourced⟩ :=
        hheld'.researched h
      have hpayload : parent.payload = envelope.payload := congrArg StageMessage.payload heq
      -- the candidate was built by the analyst that stored the report
      obtain ⟨j, th, hth, l', hl'⟩ := hl
      have hpre : th.log = l ++ ⟨.tx (.completeJobSuccess lease' (some envelope) next availableAt
          status t), .ok out⟩ :: l' := by
        rw [← hl', List.append_assoc]
        rfl
      have htask := hh.leased.stage h hth ⟨_, hpre.symm⟩
      have hanalyses := (analyses h hth).2 l _ l' hpre htask
      obtain ⟨lease₂, parent₂, report₂, hypothesis, b, hbuilt⟩ :=
        hanalyses.best_built (hpayload ▸ hbest)
      obtain ⟨-, rfl⟩ := leased_unique h hth hh.leased hbuilt.holds.leased ⟨_, hpre.symm⟩
        ⟨_, hpre.symm⟩
      have hsame := (hbuilt.holds.held hlog h).same_payload hheld'
      have hload₂ : ResearchReport.contract.load parent'.payload = some report₂ := by
        have hp : parent₂.payload = parent'.payload := congrArg StageMessage.payload hsame
        rw [← hp]
        exact hbuilt.loaded
      obtain rfl : report' = report₂ := by
        rw [hreport] at hload₂
        simpa using hload₂
      have hhead : (sortedByScore output.candidates).head? = some c := by
        rw [hpayload, he.payload] at hbest
        simpa [bestCandidate] using hbest
      obtain ⟨portfolio, hcandidate⟩ := hbuilt.candidate
      refine ⟨⟨alert, ingested, .ofEnvelope parent', report', .ofEnvelope parent, output, hypothesis,
        b.snapshot, c⟩, ?_, ?_, ?_, rfl, rfl⟩
      · refine ⟨halert, (mem_of_findMessage hheld'.message).1, (mem_of_findMessage hheld.message).1,
          hmade, ?_⟩
        rw [heq]
        refine ⟨he.parentId, he.traceId, ?_⟩
        have hlt := hheld'.rank_lt h (by simp)
        show rank parent'.stage < rank envelope.stage
        rw [he.stage]
        exact hlt
      · exact ⟨hdump, hsourced, hreport, hreportPass, hpayload.trans he.payload, hpass, hhead⟩
      · refine ⟨(List.of_mem_zip hbuilt.mem).1, ⟨portfolio, b.builtAt, ?_⟩, ?_⟩
        · rw [hcandidate]
          rfl
        · have hpasses := hbuilt.passes
          rw [hcandidate] at hpasses
          exact fun f hf => List.all_eq_true.mp hpasses f hf
    | researched parent' envelope ingested report next hh hload hreport he hstatus =>
      split_ifs at hstatus <;> cases hnext.trans hstatus
    | observed parent' envelope rows rows' t next hw hdue hupdated hrows' he hstatus =>
      split_ifs at hstatus <;> cases hnext.trans hstatus
    | _ => cases hnext

/-! ## Orders -/

/-- In every reachable state each order on record has a trail back to the alert of its trace. -/
theorem order_traced (h : Reachable host C s) :
    ∀ o ∈ s.world.db.brokerOrders, ∃ t : Trail, t.Backs host.cfg s.world.db o := by
  intro o ho
  obtain ⟨j, th, l, l', lease, parent, intent, order, id, hth, -, hsubmits, hrecord, hlog, -⟩ :=
    order_origin h ho
  obtain ⟨l₀, lease₀, parent₀, c, hlogged, hev, htrace, -⟩ :=
    hsubmits.evaluated ⟨j, th, hth, ⟨l', hlog.symm⟩⟩ h
  have hheld := hev.holds.held hlogged h
  obtain ⟨t, hstored, hcarries, hbuilt, hanalysis, rfl⟩ := hheld.analysed h hev.best
  obtain ⟨l₁, portfolio, breaker, now, -, -, hrisk⟩ := hev.passed
  obtain ⟨limitPrice, rfl⟩ := hev.intent
  obtain ⟨portfolio', now', hcandidate⟩ := hbuilt.candidate
  refine ⟨t, hstored, hcarries, hbuilt, ?_, ?_, ?_, ?_, ?_, now, portfolio, breaker, hrisk⟩
  · rw [hanalysis]
    exact (congrArg OrderRecord.traceId hrecord).trans htrace.symm
  · exact congrArg OrderRecord.candidateId hrecord
  · refine (congrArg OrderRecord.symbol hrecord).trans ?_
    show t.candidate.symbol = t.hypothesis.symbol
    rw [hcandidate]
    rfl
  · refine (congrArg OrderRecord.side hrecord).trans ?_
    show t.candidate.side = .buy
    rw [hcandidate]
  · exact congrArg OrderRecord.notional hrecord

theorem order_traced_traded :
    (run (Sample.host "auto") Sample.tradedEvents).world.db.brokerOrders.length = 1 ∧
      ∀ o ∈ (run (Sample.host "auto") Sample.tradedEvents).world.db.brokerOrders,
        ∃ t : Trail, t.Backs (Sample.host "auto").cfg
          (run (Sample.host "auto") Sample.tradedEvents).world.db o :=
  ⟨by decide +kernel, order_traced (reachable_run _ Sample.tradedEvents)⟩

end Sentinel.Pipeline
