import Sentinel.Executor.Provenance
import Sentinel.Processing.Alerts
import Sentinel.Researcher.Accepts
import Sentinel.Researcher.Deliveries

/-!
# The fallback agent

`FallbackResearcherAgent` asks no provider.  It passes an alert on only with the hypotheses that the
metadata of the alert brings along, and the notifier sends no metadata.

* `FallbackResearcherAgent.analyze`: the report of the agent.
* `ByFallback`: the agent of every RESEARCH job is the fallback.
* `fallback_offered`: then every ANALYSIS job and every order go back to hypotheses that came in with
  a delivery, and without such a delivery there are none.
-/

namespace Sentinel.Pipeline

open Logic Contracts PipelineDB

/-! ## The agent -/

/-- What `analyze` does with texts; `contains` is `in`. -/
structure AgentBuiltins : Type where
  str : JsonValue → Text
  upper : Text → Text
  lower : Text → Text
  contains : String → Text → Bool

namespace FallbackResearcherAgent

variable (py : AgentBuiltins)

/-- An entry of `asset_hypotheses`; none if it is left out. -/
def hypothesis? : JsonValue → Option AssetHypothesis
  | .obj item => do
    let text (n : FieldName) (default : String) : JsonValue :=
      .str (py.str ((Dict.get item n).getD (.str (lit default))))
    let symbol ← Dict.get item .symbol
    let instrumentType ← Contract.instrumentType.load (text .instrumentType "equity")
    let direction ← Contract.direction.load (text .direction "bullish")
    let horizon ← Contract.horizon.load (text .horizon "intraday")
    let linkageType ← Contract.linkageType.load (text .linkageType "macro_proxy")
    let confidence ← Contract.confidence.load (text .confidence "medium")
    return {
      symbol := py.upper (py.str symbol)
      instrumentType, direction, horizon, linkageType, confidence
      tradableUniverse := ((Dict.get item .tradableUniverse).getD (.bool true)).truthy
      rationaleSummary := py.str ((Dict.get item .rationaleSummary).getD
        (.str (lit "Provided by upstream replay metadata."))) }
  | _ => none

/-- The hypotheses in the metadata of the alert. -/
def offered (alert : ShiftAlertMirror) : List AssetHypothesis :=
  match (Dict.get alert.metadata .assetHypotheses).getD (.arr []) with
  | .arr items => items.filterMap (hypothesis? py)
  | _ => []

def catalystType (market : Dict) : CatalystType :=
  let category := py.lower (py.str (JsonValue.orElse (market.lookup (.other "category")) (.str (lit ""))))
  if py.contains "economic" category then .economicData
  else if py.contains "politic" category || py.contains "policy" category then .policy
  else .other

/-- The page of the market is the only evidence. -/
def evidence (now : Time) (market : Dict) : List EvidenceItem :=
  let url := py.str (JsonValue.orElse (market.lookup (.other "polymarket_url")) (.str (lit "")))
  let question := JsonValue.orElse (market.lookup (.other "question")) (.str (lit "Polymarket event"))
  if JsonValue.truthy (.str url) then
    [{ url := url
       title := py.str (JsonValue.orElse (market.lookup (.other "event_title")) question)
       publisher := lit "Polymarket"
       publishedAt := none
       retrievedAt := now
       sourceTier := .secondary
       relevanceScore := 1 / 4
       claimTag := lit "market_context" }]
  else []

def analyze (now : Time) (alert : IngestedAlert) : ResearchReport :=
  let market := alert.shiftAlert.market
  let hypotheses := offered py alert.shiftAlert
  let passes := !hypotheses.isEmpty && !(evidence py now market).isEmpty
  { status := if passes then .pass else .defer
    catalystType := catalystType py market
    catalystSummary := py.str (JsonValue.orElse (market.lookup (.other "question"))
      (.str (lit "Catalyst requires external research.")))
    catalystStartedAt := none
    freshnessSec := some 0
    evidence := evidence py now market
    assetHypotheses := hypotheses
    unsupportedClaims := if hypotheses.isEmpty then
        [lit "No asset hypotheses were available from research providers."]
      else []
    stageSummary := if passes then
        [.lit "Research fallback passed with ", .int hypotheses.length,
          .lit " replay-provided asset hypothesis entries."]
      else lit ("No external research provider configured, so the alert was persisted but " ++
        "deferred.") }

variable {py}

/-- When the page was retrieved. -/
def retrievedAt (evidence : List EvidenceItem) : Time :=
  (evidence.head?.map EvidenceItem.retrievedAt).getD 0

theorem evidence_retrievedAt (now : Time) (market : Dict) :
    evidence py (retrievedAt (evidence py now market)) market = evidence py now market := by
  unfold evidence
  dsimp only
  split_ifs <;> rfl

/-- The time of a report can be read off it. -/
theorem analyze_retrievedAt (now : Time) (alert : IngestedAlert) :
    analyze py (retrievedAt (analyze py now alert).evidence) alert = analyze py now alert := by
  have hevidence : evidence py (retrievedAt (evidence py now alert.shiftAlert.market))
      alert.shiftAlert.market = evidence py now alert.shiftAlert.market :=
    evidence_retrievedAt now alert.shiftAlert.market
  show analyze py (retrievedAt (evidence py now alert.shiftAlert.market)) alert = _
  dsimp only [analyze]
  rw [hevidence]

instance (report : ResearchReport) (alert : IngestedAlert) :
    Decidable (∃ now, report = analyze py now alert) :=
  decidable_of_iff (report = analyze py (retrievedAt report.evidence) alert) (by
    refine ⟨fun h => ⟨_, h⟩, ?_⟩
    rintro ⟨now, rfl⟩
    exact (analyze_retrievedAt now alert).symm)

/-- A report passes only with hypotheses that the alert offers. -/
theorem offered_ne_nil {now : Time} {alert : IngestedAlert}
    (h : (analyze py now alert).status = .pass) : offered py alert.shiftAlert ≠ [] := by
  intro hnone
  dsimp only [analyze] at h
  rw [hnone] at h
  cases h

end FallbackResearcherAgent

/-! ## The pipeline with this agent -/

/-- The alert that the agent is asked about. -/
def Op.asked : Op → Option IngestedAlert
  | .analyze alert => some alert
  | _ => none

/-- The agent of every worker answers as the fallback does, or raises. -/
def ByFallback (py : AgentBuiltins) (s : State) : PipelineEvent → Prop
  | .act i (.report report) => ∀ alert ∈ (nextCall s i).bind Op.asked,
    ∃ now, report = FallbackResearcherAgent.analyze py now alert
  | _ => True

instance (py : AgentBuiltins) (s : State) : (e : PipelineEvent) → Decidable (ByFallback py s e)
  | .act i (.report report) => inferInstanceAs (Decidable (∀ alert ∈ (nextCall s i).bind Op.asked,
      ∃ now, report = FallbackResearcherAgent.analyze py now alert))
  | .act _ .ok | .act _ (.tie _) | .act _ (.fault _) | .act _ (.snapshot _) | .act _ (.market _)
  | .act _ (.order _) | .act _ (.price _) | .act _ (.benchmark _) | .start _ | .env _ | .crash _ =>
    isTrue trivial

/-- A delivery brought the alert of the trace, and with it the hypotheses. -/
def OfferedBy (py : AgentBuiltins) (s : State) (traceId : UUID) (hypotheses : List AssetHypothesis) :
    Prop :=
  ∃ (i : ℕ) (th : Thread Op Op.Ans Exn Out Task) (body : Body) (headers : List (String × String))
    (replaySource : Option Text) (shiftAlert : ShiftAlertMirror), s.threads[i]? = some th ∧
    th.task = .ingress body headers replaySource ∧
    body.json.bind ShiftAlertMirror.contract.load = some shiftAlert ∧
    s.world.db.sourceAlertIdForTrace traceId = some shiftAlert.alertId ∧
    hypotheses = FallbackResearcherAgent.offered py shiftAlert

/-- Every delivery is of an alert as Sentinel prints it. -/
def FromSentinel (s : State) : Prop :=
  ∀ th ∈ s.threads, ∀ (body : Body) (headers : List (String × String)) (replaySource : Option Text),
    th.task = .ingress body headers replaySource →
      ∃ alert : Processing.ShiftAlert, body.json = some alert.toDict

variable {host : Host} {py : AgentBuiltins} {s : State}

theorem fallback_answered (h : Reachable host (ByFallback py) s) {l : Log} (hl : Logged s l)
    {ingested : IngestedAlert} {report : ResearchReport} (hreport : Answered l (.analyze ingested) report) :
    ∃ now, report = FallbackResearcherAgent.analyze py now ingested := by
  obtain ⟨j, th, hth, hpre⟩ := hl
  obtain ⟨l₁, l₂, hsplit⟩ := List.append_of_mem (hpre.subset hreport)
  refine noted_reach (M := machine host) (X := fun _ _ en _ => ∀ ingested report,
    en = ⟨.analyze ingested, .ok report⟩ → ∃ now, report = FallbackResearcherAgent.analyze py now ingested)
    ?_ (fun _ _ _ _ _ _ _ _ _ hold => hold) h j th hth l₁ _ l₂ hsplit ingested report rfl
  intro s i inp t log op k r w' _ hC hth hcall ingested report hen
  obtain ⟨rfl, hr⟩ := Entry.mk.inj hen
  cases eq_of_heq hr
  have hnext : nextCall s i = some (.analyze ingested) := nextCall_eq hth
  cases inp with
  | report report' =>
    obtain rfl : report' = report := by
      have heq := (Prod.mk.inj (Option.some.inj hcall)).1
      exact Except.ok.inj heq
    exact hC ingested (by rw [hnext]; rfl)
  | _ => cases hcall

/-! ## The messages -/

/-- A research message is the report of the agent on the alert it was made from. -/
theorem research_fallback (h : Reachable host (ByFallback py) s) {m : StageMessage}
    (hm : m ∈ s.world.db.stageMessages) (hstage : m.stage = .research) :
    ∃ alert ∈ s.world.db.stageMessages, ∃ ingested now, alert.stage = .ingest ∧
      alert.traceId = m.traceId ∧ alert.payload = IngestedAlert.contract.dump ingested ∧
      s.world.db.sourceAlertIdForTrace alert.traceId = some ingested.shiftAlert.alertId ∧
      m.payload = ResearchReport.contract.dump (FallbackResearcherAgent.analyze py now ingested) := by
  obtain ⟨envelope, next, rfl, hsource⟩ := message_origin h hm
  have hstage : envelope.stage = .research := hstage
  have hother : ∀ {stage : StageName}, envelope.stage = stage → stage ≠ .research → False :=
    fun heq hne => hne (heq.symm.trans hstage)
  cases hsource with
  | ingested l alertId hl hi => exact (hother hi.stage nofun).elim
  | completed l lease next availableAt status t out hl hc =>
    have hlog : Logged s l := hl.prefix_of (List.prefix_append _ _)
    cases hc with
    | researched parent envelope ingested report next hh hload hreport he hstatus =>
      obtain ⟨now, rfl⟩ := fallback_answered h hlog hreport
      have hheld := hh.held hlog h
      obtain ⟨ingested', hingest, hdump, halert⟩ := hheld.ingested h
      obtain rfl : ingested' = ingested := by
        rw [hdump] at hload
        simpa using hload
      exact ⟨.ofEnvelope parent, (mem_of_findMessage hheld.message).1, ingested', now, hingest,
        he.traceId.symm, hdump, halert, he.payload⟩
    | analysed parent envelope report snapshot output next hh hload hsnapshot he hstatus =>
      exact (hother he.stage nofun).elim
    | rejected parent envelope decision hh hdecision he => exact (hother he.stage nofun).elim
    | awaiting l' parent envelope candidate intent checks approvalId hmode hl' hev he =>
      exact (hother he.stage nofun).elim
    | submitted l' parent envelope intent checks stage brokerOrderId hl' hsubmits hstage' he hholds =>
      rcases hstage' with rfl | rfl <;> exact (hother he.stage nofun).elim
    | ended parent envelope status decision hh he => exact (hother he.stage nofun).elim
    | observed parent envelope rows rows' t next hw hdue hupdated hrows' he hstatus =>
      exact (hother he.stage nofun).elim

/-- The message of an ANALYSIS job is a report that passed. -/
theorem job_report {C : State → PipelineEvent → Prop} (h : Reachable host C s) {k : JobKey}
    (hk : k ∈ s.world.db.jobKeys) (hstage : k.stage = .analysis) :
    ∃ m ∈ s.world.db.stageMessages, ∃ report, m.traceId = k.traceId ∧ m.stage = .research ∧
      m.payload = ResearchReport.contract.dump report ∧ report.status = .pass := by
  obtain ⟨envelope, hm, -, htrace, hsource⟩ := job_origin h hk
  rw [hstage] at hsource
  generalize hnext : some StageName.analysis = next at hsource
  cases hsource with
  | ingested l alertId hl hi => cases hnext
  | completed l lease' next availableAt status t out hl hc =>
    cases hc with
    | researched parent envelope ingested report next hh hload hreport he hstatus =>
      refine ⟨_, (mem_of_findMessage hm).1, report, htrace, he.stage, he.payload, ?_⟩
      by_contra hne
      rw [if_neg hne] at hstatus
      cases hnext.trans hstatus
    | analysed parent' envelope report snapshot output next hh hload hsnapshot he hstatus =>
      split_ifs at hstatus <;> cases hnext.trans hstatus
    | observed parent' envelope rows rows' t next hw hdue hupdated hrows' he hstatus =>
      split_ifs at hstatus <;> cases hnext.trans hstatus
    | _ => cases hnext

/-- The hypotheses of a report that passed came in with the delivery of the alert. -/
theorem report_offered (h : Reachable host (ByFallback py) s) {m : StageMessage}
    (hm : m ∈ s.world.db.stageMessages) (hstage : m.stage = .research) {report : ResearchReport}
    (hpayload : m.payload = ResearchReport.contract.dump report) (hpass : report.status = .pass) :
    OfferedBy py s m.traceId report.assetHypotheses ∧ report.assetHypotheses ≠ [] := by
  obtain ⟨alert, halert, ingested, now, hingest, htrace, hdump, hsource, hreport⟩ :=
    research_fallback h hm hstage
  obtain rfl : report = FallbackResearcherAgent.analyze py now ingested := by
    have hload := congrArg ResearchReport.contract.load (hpayload.symm.trans hreport)
    simpa using hload
  have hkey := (ingest_message_iff h halert _).mp ⟨hingest, hsource⟩
  obtain ⟨i, th, hstored⟩ := stored_by h halert hkey
  obtain ⟨body, headers, replaySource, htask, ingested', hload, hbody⟩ := hstored.task
  obtain rfl : ingested' = ingested := by
    rw [hdump] at hload
    simpa using hload.symm
  refine ⟨⟨i, th, body, headers, replaySource, ingested'.shiftAlert, hstored.thread, htask, hbody, ?_,
    rfl⟩, FallbackResearcherAgent.offered_ne_nil hpass⟩
  rw [← htrace]
  exact hsource

/-- Sentinel prints no metadata. -/
theorem FromSentinel.offered_eq_nil (hs : FromSentinel s) {traceId : UUID}
    {hypotheses : List AssetHypothesis} (h : OfferedBy py s traceId hypotheses) : hypotheses = [] := by
  obtain ⟨i, th, body, headers, replaySource, shiftAlert, hth, htask, hbody, -, rfl⟩ := h
  obtain ⟨alert, hjson⟩ := hs th (List.mem_of_getElem? hth) body headers replaySource htask
  rw [hjson, Option.bind_some, alert.load_toDict] at hbody
  obtain rfl := Option.some.inj hbody
  rfl

/-! ## Jobs and orders -/

theorem analysis_offered (h : Reachable host (ByFallback py) s) {k : JobKey}
    (hk : k ∈ s.world.db.jobKeys) (hstage : k.stage = .analysis) :
    ∃ hypotheses, OfferedBy py s k.traceId hypotheses ∧ hypotheses ≠ [] := by
  obtain ⟨m, hm, report, htrace, hresearch, hpayload, hpass⟩ := job_report h hk hstage
  rw [← htrace]
  exact ⟨_, report_offered h hm hresearch hpayload hpass⟩

theorem order_offered (h : Reachable host (ByFallback py) s) {o : BrokerOrder}
    (ho : o ∈ s.world.db.brokerOrders) : ∃ hypotheses, OfferedBy py s o.traceId hypotheses ∧
      ∃ hypothesis ∈ hypotheses, hypothesis.symbol = o.symbol := by
  obtain ⟨j, th, l, l', lease, parent, intent, order, id, hth, -, hsubmits, hrecord, hlog, -⟩ :=
    order_origin h ho
  obtain ⟨l₀, lease₀, parent₀, c, hlogged, hev, htrace, -⟩ :=
    hsubmits.evaluated ⟨j, th, hth, ⟨l', hlog.symm⟩⟩ h
  have hheld := hev.holds.held hlogged h
  obtain ⟨t, hstored, hcarries, hbuilt, hanalysis, rfl⟩ := hheld.analysed h hev.best
  -- between the alert and the report of the analyst there is only the research
  have hresearch : t.research.stage = .research := by
    have hfirst := hstored.researched.stage
    have hsecond := hstored.analysed.stage
    have hlast : rank t.analysis.stage < rank .execution := by
      rw [hanalysis]
      exact hheld.rank_lt h nofun
    have hrank : rank t.research.stage = 1 := by
      have hexecution : rank .execution = 3 := rfl
      omega
    cases hs : t.research.stage <;> rw [hs] at hrank <;> first | rfl | exact absurd hrank (by decide)
  obtain ⟨hoffered, -⟩ := report_offered h hstored.research hresearch hcarries.report
    hcarries.reportPassed
  obtain ⟨limitPrice, rfl⟩ := hev.intent
  obtain ⟨portfolio, now, hcandidate⟩ := hbuilt.candidate
  refine ⟨_, ?_, t.hypothesis, hbuilt.hypothesis, ?_⟩
  · have hsame : o.traceId = t.research.traceId := by
      rw [← hstored.analysed.trace, hanalysis]
      exact (congrArg OrderRecord.traceId hrecord).trans htrace.symm
    rw [hsame]
    exact hoffered
  · refine Eq.trans ?_ (congrArg OrderRecord.symbol hrecord).symm
    show t.hypothesis.symbol = t.candidate.symbol
    rw [hcandidate]
    rfl

/-- With the fallback agent every ANALYSIS job and every order go back to hypotheses that a delivery
of the alert of their trace brought along; on the alerts of Sentinel alone there are none. -/
theorem fallback_offered (h : Reachable host (ByFallback py) s) :
    (∀ k ∈ s.world.db.jobKeys, k.stage = .analysis →
      ∃ hypotheses, OfferedBy py s k.traceId hypotheses ∧ hypotheses ≠ []) ∧
    (∀ o ∈ s.world.db.brokerOrders, ∃ hypotheses, OfferedBy py s o.traceId hypotheses ∧
      ∃ hypothesis ∈ hypotheses, hypothesis.symbol = o.symbol) ∧
    (FromSentinel s → (∀ k ∈ s.world.db.jobKeys, k.stage ≠ .analysis) ∧
      s.world.db.brokerOrders = []) := by
  refine ⟨fun k hk hstage => analysis_offered h hk hstage, fun o ho => order_offered h ho, fun hs => ⟨
    fun k hk hstage => ?_, List.eq_nil_iff_forall_not_mem.mpr fun o ho => ?_⟩⟩
  · obtain ⟨hypotheses, hoffered, hne⟩ := analysis_offered h hk hstage
    exact hne (hs.offered_eq_nil hoffered)
  · obtain ⟨hypotheses, hoffered, hypothesis, hmem, -⟩ := order_offered h ho
    rw [hs.offered_eq_nil hoffered] at hmem
    exact absurd hmem List.not_mem_nil

namespace Sample

def agentBuiltins : AgentBuiltins where
  str value := (JsonValue.pyStr value).getD []
  upper := id
  lower := id
  contains _ _ := false

/-- The sample alert with the page of its market and a hypothesis. -/
def annotated : ShiftAlertMirror :=
  { alert with
    market := [(.other "polymarket_url", .str (lit "u"))]
    metadata := [(.field .assetHypotheses, .arr [.obj [(.field .symbol, .str (lit "SPY"))]])] }

/-- The alert comes in and is researched by the agent. -/
def answeredByFallback (body : JsonValue) (alert : ShiftAlertMirror) : List PipelineEvent :=
  List.flatten [[.start (.ingress ⟨[], some body⟩ [] none)], calls 0 7,
    [.start (.researcher (lit "r"))], calls 1 4,
    [.act 1 (.report (FallbackResearcherAgent.analyze agentBuiltins 0 ⟨alert, 0, true, none, 100⟩))],
    calls 1 4]

/-- The annotated alert becomes an order. -/
def fallbackEvents : List PipelineEvent :=
  List.flatten [answeredByFallback (ShiftAlertMirror.contract.dump annotated) annotated,
    analysed 2 (portfolio 1001 0), calls 2 1, evaluated 3 (portfolio 1001 0), ordered 3 "b1" 12]

/-- The alert is one of Sentinel. -/
def printedEvents : List PipelineEvent := answeredByFallback shift.toDict shift.mirror

theorem fromSentinel_printed : FromSentinel (run (Sample.host "auto") printedEvents) := by
  intro th hth body headers replaySource htask
  have hmem : th.task ∈ (run (Sample.host "auto") printedEvents).tasks := List.mem_map_of_mem hth
  rw [run, tasks_foldl] at hmem
  have hstarted : printedEvents.filterMap Event.started =
      [.ingress ⟨[], some shift.toDict⟩ [] none, .researcher (lit "r")] := rfl
  rw [hstarted, htask] at hmem
  rcases List.mem_cons.mp hmem with heq | hmem
  · obtain ⟨rfl, -, -⟩ := Task.ingress.inj heq
    exact ⟨shift, rfl⟩
  · cases List.mem_singleton.mp hmem

end Sample

theorem fallback_offered_annotated :
    let s := run (Sample.host "auto") Sample.fallbackEvents
    let s' := run (Sample.host "auto") Sample.printedEvents
    ((∃ k ∈ s.world.db.jobKeys, k.stage = .analysis) ∧ s.world.db.brokerOrders.length = 1 ∧
      s'.world.db.jobKeys.length = 1) ∧
    (∀ k ∈ s.world.db.jobKeys, k.stage = .analysis →
      ∃ hypotheses, OfferedBy Sample.agentBuiltins s k.traceId hypotheses ∧ hypotheses ≠ []) ∧
    (∀ o ∈ s.world.db.brokerOrders, ∃ hypotheses,
      OfferedBy Sample.agentBuiltins s o.traceId hypotheses ∧
        ∃ hypothesis ∈ hypotheses, hypothesis.symbol = o.symbol) ∧
    (∀ k ∈ s'.world.db.jobKeys, k.stage ≠ .analysis) ∧ s'.world.db.brokerOrders = [] := by
  obtain ⟨hjobs, horders, -⟩ := @fallback_offered (Sample.host "auto") Sample.agentBuiltins
    (run (Sample.host "auto") Sample.fallbackEvents) (reach_of_allowed (by decide +kernel))
  obtain ⟨-, -, hprinted⟩ := @fallback_offered (Sample.host "auto") Sample.agentBuiltins
    (run (Sample.host "auto") Sample.printedEvents) (reach_of_allowed (by decide +kernel))
  exact ⟨by decide +kernel, hjobs, horders, hprinted Sample.fromSentinel_printed⟩

end Sentinel.Pipeline
