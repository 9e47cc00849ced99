import Sentinel.Analyst.Built

/-!
# Hypotheses behind orders

Every candidate is a candidate to buy, whatever the direction of its hypothesis and whether or not
the hypothesis is in the tradable universe.  The orders are those of bullish and tradable hypotheses
as long as the best candidate of every stored report comes from one.
-/

namespace Sentinel.Pipeline

open Logic Contracts PipelineDB

variable {host : Host} {C : State → PipelineEvent → Prop} {s : State}

/-! ## The hypothesis of a candidate -/

/-- The research report of the job leased in the log. -/
def reportIn (db : PipelineDB) (log : Log) : Option ResearchReport :=
  (leaseIn log).bind fun lease => (db.findMessage lease.messageId).bind fun m =>
    ResearchReport.contract.load m.payload

/-- The log built the candidate from a bullish hypothesis in the tradable universe. -/
def BuiltBullish (db : PipelineDB) (log : Log) (candidateId : UUID) : Prop :=
  ∃ report ∈ reportIn db log, ∃ p ∈ report.assetHypotheses.zip (buildsIn log),
    p.2.candidateId = candidateId ∧ p.1.direction = .bullish ∧ p.1.tradableUniverse = true

instance (db : PipelineDB) (log : Log) (candidateId : UUID) :
    Decidable (BuiltBullish db log candidateId) :=
  inferInstanceAs (Decidable (∃ _ ∈ _, ∃ _ ∈ _, _))

theorem BuiltBullish.mono {db db' : PipelineDB} {log log' : Log} {id : UUID}
    (h : BuiltBullish db log id) (hg : Grows db db') (hpre : log <+: log') :
    BuiltBullish db' log' id := by
  obtain ⟨report, hreport, p, hp, hprops⟩ := h
  obtain ⟨lease, hlease, hreport⟩ := Option.bind_eq_some_iff.mp hreport
  obtain ⟨m, hm, hload⟩ := Option.bind_eq_some_iff.mp hreport
  refine ⟨report, ?_, p, ?_, hprops⟩
  · refine Option.bind_eq_some_iff.mpr ⟨lease, findSome?_mono hlease hpre, ?_⟩
    exact Option.bind_eq_some_iff.mpr ⟨m, hg.messages _ _ hm, hload⟩
  · exact (zip_isPrefix (List.prefix_refl _) (buildsIn_mono hpre)).subset hp

/-! ## The condition -/

/-- The report of an analyst that the call stores unless its key is there. -/
def Op.analysis : Op → Option PipelineEnvelope
  | .tx (.completeJobSuccess _ (some envelope) _ _ _ _) =>
    if envelope.stage = .analysis then some envelope else none
  | _ => none

/-- The best candidate of a report that is stored comes from a bullish and tradable hypothesis. -/
def BestIsBullish (s : State) : PipelineEvent → Prop
  | .act i inp => inp.commits = true → ∀ th ∈ s.threads[i]?, ∀ op ∈ th.next,
    ∀ envelope ∈ op.analysis,
      (∀ m ∈ s.world.db.stageMessages, m.idempotencyKey ≠ envelope.idempotencyKey) →
      ∀ c ∈ bestCandidate envelope.payload, BuiltBullish s.world.db th.log c.candidateId
  | _ => True

instance (s : State) : ∀ e : PipelineEvent, Decidable (BestIsBullish s e)
  | .act _ _ => inferInstanceAs (Decidable (_ → ∀ _ ∈ _, ∀ _ ∈ _, ∀ _ ∈ _, _ → ∀ _ ∈ _, _))
  | .start _ | .crash _ | .env _ => inferInstanceAs (Decidable True)

/-! ## Orders -/

/-- The best candidate of every stored report comes from a bullish and tradable hypothesis. -/
def ReportsBullish (s : State) : Prop :=
  ∀ m ∈ s.world.db.stageMessages, m.stage = .analysis → ∀ c ∈ bestCandidate m.payload,
    ∃ th ∈ s.threads, BuiltBullish s.world.db th.log c.candidateId

theorem reportsBullish (h : Reachable host BestIsBullish s) : ReportsBullish s := by
  refine h.rec_moved (I := ReportsBullish) (fun m hm => absurd hm List.not_mem_nil) ?_
  intro s e s' hs hC ih hm m hmem hstage c hc
  have hgrows := moved_grows hm
  have hold : m ∈ s.world.db.stageMessages →
      ∃ th ∈ s'.threads, BuiltBullish s'.world.db th.log c.candidateId := by
    intro hmem
    obtain ⟨th, hth, hbuilt⟩ := ih m hmem hstage c hc
    obtain ⟨j, hj⟩ := List.getElem?_of_mem hth
    obtain ⟨th', hj', -, hpre⟩ := thread_kept hm hj
    exact ⟨th', List.mem_of_getElem? hj', hbuilt.mono hgrows hpre⟩
  cases hm with
  | idle => exact hold hmem
  | start => exact hold hmem
  | crash => exact hold hmem
  | env e => exact hold (by cases e <;> exact hmem)
  | act i inp t log op k r w' hth hcall =>
    rcases (called hcall).messages with heq | ⟨envelope, hop, hnew, ⟨a, rfl⟩, heq⟩
    · exact hold (heq ▸ hmem)
    · rcases List.mem_append.mp (heq ▸ hmem) with hmem | hlast
      · exact hold hmem
      · obtain rfl := List.mem_singleton.mp hlast
        have hstage : envelope.stage = .analysis := hstage
        have hissues := (issued hs hth).next rfl
        rcases hop with rfl | ⟨lease, next, availableAt, status, now, rfl⟩
        · obtain ⟨alertId, hi⟩ := hissues
          cases hi.stage.symm.trans hstage
        · have hbuilt := hC (commits_of_ok hcall) _ hth _ rfl envelope (by simp [Op.analysis, hstage])
            hnew.key c hc
          obtain ⟨hlt, -⟩ := List.getElem?_eq_some_iff.mp hth
          refine ⟨_, List.mem_of_getElem? (List.getElem?_set_self hlt), ?_⟩
          exact hbuilt.mono hgrows (List.prefix_append _ _)

/-- If the best candidate of every report comes from a bullish and tradable hypothesis when the
report is stored, then every order the broker is asked for is a buy for such a hypothesis. -/
theorem placed_bullish (h : Reachable host BestIsBullish s) :
    ∀ o ∈ s.world.placed, o.intent.side = .buy ∧
      ∃ th ∈ s.threads, BuiltBullish s.world.db th.log o.intent.candidateId := by
  intro o ho
  obtain ⟨l, lease, parent, hl, hsubmits⟩ := placed_submitted h ho
  obtain ⟨m, hm, hstage, c, hc, hid, hside⟩ := hsubmits.report hl h
  obtain ⟨th, hth, hbuilt⟩ := reportsBullish h m hm hstage c hc
  obtain ⟨j, th', l', lease', parent', report, hypothesis, b, -, -, hbuiltIn⟩ :=
    message_built h hm hstage hc
  obtain ⟨portfolio, rfl⟩ := hbuiltIn.candidate
  exact ⟨hside.symm, th, hth, hid ▸ hbuilt⟩

namespace Sample

/-- A research report with one hypothesis. -/
def reportWith (direction : Direction) : ResearchReport :=
  { report with assetHypotheses :=
      [⟨lit "SPY", .etf, direction, .intraday, .direct, .high, true, lit "r"⟩] }

/-- An alert becomes an order for the hypothesis of the report. -/
def directedEvents (direction : Direction) : List PipelineEvent :=
  List.flatten [ingested 0, [.start (.researcher (lit "r"))], calls 1 4,
    [.act 1 (.report (reportWith direction))], calls 1 4, analysed 2 (portfolio 1001 0), calls 2 1,
    evaluated 3 (portfolio 1001 0), ordered 3 "b1" 12]

end Sample

theorem placed_bullish_directed :
    let s := run (Sample.host "auto") (Sample.directedEvents .bullish)
    ∀ o ∈ s.world.placed, o.intent.side = .buy ∧
      ∃ th ∈ s.threads, BuiltBullish s.world.db th.log o.intent.candidateId :=
  placed_bullish (reach_of_allowed (by decide +kernel))

/-- A bearish hypothesis is bought. -/
theorem placed_bearish : ∃ s, Reachable (Sample.host "auto") Any s ∧ ∃ o ∈ s.world.placed,
    o.intent.side = .buy ∧
      ¬ ∃ th ∈ s.threads, BuiltBullish s.world.db th.log o.intent.candidateId :=
  ⟨_, reachable_run _ (Sample.directedEvents .bearish), by decide +kernel⟩

end Sentinel.Pipeline
