import Sentinel.Pipeline.Attempts
import Sentinel.Pipeline.HandOff
import Sentinel.Pipeline.Lineage
import Sentinel.Pipeline.Stages

/-!
# What a researcher writes beside its message

The trace status, the next job and the rows of `research_evidence` come from the report that the
agent gave the attempt, and the message from the report of the attempt that stored it.
-/

namespace Sentinel.Pipeline

open Logic Contracts PipelineDB

variable {host : Host} {C : State → PipelineEvent → Prop} {s : State} {log : Log}

/-! ## The calls of a researcher -/

/-- The report that the agent gave first. -/
def reportGiven (log : Log) : Option ResearchReport :=
  log.findSome? fun
    | ⟨.analyze _, .ok report⟩ => some report
    | _ => none

def Op.savesEvidence : Op → Bool
  | .tx (.saveResearchEvidence ..) => true
  | _ => false

def Op.asksAgent : Op → Bool
  | .analyze _ => true
  | _ => false

/-- No evidence has been saved. -/
def NoEvidence (log : Log) : Prop :=
  ∀ en ∈ log, en.op.savesEvidence = true → ∃ e, en.ans = .error e

/-- A researcher completes its job, and saves evidence, by the report of its agent. -/
def Reports (log : Log) : Op → Prop
  | .tx (.completeJobSuccess _ output next _ status _) => ∃ report envelope,
    reportGiven log = some report ∧ output = some envelope ∧
    envelope.payload = ResearchReport.contract.dump report ∧ status = report.status.value ∧
    next = if report.status = .pass then some .analysis else none
  | .tx (.saveResearchEvidence _ items) => items ≠ [] ∧ ∃ report,
    reportGiven log = some report ∧ items = report.evidence
  | _ => True

theorem NoEvidence.append (h : NoEvidence log) (en : Entry Op Op.Ans Exn)
    (hen : en.op.savesEvidence = true → ∃ e, en.ans = .error e) : NoEvidence (log ++ [en]) := by
  intro en' hmem hsaves
  rcases List.mem_append.mp hmem with hmem | hmem
  · exact h en' hmem hsaves
  · obtain rfl := List.mem_singleton.mp hmem
    exact hen hsaves

/-- No evidence has been saved, and the report of the agent is this, if it has been asked. -/
structure Reported (log : Log) (report : Option ResearchReport) : Prop where
  evidence : NoEvidence log
  report : reportGiven log = report

theorem Reported.append {report : Option ResearchReport} (h : Reported log report)
    (en : Entry Op Op.Ans Exn) (hsaves : en.op.savesEvidence = false)
    (hasks : en.op.asksAgent = false) : Reported (log ++ [en]) report := by
  refine ⟨h.evidence.append en fun heq => (nomatch hsaves.symm.trans heq), ?_⟩
  cases report with
  | some report => exact findSome?_mono h.report (List.prefix_append _ _)
  | none =>
    rw [reportGiven, findSome?_append_of_none h.report]
    obtain ⟨op, r⟩ := en
    cases op with
    | analyze => cases hasks
    | _ => rfl

theorem Reported.asked (h : Reported log none) (alert : IngestedAlert) (report : ResearchReport) :
    Reported (log ++ [⟨.analyze alert, .ok report⟩]) (some report) := by
  refine ⟨h.evidence.append _ nofun, ?_⟩
  rw [reportGiven, findSome?_append_of_none h.report]
  rfl

/-- The calls of a researcher in order. -/
abbrev ReportsOnce (log : Log) (op : Op) : Prop := NoEvidence log ∧ Reports log op

/-- What a retry or a dead letter calls. -/
theorem reportsOnce_completeJobRetry {lease : JobLease} {error : Text} {delaySec maxAttempts : ℤ}
    (h : NoEvidence log) : Always ReportsOnce (fun _ _ => True)
      (completeJobRetry lease error delaySec maxAttempts) log := by
  have htolerant : ∀ α : Type, Tolerant fun (_ : Log) (_ : Except Exn α) => True :=
    fun _ => ⟨fun _ _ _ _ => trivial⟩
  unfold completeJobRetry deadLetterJob getMessage
  split_ifs
  · refine always_op ⟨h, trivial⟩ fun t => ?_
    have h := h.append ⟨.now .deadLetter, .ok t⟩ nofun
    simp only [Prog.bind_def, Prog.bind_assoc]
    refine always_op ⟨h, trivial⟩ fun row => ?_
    have h := h.append ⟨.tx (.fetchMessage lease.messageId), .ok row⟩ nofun
    refine always_getD_bind (fun row _ => ?_) fun _ => trivial
    refine always_op ⟨h, trivial⟩ fun alertId => ?_
    have h := h.append ⟨.tx (.sourceAlertIdForTrace row.traceId), .ok alertId⟩ nofun
    refine always_getD_bind (fun alertId _ => ?_) fun _ => trivial
    exact always_perform (Φ := ReportsOnce) (Ψ := fun _ _ => True) ⟨h, trivial⟩ fun _ => trivial
  · refine always_op ⟨h, trivial⟩ fun t => ?_
    have h := h.append ⟨.now .retry, .ok t⟩ nofun
    exact always_perform (Φ := ReportsOnce) (Ψ := fun _ _ => True) ⟨h, trivial⟩ fun _ => trivial

namespace ResearcherWorker

theorem reportsOnce_process {cfg : PipelineConfig} {lease : JobLease} (h : Reported log none) :
    Always ReportsOnce (fun l r => ∀ e, r = .error e → NoEvidence l) (process cfg lease) log := by
  have hraise : ∀ {l : Log} {op : Op} {e : Exn}, NoEvidence l →
      ∀ e', (Except.error e : Except Exn Bool) = .error e' → NoEvidence (l ++ [⟨op, .error e⟩]) :=
    fun hl _ _ => hl.append _ fun _ => ⟨_, rfl⟩
  unfold process getMessage modelValidate childEnvelope newEnvelope completeJobSuccess
  simp only [Prog.bind_def, Prog.bind_assoc]
  refine always_perform_bind ⟨h.evidence, trivial⟩ (fun row => ?_) fun e => hraise h.evidence
  have h := h.append ⟨.tx (.fetchMessage lease.messageId), .ok row⟩ rfl rfl
  refine always_getD_bind (fun row _ => ?_) fun _ _ _ => h.evidence
  refine always_perform_bind ⟨h.evidence, trivial⟩ (fun alertId => ?_) fun e => hraise h.evidence
  have h := h.append ⟨.tx (.sourceAlertIdForTrace row.traceId), .ok alertId⟩ rfl rfl
  refine always_getD_bind (fun alertId _ => ?_) fun _ _ _ => h.evidence
  refine always_getD_bind (fun ingested _ => ?_) fun _ _ _ => h.evidence
  refine always_perform_bind ⟨h.evidence, trivial⟩ (fun report => ?_) fun e => hraise h.evidence
  have h := h.asked ingested report
  refine always_perform_bind ⟨h.evidence, trivial⟩ (fun id => ?_) fun e => hraise h.evidence
  have h := h.append ⟨.uuid4 .message, .ok id⟩ rfl rfl
  refine always_perform_bind ⟨h.evidence, trivial⟩ (fun createdAt => ?_) fun e => hraise h.evidence
  have h := h.append ⟨.now .envelope, .ok createdAt⟩ rfl rfl
  refine always_perform_bind ⟨h.evidence, trivial⟩ (fun t => ?_) fun e => hraise h.evidence
  have h := h.append ⟨.now .complete, .ok t⟩ rfl rfl
  refine always_perform_bind ⟨h.evidence, report, _, h.report, rfl, rfl, rfl, rfl⟩ (fun out => ?_)
    fun e => hraise h.evidence
  cases out with
  | none => exact fun e he => nomatch he
  | some messageId =>
    cases hitems : report.evidence with
    | nil => exact fun e he => nomatch he
    | cons item items =>
      refine And.intro ⟨(h.append _ rfl rfl).evidence, by simp, report,
        (h.append _ rfl rfl).report, hitems.symm⟩ fun r => ?_
      cases r with
      | ok _ => exact fun e he => nomatch he
      | error e => exact hraise (h.append _ rfl rfl).evidence

theorem reportsOnce_processNext {cfg : PipelineConfig} {workerId : Text} :
    Always ReportsOnce (fun _ _ => True) (processNext cfg workerId) [] := by
  have hnil : NoEvidence [] := fun en hen => absurd hen List.not_mem_nil
  refine And.intro ⟨hnil, trivial⟩ fun r => ?_
  cases r with
  | error e => trivial
  | ok t =>
    have h : Reported [⟨.now .lease, .ok t⟩] none := ⟨hnil.append _ nofun, rfl⟩
    refine And.intro ⟨h.evidence, trivial⟩ fun r => ?_
    cases r with
    | error e => trivial
    | ok lease =>
      cases lease with
      | none => trivial
      | some lease =>
        refine Always.tryCatch (reportsOnce_process (h.append _ rfl rfl)) (fun _ _ _ _ => trivial) ?_
        intro l e _ hl
        exact (reportsOnce_completeJobRetry (hl e rfl)).bind (fun _ _ _ _ => trivial)
          fun _ _ _ _ => trivial

end ResearcherWorker

/-- The calls of every researcher. -/
theorem reportsOnce (h : Reachable host C s) {j : ℕ} {th : Thread Op Op.Ans Exn Out Task}
    (hth : s.threads[j]? = some th) (hstage : th.task.stage = some .research) :
    Issued (fun _ => ReportsOnce) (fun _ _ _ => True) th := by
  have hissued := issued_reach (M := machine host)
    (Φ := fun t l op => t.stage = some .research → ReportsOnce l op) (Ψ := fun _ _ _ => True)
    (fun t => ?_) h j th hth
  · exact ⟨hissued.1.mono' (fun l op _ hop => hop hstage) fun _ _ _ h => h,
      fun l en l' hl => hissued.2 l en l' hl hstage⟩
  · cases t with
    | researcher workerId =>
      have hbody : Always ReportsOnce (fun _ _ => True) (Task.body host (.researcher workerId)) [] :=
        ResearcherWorker.reportsOnce_processNext.bind (fun _ _ _ _ => trivial) fun _ _ _ _ => trivial
      exact hbody.mono' (fun _ _ _ hop _ => hop) fun _ _ _ h => h
    | _ => exact always_of (fun _ _ hno => nomatch hno) fun _ _ => trivial

/-! ## Where a message comes from -/

/-- A completion is that of a researcher, or neither its output nor its job has to do with one. -/
theorem Completes.research_or {cfg : PipelineConfig} {lease : JobLease}
    {output : Option PipelineEnvelope} {next : Option StageName}
    (h : Completes cfg log lease output next) :
    (∃ parent envelope report, output = some envelope ∧ Holds log .research lease parent ∧
      IsChild parent .research (buildResearchKey parent.messageId cfg.researcher.promptVersion)
        (ResearchReport.contract.dump report) envelope ∧
      next = if report.status = .pass then some .analysis else none) ∨
    (∃ stage parent, stage ≠ .research ∧ Holds log stage lease parent) ∧
      ∀ envelope ∈ output, envelope.stage ≠ .research ∧
        ∀ id version, envelope.idempotencyKey ≠ buildResearchKey id version := by
  have hother : ∀ {parent envelope : PipelineEnvelope} {stage : StageName} {key : Text}
      {payload : JsonValue}, IsChild parent stage key payload envelope → stage ≠ .research →
      (∀ id version, key ≠ buildResearchKey id version) → ∀ e ∈ some envelope,
      e.stage ≠ .research ∧ ∀ id version, e.idempotencyKey ≠ buildResearchKey id version := by
    intro parent envelope stage key payload he hstage hkey e heq
    obtain rfl := Option.some.inj heq
    exact ⟨he.stage ▸ hstage, fun id version => he.key ▸ hkey id version⟩
  cases h with
  | researched parent envelope ingested report next h hload hreport he hnext =>
    exact Or.inl ⟨parent, envelope, report, rfl, h, he, hnext⟩
  | analysed parent envelope report snapshot output next h hload hsnapshot he =>
    exact Or.inr ⟨⟨_, parent, by decide, h⟩, hother he (by decide) fun id version heq => by
      simp [buildAnalysisKey, buildResearchKey] at heq⟩
  | rejected parent envelope decision h hstatus he =>
    exact Or.inr ⟨⟨_, parent, by decide, h⟩, hother he (by decide) fun id version heq => by
      simp [executionKey, buildExecutionKey, buildResearchKey] at heq⟩
  | awaiting l parent envelope candidate intent checks approvalId hmode hl h he =>
    exact Or.inr ⟨⟨_, parent, by decide, h.holds.prefix_of hl⟩,
      hother he (by decide) fun id version heq => by
        simp [executionKey, buildExecutionKey, buildResearchKey] at heq⟩
  | submitted l parent envelope intent checks stage brokerOrderId hl h hstage he hholds =>
    have hne : stage ≠ .research := by rcases hstage with rfl | rfl <;> decide
    exact Or.inr ⟨⟨_, parent, hne, hholds.prefix_of hl⟩, hother he hne fun id version heq => by
      simp [executionKey, buildExecutionKey, buildResearchKey] at heq⟩
  | ended parent envelope status decision h he =>
    exact Or.inr ⟨⟨_, parent, by decide, h⟩, hother he (by decide) fun id version heq => by
      simp [buildResearchKey] at heq⟩
  | skipped parent decision h => exact Or.inr ⟨⟨_, parent, by decide, h⟩, nofun⟩
  | missing parent h => exact Or.inr ⟨⟨_, parent, by decide, h⟩, nofun⟩
  | observed parent envelope rows rows' t next h hdue hupdated hrows' he =>
    exact Or.inr ⟨⟨_, parent, by decide, h.holds⟩, hother he (by decide) fun id version heq => by
      simp [buildOutcomeKey, buildResearchKey] at heq⟩

/-- The report that a research message stores, and the message that it reports on. -/
theorem research_message (h : Reachable host C s) {m : StageMessage}
    (hm : m ∈ s.world.db.stageMessages) (hstage : m.stage = .research) :
    ∃ report id, m.payload = ResearchReport.contract.dump report ∧ m.parentMessageId = some id ∧
      m.idempotencyKey = buildResearchKey id host.cfg.researcher.promptVersion := by
  obtain ⟨envelope, next, rfl, hsource⟩ := message_origin h hm
  cases hsource with
  | ingested l alertId hl hi => cases hi.stage.symm.trans hstage
  | completed l lease next availableAt status t out hl hc =>
    rcases hc.research_or with ⟨parent, envelope', report, heq, -, he, -⟩ | ⟨-, hother⟩
    · obtain rfl := Option.some.inj heq
      exact ⟨report, parent.messageId, he.payload, he.parentId, he.key⟩
    · exact absurd hstage (hother envelope rfl).1

theorem payload_of_load (h : Reachable host C s) {m : StageMessage}
    (hm : m ∈ s.world.db.stageMessages) (hstage : m.stage = .research) {report : ResearchReport}
    (hload : ResearchReport.contract.load m.payload = some report) :
    m.payload = ResearchReport.contract.dump report := by
  obtain ⟨report', id, hpayload, -⟩ := research_message h hm hstage
  rw [hpayload, ResearchReport.contract.load_dump] at hload
  rw [hpayload, Option.some.inj hload]

/-- The thread is a researcher with the job of the message that `m` reports on. -/
structure WorksOn (th : Thread Op Op.Ans Exn Out Task) (m : StageMessage) (lease : JobLease) :
    Prop where
  task : th.task.stage = some .research
  first : leaseIn th.log = some lease
  parentId : m.parentMessageId = some lease.messageId

section WorksOn

variable {j : ℕ} {th : Thread Op Op.Ans Exn Out Task} {m : StageMessage} {lease : JobLease}

theorem WorksOn.job (hw : WorksOn th m lease) (h : Reachable host C s)
    (hth : s.threads[j]? = some th) :
    lease.key ∈ s.world.db.jobKeys ∧ lease.stage = .research := by
  obtain ⟨stage, workerId, leasedUntil, t, hasked⟩ := answered_of_leaseIn hw.first
  obtain ⟨hstage, hjob⟩ : lease.stage = stage ∧ lease.key ∈ s.world.db.jobKeys := told h hth hasked
  have htask := Leased.stage ⟨hw.first, workerId, leasedUntil, t, hasked⟩ h hth (List.prefix_refl _)
  exact ⟨hjob, hstage.trans (Option.some.inj (htask.symm.trans hw.task))⟩

/-- Who completes a job with the key of a research message works on it. -/
theorem Completes.worksOn (h : Reachable host C s) (hth : s.threads[j]? = some th)
    (hpre : log <+: th.log) {envelope : PipelineEnvelope} {next : Option StageName}
    (hc : Completes host.cfg log lease (some envelope) next) (hm : m ∈ s.world.db.stageMessages)
    (hstage : m.stage = .research) (hkey : m.idempotencyKey = envelope.idempotencyKey) :
    WorksOn th m lease := by
  obtain ⟨report, id, -, hparent, hmkey⟩ := research_message h hm hstage
  rcases hc.research_or with ⟨parent, envelope', report', heq, hh, he, -⟩ | ⟨-, hother⟩
  · obtain rfl := Option.some.inj heq
    have hheld := hh.held ⟨j, th, hth, hpre⟩ h
    have hids : id = parent.messageId := by
      have heq := hmkey.symm.trans (hkey.trans he.key)
      simp only [buildResearchKey, List.cons.injEq, Piece.uuid.injEq] at heq
      exact heq.2.1
    exact ⟨hh.leased.stage h hth hpre, (hh.leased.prefix_of hpre).first, by
      rw [hparent, hids, hheld.parentId]⟩
  · exact absurd (hkey.symm.trans hmkey) ((hother envelope rfl).2 id _)

/-- The output of a researcher that works on a message has its key. -/
theorem WorksOn.key (hw : WorksOn th m lease) (h : Reachable host C s)
    (hth : s.threads[j]? = some th) (hpre : log <+: th.log) {lease' : JobLease}
    {envelope : PipelineEnvelope} {next : Option StageName}
    (hc : Completes host.cfg log lease' (some envelope) next) (hm : m ∈ s.world.db.stageMessages)
    (hstage : m.stage = .research) : m.idempotencyKey = envelope.idempotencyKey := by
  obtain ⟨report, id, -, hparent, hmkey⟩ := research_message h hm hstage
  rcases hc.research_or with ⟨parent, envelope', report', heq, hh, he, -⟩ |
    ⟨⟨stage, parent, hne, hh⟩, -⟩
  · obtain rfl := Option.some.inj heq
    have hheld := hh.held ⟨j, th, hth, hpre⟩ h
    obtain rfl := Option.some.inj (hw.first.symm.trans (hh.leased.prefix_of hpre).first)
    obtain rfl : id = parent.messageId := by
      rw [hheld.parentId]
      exact Option.some.inj (hparent.symm.trans hw.parentId)
    exact hmkey.trans he.key.symm
  · exact absurd (Option.some.inj ((hh.leased.stage h hth hpre).symm.trans hw.task)) hne

/-- Who has published a research message works on it. -/
theorem Published.worksOn (h : Reachable host C s) (hth : s.threads[j]? = some th)
    (hpre : log <+: th.log) (hp : Published log m.messageId) (hm : m ∈ s.world.db.stageMessages)
    (hstage : m.stage = .research) : ∃ lease, WorksOn th m lease := by
  obtain ⟨lease, output, next, availableAt, status, t, hen⟩ := hp
  have hen := hpre.subset hen
  obtain ⟨envelope, rfl, m', hm', hid, hkey⟩ := stored_of_completed h hth hen
  obtain rfl := eq_of_nodup (wellFormed h).messageId hm' hm hid
  obtain ⟨l, l', hl, hissues⟩ := (issued h hth).mem hen
  exact ⟨lease, Completes.worksOn h hth ⟨_, hl.symm⟩ hissues.1 hm hstage hkey⟩

end WorksOn

/-! ## The rows of `research_evidence` -/

/-- The evidence saved for the message, in the order of the rows. -/
def PipelineDB.evidenceOf (db : PipelineDB) (messageId : UUID) : List EvidenceItem :=
  (db.researchEvidence.filter fun e => e.messageId = messageId).map ResearchEvidence.item

theorem PipelineDB.saveResearchEvidence_items {db db' : PipelineDB} {fresh messageId : UUID}
    {items : List EvidenceItem} (h : db.saveResearchEvidence fresh messageId items = .ok db')
    (id : UUID) :
    db'.evidenceOf id = db.evidenceOf id ++ if messageId = id then items else [] := by
  induction items generalizing db fresh with
  | nil =>
    obtain rfl := Except.ok.inj h
    simp
  | cons item items ih =>
    unfold saveResearchEvidence at h
    split_ifs at h
    rw [ih h]
    by_cases hid : messageId = id
    · simp [evidenceOf, hid]
    · simp [evidenceOf, hid]

/-- The evidence of the message that the call has saved. -/
def evidenceSaved (messageId : UUID) : Entry Op Op.Ans Exn → List EvidenceItem
  | ⟨.tx (.saveResearchEvidence id items), .ok _⟩ => if id = messageId then items else []
  | _ => []

@[simp] theorem evidenceSaved_self {messageId : UUID} {items : List EvidenceItem} {a : Unit} :
    evidenceSaved messageId ⟨.tx (.saveResearchEvidence messageId items), .ok a⟩ = items :=
  if_pos rfl

theorem evidenceSaved_ne_nil {messageId : UUID} {en : Entry Op Op.Ans Exn}
    (h : evidenceSaved messageId en ≠ []) :
    ∃ items a, en = ⟨.tx (.saveResearchEvidence messageId items), .ok a⟩ := by
  unfold evidenceSaved at h
  split at h
  · next id items a =>
    by_cases hid : id = messageId
    · subst hid
      exact ⟨items, a, rfl⟩
    · exact absurd (if_neg hid) h
  · exact absurd rfl h

/-- A call appends what it saves. -/
theorem evidenceOf_call {w w' : World} {op : Op} {inp : Input} {r : Except Exn op.Ans} (id : UUID)
    (h : w.call op inp = some (r, w')) :
    w'.db.evidenceOf id = w.db.evidenceOf id ++ evidenceSaved id ⟨op, r⟩ := by
  have hrun : ∀ {messageId items tie r w'}, w.runTx tie (.saveResearchEvidence messageId items) =
      (r, w') → w'.db.evidenceOf id = w.db.evidenceOf id ++
        evidenceSaved id ⟨.tx (.saveResearchEvidence messageId items), r⟩ := by
    intro messageId items tie r w' h
    unfold World.runTx at h
    split at h
    · next a db n hx =>
      obtain ⟨rfl, rfl⟩ := Prod.mk.inj h
      obtain ⟨db', hdb, heq⟩ := map_ok hx
      cases heq
      exact saveResearchEvidence_items hdb id
    · obtain ⟨rfl, rfl⟩ := Prod.mk.inj h
      exact (List.append_nil _).symm
  by_cases hop : ∃ messageId items, op = .tx (.saveResearchEvidence messageId items)
  · obtain ⟨messageId, items, rfl⟩ := hop
    cases inp <;> simp only [World.call, Option.some.injEq, reduceCtorEq] at h
    · exact hrun h
    · exact hrun h
    · obtain ⟨rfl, rfl⟩ := Prod.mk.inj h
      exact (List.append_nil _).symm
  · have hnone : evidenceSaved id ⟨op, r⟩ = [] := by
      by_contra hne
      obtain ⟨items, a, heq⟩ := evidenceSaved_ne_nil hne
      exact hop ⟨_, _, (Entry.mk.inj heq).1⟩
    rw [hnone, List.append_nil]
    cases called h with
    | evidence messageId items es hrows => exact absurd ⟨messageId, items, rfl⟩ hop
    | _ => rfl

/-- Evidence is saved by a thread that has published its message. -/
theorem evidenceOf_written (h : Reachable host C s) {id : UUID}
    (hid : s.world.db.evidenceOf id ≠ []) :
    ∃ (j : ℕ) (th : Thread Op Op.Ans Exn Out Task) (l l' : Log) (items : List EvidenceItem) (a : Unit),
      s.threads[j]? = some th ∧
      th.log = l ++ ⟨.tx (.saveResearchEvidence id items), .ok a⟩ :: l' ∧ Published l id := by
  obtain ⟨item, hitem⟩ := List.exists_mem_of_ne_nil _ hid
  obtain ⟨e, hrow, -⟩ := List.mem_map.mp hitem
  obtain ⟨he, hmid⟩ := List.mem_filter.mp hrow
  rw [← of_decide_eq_true hmid]
  exact evidence_written h he

/-- When evidence of a research message is about to be saved, none has been: who has saved some holds
the job that the thread holds, and ends with it. -/
theorem evidence_unsaved (h : Reachable host C s) {i : ℕ} {th : Thread Op Op.Ans Exn Out Task}
    (hth : s.threads[i]? = some th) {m : StageMessage} (hm : m ∈ s.world.db.stageMessages)
    (hstage : m.stage = .research) {items : List EvidenceItem}
    (hnext : th.next = some (.tx (.saveResearchEvidence m.messageId items))) :
    s.world.db.evidenceOf m.messageId = [] := by
  by_contra hsaved
  obtain ⟨j, th', l, l', items', a, hth', hlog, hpub'⟩ := evidenceOf_written h hsaved
  have hpub : Published th.log m.messageId := (issued h hth).next hnext
  obtain ⟨lease, hw⟩ := hpub.worksOn h hth (List.prefix_refl _) hm hstage
  obtain ⟨lease', hw'⟩ := hpub'.worksOn h hth' ⟨_, hlog.symm⟩ hm hstage
  have hmessages : lease.messageId = lease'.messageId :=
    Option.some.inj (hw.parentId.symm.trans hw'.parentId)
  obtain ⟨hjob, hresearch⟩ := hw.job h hth
  obtain ⟨hjob', hresearch'⟩ := hw'.job h hth'
  have hkeys : lease.key = lease'.key :=
    eq_of_nodup (wellFormed h).stageMessage hjob hjob'
      (Prod.ext (hresearch.trans hresearch'.symm) hmessages)
  have hjobs : lease.jobId = lease'.jobId := congrArg JobKey.jobId hkeys
  have hopens := issued_reach (M := machine host) (fun t => keepsRaising_body t [] open_nil) h
  have hopen : Open th.log := (hopens i th hth).next hnext
  -- the log of the other thread ends with the save
  obtain rfl : l' = [] := by
    cases l' with
    | nil => rfl
    | cons en l'' =>
      have hcalls := (reportsOnce h hth' hw'.task).2
        (l ++ [⟨.tx (.saveResearchEvidence m.messageId items'), .ok a⟩]) en l'' (by simp [hlog])
      obtain ⟨e, he⟩ := hcalls.1 _ (List.mem_append_right _ (List.mem_singleton_self _)) rfl
      cases he
  have hopen' : Open th'.log := by
    rw [hlog]
    refine open_append.mpr ⟨(hopens j th' hth').2 _ _ _ hlog, fun en hen hcloses => ?_⟩
    obtain rfl := List.mem_singleton.mp hen
    cases hcloses
  obtain rfl := (ledger h).exclusive hth hth' hw.first hw'.first hopen hopen' hjobs
  obtain rfl := Option.some.inj (hth.symm.trans hth')
  obtain ⟨e, he⟩ := ((reportsOnce h hth hw.task).next hnext).1
    ⟨.tx (.saveResearchEvidence m.messageId items'), .ok a⟩ (by simp [hlog]) rfl
  cases he

/-! ## The ANALYSIS job -/

/-- A research message that passes has an ANALYSIS job. -/
theorem analysis_job_of_pass (h : Reachable host C s) : ∀ m ∈ s.world.db.stageMessages,
    m.stage = .research → ∀ report, m.payload = ResearchReport.contract.dump report →
      report.status = .pass →
      ∃ k ∈ s.world.db.jobKeys, k.stage = .analysis ∧ k.messageId = m.messageId := by
  refine world_invariant (J := fun w => ∀ m ∈ w.db.stageMessages, m.stage = .research →
    ∀ report, m.payload = ResearchReport.contract.dump report → report.status = .pass →
      ∃ k ∈ w.db.jobKeys, k.stage = .analysis ∧ k.messageId = m.messageId)
    (fun _ hm => absurd hm List.not_mem_nil) ?_ (fun s e _ hJ => by cases e <;> exact hJ) h
  intro s i inp t log op k r w' hs _ hth hc hJ m hm hstage report hpayload hpass
  have hold : m ∈ s.world.db.stageMessages →
      ∃ k ∈ w'.db.jobKeys, k.stage = .analysis ∧ k.messageId = m.messageId := by
    intro hm
    obtain ⟨k, hk, hkey⟩ := hJ m hm hstage report hpayload hpass
    exact ⟨k, (called_grows (called hc)).jobs hk, hkey⟩
  rcases (called hc).messages with heq | ⟨envelope, hop, hnew, -, heq⟩
  · exact hold (heq ▸ hm)
  rcases List.mem_append.mp (heq ▸ hm) with hm | hm
  · exact hold hm
  obtain rfl := List.mem_singleton.mp hm
  have hissues := (issued hs hth).next rfl
  rcases hop with rfl | ⟨lease, next, availableAt, status, now, rfl⟩
  · obtain ⟨alertId, hi⟩ := hissues
    cases hi.stage.symm.trans hstage
  · rcases hissues.1.research_or with ⟨parent, envelope', report', henv, -, he, hnext⟩ | ⟨-, hother⟩
    · obtain rfl := Option.some.inj henv
      obtain rfl := ResearchReport.contract.dump_injective (he.payload.symm.trans hpayload)
      rw [if_pos hpass] at hnext
      rcases completed_cases (called hc) with ⟨hsame, -⟩ | ⟨-, -, hjobs⟩
      · exact hold (hsame ▸ heq ▸ List.mem_append_right _ (List.mem_singleton_self _))
      · exact hjobs .analysis hnext
    · exact absurd hstage (hother envelope rfl).1

theorem analysis_job_iff (h : Reachable host C s) {m : StageMessage}
    (hm : m ∈ s.world.db.stageMessages) (hstage : m.stage = .research) {report : ResearchReport}
    (hpayload : m.payload = ResearchReport.contract.dump report) :
    (∃ k ∈ s.world.db.jobKeys, k.stage = .analysis ∧ k.messageId = m.messageId) ↔
      report.status = .pass := by
  refine ⟨?_, analysis_job_of_pass h m hm hstage report hpayload⟩
  rintro ⟨k, hk, hkstage, hid⟩
  obtain ⟨envelope, hfound, -, -, hsource⟩ := job_origin h hk
  obtain ⟨hmem, hmid⟩ := mem_of_findMessage hfound
  obtain rfl := eq_of_nodup (wellFormed h).messageId hmem hm (hmid.trans hid)
  rw [hkstage] at hsource
  generalize hnext : some StageName.analysis = next at hsource
  cases hsource with
  | ingested l alertId hl hi => cases hnext
  | completed l lease next availableAt status t out hl hc =>
    rcases hc.research_or with ⟨parent, envelope', report', heq, -, he, hnext'⟩ | ⟨-, hother⟩
    · obtain rfl := Option.some.inj heq
      obtain rfl := ResearchReport.contract.dump_injective (he.payload.symm.trans hpayload)
      by_contra hpass
      rw [if_neg hpass] at hnext'
      cases hnext.trans hnext'
    · exact absurd hstage (hother envelope rfl).1

/-! ## Agreement -/

/-- The trace status that the call wrote, if it was a completion that answered with the message. -/
def traceStatus (messageId : UUID) : Entry Op Op.Ans Exn → Option String
  | ⟨.tx (.completeJobSuccess _ _ _ _ status _), .ok (some id)⟩ =>
    if id = messageId then some status else none
  | _ => none

/-- A completion for the message has written the trace status. -/
def StatusWritten (s : State) (messageId : UUID) (status : String) : Prop :=
  ∃ (j : ℕ) (th : Thread Op Op.Ans Exn Out Task), s.threads[j]? = some th ∧
    ∃ en ∈ th.log, traceStatus messageId en = some status

/-- What is stored beside a research message agrees with the report in it. -/
structure MessageAgrees (s : State) (m : StageMessage) (report : ResearchReport) : Prop where
  evidence : s.world.db.evidenceOf m.messageId = [] ∨
    (s.world.db.evidenceOf m.messageId).Perm report.evidence
  status : ∀ status, StatusWritten s m.messageId status → status = report.status.value
  analysis : (∃ k ∈ s.world.db.jobKeys, k.stage = .analysis ∧ k.messageId = m.messageId) ↔
    report.status = .pass

def SideTablesAgree (s : State) : Prop :=
  ∀ m ∈ s.world.db.stageMessages, m.stage = .research →
    ∃ report, ResearchReport.contract.load m.payload = some report ∧ MessageAgrees s m report

def Op.completes : Op → Bool
  | .tx (.completeJobSuccess ..) => true
  | _ => false

/-- A researcher that completes its job, or saves evidence, for a message stored by an earlier
attempt, was given a report with the status, or the evidence, of the stored one. -/
def SameFindings (s : State) : PipelineEvent → Prop
  | .act i inp => ∀ th, s.threads[i]? = some th → ∀ op ∈ th.next, Commits s.world op inp →
    ∀ m ∈ s.world.db.stageMessages, m.stage = .research → ∀ lease, WorksOn th m lease →
    ∀ report ∈ reportGiven th.log, ∀ stored, ResearchReport.contract.load m.payload = some stored →
      (op.completes = true → report.status = stored.status) ∧
      (op.savesEvidence = true → report.evidence.Perm stored.evidence)
  | _ => True

theorem traceStatus_eq_some {messageId : UUID} {en : Entry Op Op.Ans Exn} {status : String} :
    traceStatus messageId en = some status ↔ ∃ lease output next availableAt t,
      en = ⟨.tx (.completeJobSuccess lease output next availableAt status t),
        .ok (some messageId)⟩ := by
  constructor
  · intro h
    unfold traceStatus at h
    split at h
    · next lease output next availableAt status' t id =>
      split_ifs at h with hid
      subst hid
      obtain rfl := Option.some.inj h
      exact ⟨lease, output, next, availableAt, t, rfl⟩
    · cases h
  · rintro ⟨lease, output, next, availableAt, t, rfl⟩
    simp [traceStatus]

theorem ResearchStatus.value_injective : Function.Injective ResearchStatus.value := by
  intro a b h
  cases a <;> cases b <;> first | rfl | simp [ResearchStatus.value] at h

/-- A status is written for messages in the table only. -/
theorem StatusWritten.stored {messageId : UUID} {status : String}
    (hs : StatusWritten s messageId status) (h : Reachable host C s) :
    ∃ m ∈ s.world.db.stageMessages, m.messageId = messageId := by
  obtain ⟨j, th, hth, en, hen, heq⟩ := hs
  obtain ⟨lease, output, next, availableAt, t, rfl⟩ := traceStatus_eq_some.mp heq
  obtain ⟨envelope, -, m, hm, hid, -⟩ := stored_of_completed h hth hen
  exact ⟨m, hm, hid⟩

/-- So is evidence saved. -/
theorem evidence_stored (h : Reachable host C s) {id : UUID} (hid : s.world.db.evidenceOf id ≠ []) :
    ∃ m ∈ s.world.db.stageMessages, m.messageId = id := by
  obtain ⟨j, th, l, l', items, a, hth, hlog, lease, output, next, availableAt, status, t, hen⟩ :=
    evidenceOf_written h hid
  obtain ⟨envelope, -, m, hm, hmid, -⟩ :=
    stored_of_completed h hth (hen.prefix_of ⟨_, hlog.symm⟩)
  exact ⟨m, hm, hmid⟩

/-! ## A call -/

section Call

variable {i : ℕ} {inp : Input} {t : Task} {op : Op} {k : Except Exn op.Ans → Program Out}
  {r : Except Exn op.Ans} {w' : World} {m : StageMessage}

/-- The state after the call of a thread. -/
theorem reachable_call (h : Reachable host Any s)
    (hth : s.threads[i]? = some ⟨t, log, .call op k, true⟩)
    (hcall : (machine host).call s.world op inp = some (r, w')) :
    Reachable host Any ⟨w', s.threads.set i ⟨t, log ++ [⟨op, r⟩], k r, true⟩⟩ := by
  have hstep : (machine host).step s (.act i inp) =
      ⟨w', s.threads.set i ⟨t, log ++ [⟨op, r⟩], k r, true⟩⟩ := by
    simp only [Machine.step, hth, hcall]
  exact hstep ▸ .step h trivial

/-- A completion answered with a stored research message wrote the status of the report given to a
researcher that works on the message. -/
theorem status_of_call (h : Reachable host Any s)
    (hth : s.threads[i]? = some ⟨t, log, .call op k, true⟩)
    (hcall : (machine host).call s.world op inp = some (r, w')) (hm : m ∈ s.world.db.stageMessages)
    (hstage : m.stage = .research) {status : String}
    (hstatus : traceStatus m.messageId ⟨op, r⟩ = some status) :
    op.completes = true ∧ (∃ lease, WorksOn ⟨t, log, .call op k, true⟩ m lease) ∧
      ∃ report, reportGiven log = some report ∧ status = report.status.value := by
  obtain ⟨lease, output, next, availableAt, now, heq⟩ := traceStatus_eq_some.mp hstatus
  obtain ⟨rfl, hr⟩ := Entry.mk.inj heq
  obtain rfl := eq_of_heq hr
  obtain ⟨hlt, -⟩ := List.getElem?_eq_some_iff.mp hth
  obtain ⟨envelope, rfl, m', hm', hid, hkey⟩ :=
    stored_of_completed (reachable_call h hth hcall) (List.getElem?_set_self hlt) answered_last
  have hm'' := (called_grows (called hcall)).allMessages hm
  obtain rfl := eq_of_nodup (called_wellFormed (called hcall) (wellFormed h)).messageId hm' hm'' hid
  have hcompletes : Completes host.cfg log lease (some envelope) next := ((issued h hth).next rfl).1
  have hw := Completes.worksOn h hth (List.prefix_refl _) hcompletes hm hstage hkey
  obtain ⟨-, report, -, hreport, -, -, hval, -⟩ := (reportsOnce h hth hw.task).next rfl
  exact ⟨rfl, ⟨lease, hw⟩, report, hreport, hval⟩

/-- A completion by a researcher that works on a stored message is answered with it. -/
theorem call_of_completes (h : Reachable host Any s)
    (hth : s.threads[i]? = some ⟨t, log, .call op k, true⟩)
    (hcall : (machine host).call s.world op inp = some (r, w')) (hm : m ∈ s.world.db.stageMessages)
    (hstage : m.stage = .research) (hop : op.completes = true) (hok : ∃ a, r = .ok a)
    {lease : JobLease} (hw : WorksOn ⟨t, log, .call op k, true⟩ m lease) {report : ResearchReport}
    (hreport : reportGiven log = some report) :
    traceStatus m.messageId ⟨op, r⟩ = some report.status.value := by
  obtain ⟨a, rfl⟩ := hok
  cases op with
  | tx tx =>
    cases tx with
    | completeJobSuccess lease' output next availableAt status now =>
      obtain ⟨-, report', envelope, hreport', rfl, -, rfl, -⟩ := (reportsOnce h hth hw.task).next rfl
      obtain rfl := Option.some.inj (hreport.symm.trans hreport')
      have hcompletes : Completes host.cfg log lease' (some envelope) next :=
        ((issued h hth).next rfl).1
      have hkey := hw.key h hth (List.prefix_refl _) hcompletes hm hstage
      refine traceStatus_eq_some.mpr ⟨lease', some envelope, next, availableAt, now, ?_⟩
      have hcalled := called hcall
      generalize ha : (Except.ok a : Except Exn (Option UUID)) = r at hcalled ⊢
      cases hcalled with
      | asked op r hop => exact hop.elim
      | raised => cases ha
      | completed lease output next availableAt status now out ms js ts hts hcase =>
        rcases hcase with ⟨-, -, ⟨hnone, -⟩ | ⟨envelope', heq, m', hm', hkey', rfl⟩⟩ |
          ⟨envelope', heq, -, hnew, -⟩
        · cases hnone
        · obtain rfl := Option.some.inj heq
          obtain rfl := eq_of_nodup (wellFormed h).idempotencyKey hm' hm (hkey'.trans hkey.symm)
          rfl
        · obtain rfl := Option.some.inj heq
          exact absurd hkey (hnew.key m hm)
    | _ => cases hop
  | _ => cases hop

/-- Who saves evidence of a stored research message works on it. -/
theorem evidence_of_call (h : Reachable host Any s)
    (hth : s.threads[i]? = some ⟨t, log, .call op k, true⟩)
    (hm : m ∈ s.world.db.stageMessages) (hstage : m.stage = .research) {items : List EvidenceItem}
    {a : Unit} (hen : (⟨op, r⟩ : Entry Op Op.Ans Exn) =
      ⟨.tx (.saveResearchEvidence m.messageId items), .ok a⟩) :
    op.savesEvidence = true ∧ (∃ lease, WorksOn ⟨t, log, .call op k, true⟩ m lease) ∧
      s.world.db.evidenceOf m.messageId = [] ∧ items ≠ [] ∧
      ∃ report, reportGiven log = some report ∧ items = report.evidence := by
  obtain ⟨rfl, -⟩ := Entry.mk.inj hen
  have hpub : Published log m.messageId := (issued h hth).next rfl
  obtain ⟨lease, hw⟩ := hpub.worksOn h hth (List.prefix_refl _) hm hstage
  obtain ⟨-, hne, report, hreport, hitems⟩ := (reportsOnce h hth hw.task).next rfl
  exact ⟨rfl, ⟨lease, hw⟩, evidence_unsaved h hth hm hstage rfl, hne, report, hreport, hitems⟩

/-- Who works on a research message saves evidence of no other. -/
theorem call_of_savesEvidence (h : Reachable host Any s)
    (hth : s.threads[i]? = some ⟨t, log, .call op k, true⟩)
    (hm : m ∈ s.world.db.stageMessages) (hstage : m.stage = .research)
    (hop : op.savesEvidence = true) (hok : ∃ a, r = .ok a) {lease : JobLease}
    (hw : WorksOn ⟨t, log, .call op k, true⟩ m lease) :
    ∃ items a, (⟨op, r⟩ : Entry Op Op.Ans Exn) =
      ⟨.tx (.saveResearchEvidence m.messageId items), .ok a⟩ := by
  obtain ⟨a, rfl⟩ := hok
  cases op with
  | tx tx =>
    cases tx with
    | saveResearchEvidence messageId items =>
      obtain ⟨lease', output, next, availableAt, status, now, hen⟩ : Published log messageId :=
        (issued h hth).next rfl
      obtain ⟨envelope, rfl, m', hm', rfl, hkey'⟩ := stored_of_completed h hth hen
      obtain ⟨l, l', hl, hissues⟩ := (issued h hth).mem hen
      have hkey := hw.key h hth ⟨_, hl.symm⟩ hissues.1 hm hstage
      obtain rfl := eq_of_nodup (wellFormed h).idempotencyKey hm' hm (hkey'.trans hkey.symm)
      exact ⟨items, a, rfl⟩
    | _ => cases hop
  | _ => cases hop

theorem statusWritten_call {messageId : UUID} {status : String}
    (hth : s.threads[i]? = some ⟨t, log, .call op k, true⟩) :
    StatusWritten ⟨w', s.threads.set i ⟨t, log ++ [⟨op, r⟩], k r, true⟩⟩ messageId status ↔
      StatusWritten s messageId status ∨ traceStatus messageId ⟨op, r⟩ = some status := by
  obtain ⟨hlt, -⟩ := List.getElem?_eq_some_iff.mp hth
  constructor
  · rintro ⟨j, th, hj, en, hen, heq⟩
    rcases getElem?_set_cases hj with ⟨rfl, rfl⟩ | ⟨-, hj⟩
    · rcases List.mem_append.mp hen with hen | hen
      · exact Or.inl ⟨j, _, hth, en, hen, heq⟩
      · obtain rfl := List.mem_singleton.mp hen
        exact Or.inr heq
    · exact Or.inl ⟨j, th, hj, en, hen, heq⟩
  · rintro (⟨j, th, hj, en, hen, heq⟩ | heq)
    · by_cases hij : i = j
      · subst hij
        obtain rfl := Option.some.inj (hth.symm.trans hj)
        exact ⟨i, _, List.getElem?_set_self hlt, en, List.mem_append_left _ hen, heq⟩
      · exact ⟨j, th, by rw [List.getElem?_set_ne hij]; exact hj, en, hen, heq⟩
    · exact ⟨i, _, List.getElem?_set_self hlt, _,
        List.mem_append_right _ (List.mem_singleton_self _), heq⟩

/-- A call keeps the agreement of a stored message exactly if the report it is made with has the
status, or the evidence, of the stored one. -/
theorem messageAgrees_call (h : Reachable host Any s)
    (hth : s.threads[i]? = some ⟨t, log, .call op k, true⟩)
    (hcall : (machine host).call s.world op inp = some (r, w')) (hm : m ∈ s.world.db.stageMessages)
    (hstage : m.stage = .research) {stored : ResearchReport}
    (hpayload : m.payload = ResearchReport.contract.dump stored) (ha : MessageAgrees s m stored) :
    MessageAgrees ⟨w', s.threads.set i ⟨t, log ++ [⟨op, r⟩], k r, true⟩⟩ m stored ↔
      ((∃ a, r = .ok a) → ∀ lease, WorksOn ⟨t, log, .call op k, true⟩ m lease →
        ∀ report ∈ reportGiven log, (op.completes = true → report.status = stored.status) ∧
          (op.savesEvidence = true → report.evidence.Perm stored.evidence)) := by
  constructor
  · rintro hagrees hok lease hw report hreport
    constructor
    · intro hop
      have hstatus := call_of_completes h hth hcall hm hstage hop hok hw hreport
      have hval := hagrees.status _ ((statusWritten_call hth).mpr (Or.inr hstatus))
      exact ResearchStatus.value_injective hval
    · intro hop
      obtain ⟨items, a, hen⟩ := call_of_savesEvidence h hth hm hstage hop hok hw
      obtain ⟨-, -, hnone, hne, report', hreport', hitems⟩ := evidence_of_call h hth hm hstage hen
      obtain rfl := Option.some.inj (hreport'.symm.trans hreport)
      have hrows := evidenceOf_call m.messageId hcall
      rw [hnone, hen, evidenceSaved_self, List.nil_append, hitems] at hrows
      rcases hagrees.evidence with hnil | hperm
      · exact absurd (hitems.trans (hrows.symm.trans hnil)) hne
      · exact hrows ▸ hperm
  · intro hcond
    have hm' := (called_grows (called hcall)).allMessages hm
    refine ⟨?_, ?_, analysis_job_iff (reachable_call h hth hcall) hm' hstage hpayload⟩
    · have hrows := evidenceOf_call m.messageId hcall
      by_cases hsaved : evidenceSaved m.messageId ⟨op, r⟩ = []
      · rw [hsaved, List.append_nil] at hrows
        exact hrows ▸ ha.evidence
      · obtain ⟨items, a, hen⟩ := evidenceSaved_ne_nil hsaved
        obtain ⟨hop, ⟨lease, hw⟩, hnone, -, report, hreport, hitems⟩ :=
          evidence_of_call h hth hm hstage hen
        obtain ⟨rfl, hr⟩ := Entry.mk.inj hen
        have hperm := (hcond ⟨a, eq_of_heq hr⟩ lease hw report hreport).2 rfl
        rw [hnone, hen, evidenceSaved_self, List.nil_append, hitems] at hrows
        exact Or.inr (hrows ▸ hperm)
    · intro status hwritten
      rcases (statusWritten_call hth).mp hwritten with hold | hnew
      · exact ha.status status hold
      · obtain ⟨hop, ⟨lease, hw⟩, report, hreport, rfl⟩ :=
          status_of_call h hth hcall hm hstage hnew
        obtain ⟨_, _, _, _, _, heq⟩ := traceStatus_eq_some.mp hnew
        obtain ⟨rfl, hr⟩ := Entry.mk.inj heq
        rw [(hcond ⟨_, eq_of_heq hr⟩ lease hw report hreport).1 rfl]

/-- A message agrees with what is stored beside it when it is stored. -/
theorem messageAgrees_new (h : Reachable host Any s)
    (hth : s.threads[i]? = some ⟨t, log, .call op k, true⟩)
    (hcall : (machine host).call s.world op inp = some (r, w')) (hm : m ∈ w'.db.stageMessages)
    (hold : m ∉ s.world.db.stageMessages) (hstage : m.stage = .research) :
    ∃ report, ResearchReport.contract.load m.payload = some report ∧
      MessageAgrees ⟨w', s.threads.set i ⟨t, log ++ [⟨op, r⟩], k r, true⟩⟩ m report := by
  rcases (called hcall).messages with heq | ⟨envelope, hop, hnew, -, heq⟩
  · exact absurd (heq ▸ hm) hold
  rcases List.mem_append.mp (heq ▸ hm) with hm' | hm'
  · exact absurd hm' hold
  obtain rfl := List.mem_singleton.mp hm'
  have hissues := (issued h hth).next rfl
  rcases hop with rfl | ⟨lease, next, availableAt, status, now, rfl⟩
  · obtain ⟨alertId, hi⟩ := hissues
    cases hi.stage.symm.trans hstage
  rcases hissues.1.research_or with ⟨parent, envelope', report, henv, hh, he, -⟩ | ⟨-, hother⟩
  · obtain rfl := Option.some.inj henv
    have htask := hh.leased.stage h hth (List.prefix_refl _)
    obtain ⟨-, report', envelope', hreport, henv', hdump, rfl, -⟩ := (reportsOnce h hth htask).next rfl
    obtain rfl := Option.some.inj henv'
    obtain rfl := ResearchReport.contract.dump_injective (hdump.symm.trans he.payload)
    have hpayload : (StageMessage.ofEnvelope envelope).payload =
        ResearchReport.contract.dump report' := hdump
    have hunstored : ∀ m ∈ s.world.db.stageMessages, m.messageId ≠ envelope.messageId := hnew.id
    refine ⟨report', by rw [hpayload, ResearchReport.contract.load_dump], ?_, ?_,
      analysis_job_iff (reachable_call h hth hcall) hm hstage hpayload⟩
    · refine Or.inl ?_
      have hrows := evidenceOf_call envelope.messageId hcall
      have hnone : evidenceSaved envelope.messageId ⟨.tx (.completeJobSuccess lease (some envelope)
          next availableAt report'.status.value now), r⟩ = [] := by cases r <;> rfl
      rw [hnone, List.append_nil] at hrows
      refine hrows.trans (by_contra fun hne => ?_)
      obtain ⟨m, hm, hid⟩ := evidence_stored h hne
      exact hunstored m hm hid
    · intro status hwritten
      rcases (statusWritten_call hth).mp hwritten with hbefore | hafter
      · obtain ⟨m, hm, hid⟩ := hbefore.stored h
        exact absurd hid (hunstored m hm)
      · obtain ⟨_, _, _, _, _, heq⟩ := traceStatus_eq_some.mp hafter
        cases heq
        rfl
  · exact absurd hstage (hother envelope rfl).1

end Call

/-! ## A step -/

/-- What is written stays written when no thread makes a call. -/
theorem SideTablesAgree.same {s' : State} (h : SideTablesAgree s) (hdb : s'.world.db = s.world.db)
    (hlogs : ∀ (j : ℕ) (th' : Thread Op Op.Ans Exn Out Task), s'.threads[j]? = some th' →
      th'.log = [] ∨ ∃ th, s.threads[j]? = some th ∧ th'.log = th.log) : SideTablesAgree s' := by
  intro m hm hstage
  rw [hdb] at hm
  obtain ⟨report, hload, ha⟩ := h m hm hstage
  refine ⟨report, hload, hdb ▸ ha.evidence, ?_, hdb ▸ ha.analysis⟩
  rintro status ⟨j, th', hj, en, hen, heq⟩
  rcases hlogs j th' hj with hlog | ⟨th, hth, hlog⟩
  · rw [hlog] at hen
    cases hen
  · exact ha.status status ⟨j, th, hth, en, hlog ▸ hen, heq⟩

theorem sideTablesAgree_step (h : Reachable host Any s) (ha : SideTablesAgree s)
    (e : PipelineEvent) : SideTablesAgree ((machine host).step s e) ↔ SameFindings s e := by
  have hquiet : (∀ i inp, e ≠ .act i inp) → SideTablesAgree ((machine host).step s e) := by
    intro hne
    rcases (moved (machine host) s e).quiet_or_call with ⟨hworld, hlogs⟩ | ⟨i, inp, _, _, _, _, _, _, he, -⟩
    · refine ha.same ?_ hlogs
      rcases hworld with hworld | ⟨e, hworld⟩
      · rw [hworld]
      · rw [hworld]
        cases e <;> rfl
    · exact absurd he (hne i inp)
  cases e with
  | start t => exact iff_of_true (hquiet nofun) trivial
  | crash i => exact iff_of_true (hquiet nofun) trivial
  | env e => exact iff_of_true (hquiet nofun) trivial
  | act i inp =>
    rcases (machine host).act_cases s i inp with
      ⟨hstep, hnone⟩ | ⟨t, log, op, k, r, w', hth, hcall, hstep⟩
    · rw [hstep]
      refine iff_of_true ha fun th hth op hop ⟨a, w', hc⟩ => ?_
      cases (hnone th hth op hop).symm.trans hc
    rw [hstep]
    constructor
    · intro hagrees th hth' op' hop hcommits m hm hstage lease hw report hreport stored hload
      obtain rfl := Option.some.inj (hth.symm.trans hth')
      obtain rfl : op = op' := Option.some.inj hop
      obtain ⟨stored', hload', hbefore⟩ := ha m hm hstage
      obtain rfl := Option.some.inj (hload.symm.trans hload')
      obtain ⟨stored', hload', hafter⟩ :=
        hagrees m ((called_grows (called hcall)).allMessages hm) hstage
      obtain rfl := Option.some.inj (hload.symm.trans hload')
      obtain ⟨a, w'', hc⟩ := hcommits
      have hok : r = .ok a := (Prod.mk.inj (Option.some.inj (hcall.symm.trans hc))).1
      exact (messageAgrees_call h hth hcall hm hstage (payload_of_load h hm hstage hload) hbefore).mp
        hafter ⟨a, hok⟩ lease hw report hreport
    · intro hcond m hm hstage
      by_cases hold : m ∈ s.world.db.stageMessages
      · obtain ⟨stored, hload, hbefore⟩ := ha m hold hstage
        refine ⟨stored, hload, (messageAgrees_call h hth hcall hold hstage
          (payload_of_load h hold hstage hload) hbefore).mpr ?_⟩
        rintro ⟨a, rfl⟩ lease hw report hreport
        exact hcond _ hth op rfl ⟨a, w', hcall⟩ m hold hstage lease hw report hreport stored hload
      · exact messageAgrees_new h hth hcall hm hold hstage

/-- The rows of `research_evidence`, the trace status and the ANALYSIS job agree with every stored
research message all along a run exactly if no researcher whose message is already stored completes,
or saves evidence, with another status or other evidence. -/
theorem side_tables_agree (host : Host) (es : List PipelineEvent) :
    (∀ es', es' <+: es → SideTablesAgree (run host es')) ↔
      ∀ es' e, es' ++ [e] <+: es → SameFindings (run host es') e := by
  have hrun := foldl_invariant_iff (I := SideTablesAgree) (J := Reachable host Any)
    (A := SameFindings) (fun s e hs => .step hs trivial)
    (fun s e hs ha => sideTablesAgree_step hs ha e) es .init
  exact hrun.trans (and_iff_right fun m hm => absurd hm List.not_mem_nil)

namespace Sample

def evidenceItem (url : String) : EvidenceItem :=
  ⟨lit url, lit "t", lit "p", none, 0, .primary, 1, lit "c"⟩

/-- A researcher is given the report and completes its job. -/
def reportedBy (i : ℕ) (r : ResearchReport) : List PipelineEvent :=
  List.flatten [[.start (.researcher (lit "r"))], calls i 4, [.act i (.report r)], calls i 4]

/-- The evidence of the first report cannot be saved, and the second attempt is given another. -/
def reportedTwice : List PipelineEvent :=
  List.flatten [ingested 0, reportedBy 1 { report with evidence := [evidenceItem "u1"] },
    [.act 1 (.fault (lit "locked"))], calls 1 2, tick 30000000,
    reportedBy 2 { report with status := .defer, evidence := [evidenceItem "u2"] }, calls 2 1]

end Sample

/-- The message stores the first report, with status `pass` and its ANALYSIS job, beside the evidence
and the status of the second. -/
theorem side_tables_disagree :
    ¬ SideTablesAgree (run (Sample.host "none") Sample.reportedTwice) := by
  obtain ⟨m, hm, hstage, hload, hrows⟩ :
      ∃ m ∈ (run (Sample.host "none") Sample.reportedTwice).world.db.stageMessages,
        m.stage = .research ∧ ResearchReport.contract.load m.payload =
          some { Sample.report with evidence := [Sample.evidenceItem "u1"] } ∧
        (run (Sample.host "none") Sample.reportedTwice).world.db.evidenceOf m.messageId =
          [Sample.evidenceItem "u2"] := by
    decide +kernel
  intro hagree
  obtain ⟨report, hreport, hagrees⟩ := hagree m hm hstage
  obtain rfl := Option.some.inj (hload.symm.trans hreport)
  rcases hagrees.evidence with hnil | hperm
  · rw [hrows] at hnil
    cases hnil
  · rw [hrows] at hperm
    exact absurd (List.perm_singleton.mp hperm) (by decide)

end Sentinel.Pipeline
