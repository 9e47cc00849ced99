import Sentinel.Logic.Forest
import Sentinel.Outcome.Observations
import Sentinel.Pipeline.Forward

/-!
# The messages of a trace

Every message that a worker stores names the message it was made from, which is of the same trace
and of an earlier stage.  So the messages of a trace form a tree, with the ingested alert as its
root.

* `Completes.advances`: the output of a completion is of a later stage than the message held.
* `messages_planted`: the table of messages is a forest.
* `trace_tree`: the messages of one trace descend from one message, that of its alert.
-/

namespace Sentinel.Pipeline

open Logic Contracts PipelineDB

variable {host : Host} {C : State → PipelineEvent → Prop} {s : State}

namespace StageMessage

/-- What ingress stores. -/
def IsRoot (m : StageMessage) : Prop := m.stage = .ingest ∧ m.parentMessageId = none

/-- The message was made from `parent`, at a later stage of the same trace. -/
structure MadeFrom (parent m : StageMessage) : Prop where
  parentId : m.parentMessageId = some parent.messageId
  trace : m.traceId = parent.traceId
  stage : rank parent.stage < rank m.stage

end StageMessage

/-! ## The stage of a held message -/

/-- The stage whose output the worker of a stage reads. -/
theorem Held.rank_lt {stage : StageName} {lease : JobLease} {parent : PipelineEnvelope}
    (hheld : Held s.world.db stage lease parent) (h : Reachable host C s)
    (hreadable : stage = .outcome → Readable s.world.db lease.messageId) :
    rank parent.stage < rank stage := by
  obtain ⟨envelope, hm, -, -, hqueued⟩ := job_message h hheld.job
  have heq := Option.some.inj (hheld.message.symm.trans hm)
  have hstage : parent.stage = envelope.stage := congrArg StageMessage.stage heq
  have hpayload : parent.payload = envelope.payload := congrArg StageMessage.payload heq
  have hkey : lease.key.stage = stage := hheld.stage
  rw [hkey] at hqueued
  rw [hstage]
  cases hqueued with
  | alert l alertId hl hi =>
    rw [hi.stage]
    decide
  | research l lease parent report hl hh he =>
    rw [he.stage]
    decide
  | analysis l lease parent capturedAt output hl hh he =>
    rw [he.stage]
    decide
  | awaiting l lease parent candidate intent checks approvalId hl hev he =>
    rw [he.stage]
    decide
  | submitted l lease parent intent checks stage brokerOrderId hl hs hst he =>
    rw [he.stage]
    rcases hst with rfl | rfl <;> decide
  | followUp l lease' parent' key observedCount pendingCount hl hh he =>
    -- the worker could read the message it holds, and nobody can read a follow-up
    obtain ⟨m, hfound, hload⟩ := hreadable rfl
    obtain rfl := Option.some.inj (hheld.message.symm.trans hfound)
    refine absurd ?_ hload
    show ExecutionDecision.contract.load parent.payload = none
    rw [hpayload, he.payload]
    rfl

/-- The output of a completion is made from the message that the worker holds. -/
theorem Completes.advances {i : ℕ} {th : Thread Op Op.Ans Exn Out Task} {lease : JobLease}
    {envelope : PipelineEnvelope} {next : Option StageName}
    (hc : Completes host.cfg th.log lease (some envelope) next) (h : Reachable host C s)
    (hth : s.threads[i]? = some th) :
    ∃ p ∈ s.world.db.stageMessages, p.MadeFrom (.ofEnvelope envelope) := by
  have hmade : ∀ {stage stage' : StageName} {parent : PipelineEnvelope} {key : Text}
      {payload : JsonValue}, Holds th.log stage lease parent →
      IsChild parent stage' key payload envelope → rank stage ≤ rank stage' →
      (stage = .outcome → Readable s.world.db lease.messageId) →
      ∃ p ∈ s.world.db.stageMessages, p.MadeFrom (.ofEnvelope envelope) := by
    intro stage stage' parent key payload hholds he hle hreadable
    have hheld := hholds.held ⟨i, th, hth, List.prefix_refl _⟩ h
    refine ⟨_, (mem_of_findMessage hheld.message).1, ⟨he.parentId, he.traceId, ?_⟩⟩
    have hlt := hheld.rank_lt h hreadable
    show rank parent.stage < rank envelope.stage
    rw [he.stage]
    omega
  cases hc with
  | researched parent envelope ingested report next hh hload hreport he hnext =>
    exact hmade hh he le_rfl nofun
  | analysed parent envelope report snapshot output next hh hload hsnapshot he hnext hdrawn =>
    exact hmade hh he le_rfl nofun
  | rejected parent envelope decision hh hstatus he => exact hmade hh he le_rfl nofun
  | awaiting l parent envelope candidate intent checks approvalId hmode hl hev he =>
    exact hmade (hev.holds.prefix_of hl) he le_rfl nofun
  | submitted l parent envelope intent checks stage brokerOrderId hl hs hst he hholds =>
    refine hmade (hholds.prefix_of hl) he le_rfl ?_
    rcases hst with rfl | rfl <;> exact nofun
  | ended parent envelope status decision hh he => exact hmade hh he le_rfl nofun
  | observed parent envelope rows rows' t next hw hdue hupdated hrows' he hnext =>
    exact hmade hw.holds he le_rfl fun _ => readable_of_listed h hth hw.holds hrows'

/-! ## The forest of messages -/

theorem messages_planted (h : Reachable host C s) :
    Planted StageMessage.IsRoot StageMessage.MadeFrom s.world.db.stageMessages := by
  refine world_invariant (M := machine host)
    (J := fun w => Planted StageMessage.IsRoot StageMessage.MadeFrom w.db.stageMessages)
    planted_nil ?_ (fun s e _ hJ => by cases e <;> exact hJ) h
  intro s i inp t log op k r w' hs _ hth hc ih
  rcases (called hc).messages with heq | ⟨envelope, hop, -, -, heq⟩
  · rw [heq]
    exact ih
  · rw [heq]
    refine ih.concat ?_
    have hissues := (issued hs hth).next rfl
    rcases hop with rfl | ⟨lease, next, availableAt, status, now, rfl⟩
    · obtain ⟨alertId, hi⟩ := hissues
      exact Or.inl ⟨hi.stage, hi.parentId⟩
    · have hconcludes : Concludes host.cfg log lease (some envelope) next status := hissues
      exact Or.inr (hconcludes.completes.advances hs hth)

/-- A root has the key of the alert of its trace. -/
theorem root_key (h : Reachable host C s) {m : StageMessage} (hm : m ∈ s.world.db.stageMessages)
    (hroot : m.IsRoot) : ∃ alertId, m.idempotencyKey = buildIngestKey alertId ∧
      s.world.db.sourceAlertIdForTrace m.traceId = some alertId := by
  obtain ⟨envelope, next, rfl, hsource⟩ := message_origin h hm
  cases hsource with
  | ingested l alertId hl hi => exact ⟨alertId, hi.key, hi.alert hl h⟩
  | completed l lease next availableAt status t out hl hc =>
    obtain ⟨stage, parent, -, hchild⟩ := hc.holds
    have hparent := (hchild envelope rfl).2
    cases hroot.2.symm.trans hparent

/-- Each trace has one root. -/
theorem root_unique (h : Reachable host C s) {m m' : StageMessage}
    (hm : m ∈ s.world.db.stageMessages) (hm' : m' ∈ s.world.db.stageMessages) (hroot : m.IsRoot)
    (hroot' : m'.IsRoot) (htrace : m.traceId = m'.traceId) : m = m' := by
  obtain ⟨alertId, hkey, halert⟩ := root_key h hm hroot
  obtain ⟨alertId', hkey', halert'⟩ := root_key h hm' hroot'
  rw [htrace, halert'] at halert
  obtain rfl := Option.some.inj halert
  exact eq_of_nodup (wellFormed h).idempotencyKey hm hm' (hkey.trans hkey'.symm)

/-- In every reachable state the messages of a trace descend, stage by stage, from the one message
in which its alert was stored. -/
theorem trace_tree (h : Reachable host C s) {m₀ : StageMessage}
    (hm₀ : m₀ ∈ s.world.db.stageMessages) :
    ∃ root ∈ s.world.db.stageMessages, root.IsRoot ∧
      (∃ alertId, root.idempotencyKey = buildIngestKey alertId ∧
        s.world.db.sourceAlertIdForTrace m₀.traceId = some alertId) ∧
      ∀ m ∈ s.world.db.stageMessages, m.traceId = m₀.traceId →
        Descends StageMessage.MadeFrom s.world.db.stageMessages root m := by
  have hplanted := messages_planted h
  have htrace : ∀ {root m : StageMessage},
      Descends StageMessage.MadeFrom s.world.db.stageMessages root m → m.traceId = root.traceId :=
    fun {root m} hdesc => hdesc.handed_on (P := fun m => m.traceId = root.traceId)
      (fun p x hx hp => hx.trace.trans hp) rfl
  obtain ⟨root, hmem, hroot, hdesc⟩ := hplanted.descends hm₀
  obtain ⟨alertId, hkey, halert⟩ := root_key h hmem hroot
  refine ⟨root, hmem, hroot, ⟨alertId, hkey, by rw [htrace hdesc, halert]⟩, fun m hm heq => ?_⟩
  obtain ⟨root', hmem', hroot', hdesc'⟩ := hplanted.descends hm
  have hsame : root'.traceId = root.traceId :=
    (htrace hdesc').symm.trans (heq.trans (htrace hdesc))
  obtain rfl := root_unique h hmem' hmem hroot' hroot hsame
  exact hdesc'

theorem trace_tree_traded :
    (run (Sample.host "auto") Sample.tradedEvents).world.db.stageMessages.length = 4 ∧
      ∀ m₀ ∈ (run (Sample.host "auto") Sample.tradedEvents).world.db.stageMessages,
        ∃ root ∈ (run (Sample.host "auto") Sample.tradedEvents).world.db.stageMessages,
          root.IsRoot ∧ (∃ alertId, root.idempotencyKey = buildIngestKey alertId ∧
            (run (Sample.host "auto") Sample.tradedEvents).world.db.sourceAlertIdForTrace
              m₀.traceId = some alertId) ∧
          ∀ m ∈ (run (Sample.host "auto") Sample.tradedEvents).world.db.stageMessages,
            m.traceId = m₀.traceId → Descends StageMessage.MadeFrom
              (run (Sample.host "auto") Sample.tradedEvents).world.db.stageMessages root m :=
  ⟨by decide +kernel, fun _ hm₀ => trace_tree (reachable_run _ Sample.tradedEvents) hm₀⟩

end Sentinel.Pipeline
