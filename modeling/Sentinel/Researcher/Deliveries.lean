import Sentinel.Pipeline.Forward
import Sentinel.Researcher.Acknowledged

/-!
# What a delivery stores

A delivery stores the alert that its body spells, and queues the message if it stored it itself.

* `always_delivery`: the calls and the response of a delivery.
* `stored_by`: the delivery that stored the message of an alert.
-/

namespace Sentinel.Pipeline

open Logic Contracts PipelineDB

variable {host : Host} {C : State → PipelineEvent → Prop} {s : State}

/-- The message holds an alert that the body spells. -/
def Spelled (body : Body) (payload : JsonValue) : Prop :=
  ∃ ingested, IngestedAlert.contract.load payload = some ingested ∧
    body.json.bind ShiftAlertMirror.contract.load = some ingested.shiftAlert

/-- How a delivery ends: with one of three statuses, and with a job for what it has stored. -/
structure Responded (log : Log) (r : Except Exn Out) : Prop where
  status : ∀ response, r = .ok (.response response) →
    response.statusCode = 202 ∨ response.statusCode = 400 ∨ response.statusCode = 401
  queued : ∀ out, r = .ok out → ∀ envelope id,
    Answered log (.tx (.upsertMessage envelope)) (id, true) → ∃ traceId priority jobId,
      Answered log (.tx (.enqueueJob traceId .research id priority)) jobId

theorem responded_error {log : Log} {e : Exn} : Responded log (.error e) :=
  ⟨fun _ h => (nomatch h), fun _ h => (nomatch h)⟩

/-- A delivery that is turned down has called nothing. -/
theorem responded_refused {statusCode : ℕ} {error : String}
    (h : statusCode = 400 ∨ statusCode = 401) :
    Responded [] (.ok (.response ⟨statusCode, .error error⟩)) where
  status response heq := by
    obtain rfl : _ = response := Out.response.inj (Except.ok.inj heq)
    exact Or.inr h
  queued _ _ _ _ hen := absurd hen List.not_mem_nil

theorem always_delivery {body : Body} {headers : List (String × String)}
    {replaySource : Option Text} :
    Always (fun _ op => ∀ envelope ∈ op.upserts, Spelled body envelope.payload) Responded
      ((Task.ingress body headers replaySource).body host) [] := by
  have hnone : ∀ {op : Op}, op.upserts = none → ∀ envelope ∈ op.upserts,
      Spelled body envelope.payload := fun hop envelope hen => by rw [hop] at hen; cases hen
  unfold Task.body ResearcherIngressService.handleAlert
  dsimp only
  split_ifs
  · exact responded_refused (Or.inr rfl)
  · exact responded_refused (Or.inr rfl)
  · split
    · exact responded_refused (Or.inl rfl)
    · next shiftAlert hload =>
      split_ifs
      · exact responded_refused (Or.inl rfl)
      · simp only [ResearcherIngressService.persist, ensureTrace, newEnvelope, Prog.bind_def,
          Prog.bind_assoc]
        refine always_perform_bind (hnone rfl) (fun t => ?_) fun e => responded_error
        refine always_perform_bind (hnone rfl) (fun traceId => ?_) fun e => responded_error
        refine always_perform_bind (hnone rfl) (fun receivedAt => ?_) fun e => responded_error
        refine always_perform_bind (hnone rfl) (fun messageId => ?_) fun e => responded_error
        refine always_perform_bind (hnone rfl) (fun createdAt => ?_) fun e => responded_error
        refine always_perform_bind ?_ (fun out => ?_) fun e => responded_error
        · rintro _ ⟨⟩
          exact ⟨_, IngestedAlert.contract.load_dump _, hload⟩
        · obtain ⟨storedId, inserted⟩ := out
          cases inserted with
          | false =>
            refine ⟨fun response heq => ?_, fun out _ envelope id hen => ?_⟩
            · obtain rfl : _ = response := Out.response.inj (Except.ok.inj heq)
              exact Or.inl rfl
            · simp [Answered] at hen
          | true =>
            simp only [if_true, Prog.bind_assoc]
            refine always_perform_bind (hnone rfl) (fun jobId => ?_) fun e => responded_error
            refine ⟨fun response heq => ?_, fun out _ envelope id hen => ?_⟩
            · obtain rfl : _ = response := Out.response.inj (Except.ok.inj heq)
              exact Or.inl rfl
            · simp [Answered] at hen
              obtain ⟨-, rfl⟩ := hen
              exact ⟨traceId, 100, jobId, answered_last⟩

/-- What the threads of a state know of deliveries. -/
theorem delivery_issued (h : Reachable host C s) {i : ℕ} {th : Thread Op Op.Ans Exn Out Task}
    (hth : s.threads[i]? = some th) {body : Body} {headers : List (String × String)}
    {replaySource : Option Text} (htask : th.task = .ingress body headers replaySource) :
    (∀ en ∈ th.log, ∀ envelope ∈ en.op.upserts, Spelled body envelope.payload) ∧
      ∀ r, th.result = some r → Responded th.log r := by
  have hissued := issued_reach (M := machine host)
    (Φ := fun t _ op => ∀ body headers src, t = .ingress body headers src →
      ∀ envelope ∈ op.upserts, Spelled body envelope.payload)
    (Ψ := fun t l r => ∀ body headers src, t = .ingress body headers src → Responded l r)
    (fun t => ?_) h i th hth
  · refine ⟨fun en hen => ?_, fun r hr => hissued.ended hr _ _ _ htask⟩
    obtain ⟨l, l', -, hop⟩ := hissued.mem hen
    exact hop _ _ _ htask
  · by_cases ht : ∃ body headers src, t = .ingress body headers src
    · obtain ⟨body, headers, src, rfl⟩ := ht
      refine always_delivery.mono' (fun l op _ hop b hd sr heq => ?_) fun l r _ hr b hd sr heq => ?_
      · obtain ⟨rfl, -⟩ := Task.ingress.inj heq
        exact hop
      · exact hr
    · push Not at ht
      exact always_of (fun _ _ _ _ _ heq => absurd heq (ht _ _ _)) fun _ _ _ _ _ heq =>
        absurd heq (ht _ _ _)

/-- The thread is a delivery that stored the message. -/
structure StoredBy (s : State) (m : StageMessage) (i : ℕ) (th : Thread Op Op.Ans Exn Out Task) :
    Prop where
  thread : s.threads[i]? = some th
  task : ∃ body headers replaySource, th.task = .ingress body headers replaySource ∧
    Spelled body m.payload
  answered : ∃ envelope, Answered th.log (.tx (.upsertMessage envelope)) (m.messageId, true)

/-- The message of an alert was stored by a delivery. -/
theorem stored_by (h : Reachable host C s) {m : StageMessage} (hm : m ∈ s.world.db.stageMessages)
    {alertId : Text} (hkey : m.idempotencyKey = buildIngestKey alertId) :
    ∃ i th, StoredBy s m i th := by
  obtain ⟨i, th, l, l', en, hth, hl, horigin, hissues⟩ :=
    written (R := fun db m => m ∈ db.stageMessages)
      (O := fun m en => ∃ envelope, m = .ofEnvelope envelope ∧
        (en = ⟨.tx (.upsertMessage envelope), .ok (envelope.messageId, true)⟩ ∨
          ∃ lease next availableAt status now,
            en.op = .tx (.completeJobSuccess lease (some envelope) next availableAt status now)))
      h (fun _ => List.not_mem_nil)
      (fun w op r w' m hc hm => by
        rcases hc.messages with heq | ⟨envelope, hop, hnew, ⟨a, rfl⟩, heq⟩
        · exact Or.inl (heq ▸ hm)
        · rcases List.mem_append.mp (heq ▸ hm) with hm | hm
          · exact Or.inl hm
          · refine Or.inr ⟨envelope, List.mem_singleton.mp hm, ?_⟩
            rcases hop with rfl | hop
            · cases hc with
              | asked op r hop => cases hop
              | messageKnown envelope m' hm' hkey => exact absurd hkey (hnew.key m' hm')
              | messageNew envelope hnew => exact Or.inl rfl
            · exact Or.inr hop) hm
  obtain ⟨envelope, rfl, rfl | ⟨lease, next, availableAt, status, now, hop⟩⟩ := horigin
  · obtain ⟨alertId', hi⟩ := hissues
    obtain ⟨stage, status, htrace⟩ := hi.trace
    have hmem : ⟨.tx (.upsertMessage envelope), .ok (envelope.messageId, true)⟩ ∈ th.log := by
      rw [hl]
      exact List.mem_append_right l List.mem_cons_self
    obtain ⟨hingests, -, -⟩ :=
      ((issued h hth).mem (htrace.prefix_of ⟨_, hl.symm⟩)).choose_spec.choose_spec.2
    obtain ⟨body, headers, replaySource, htask⟩ :
        ∃ body headers replaySource, th.task = .ingress body headers replaySource := by
      cases htask : th.task <;> rw [htask] at hingests
      case ingress body headers replaySource => exact ⟨body, headers, replaySource, rfl⟩
      all_goals cases hingests
    exact ⟨i, th, hth, ⟨body, headers, replaySource, htask,
      (delivery_issued h hth htask).1 _ hmem envelope rfl⟩, envelope, hmem⟩
  · -- a message of an alert is of the ingest stage, which no worker puts out
    rw [hop] at hissues
    obtain ⟨parent, -, -, hstage, -⟩ := hissues.completes.stages
    exact absurd ((ingest_message_iff h hm alertId).mpr hkey).1 hstage

end Sentinel.Pipeline
