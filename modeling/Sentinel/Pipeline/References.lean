import Sentinel.Pipeline.Draws

/-!
# Declared references

SQLite does not enforce the foreign keys of the schema.  The workers write a referenced row before
the rows that refer to it, with one exception: `create_approval_request` commits under the id of a
message that is only stored by a later transaction, if at all.

* `ForeignKeys`: every declared key.
* `declared_keys`: all of them follow from the one for approval requests.
-/

namespace Sentinel.Pipeline

open Logic Contracts PipelineDB

variable {host : Host} {C : State → PipelineEvent → Prop} {s : State}

/-! ## The schema's keys -/

namespace PipelineDB

def traceIds (db : PipelineDB) : List UUID := db.pipelineTraces.map PipelineTrace.traceId

def messageIds (db : PipelineDB) : List UUID := db.stageMessages.map StageMessage.messageId

def jobIds (db : PipelineDB) : List UUID := db.stageJobs.map StageJob.jobId

theorem mem_traceIds {db : PipelineDB} {id : UUID} {alertId : Text}
    (h : (id, alertId) ∈ db.traceKeys) : id ∈ db.traceIds := by
  obtain ⟨t, ht, heq⟩ := List.mem_map.mp h
  obtain ⟨rfl, -⟩ := Prod.mk.inj heq
  exact List.mem_map_of_mem ht

theorem mem_messageIds {db : PipelineDB} {id : UUID} {m : StageMessage}
    (h : db.findMessage id = some m) : id ∈ db.messageIds := by
  obtain ⟨hm, rfl⟩ := mem_of_findMessage h
  exact List.mem_map_of_mem hm

theorem mem_jobIds {db : PipelineDB} {k : JobKey} (h : k ∈ db.jobKeys) : k.jobId ∈ db.jobIds := by
  obtain ⟨j, hj, rfl⟩ := mem_jobKeys.mp h
  exact List.mem_map_of_mem (f := StageJob.jobId) hj

end PipelineDB

/-- The `FOREIGN KEY` clauses of the schema. -/
structure ForeignKeys (db : PipelineDB) : Prop where
  messageTrace : db.stageMessages.map StageMessage.traceId ⊆ db.traceIds
  messageParent : db.stageMessages.filterMap StageMessage.parentMessageId ⊆ db.messageIds
  jobTrace : db.stageJobs.map StageJob.traceId ⊆ db.traceIds
  jobMessage : db.stageJobs.map StageJob.messageId ⊆ db.messageIds
  runJob : db.stageRuns.map StageRun.jobId ⊆ db.jobIds
  runMessage : db.stageRuns.map StageRun.messageId ⊆ db.messageIds
  evidenceMessage : db.researchEvidence.map ResearchEvidence.messageId ⊆ db.messageIds
  candidateMessage : db.analysisCandidates.map AnalysisCandidate.messageId ⊆ db.messageIds
  requestTrace : db.approvalRequests.map ApprovalRequest.traceId ⊆ db.traceIds
  requestMessage : db.approvalRequests.map ApprovalRequest.messageId ⊆ db.messageIds
  orderTrace : db.brokerOrders.map (fun o => o.traceId) ⊆ db.traceIds
  deadLetterJob : db.deadLetters.map DeadLetter.jobId ⊆ db.jobIds
  observationTrace : db.outcomeObservations.map (fun o => o.observation.traceId) ⊆ db.traceIds

/-! ## Where the rows come from -/

theorem Held.mem_traceIds {stage : StageName} {lease : JobLease} {parent : PipelineEnvelope}
    (h : Held s.world.db stage lease parent) : parent.traceId ∈ s.world.db.traceIds :=
  PipelineDB.mem_traceIds h.trace

/-- A stored message has its trace and its parent. -/
theorem message_references (h : Reachable host C s) {m : StageMessage}
    (hm : m ∈ s.world.db.stageMessages) : m.traceId ∈ s.world.db.traceIds ∧
      ∀ id ∈ m.parentMessageId, id ∈ s.world.db.messageIds := by
  obtain ⟨envelope, next, rfl, hsource⟩ := message_origin h hm
  cases hsource with
  | ingested l alertId hl hi =>
    obtain ⟨stage, status, htrace⟩ := hi.trace
    refine ⟨PipelineDB.mem_traceIds (hl.told h htrace), fun id hid => ?_⟩
    cases hi.parentId.symm.trans hid
  | completed l lease next availableAt status t out hl hcompletes =>
    obtain ⟨stage, parent, hholds, hchild⟩ := hcompletes.holds
    have hheld := hholds.held (hl.prefix_of (List.prefix_append _ _)) h
    obtain ⟨htrace, hparent⟩ := hchild envelope rfl
    refine ⟨(congrArg (· ∈ s.world.db.traceIds) htrace).mpr hheld.mem_traceIds, fun id hid => ?_⟩
    obtain rfl := Option.some.inj (hparent.symm.trans hid)
    rw [hheld.parentId]
    exact mem_messageIds hheld.message

theorem job_references (h : Reachable host C s) {k : JobKey} (hk : k ∈ s.world.db.jobKeys) :
    k.traceId ∈ s.world.db.traceIds ∧ k.messageId ∈ s.world.db.messageIds := by
  obtain ⟨envelope, hm, -, htr, -⟩ := job_origin h hk
  have htrace := (message_references h (mem_of_findMessage hm).1).1
  rw [← htr]
  exact ⟨htrace, mem_messageIds hm⟩

/-- A run is of a job that was leased. -/
theorem run_origin (h : Reachable host C s) {r : StageRun} (hr : r ∈ s.world.db.stageRuns) :
    ∃ k ∈ s.world.db.jobKeys, k.jobId = r.jobId ∧ k.messageId = r.messageId := by
  obtain ⟨j, th, l, l', _, hth, hl, ⟨stage, workerId, leasedUntil, t, lease, rfl, hjob, hmessage⟩, -⟩ :=
    written (R := fun db (x : UUID × UUID) =>
        ∃ r ∈ db.stageRuns, r.jobId = x.1 ∧ r.messageId = x.2)
      (O := fun x en => ∃ stage workerId leasedUntil t lease,
        en = ⟨.tx (.leaseNextJob stage workerId leasedUntil t), .ok (some lease)⟩ ∧
          lease.jobId = x.1 ∧ lease.messageId = x.2) h
      (fun _ ⟨_, hr, _⟩ => absurd hr List.not_mem_nil)
      (fun w op r w' x hc ⟨run, hrun, hjob, hmessage⟩ => by
        have hended : ∀ (lease : JobLease) (state : JobState) (now : Time),
            run ∈ updateWhere (fun r => r.runId = lease.runId) (fun r => { r with
              finishedAt := some now, resultState := state }) w.db.stageRuns →
            ∃ r ∈ w.db.stageRuns, r.jobId = x.1 ∧ r.messageId = x.2 := by
          intro lease state now hmem
          obtain ⟨old, hold, rfl⟩ := mem_updateWhere.mp hmem
          refine ⟨old, hold, ?_⟩
          split_ifs at hjob hmessage <;> exact ⟨hjob, hmessage⟩
        cases hc with
        | leased stage workerId leasedUntil now row hrow hnew =>
          rcases List.mem_append.mp hrun with hold | hlast
          · exact Or.inl ⟨run, hold, hjob, hmessage⟩
          · obtain rfl := List.mem_singleton.mp hlast
            exact Or.inr ⟨stage, workerId, leasedUntil, now, _, rfl, hjob, hmessage⟩
        | completed lease output next availableAt status now out ms js ts hts hcase =>
          exact Or.inl (hended lease .succeeded now hrun)
        | retried lease error availableAt now => exact Or.inl (hended lease .retryWait now hrun)
        | deadLettered lease reason payload now => exact Or.inl (hended lease .deadLetter now hrun)
        | _ => exact Or.inl ⟨run, hrun, hjob, hmessage⟩) (x := (r.jobId, r.messageId))
      ⟨r, hr, rfl, rfl⟩
  have hen : Answered th.log (.tx (.leaseNextJob stage workerId leasedUntil t)) (some lease) := by
    rw [hl]
    exact List.mem_append_right _ List.mem_cons_self
  obtain ⟨-, hkey⟩ : lease.stage = stage ∧ lease.key ∈ s.world.db.jobKeys := told h hth hen
  exact ⟨lease.key, hkey, hjob, hmessage⟩

theorem deadLetter_origin (h : Reachable host C s) {d : DeadLetter}
    (hd : d ∈ s.world.db.deadLetters) : d.jobId ∈ s.world.db.jobIds := by
  obtain ⟨j, th, l, l', _, hth, hl, ⟨lease, reason, payload, t, a, rfl, hjob⟩, hissues⟩ :=
    written (R := fun db x => ∃ d ∈ db.deadLetters, d.jobId = x)
      (O := fun x en => ∃ lease reason payload t a,
        en = ⟨.tx (.deadLetterJob lease reason payload t), .ok a⟩ ∧ lease.jobId = x) h
      (fun _ ⟨_, hd, _⟩ => absurd hd List.not_mem_nil)
      (fun w op r w' x hc ⟨d, hd, hjob⟩ => by
        cases hc with
        | deadLettered lease reason payload now =>
          rcases List.mem_append.mp hd with hold | hlast
          · exact Or.inl ⟨d, hold, hjob⟩
          · obtain rfl := List.mem_singleton.mp hlast
            exact Or.inr ⟨lease, reason, payload, now, _, rfl, hjob⟩
        | _ => exact Or.inl ⟨d, hd, hjob⟩) ⟨d, hd, rfl⟩
  obtain ⟨stage, ⟨-, workerId, leasedUntil, t', hasked⟩, -⟩ := hissues
  have hpre : l <+: th.log := ⟨_, hl.symm⟩
  obtain ⟨-, hkey⟩ : lease.stage = stage ∧ lease.key ∈ s.world.db.jobKeys :=
    told h hth (hasked.prefix_of hpre)
  rw [← hjob]
  exact mem_jobIds hkey

/-- The message a completion answers with is stored. -/
theorem Published.stored {l : Log} {id : UUID} (hp : Published l id) (hl : Logged s l)
    (h : Reachable host C s) : id ∈ s.world.db.messageIds := by
  obtain ⟨lease, output, next, availableAt, status, t, hen⟩ := hp
  obtain ⟨j, th, hth, hpre⟩ := hl
  obtain ⟨envelope, -, m, hm, rfl, -⟩ := stored_of_completed h hth (hen.prefix_of hpre)
  exact List.mem_map_of_mem hm

theorem evidence_origin (h : Reachable host C s) {e : ResearchEvidence}
    (he : e ∈ s.world.db.researchEvidence) : e.messageId ∈ s.world.db.messageIds := by
  obtain ⟨j, th, l, l', items, a, hth, hl, hpublished⟩ := evidence_written h he
  exact Published.stored hpublished ⟨j, th, hth, ⟨_, hl.symm⟩⟩ h

theorem candidate_origin (h : Reachable host C s) {c : AnalysisCandidate}
    (hc : c ∈ s.world.db.analysisCandidates) : c.messageId ∈ s.world.db.messageIds := by
  obtain ⟨j, th, l, l', _, hth, hl, ⟨candidates, rejected, a, rfl⟩, hpublished, -⟩ :=
    written (R := fun db x => ∃ c ∈ db.analysisCandidates, c.messageId = x)
      (O := fun x en => ∃ candidates rejected a,
        en = ⟨.tx (.saveAnalysisCandidates x candidates rejected), .ok a⟩) h
      (fun _ ⟨_, hc, _⟩ => absurd hc List.not_mem_nil)
      (fun w op r w' x hc ⟨c, hmem, hid⟩ => by
        cases hc with
        | candidates messageId candidates rejected cs hrows =>
          rcases hrows c hmem with hold | ⟨hnew, -⟩
          · exact Or.inl ⟨c, hold, hid⟩
          · obtain rfl := hnew.symm.trans hid
            exact Or.inr ⟨candidates, rejected, _, rfl⟩
        | _ => exact Or.inl ⟨c, hmem, hid⟩) ⟨c, hc, rfl⟩
  exact Published.stored hpublished ⟨j, th, hth, ⟨_, hl.symm⟩⟩ h

/-- Every declared key holds if that from approval requests to messages does. -/
theorem declared_keys (h : Reachable host C s)
    (hmessage : s.world.db.approvalRequests.map ApprovalRequest.messageId ⊆ s.world.db.messageIds) :
    ForeignKeys s.world.db where
  messageTrace := by
    intro id hid
    obtain ⟨m, hm, rfl⟩ := List.mem_map.mp hid
    exact (message_references h hm).1
  messageParent := by
    intro id hid
    obtain ⟨m, hm, hparent⟩ := List.mem_filterMap.mp hid
    exact (message_references h hm).2 id hparent
  jobTrace := by
    intro id hid
    obtain ⟨j, hj, rfl⟩ := List.mem_map.mp hid
    exact (job_references h (mem_jobKeys.mpr ⟨j, hj, rfl⟩)).1
  jobMessage := by
    intro id hid
    obtain ⟨j, hj, rfl⟩ := List.mem_map.mp hid
    exact (job_references h (mem_jobKeys.mpr ⟨j, hj, rfl⟩)).2
  runJob := by
    intro id hid
    obtain ⟨r, hr, rfl⟩ := List.mem_map.mp hid
    obtain ⟨k, hk, hjob, -⟩ := run_origin h hr
    rw [← hjob]
    exact mem_jobIds hk
  runMessage := by
    intro id hid
    obtain ⟨r, hr, rfl⟩ := List.mem_map.mp hid
    obtain ⟨k, hk, -, hmessage⟩ := run_origin h hr
    rw [← hmessage]
    exact (job_references h hk).2
  evidenceMessage := by
    intro id hid
    obtain ⟨e, he, rfl⟩ := List.mem_map.mp hid
    exact evidence_origin h he
  candidateMessage := by
    intro id hid
    obtain ⟨c, hc, rfl⟩ := List.mem_map.mp hid
    exact candidate_origin h hc
  requestTrace := by
    intro id hid
    obtain ⟨r, hr, rfl⟩ := List.mem_map.mp hid
    obtain ⟨-, j, th, l, lease, parent, hth, hl, hholds, htrace, -⟩ := request_origin h hr
    rw [htrace]
    exact (hholds.held ⟨j, th, hth, hl⟩ h).mem_traceIds
  requestMessage := hmessage
  orderTrace := by
    intro id hid
    obtain ⟨o, ho, rfl⟩ := List.mem_map.mp hid
    obtain ⟨j, th, l, l', lease, parent, intent, order, _, hth, -, hsubmits, hrecord, hlog, -⟩ :=
      order_origin h ho
    obtain ⟨stage, -, hholds⟩ := hsubmits.holds
    have htrace : o.traceId = parent.traceId := congrArg OrderRecord.traceId hrecord
    rw [htrace]
    exact (hholds.held ⟨j, th, hth, l', hlog.symm⟩ h).mem_traceIds
  deadLetterJob := by
    intro id hid
    obtain ⟨d, hd, rfl⟩ := List.mem_map.mp hid
    exact deadLetter_origin h hd
  observationTrace := by
    intro id hid
    obtain ⟨o, ho, rfl⟩ := List.mem_map.mp hid
    obtain ⟨l, lease, parent, intent, hl, hsubmits, htrace⟩ := observation_origin h ho
    obtain ⟨stage, -, hholds⟩ := hsubmits.holds
    rw [htrace]
    exact (hholds.held hl h).mem_traceIds

/-! ## Requests for approval -/

/-- The call of `create_approval_request`. -/
def Op.requestsApproval : Op → Bool
  | .tx (.createApprovalRequest ..) => true
  | _ => false

/-- No request for an approval commits. -/
def NoRequest (s : State) : PipelineEvent → Prop
  | .act i inp => ∀ op ∈ nextCall s i, op.requestsApproval = true →
    ∀ p ∈ s.world.call op inp, p.1.isOk = false
  | _ => True

instance (s : State) : ∀ e : PipelineEvent, Decidable (NoRequest s e)
  | .act _ _ => inferInstanceAs (Decidable (∀ _ ∈ _, _ → ∀ _ ∈ _, _))
  | .start _ | .crash _ | .env _ => inferInstanceAs (Decidable True)

theorem no_requests (h : Reachable host NoRequest s) : s.world.db.approvalRequests = [] := by
  refine world_invariant (M := machine host) (J := fun w => w.db.approvalRequests = []) rfl
    (fun s i inp t log op k r w' hs hC hth hc ih => ?_) (fun s e _ ih => by cases e <;> exact ih) h
  rcases (called hc).requests with heq | ⟨request, hop, -, heq⟩ |
    ⟨token, status, approverId, reason, now, -, heq⟩
  · exact heq.trans ih
  · obtain rfl := hop
    have hC : NoRequest s (.act i inp) := hC
    have hraised := hC _ (nextCall_eq hth) rfl _ hc
    cases r with
    | ok a => cases hraised
    | error e =>
      have hcalled := called hc
      cases hcalled with
      | asked op r hop => cases hop
      | raised op e hop => exact ih
  · rw [heq, ih]
    rfl

theorem exists_of_nextCall {i : ℕ} {op : Op} (h : nextCall s i = some op) : ∃ t log k,
    s.threads[i]? = some ⟨t, log, .call op k, true⟩ := by
  obtain ⟨th, hth, hnext⟩ := Option.bind_eq_some_iff.mp h
  obtain ⟨t, log, prog, live⟩ := th
  cases live with
  | false => simp [Thread.next] at hnext
  | true =>
    cases prog with
    | ret a => simp [Thread.next, Prog.next] at hnext
    | raise e => simp [Thread.next, Prog.next] at hnext
    | call op' k =>
      obtain rfl : op' = op := by simpa [Thread.next, Prog.next] using hnext
      exact ⟨t, log, k, hth⟩

/-- The id that a request names is that of no stored message yet. -/
theorem requested_early (h : Reachable host C s) {i : ℕ} {t : Task} {log : Log}
    {request : ApprovalRequest} {k : Except Exn Unit → Program Out}
    (hth : s.threads[i]? = some ⟨t, log, .call (.tx (.createApprovalRequest request)) k, true⟩) :
    request.messageId ∉ s.world.db.messageIds := by
  intro hmem
  obtain ⟨m, hm, hid⟩ := List.mem_map.mp hmem
  have hissues : Issues host.cfg t log (.tx (.createApprovalRequest request)) :=
    (issued h hth).next rfl
  obtain ⟨-, -, hunended, hdrawn, lease, parent, hholds, -⟩ := hissues
  have hlog : log <+: (⟨t, log, .call (.tx (.createApprovalRequest request)) k, true⟩ :
    Thread Op Op.Ans Exn Out Task).log := List.prefix_refl _
  obtain ⟨envelope, next, rfl, hsource⟩ := message_origin h hm
  have hid : envelope.messageId = request.messageId := hid
  rw [← hid] at hdrawn
  cases hsource with
  | ingested l alertId hl hi =>
    obtain ⟨j, th, hth', hl⟩ := hl
    obtain rfl := drawn_thread h hth hth' hlog hl hdrawn hi.drawn
    obtain rfl := Option.some.inj (hth.symm.trans hth')
    exact hi.not_leased hholds.leased h hth hl hlog
  | completed l lease' next availableAt status t' out hl hcompletes =>
    obtain ⟨_, hconcludes⟩ := hl.issues h
    obtain ⟨j, th, hth', hl⟩ := hl
    obtain rfl := drawn_thread h hth hth' hlog ((List.prefix_append _ _).trans hl) hdrawn
      (hconcludes.drawn envelope rfl)
    obtain rfl := Option.some.inj (hth.symm.trans hth')
    cases hunended _ (hl.subset (List.mem_append_right _ (List.mem_singleton.mpr rfl)))

/-- While no request for an approval commits, every declared key holds; the step in which one commits
breaks a key. -/
theorem foreign_keys (h : Reachable host NoRequest s) : ForeignKeys s.world.db ∧
    ∀ e, ¬ NoRequest s e → ¬ ForeignKeys ((machine host).step s e).world.db := by
  refine ⟨declared_keys h (by simp [no_requests h]), fun e he hkeys => ?_⟩
  cases e with
  | start t => exact he trivial
  | crash i => exact he trivial
  | env e => exact he trivial
  | act i inp =>
    refine he fun op hop hrequests p hp => ?_
    obtain ⟨t, log, k, hth⟩ := exists_of_nextCall hop
    obtain ⟨r, w'⟩ := p
    cases r with
    | error e => rfl
    | ok a =>
      exfalso
      have hstep : ((machine host).step s (.act i inp)).world = w' := by
        have hp : (machine host).call s.world op inp = some (.ok a, w') := hp
        simp only [Machine.step, hth, hp]
      rw [hstep] at hkeys
      cases op with
      | tx tx =>
        cases tx with
        | createApprovalRequest request =>
          have hcalled := called hp
          generalize ha : (Except.ok a : Except Exn Unit) = r at hcalled
          cases hcalled with
          | asked op r hop => cases hop
          | raised op e hop => cases ha
          | requested request hnew =>
            refine requested_early h hth (hkeys.requestMessage ?_)
            simp
        | _ => cases hrequests
      | _ => cases hrequests

namespace Sample

/-- The executor has asked for an approval and not yet stored the message that it names. -/
def danglingEvents : List PipelineEvent :=
  List.flatten [ingested 0, researched 1, analysed 2 (portfolio 1001 0), calls 2 1,
    evaluated 3 (portfolio 1001 0), calls 3 6]

end Sample

theorem foreign_keys_traded :
    ForeignKeys (run (Sample.host "auto") Sample.tradedEvents).world.db ∧
      ∀ e, ¬ NoRequest (run (Sample.host "auto") Sample.tradedEvents) e → ¬ ForeignKeys
        ((machine (Sample.host "auto")).step (run (Sample.host "auto") Sample.tradedEvents) e).world.db :=
  foreign_keys (reach_of_allowed (by decide +kernel))

/-- A request for an approval names a message that does not exist. -/
theorem request_dangles : ∃ s, Reachable (Sample.host "manual_all") Any s ∧
    ¬ ForeignKeys s.world.db := by
  refine ⟨_, reachable_run _ Sample.danglingEvents, fun hkeys => ?_⟩
  have hdangling : ∃ r ∈ (run (Sample.host "manual_all") Sample.danglingEvents).world.db.approvalRequests,
      r.messageId ∉ (run (Sample.host "manual_all") Sample.danglingEvents).world.db.messageIds := by
    decide +kernel
  obtain ⟨r, hr, hnone⟩ := hdangling
  exact hnone (hkeys.requestMessage (List.mem_map_of_mem hr))

end Sentinel.Pipeline
