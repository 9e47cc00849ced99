import Sentinel.Pipeline.Paths

/-!
# Rules for the programs of the pipeline

One rule for each kind of call and for each program that the workers share.  A rule about a call
speaks of the rest of the program too, with the call appended to the log.
-/

namespace Sentinel.Pipeline

open Logic Contracts

variable {cfg : PipelineConfig} {task : Task} {log : Log} {α : Type}
  {Ψ : Log → Except Exn α → Prop} [Tolerant Ψ]

theorem always_now {site : ClockSite} {f : Time → Program α}
    (hop : Issues cfg task log (.now site))
    (hok : ∀ t, Always (Issues cfg task) Ψ (f t) (log ++ [⟨.now site, .ok t⟩])) :
    Always (Issues cfg task) Ψ (now site >>= f) log :=
  always_op hop hok

theorem always_uuid4 {site : IdSite} {f : UUID → Program α}
    (hok : ∀ id, Always (Issues cfg task) Ψ (f id) (log ++ [⟨.uuid4 site, .ok id⟩])) :
    Always (Issues cfg task) Ψ (uuid4 site >>= f) log :=
  always_op trivial hok

theorem always_tx {t : Tx} {f : t.Ans → Program α} (hop : Issues cfg task log (.tx t))
    (hok : ∀ a, Always (Issues cfg task) Ψ (f a) (log ++ [⟨.tx t, .ok a⟩])) :
    Always (Issues cfg task) Ψ (tx t >>= f) log :=
  always_op hop hok

/-! ## Messages -/

theorem always_getMessage {id : UUID} {f : PipelineEnvelope → Program α}
    {stage : StageName} {lease : JobLease} (hlease : Leased log stage lease)
    (hid : id = lease.messageId)
    (hok : ∀ row alertId, Always (Issues cfg task) Ψ (f (row.toEnvelope alertId))
      (log ++ [⟨.tx (.fetchMessage id), .ok (some row)⟩] ++
        [⟨.tx (.sourceAlertIdForTrace row.traceId), .ok (some alertId)⟩]))
    (hlost : ∀ e, Ψ (log ++ [⟨.tx (.fetchMessage id), .ok none⟩]) (.error e))
    (huntraced : ∀ row e, Ψ (log ++ [⟨.tx (.fetchMessage id), .ok (some row)⟩] ++
      [⟨.tx (.sourceAlertIdForTrace row.traceId), .ok none⟩]) (.error e)) :
    Always (Issues cfg task) Ψ (getMessage id >>= f) log := by
  simp only [getMessage, Prog.bind_def, Prog.bind_assoc]
  refine always_tx ⟨stage, lease, hlease, hid⟩ fun row => ?_
  cases row with
  | none => exact hlost _
  | some row =>
    refine always_tx ⟨id, row, answered_last, rfl⟩ fun alertId => ?_
    cases alertId with
    | none => exact huntraced row _
    | some alertId => exact hok row alertId

theorem always_childEnvelope {parent : PipelineEnvelope} {stage : StageName} {key : Text}
    {payload : JsonValue} {f : PipelineEnvelope → Program α}
    (hok : ∀ id t envelope, IsChild parent stage key payload envelope → envelope.messageId = id →
      Always (Issues cfg task) Ψ (f envelope)
        (log ++ [⟨.uuid4 .message, .ok id⟩] ++ [⟨.now .envelope, .ok t⟩])) :
    Always (Issues cfg task) Ψ (childEnvelope parent stage key payload >>= f) log := by
  simp only [childEnvelope, newEnvelope, Prog.bind_def, Prog.bind_assoc]
  exact always_uuid4 fun id => always_now trivial fun t => hok id t _ ⟨rfl, rfl, rfl, rfl, rfl⟩ rfl

omit [Tolerant Ψ] in
theorem always_modelValidate {β : Type} {model : String} {c : Contract β} {payload : JsonValue}
    {f : β → Program α} (hok : ∀ a, c.load payload = some a →
      Always (Issues cfg task) Ψ (f a) log)
    (herr : ∀ e, c.load payload = none → Ψ log (.error e)) :
    Always (Issues cfg task) Ψ (modelValidate model c payload >>= f) log :=
  always_getD_bind hok fun h => herr _ h

/-! ## The ends of a job -/

section Prefix

variable {log' : Log} {stage : StageName} {lease : JobLease} {parent : PipelineEnvelope}

theorem Watches.prefix_of {rows : List ObservationRow} {t : Time}
    (h : Watches log lease parent rows t) (hpre : log <+: log') :
    Watches log' lease parent rows t :=
  ⟨h.holds.prefix_of hpre, findSome?_mono h.listed hpre, findSome?_mono h.observed hpre⟩

theorem Stuck.prefix_of (h : Stuck log lease) (hpre : log <+: log') : Stuck log' lease := by
  cases h with
  | lost h => exact .lost (h.prefix_of hpre)
  | untraced row h h' => exact .untraced row (h.prefix_of hpre) (h'.prefix_of hpre)
  | unreadable parent h hload => exact .unreadable parent (h.prefix_of hpre) hload
  | settled parent rows h hlisted hpending =>
    exact .settled parent rows (h.prefix_of hpre) (findSome?_mono hlisted hpre) hpending
  | exhausted parent rows t h hdue hattempts =>
    exact .exhausted parent rows t (h.prefix_of hpre) hdue hattempts

theorem Completes.prefix_of {output : Option PipelineEnvelope} {next : Option StageName}
    (h : Completes cfg log lease output next) (hpre : log <+: log') :
    Completes cfg log' lease output next := by
  cases h with
  | researched parent envelope ingested report next h hload hreport he hnext =>
    exact .researched parent envelope ingested report next (h.prefix_of hpre) hload
      (hreport.prefix_of hpre) he hnext
  | analysed parent envelope report snapshot output next h hload hsnapshot he hnext hdrawn =>
    exact .analysed parent envelope report snapshot output next (h.prefix_of hpre) hload
      (hsnapshot.prefix_of hpre) he hnext (hdrawn.trans (drawsIn_mono hpre))
  | rejected parent envelope decision h hstatus he =>
    exact .rejected parent envelope decision (h.prefix_of hpre) hstatus he
  | awaiting l parent envelope candidate intent checks approvalId hmode hl h he =>
    exact .awaiting l parent envelope candidate intent checks approvalId hmode (hl.trans hpre) h he
  | submitted l parent envelope intent checks stage brokerOrderId hl h hstage he hholds =>
    exact .submitted l parent envelope intent checks stage brokerOrderId (hl.trans hpre) h hstage he
      hholds
  | ended parent envelope status decision h he =>
    exact .ended parent envelope status decision (h.prefix_of hpre) he
  | skipped parent decision h hload hintent =>
    exact .skipped parent decision (h.prefix_of hpre) hload hintent
  | missing parent h hlisted =>
    exact .missing parent (h.prefix_of hpre) (findSome?_mono hlisted hpre)
  | observed parent envelope rows rows' t next h hdue hupdated hrows' he hnext =>
    refine .observed parent envelope rows rows' t next (h.prefix_of hpre) hdue (fun row hrow => ?_)
      (hrows'.prefix_of hpre) he hnext
    obtain ⟨exitPrice, returnPct, benchmark, label, h⟩ := hupdated row hrow
    exact ⟨exitPrice, returnPct, benchmark, label, h.prefix_of hpre⟩

/-- Who completes a job holds it, and its output is a child of the job's message. -/
theorem Completes.holds {output : Option PipelineEnvelope} {next : Option StageName}
    (h : Completes cfg log lease output next) : ∃ stage parent, Holds log stage lease parent ∧
      ∀ envelope ∈ output, envelope.traceId = parent.traceId ∧
        envelope.parentMessageId = some parent.messageId := by
  have hchild : ∀ {parent envelope : PipelineEnvelope} {stage : StageName} {key : Text}
      {payload : JsonValue}, IsChild parent stage key payload envelope →
      ∀ e ∈ some envelope, e.traceId = parent.traceId ∧
        e.parentMessageId = some parent.messageId := by
    intro parent envelope stage key payload he e heq
    obtain rfl := Option.some.inj heq
    exact ⟨he.traceId, he.parentId⟩
  cases h with
  | researched parent envelope ingested report next h hload hreport he =>
    exact ⟨_, parent, h, hchild he⟩
  | analysed parent envelope report snapshot output next h hload hsnapshot he =>
    exact ⟨_, parent, h, hchild he⟩
  | rejected parent envelope decision h hstatus he => exact ⟨_, parent, h, hchild he⟩
  | awaiting l parent envelope candidate intent checks approvalId hmode hl h he =>
    exact ⟨_, parent, h.holds.prefix_of hl, hchild he⟩
  | submitted l parent envelope intent checks stage brokerOrderId hl h hstage he hholds =>
    exact ⟨_, parent, hholds.prefix_of hl, hchild he⟩
  | ended parent envelope status decision h he => exact ⟨_, parent, h, hchild he⟩
  | skipped parent decision h => exact ⟨_, parent, h, nofun⟩
  | missing parent h => exact ⟨_, parent, h, nofun⟩
  | observed parent envelope rows rows' t next h hdue hupdated hrows' he =>
    exact ⟨_, parent, h.holds, hchild he⟩

end Prefix

section Ends

variable {stage : StageName} {lease : JobLease}

theorem always_completeJobSuccess {output : Option PipelineEnvelope} {next : Option StageName}
    {availableAt : Option Time} {status : String} {f : Option UUID → Program α}
    (h : Concludes cfg log lease output next status)
    (hok : ∀ t out, Always (Issues cfg task) Ψ (f out) (log ++ [⟨.now .complete, .ok t⟩] ++
      [⟨.tx (.completeJobSuccess lease output next availableAt status t), .ok out⟩])) :
    Always (Issues cfg task) Ψ
      (completeJobSuccess lease output next availableAt status >>= f) log := by
  simp only [completeJobSuccess, Prog.bind_def, Prog.bind_assoc]
  refine always_now trivial fun t => always_tx ⟨h.completes.prefix_of (List.prefix_append _ _), ?_,
    fun envelope he => (h.drawn envelope he).prefix_of (List.prefix_append _ _), h.submitted,
    h.observed⟩ (hok t)
  simp [h.unended, Op.ends]

/-- A log that extends another by calls that record nothing. -/
structure Quietly (log l : Log) : Prop where
  pre : log <+: l
  unrecorded : Unrecorded log → Unrecorded l

theorem Quietly.append {l : Log} {en : Entry Op Op.Ans Exn} (h : Quietly log l)
    (hen : en.op.records = false) : Quietly log (l ++ [en]) :=
  ⟨h.pre.trans (List.prefix_append _ _), fun hlog => by simp [h.unrecorded hlog, hen]⟩

theorem Quietly.refl : Quietly log log := ⟨List.prefix_refl _, id⟩

theorem always_deadLetterJob {reason : Text} {f : Unit → Program α} (hlease : Leased log stage lease)
    (hlog : NoRaise log → GivesUp log stage lease)
    (hok : ∀ l, Quietly log l → Always (Issues cfg task) Ψ (f ()) l)
    (herr : ∀ l e, Quietly log l → (Unended log → Unended l) → Ψ l (.error e)) :
    Always (Issues cfg task) Ψ (deadLetterJob lease reason >>= f) log := by
  simp only [deadLetterJob, Prog.bind_def, Prog.bind_assoc]
  refine always_now trivial fun t => always_getMessage (hlease.prefix_of (List.prefix_append _ _)) rfl
    (fun row alertId => always_tx ⟨stage, ?_, fun hclean => ?_⟩ fun _ => hok _ ?_) (fun e => ?_)
    fun row e => ?_
  · exact hlease.prefix_of (by simp [List.append_assoc])
  · have hgive := hlog (hclean.prefix_of (by simp [List.append_assoc]))
    exact ⟨by simp [hgive.1, Op.ends], fun hs => (hgive.2 hs).prefix_of (by simp [List.append_assoc])⟩
  · exact (((Quietly.refl.append rfl).append rfl).append rfl).append rfl
  · exact herr _ e ((Quietly.refl.append rfl).append rfl) fun h => by simp [h, Op.ends]
  · exact herr _ e (((Quietly.refl.append rfl).append rfl).append rfl) fun h => by simp [h, Op.ends]

theorem always_completeJobRetry {error : Text} {delaySec maxAttempts : ℤ} {f : Unit → Program α}
    (hlease : Leased log stage lease) (hlog : NoRaise log → Unended log)
    (hstuck : NoRaise log → maxAttempts ≤ lease.attemptCount → stage = .outcome → Stuck log lease)
    (hok : ∀ l, Quietly log l → Always (Issues cfg task) Ψ (f ()) l)
    (herr : ∀ l e, maxAttempts ≤ lease.attemptCount → Quietly log l → (Unended log → Unended l) →
      Ψ l (.error e)) :
    Always (Issues cfg task) Ψ (completeJobRetry lease error delaySec maxAttempts >>= f)
      log := by
  unfold completeJobRetry
  split_ifs with hmax
  · exact always_deadLetterJob hlease (fun hclean => ⟨hlog hclean, hstuck hclean hmax⟩) hok
      fun l e => herr l e hmax
  · simp only [Prog.bind_def, Prog.bind_assoc]
    refine always_now trivial fun t => always_tx ⟨⟨stage, ?_⟩, fun hclean => ?_⟩ fun _ => hok _ ?_
    · exact hlease.prefix_of (List.prefix_append _ _)
    · simp [hlog (hclean.prefix_of (List.prefix_append _ _)), Op.ends]
    · exact (Quietly.refl.append rfl).append rfl

end Ends

/-! ## The end of a failed attempt -/

/-- The calls with which a worker gives its job back, or up. -/
def Op.retires : Op → Bool
  | .now _ => true
  | .tx t =>
    match t with
    | .fetchMessage _ | .sourceAlertIdForTrace _ | .completeJobRetry .. | .deadLetterJob .. => true
    | _ => false
  | _ => false

omit [Tolerant Ψ] in
theorem always_retires {Φ : Log → Op → Prop} {q : QueueSection} {lease : JobLease} {exc : Exn}
    (hop : ∀ l op, op.retires = true → Φ l op) :
    Always Φ (fun _ _ => True) (retryLater q lease exc) log := by
  have htolerant : Tolerant fun (_ : Log) (_ : Except Exn Bool) => True := ⟨fun _ _ _ _ => trivial⟩
  simp only [retryLater, completeJobRetry]
  split_ifs
  · simp only [deadLetterJob, getMessage, Prog.bind_def, Prog.bind_assoc]
    refine always_op (hop _ _ rfl) fun t => always_op (hop _ _ rfl) fun row => ?_
    cases row with
    | none => trivial
    | some row =>
      refine always_op (hop _ _ rfl) fun alertId => ?_
      cases alertId with
      | none => trivial
      | some alertId => exact always_op (hop _ _ rfl) fun _ => trivial
  · simp only [Prog.bind_def, Prog.bind_assoc]
    exact always_op (hop _ _ rfl) fun t => always_op (hop _ _ rfl) fun _ => trivial

/-! ## The frame of a worker's step -/

/-- Nothing that a step reads after its job has been read. -/
structure Unread (log : Log) : Prop where
  snapshotIn : snapshotIn log = none
  requestIn : requestIn log = none
  listIn : listIn log = none
  observeIn : observeIn log = none

/-- A log in which a job has been leased and nothing else done. -/
structure Begun (log : Log) (stage : StageName) (lease : JobLease) : Prop where
  leased : Leased log stage lease
  unended : Unended log
  unrecorded : Unrecorded log
  unplaced : Unplaced log
  unsaved : Unsaved log
  unread : Unread log

/-- What processing a job ends with: `Q`, or an exception before anything was recorded. -/
def Handled (stage : StageName) (lease : JobLease) (Q : Log → Prop) (log : Log) :
    Except Exn Bool → Prop
  | .ok _ => Q log
  | .error _ => Unrecorded log ∧ GivesUp log stage lease

/-- A log in which a job has been leased, its message fetched and nothing else done. -/
structure Opened (log : Log) (stage : StageName) (lease : JobLease) (parent : PipelineEnvelope) :
    Prop where
  holds : Holds log stage lease parent
  unended : Unended log
  unrecorded : Unrecorded log
  unplaced : Unplaced log
  unsaved : Unsaved log
  unread : Unread log

theorem Opened.handled_error {stage : StageName} {lease : JobLease} {parent : PipelineEnvelope}
    {Q : Log → Prop} {e : Exn} (h : Opened log stage lease parent)
    (hstuck : stage = .outcome → Stuck log lease) : Clean (Handled stage lease Q) log (.error e) :=
  fun _ => ⟨h.unrecorded, h.unended, hstuck⟩

theorem findSome?_append_of_none {α β : Type} {f : α → Option β} {l l' : List α}
    (h : l.findSome? f = none) : (l ++ l').findSome? f = l'.findSome? f := by
  rw [List.findSome?_append, h, Option.none_or]

theorem Begun.always_getMessage {stage : StageName} {lease : JobLease} {Q : Log → Prop}
    {f : PipelineEnvelope → Program Bool} (h : Begun log stage lease)
    (hok : ∀ l parent, Opened l stage lease parent →
      Always (Issues cfg task) (Clean (Handled stage lease Q)) (f parent) l) :
    Always (Issues cfg task) (Clean (Handled stage lease Q)) (getMessage lease.messageId >>= f)
      log := by
  refine Pipeline.always_getMessage h.leased rfl (fun row alertId => ?_) (fun e _ => ?_)
    fun row e _ => ?_
  · rw [List.append_assoc]
    refine hok _ _ ⟨⟨h.leased.prefix_of (List.prefix_append _ _), row, alertId, ?_, ?_, rfl⟩,
      ?_, ?_, ?_, ?_, ⟨?_, ?_, ?_, ?_⟩⟩
    · simp [Answered]
    · simp [Answered]
    · simp [h.unended, Op.ends]
    · simp [h.unrecorded, Op.records]
    · simp [h.unplaced, Op.places]
    · simp [h.unsaved, Op.savesCandidates]
    · exact findSome?_append_of_none h.unread.snapshotIn
    · exact findSome?_append_of_none h.unread.requestIn
    · exact findSome?_append_of_none h.unread.listIn
    · exact findSome?_append_of_none h.unread.observeIn
  · exact ⟨by simp [h.unrecorded, Op.records], by simp [h.unended, Op.ends],
      fun _ => .lost answered_last⟩
  · refine ⟨by simp [h.unrecorded, Op.records], by simp [h.unended, Op.ends],
      fun _ => .untraced row ?_ answered_last⟩
    exact answered_last.prefix_of (List.prefix_append _ _)

theorem always_retryLater {q : QueueSection} {stage : StageName} {lease : JobLease} {exc : Exn}
    (hlease : Leased log stage lease)
    (hlog : NoRaise log → Unrecorded log ∧ GivesUp log stage lease) :
    Always (Issues cfg task) (Clean fun l _ => Unrecorded l) (retryLater q lease exc) log := by
  refine always_completeJobRetry hlease (fun h => (hlog h).2.1) (fun h _ => (hlog h).2.2) ?_ ?_
  · exact fun l hl hclean => hl.unrecorded (hlog (hclean.prefix_of hl.pre)).1
  · exact fun l e _ hl _ hclean => hl.unrecorded (hlog (hclean.prefix_of hl.pre)).1

theorem always_processNext {q : QueueSection} {stage : StageName} {workerId : Text}
    {process : JobLease → Program Bool} {Q : Log → Prop} (htask : task.ingests = false) (hQ : ∀ l, Unrecorded l → Q l)
    (hproc : ∀ log lease, Begun log stage lease →
      Always (Issues cfg task) (Clean (Handled stage lease Q)) (process lease) log) :
    Always (Issues cfg task) (Clean fun l _ => Q l) (processNext q stage workerId process) [] := by
  simp only [processNext, leaseNextJob, Prog.bind_def, Prog.bind_assoc]
  refine always_now trivial fun t => always_tx ⟨rfl, htask⟩ fun lease => ?_
  cases lease with
  | none => exact fun _ => hQ _ (by simp [Unrecorded, Op.records])
  | some lease =>
    have hbegun : Begun ([] ++ [⟨.now .lease, .ok t⟩] ++ [⟨.tx (.leaseNextJob stage workerId
        (t + seconds q.leaseSec) t), .ok (some lease)⟩]) stage lease :=
      ⟨⟨rfl, workerId, _, t, answered_last⟩, by simp [Unended, Op.ends],
        by simp [Unrecorded, Op.records], by simp [Op.places], by simp [Op.savesCandidates],
        rfl, rfl, rfl, rfl⟩
    refine (hproc _ lease hbegun).tryCatch (fun l b _ hb => hb) fun l e hl herr => ?_
    refine (always_retryLater (hbegun.leased.prefix_of hl) herr).mono fun l' r _ h hclean => ?_
    exact hQ l' (h hclean)

end Sentinel.Pipeline
