import Mathlib.Data.Fintype.EquivFin
import Sentinel.Pipeline.Bookkeeping
import Sentinel.Pipeline.Commits
import Sentinel.Pipeline.Readable

/-!
# Attempts of the analyst

An attempt on an ANALYSIS job may fail at any call, and a later one starts over.  What the earlier
one has committed is in the way of the later one in one place only: the portfolio snapshot is saved
under an id that comes from the provider.

* `Attempts`: the calls of an attempt; `Unprocessable`: why one fails although no call raised.
* `retry_safe`: while the provider's ids are new when they are saved, an attempt without faults
  completes its job.
-/

namespace Sentinel.Pipeline

open Logic Contracts PipelineDB

variable {host : Host} {C : State → PipelineEvent → Prop} {s : State} {log : Log} {lease : JobLease}

/-! ## The calls of an attempt -/

/-- The calls of the analyst, but for the one that saves its snapshot. -/
def Op.analyses : Op → Bool
  | .now _ | .uuid4 _ | .getSnapshot | .getMarketSnapshot _ => true
  | .tx t =>
    match t with
    | .leaseNextJob .. | .fetchMessage _ | .sourceAlertIdForTrace _ | .completeJobSuccess ..
    | .saveAnalysisCandidates .. | .completeJobRetry .. | .deadLetterJob .. => true
    | _ => false
  | _ => false

/-- A snapshot is saved as soon as the provider has returned it. -/
def Attempts (log : Log) : Op → Prop
  | .tx (.savePortfolioSnapshot S) => ∃ l, log = l ++ [⟨.getSnapshot, .ok S⟩]
  | op => op.analyses = true

/-- Why an attempt fails, when no call raised. -/
inductive Unprocessable (log : Log) (lease : JobLease) : Prop
  | lost (id : UUID) (h : Answered log (.tx (.fetchMessage id)) none)
  | untraced (id : UUID) (h : Answered log (.tx (.sourceAlertIdForTrace id)) none)
  | unreadable (parent : PipelineEnvelope) (h : Holds log .analysis lease parent)
      (hload : ResearchReport.contract.load parent.payload = none)

theorem Unprocessable.prefix_of {log' : Log} (h : Unprocessable log lease) (hpre : log <+: log') :
    Unprocessable log' lease := by
  cases h with
  | lost id h => exact .lost id (h.prefix_of hpre)
  | untraced id h => exact .untraced id (h.prefix_of hpre)
  | unreadable parent h hload => exact .unreadable parent (h.prefix_of hpre) hload

/-- An attempt that has leased a job ends well, or with a reason. -/
def Attempted (log : Log) (ended : Prop) : Prop :=
  NoRaise log → ∀ lease, leaseIn log = some lease →
    ended ∧ endIn log = .succeeded ∧ Open log ∨ Unprocessable log lease

theorem attempts_buildCandidates {cfg : AnalystSection} {portfolio : PortfolioSnapshot}
    (hypotheses : List AssetHypothesis) :
    Always Attempts (Returns fun _ _ => True) (buildCandidates cfg portfolio hypotheses) log := by
  induction hypotheses generalizing log with
  | nil => trivial
  | cons hypothesis hypotheses ih =>
    refine always_op rfl fun snapshot => always_op rfl fun t => always_op rfl fun id => ?_
    refine ih.bind (fun l p _ _ => ?_) fun l e _ hl => hl
    dsimp only
    split_ifs <;> trivial

theorem attempts_retryLater {q : QueueSection} {exc : Exn} :
    Always Attempts (Clean fun _ _ => True) (retryLater q lease exc) log := by
  refine (always_retires fun l op hop => ?_).mono fun _ _ _ _ _ => trivial
  cases op with
  | tx x =>
    cases x with
    | fetchMessage | sourceAlertIdForTrace | completeJobRetry | deadLetterJob => rfl
    | _ => cases hop
  | now => rfl
  | _ => cases hop

namespace AnalystWorker

theorem attempts_process {cfg : PipelineConfig} (h : Leased log .analysis lease) :
    Always Attempts (Clean fun l r => r = .ok true ∧ endIn l = .succeeded ∨ Unprocessable l lease)
      (process cfg lease) log := by
  simp only [process, getMessage, Prog.bind_def, Prog.bind_assoc]
  refine always_op rfl fun row => ?_
  cases row with
  | none => exact fun _ => Or.inr (.lost _ answered_last)
  | some row =>
    refine always_op rfl fun alertId => ?_
    cases alertId with
    | none => exact fun _ => Or.inr (.untraced _ answered_last)
    | some alertId =>
      rw [Prog.getD, Prog.bind]
      refine always_getD_bind (fun report _ => ?_) fun hload _ => Or.inr (.unreadable
        (row.toEnvelope alertId) ⟨h.prefix_of (by simp [List.append_assoc]), row, alertId, ?_,
          answered_last, rfl⟩ hload)
      · refine always_op rfl fun S => always_op ⟨_, rfl⟩ fun snapshotId => ?_
        refine (attempts_buildCandidates _).returns fun l p _ _ => ?_
        simp only [childEnvelope, newEnvelope, completeJobSuccess, Prog.bind_def, Prog.bind_assoc]
        refine always_op rfl fun id => always_op rfl fun t => always_op rfl fun t' => ?_
        refine always_op rfl fun out => ?_
        cases out with
        | none => exact fun _ => Or.inl ⟨rfl, endIn_concat⟩
        | some messageId =>
          refine always_op rfl fun _ _ => Or.inl ⟨rfl, ?_⟩
          rw [endIn_concat, endIn_concat]
          rfl
      · exact answered_last.prefix_of (List.prefix_append _ _)

theorem attempts_worker {cfg : PipelineConfig} {workerId : Text} :
    Always Attempts (fun l r => Attempted l (r = .ok true)) (processNext cfg workerId) [] := by
  have htolerant : Tolerant fun (l : Log) (r : Except Exn Bool) => Attempted l (r = .ok true) :=
    ⟨fun _ _ _ _ hclean => absurd hclean not_noRaise⟩
  simp only [processNext, Pipeline.processNext, leaseNextJob, Prog.bind_def, Prog.bind_assoc]
  refine always_op rfl fun t => always_op rfl fun lease => ?_
  cases lease with
  | none => exact fun _ lease hlease => by cases hlease
  | some lease =>
    generalize hlog : [] ++ _ ++ _ = log
    have hleased : Leased log .analysis lease := by
      subst hlog
      exact ⟨rfl, workerId, _, t, answered_last⟩
    have hopen : Open log := by
      subst hlog
      exact open_append.mpr ⟨open_append.mpr ⟨open_nil, by simp [Open, Op.closes]⟩,
        by simp [Open, Op.closes]⟩
    have hfirst : ∀ {l : Log} {lease' : JobLease}, log <+: l → leaseIn l = some lease' →
        lease' = lease := fun hpre hl =>
      Option.some.inj (hl.symm.trans (hleased.prefix_of hpre).first)
    have hattempts : Always Attempts _ (process cfg lease) log := attempts_process hleased
    have hboth := hattempts.and (keeps_process log hopen)
    refine (hboth.mono' (fun _ _ _ hop => hop.1) fun _ _ _ hr => hr).tryCatch
      (fun l b hpre hl hclean lease' hlease => ?_) fun l e hpre hl => ?_
    · obtain rfl := hfirst hpre hlease
      rcases hl.1 hclean with ⟨hb, hend⟩ | hunprocessable
      · exact Or.inl ⟨hb, hend, hl.2⟩
      · exact Or.inr hunprocessable
    · refine attempts_retryLater.mono fun l' r hpre' _ hclean lease' hlease => ?_
      obtain rfl := hfirst (hpre.trans hpre') hlease
      rcases hl.1 (hclean.prefix_of hpre') with ⟨hok, -⟩ | hunprocessable
      · cases hok
      · exact Or.inr (hunprocessable.prefix_of hpre')

end AnalystWorker

/-! ## The threads of analysts -/

theorem attempted_body (t : Task) :
    Always (fun l op => ∀ workerId, t = .analyst workerId → Attempts l op)
      (fun l r => ∀ workerId, t = .analyst workerId → Attempted l (r = .ok (.processed true)))
      (t.body host) [] := by
  cases t with
  | analyst workerId =>
    refine (AnalystWorker.attempts_worker.mono' (fun _ _ _ hop _ _ => hop) fun _ _ _ hr => hr).bind
      (fun l b _ hl _ _ hclean lease hlease => ?_) fun l e _ hl _ _ hclean lease hlease => ?_
    · refine (hl hclean lease hlease).imp_left fun ⟨hb, hend⟩ => ⟨?_, hend⟩
      rw [Except.ok.inj hb]
    · exact (hl hclean lease hlease).imp_left fun ⟨he, _⟩ => nomatch he
  | _ => exact always_of (fun _ _ _ h => nomatch h) fun _ _ _ h => nomatch h

theorem attempted (h : Reachable host C s) {i : ℕ} {th : Thread Op Op.Ans Exn Out Task}
    (hth : s.threads[i]? = some th) :
    Issued (fun t l op => ∀ workerId, t = .analyst workerId → Attempts l op)
      (fun t l r => ∀ workerId, t = .analyst workerId → Attempted l (r = .ok (.processed true))) th :=
  issued_reach (M := machine host) attempted_body h i th hth

/-- The message of an ANALYSIS job is there, and can be read. -/
theorem not_unprocessable (h : Reachable host C s) {i : ℕ} {th : Thread Op Op.Ans Exn Out Task}
    (hth : s.threads[i]? = some th) : ¬ Unprocessable th.log lease := by
  intro hun
  cases hun with
  | lost id hlost => exact (finds h hth hlost).1 id rfl
  | untraced id hlost => exact (finds h hth hlost).2 id rfl
  | unreadable parent hholds hload =>
    have hheld := hholds.held ⟨i, th, hth, List.prefix_refl _⟩ h
    have hstage : lease.key.stage = .analysis := hheld.stage
    have hreadable := (readable_iff h hheld.job).mpr (by simp [JobKey.isFollowUp, hstage])
    have hmessage : s.world.db.findMessage lease.key.messageId = _ := hheld.message
    simp [JobKey.readable, hmessage, hstage, validates, StageMessage.ofEnvelope, hload] at hreadable

/-! ## The condition -/

/-- The snapshot that the call saves is not saved already. -/
def NewSnapshot (db : PipelineDB) : Op → Prop
  | .tx (.savePortfolioSnapshot S) => ∀ S' ∈ db.portfolioSnapshots, S'.snapshotId ≠ S.snapshotId
  | _ => True

instance (db : PipelineDB) : ∀ op, Decidable (NewSnapshot db op) := by
  intro op
  unfold NewSnapshot
  split <;> infer_instance

def SnapshotsNew (s : State) : PipelineEvent → Prop
  | .act i inp => inp.commits = true → ∀ op ∈ nextCall s i, NewSnapshot s.world.db op
  | _ => True

instance : ∀ s e, Decidable (SnapshotsNew s e)
  | _, .act _ _ => inferInstanceAs (Decidable (_ → ∀ _ ∈ _, _))
  | _, .start _ | _, .crash _ | _, .env _ => inferInstanceAs (Decidable True)

/-! ## No call of an attempt raises by itself -/

/-- The transactions of an attempt commit. -/
theorem attempt_exec (h : Reachable host C s) {i : ℕ} {workerId : Text} {x : Tx}
    {k : Except Exn x.Ans → Program Out}
    (hth : s.threads[i]? = some ⟨.analyst workerId, log, .call (.tx x) k, true⟩)
    (hnew : NewSnapshot s.world.db (.tx x)) (tie : ℕ) (e : Exn) :
    x.exec s.world.db s.world.clock s.world.nextId tie ≠ .error e := by
  intro hx
  have hissues := (issued h hth).next rfl
  have hbelow := idsBelow h
  have hjobs : ∀ j ∈ s.world.db.stageJobs, j.jobId ≠ s.world.nextId := fun j hj =>
    (hbelow.jobs j.key (mem_jobKeys.mpr ⟨j, hj, rfl⟩)).ne
  have hattempts : Attempts log (.tx x) := (attempted h hth).next rfl workerId rfl
  cases x with
  | leaseNextJob stage workerId leasedUntil now =>
    exact leaseNextJob_not_error (fun r hr => (runsBelow h r hr).ne) (map_error hx)
  | completeJobSuccess lease output next availableAt status now =>
    cases output with
    | none => cases hx
    | some envelope =>
      exact completeJobSuccess_not_error (hissues.message_new h hth) hjobs (map_error hx)
  | deadLetterJob lease reason payload now =>
    exact deadLetterJob_not_error (fun d hd => (hbelow.deadLetters d hd).ne) (map_error hx)
  | saveAnalysisCandidates messageId candidates rejected =>
    obtain ⟨-, hids, hunsaved⟩ := hissues
    obtain ⟨hfresh, hnodup⟩ := candidates_new h hth hids hunsaved
    exact saveAnalysisCandidates_not_error hfresh hnodup (map_error hx)
  | savePortfolioSnapshot S => exact savePortfolioSnapshot_not_error hnew (map_error hx)
  | fetchMessage id => cases hx
  | sourceAlertIdForTrace id => cases hx
  | completeJobRetry lease error availableAt now => cases hx
  | _ => cases hattempts

/-! ## Attempts without faults -/

def Task.analyses : Task → Bool
  | .analyst _ => true
  | _ => false

/-- The job of the lease is done. -/
def Succeeded (s : State) (lease : JobLease) : Prop :=
  ∃ j ∈ s.world.db.stageJobs, j.jobId = lease.jobId ∧ j.state = .succeeded

/-- An attempt without faults that has ended has completed its job. -/
theorem attempt_ended (h : Reachable host SnapshotsNew s) {i : ℕ}
    {th : Thread Op Op.Ans Exn Out Task} (hth : s.threads[i]? = some th) {workerId : Text}
    (htask : th.task = .analyst workerId) (hlease : leaseIn th.log = some lease)
    (hfaultless : Faultless th.log) {r : Except Exn Out} (hr : th.result = some r) :
    r = .ok (.processed true) ∧ Succeeded s lease := by
  have hclean : NoRaise th.log := by
    refine noRaise_of_faultless (P := fun t => t = .analyst workerId)
      (fun s i inp t log x k tie e hs hC hth ht hcommits => ?_) h hth htask hfaultless
    subst ht
    exact attempt_exec hs hth (hC hcommits _ (nextCall_eq hth)) tie e
  rcases (attempted h hth).ended hr workerId htask hclean lease hlease with
    ⟨hok, hend, hopen⟩ | hunprocessable
  · refine ⟨hok, ?_⟩
    have hledger := ledger h
    have htenure := hledger.tenure i th hth lease hlease
    obtain ⟨run, hrun, hjob, -⟩ := htenure.run
    obtain ⟨-, j, hj, hid⟩ := hledger.book.run run hrun
    have hlatest := htenure.latest hopen
    rw [hend, ← hjob, ← hid] at hlatest
    exact ⟨j, hj, hid.trans hjob, (hledger.book.job j hj).state_eq hlatest⟩
  · exact absurd hunprocessable (not_unprocessable h hth)

/-- Every call of an attempt can be answered, that for the snapshot with one that is new. -/
theorem attempt_input (h : Reachable host C s) {i : ℕ} {workerId : Text} {op : Op}
    {k : Except Exn op.Ans → Program Out}
    (hth : s.threads[i]? = some ⟨.analyst workerId, log, .call op k, true⟩)
    (hnew : NewSnapshot s.world.db op) : ∃ inp a w', inp.commits = true ∧
      s.world.call op inp = some (.ok a, w') ∧
      ∀ S, (⟨op, .ok a⟩ : Entry Op Op.Ans Exn) = ⟨.getSnapshot, .ok S⟩ →
        ∀ S' ∈ w'.db.portfolioSnapshots, S'.snapshotId ≠ S.snapshotId := by
  have hattempts := (attempted h hth).next rfl workerId rfl
  cases op with
  | now site => exact ⟨.ok, _, _, rfl, rfl, fun S heq => nomatch congrArg Entry.op heq⟩
  | uuid4 site => exact ⟨.ok, _, _, rfl, rfl, fun S heq => nomatch congrArg Entry.op heq⟩
  | getMarketSnapshot symbol =>
    exact ⟨.market Sample.market, _, _, rfl, rfl, fun S heq => nomatch congrArg Entry.op heq⟩
  | getSnapshot =>
    obtain ⟨id, hid⟩ := Infinite.exists_notMem_finset
      (s.world.db.portfolioSnapshots.map PortfolioSnapshot.snapshotId).toFinset
    refine ⟨.snapshot (Sample.portfolio id 0), _, _, rfl, rfl, fun S heq S' hS' hsame => hid ?_⟩
    obtain ⟨-, ha⟩ := Entry.mk.inj heq
    obtain rfl := Except.ok.inj (eq_of_heq ha)
    rw [List.mem_toFinset]
    exact List.mem_map.mpr ⟨S', hS', hsame⟩
  | tx x =>
    cases hx : x.exec s.world.db s.world.clock s.world.nextId 0 with
    | error e => exact absurd hx (attempt_exec h hth hnew 0 e)
    | ok p =>
      obtain ⟨a, db, n⟩ := p
      refine ⟨.ok, a, { s.world with db := db, nextId := n }, rfl, ?_,
        fun S heq => nomatch congrArg Entry.op heq⟩
      change some (s.world.runTx 0 x) = _
      simp only [World.runTx, hx]
  | _ => cases hattempts

/-- Only the thread acts, and its calls do not raise. -/
def Alone (i : ℕ) (s : State) (e : PipelineEvent) : Prop :=
  SnapshotsNew s e ∧ ∃ inp : Input, e = .act i inp ∧ inp.commits = true

/-- A call that succeeds saves a new snapshot next, if it saves one. -/
theorem attempt_next (h : Reachable host C s) {i : ℕ} {workerId : Text} {op : Op} {a : op.Ans}
    {p : Program Out}
    (hth : s.threads[i]? = some ⟨.analyst workerId, log ++ [⟨op, .ok a⟩], p, true⟩)
    (hfresh : ∀ S, (⟨op, .ok a⟩ : Entry Op Op.Ans Exn) = ⟨.getSnapshot, .ok S⟩ →
      ∀ S' ∈ s.world.db.portfolioSnapshots, S'.snapshotId ≠ S.snapshotId) :
    ∀ op' ∈ p.next, NewSnapshot s.world.db op' := by
  intro op' hop'
  have hattempts := (attempted h hth).next (show Thread.next _ = some op' from hop') workerId rfl
  unfold NewSnapshot
  split
  · -- the snapshot that has just been returned
    obtain ⟨l, hl⟩ := hattempts
    obtain ⟨-, hen⟩ := List.append_inj' hl rfl
    exact hfresh _ (List.cons.inj hen).1
  · trivial

/-- An attempt without faults that is still going on can be carried to its end. -/
theorem attempt_continues {i : ℕ} {workerId : Text} (p : Program Out)
    (h : Reachable host SnapshotsNew s)
    (hth : s.threads[i]? = some ⟨.analyst workerId, log, p, true⟩)
    (hlease : leaseIn log = some lease) (hfaultless : Faultless log)
    (hnew : ∀ op ∈ p.next, NewSnapshot s.world.db op) : ∃ s' th',
      Reach (machine host).step s (Alone i) s' ∧ s'.threads[i]? = some th' ∧
      th'.result = some (.ok (.processed true)) ∧ Succeeded s' lease := by
  obtain ⟨s', log', p', hreach, hs', hth', hnext, hlease', hfaultless', -⟩ :=
    Reach.carried (M := machine host) (A := Alone i)
      (J := fun s log p => leaseIn log = some lease ∧ Faultless log ∧
        ∀ op ∈ p.next, NewSnapshot s.world.db op)
      (fun s log op k hs hth ⟨hlease, hfaultless, hnew⟩ => by
        obtain ⟨inp, a, w', hcommits, hcall, hfresh⟩ := attempt_input hs hth (hnew op rfl)
        have hC : SnapshotsNew s (.act i inp) := by
          intro _ op' hop'
          obtain rfl := Option.some.inj ((nextCall_eq hth).symm.trans hop')
          exact hnew op rfl
        refine ⟨inp, .ok a, w', hcall, hC, ⟨hC, inp, rfl, hcommits⟩, fun s₁ hw hs₁ hth₁ => ?_⟩
        refine ⟨findSome?_mono hlease (List.prefix_append _ _), fun en hen => ?_,
          attempt_next hs₁ hth₁ (by rw [hw]; exact hfresh)⟩
        rcases List.mem_append.mp hen with hold | hlast
        · exact hfaultless en hold
        · rw [List.mem_singleton.mp hlast]
          rfl)
      p h hth ⟨hlease, hfaultless, hnew⟩
  have hend := fun r => attempt_ended hs' hth' rfl hlease' hfaultless' (r := r)
  cases p' with
  | ret out =>
    obtain ⟨heq, hsucceeded⟩ := hend (.ok out) rfl
    exact ⟨s', _, hreach, hth', congrArg some heq, hsucceeded⟩
  | raise e =>
    obtain ⟨heq, -⟩ := hend (.error e) rfl
    cases heq
  | call op k => cases hnext

/-- While snapshots are saved under new ids, an attempt on an ANALYSIS job in which nothing outside
the repository fails completes the job when it ends, and it can always go on to its end, whatever
earlier attempts have left in the tables. -/
theorem retry_safe (h : Reachable host SnapshotsNew s) {i : ℕ}
    {th : Thread Op Op.Ans Exn Out Task} (hth : s.threads[i]? = some th)
    (htask : th.task.analyses = true) (hlease : leaseIn th.log = some lease)
    (hfaultless : Faultless th.log) :
    (∀ r, th.result = some r → r = .ok (.processed true) ∧ Succeeded s lease) ∧
    (th.live = true → (∀ op ∈ th.next, NewSnapshot s.world.db op) → ∃ s' th',
      Reach (machine host).step s (Alone i) s' ∧ s'.threads[i]? = some th' ∧
      th'.result = some (.ok (.processed true)) ∧ Succeeded s' lease) := by
  obtain ⟨task, log, p, live⟩ := th
  cases task with
  | analyst workerId =>
    refine ⟨fun r hr => attempt_ended h hth rfl hlease hfaultless hr, fun hlive hnew => ?_⟩
    obtain rfl : live = true := hlive
    exact attempt_continues p h hth hlease hfaultless hnew
  | _ => cases htask

namespace Sample

/-- The attempt of the analyst on the job fails after it has saved its snapshot. -/
def attemptedEvents : List PipelineEvent :=
  List.flatten [ingested 0, researched 1, [.start (.analyst (lit "a"))], calls 2 4,
    [.act 2 (.snapshot (portfolio 1001 0)), .act 2 .ok, .act 2 (.fault (lit "no quote")),
      .act 2 .ok, .act 2 .ok], tick 30000000]

/-- The next attempt, with the snapshot the provider returns. -/
def reattemptedEvents (S : PortfolioSnapshot) : List PipelineEvent :=
  List.flatten [attemptedEvents, [.start (.analyst (lit "a"))], calls 3 4, [.act 3 (.snapshot S)],
    calls 3 1, [.act 3 (.market market)], calls 3 7]

end Sample

/-- A provider that makes a new snapshot for each attempt. -/
theorem retried_reachable : Reachable (Sample.host "auto") SnapshotsNew
    (run (Sample.host "auto") (Sample.reattemptedEvents (Sample.portfolio 1002 0))) :=
  reach_of_allowed (by decide +kernel)

theorem retried_attempt : (run (Sample.host "auto") (Sample.reattemptedEvents
    (Sample.portfolio 1002 0))).threads[3]?.isSome = true := by decide +kernel

theorem retry_safe_retried :
    let s := run (Sample.host "auto") (Sample.reattemptedEvents (Sample.portfolio 1002 0))
    ∃ th ∈ s.threads[3]?,
      (∀ r, th.result = some r → r = .ok (.processed true) ∧ Succeeded s ⟨5, 7, 0, .analysis, 4, 2⟩) ∧
      (th.live = true → (∀ op ∈ th.next, NewSnapshot s.world.db op) → ∃ s' th',
        Reach (machine (Sample.host "auto")).step s (Alone 3) s' ∧ s'.threads[3]? = some th' ∧
        th'.result = some (.ok (.processed true)) ∧ Succeeded s' ⟨5, 7, 0, .analysis, 4, 2⟩) :=
  ⟨_, (Option.some_get retried_attempt).symm,
    retry_safe retried_reachable (Option.some_get retried_attempt).symm
    (by decide +kernel) (by decide +kernel) (by decide +kernel)⟩

/-- `StaticPortfolioProvider` returns the snapshot that the first attempt has saved. -/
theorem retry_unsafe : ∃ s, Reachable (Sample.host "auto") Any s ∧ ∃ th ∈ s.threads,
    th.task.analyses = true ∧ Faultless th.log ∧ th.result.isSome = true ∧
    ∃ lease ∈ leaseIn th.log, ∃ j ∈ s.world.db.stageJobs, j.jobId = lease.jobId ∧
      j.state = .retryWait :=
  ⟨_, reachable_run _ (Sample.reattemptedEvents (Sample.portfolio 1001 0)), by decide +kernel⟩

end Sentinel.Pipeline
