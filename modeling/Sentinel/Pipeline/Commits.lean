import Sentinel.Pipeline.References
import Sentinel.Pipeline.Stranded

/-!
# Transactions that commit

When a transaction does not raise: the key columns it inserts are new.  The ids that a thread draws,
and those that the database draws itself, always are.
-/

namespace Sentinel.Pipeline

open Logic Contracts PipelineDB

variable {host : Host} {C : State → PipelineEvent → Prop} {s : State}

/-! ## Faults -/

/-- The connection, a provider or the agent raised. -/
def faulted : Entry Op Op.Ans Exn → Bool
  | ⟨_, .error (.fault _)⟩ => true
  | _ => false

def Faultless (log : Log) : Prop := ∀ en ∈ log, faulted en = false

instance (log : Log) : Decidable (Faultless log) := inferInstanceAs (Decidable (∀ _ ∈ _, _))

/-- A call raises because it is made to, or because its transaction does. -/
theorem call_error {w w' : World} {op : Op} {inp : Input} {e : Exn}
    (h : w.call op inp = some (.error e, w')) :
    (∃ what, e = .fault what) ∨ inp.commits = true ∧
      ∃ x tie, op = .tx x ∧ Tx.exec w.db w.clock w.nextId tie x = .error e := by
  have htx : ∀ (x : Tx) (tie : ℕ), w.runTx tie x = (.error e, w') →
      Tx.exec w.db w.clock w.nextId tie x = .error e := by
    intro x tie hrun
    unfold World.runTx at hrun
    split at hrun
    · cases hrun
    · next hx =>
      obtain ⟨he, -⟩ := Prod.mk.inj hrun
      rw [hx, Except.error.inj he]
  cases inp with
  | fault what => exact Or.inl ⟨what, by cases op <;> cases h <;> rfl⟩
  | ok =>
    cases op with
    | tx x => exact Or.inr ⟨rfl, x, 0, rfl, htx x 0 (Option.some.inj h)⟩
    | _ => cases h
  | tie n =>
    cases op with
    | tx x => exact Or.inr ⟨rfl, x, n, rfl, htx x n (Option.some.inj h)⟩
    | _ => cases h
  | _ => cases op <;> cases h

/-- In a thread whose transactions do not raise by themselves, nothing raises without a fault. -/
theorem noRaise_of_faultless {P : Task → Prop}
    (hexec : ∀ s i inp t log x k tie e, Reachable host C s → C s (.act i inp) →
      s.threads[i]? = some ⟨t, log, .call (.tx x) k, true⟩ → P t → inp.commits = true →
      Tx.exec s.world.db s.world.clock s.world.nextId tie x ≠ .error e)
    (h : Reachable host C s) {i : ℕ} {th : Thread Op Op.Ans Exn Out Task}
    (hth : s.threads[i]? = some th) (hP : P th.task) (hfaultless : Faultless th.log) :
    NoRaise th.log := by
  intro en hen
  obtain ⟨l, l', hl⟩ := List.append_of_mem hen
  refine noted_reach (M := machine host)
    (X := fun t _ en _ => P t → faulted en = false → ∃ a, en.ans = .ok a) ?_
    (fun _ _ _ _ _ _ _ _ _ hX => hX) h i th hth l en l' hl hP (hfaultless en hen)
  intro s i inp t log op k r w' hs hC hth hc hP hfault
  cases r with
  | ok a => exact ⟨a, rfl⟩
  | error e =>
    rcases call_error hc with ⟨what, rfl⟩ | ⟨hcommits, x, tie, rfl, hx⟩
    · cases hfault
    · exact absurd hx (hexec s i inp t log x k tie e hs hC hth hP hcommits)

/-! ## What each transaction requires -/

theorem map_error {α β : Type} {x : Except Exn α} {f : α → β} {e : Exn} (h : x.map f = .error e) :
    x = .error e := by
  cases x with
  | error e' => exact congrArg _ (Except.error.inj h)
  | ok a => cases h

namespace PipelineDB

variable {db db' : PipelineDB} {fresh : UUID} {now clock : Time} {e : Exn}

theorem ensureTrace_not_error {alertId : Text} {stage : StageName} {status : String}
    (hid : ∀ t ∈ db.pipelineTraces, t.traceId ≠ fresh) :
    db.ensureTrace fresh alertId stage status ≠ .error e := by
  intro h
  unfold ensureTrace at h
  split at h
  · cases h
  · split_ifs at h with hany
    obtain ⟨t, ht, heq⟩ := List.any_eq_true.mp hany
    exact hid t ht (of_decide_eq_true heq)

theorem upsertMessage_not_error {envelope : PipelineEnvelope}
    (hid : ∀ m ∈ db.stageMessages, m.messageId ≠ envelope.messageId) :
    db.upsertMessage envelope ≠ .error e := by
  intro h
  unfold upsertMessage at h
  split at h
  · cases h
  · split_ifs at h with hany
    obtain ⟨m, hm, heq⟩ := List.any_eq_true.mp hany
    exact hid m hm (of_decide_eq_true heq)

theorem enqueueJob_not_error {traceId messageId : UUID} {stage : StageName} {priority : ℤ}
    {availableAt : Option Time} (hid : ∀ j ∈ db.stageJobs, j.jobId ≠ fresh) :
    db.enqueueJob fresh now traceId stage messageId priority availableAt ≠ .error e := by
  intro h
  unfold enqueueJob at h
  split at h
  · cases h
  · split_ifs at h with hany
    obtain ⟨j, hj, heq⟩ := List.any_eq_true.mp hany
    exact hid j hj (of_decide_eq_true heq)

theorem completeJobSuccess_not_error {lease : JobLease} {envelope : PipelineEnvelope}
    {next : Option StageName} {availableAt : Option Time} {status : String}
    (hid : ∀ m ∈ db.stageMessages, m.messageId ≠ envelope.messageId)
    (hjob : ∀ j ∈ db.stageJobs, j.jobId ≠ fresh) :
    db.completeJobSuccess fresh clock lease (some envelope) next availableAt status now ≠
      .error e := by
  intro h
  unfold completeJobSuccess at h
  simp only at h
  cases hup : db.upsertMessage envelope with
  | error e => exact upsertMessage_not_error hid hup
  | ok p =>
    obtain ⟨⟨messageId, inserted⟩, db₁⟩ := p
    have hjobs : db₁.stageJobs = db.stageJobs := by
      rcases upsertMessage_ok hup with ⟨m, -, -, -, rfl⟩ | ⟨-, -, rfl⟩ <;> rfl
    simp only [hup, Except.bind] at h
    cases next with
    | none => cases h
    | some stage =>
      cases inserted with
      | false => cases h
      | true =>
        simp only at h
        cases hen : db₁.enqueueJob fresh clock envelope.traceId stage messageId 100 availableAt with
        | error e => exact enqueueJob_not_error (by rw [hjobs]; exact hjob) hen
        | ok q => simp [hen, Except.map] at h

theorem savePortfolioSnapshot_not_error {snapshot : PortfolioSnapshot}
    (hid : ∀ S ∈ db.portfolioSnapshots, S.snapshotId ≠ snapshot.snapshotId) :
    db.savePortfolioSnapshot snapshot ≠ .error e := by
  intro h
  unfold savePortfolioSnapshot at h
  split_ifs at h with hany
  obtain ⟨S, hS, heq⟩ := List.any_eq_true.mp hany
  exact hid S hS (of_decide_eq_true heq)

theorem deadLetterJob_not_error {lease : JobLease} {reason : Text} {payload : JsonValue}
    (hid : ∀ d ∈ db.deadLetters, d.deadLetterId ≠ fresh) :
    db.deadLetterJob fresh lease reason payload now ≠ .error e := by
  intro h
  unfold deadLetterJob at h
  split_ifs at h with hany
  obtain ⟨d, hd, heq⟩ := List.any_eq_true.mp hany
  exact hid d hd (of_decide_eq_true heq)

/-- Candidates with new and different ids are saved, in their order. -/
theorem saveCandidates_eq {messageId : UUID} {status : String} {items : List TradeCandidate}
    (hnew : ∀ c ∈ db.analysisCandidates, c.item.candidateId ∉ items.map TradeCandidate.candidateId)
    (hnodup : (items.map TradeCandidate.candidateId).Nodup) :
    db.saveCandidates messageId status items = .ok { db with
      analysisCandidates := db.analysisCandidates ++
        items.map fun item => (⟨messageId, status, item⟩ : AnalysisCandidate) } := by
  induction items generalizing db with
  | nil => simp [saveCandidates]
  | cons item items ih =>
    simp only [List.map_cons, List.nodup_cons, List.mem_cons, not_or] at hnew hnodup
    have hany : (db.analysisCandidates.any fun c => c.item.candidateId = item.candidateId) = false := by
      simp only [List.any_eq_false, decide_eq_true_eq]
      exact fun c hc => (hnew c hc).1
    rw [saveCandidates, hany, if_neg (by simp)]
    rw [ih ?_ hnodup.2]
    · simp
    · intro c hc
      rcases List.mem_append.mp hc with hold | hlast
      · exact (hnew c hold).2
      · obtain rfl := List.mem_singleton.mp hlast
        exact hnodup.1

theorem saveAnalysisCandidates_not_error {messageId : UUID} {candidates rejected : List TradeCandidate}
    (hnew : ∀ c ∈ db.analysisCandidates,
      c.item.candidateId ∉ (candidates ++ rejected).map TradeCandidate.candidateId)
    (hnodup : ((candidates ++ rejected).map TradeCandidate.candidateId).Nodup) :
    db.saveAnalysisCandidates messageId candidates rejected ≠ .error e := by
  simp only [List.map_append, List.mem_append, not_or] at hnew
  rw [List.map_append, List.nodup_append] at hnodup
  obtain ⟨hcandidates, hrejected, hapart⟩ := hnodup
  have hfirst : db.saveCandidates messageId "candidate" candidates = _ :=
    saveCandidates_eq (fun c hc => (hnew c hc).1) hcandidates
  have hsecond : ∀ c ∈ db.analysisCandidates ++ candidates.map (⟨messageId, "candidate", ·⟩),
      c.item.candidateId ∉ rejected.map TradeCandidate.candidateId := by
    intro c hc
    rcases List.mem_append.mp hc with hold | hlast
    · exact (hnew c hold).2
    · obtain ⟨item, hitem, rfl⟩ := List.mem_map.mp hlast
      exact fun hmem => hapart _ (List.mem_map_of_mem hitem) _ hmem rfl
  intro h
  unfold saveAnalysisCandidates at h
  rw [hfirst] at h
  simp only [Except.bind] at h
  rw [saveCandidates_eq hsecond hrejected] at h
  cases h

end PipelineDB

/-! ## Ids that are new -/

/-- The ids of jobs and dead letters are drawn in order. -/
structure IdsBelow (w : World) : Prop where
  jobs : ∀ k ∈ w.db.jobKeys, k.jobId < w.nextId
  deadLetters : ∀ d ∈ w.db.deadLetters, d.deadLetterId < w.nextId

theorem IdsBelow.mono {w w' : World} (h : IdsBelow w) (hjobs : w'.db.jobKeys = w.db.jobKeys)
    (hdead : w'.db.deadLetters = w.db.deadLetters) (hle : w.nextId ≤ w'.nextId) : IdsBelow w' where
  jobs k hk := lt_of_lt_of_le (h.jobs k (hjobs ▸ hk)) hle
  deadLetters d hd := lt_of_lt_of_le (h.deadLetters d (hdead ▸ hd)) hle

/-- A new job takes the next id. -/
theorem IdsBelow.newJob {w w' : World} (h : IdsBelow w) {k : JobKey} (hid : k.jobId = w.nextId)
    (hjobs : w'.db.jobKeys = w.db.jobKeys ++ [k]) (hdead : w'.db.deadLetters = w.db.deadLetters)
    (hlt : w.nextId < w'.nextId) : IdsBelow w' where
  jobs k' hk' := by
    rcases List.mem_append.mp (hjobs ▸ hk') with hold | hlast
    · exact (h.jobs k' hold).trans hlt
    · rw [List.mem_singleton.mp hlast, hid]
      exact hlt
  deadLetters d hd := (h.deadLetters d (hdead ▸ hd)).trans hlt

theorem Called.idsBelow {w w' : World} {op : Op} {r : Except Exn op.Ans} (hc : Called w op r w')
    (h : IdsBelow w) : IdsBelow w' := by
  have hle := hc.nextId_le
  have hfinished : ∀ (lease : JobLease) (state : JobState) (availableAt : Option Time)
      (error : Option Text) (js : List StageJob), (updateWhere (fun j => j.jobId = lease.jobId)
        (finishedRow state availableAt error) js).map StageJob.key = js.map StageJob.key :=
    fun lease state availableAt error js => jobKeys_updateWhere fun j => rfl
  cases hc with
  | jobNew traceId stage messageId priority hnew =>
    refine h.newJob (k := ⟨w.nextId, traceId, stage, messageId⟩) rfl ?_ rfl (Nat.lt_succ_self _)
    simp [PipelineDB.jobKeys, newJob, StageJob.key]
  | leased stage workerId leasedUntil now row hrow hnew =>
    exact h.mono (jobKeys_updateWhere (f := leasedRow row workerId leasedUntil) fun j => rfl) rfl hle
  | completed lease output next availableAt status now out ms js ts hts hcase =>
    rcases hcase with ⟨-, rfl, -⟩ | ⟨envelope, -, -, -, -, ⟨-, rfl⟩ | ⟨stage, -, ⟨-, rfl⟩ | ⟨-, rfl⟩⟩⟩
    · exact h.mono (hfinished _ _ _ _ _) rfl hle
    · exact h.mono (hfinished _ _ _ _ _) rfl hle
    · exact h.mono (hfinished _ _ _ _ _) rfl hle
    · refine h.newJob (k := ⟨w.nextId, envelope.traceId, stage, envelope.messageId⟩) rfl
        ((hfinished _ _ _ _ _).trans ?_) rfl (Nat.lt_succ_self _)
      simp [PipelineDB.jobKeys, newJob, StageJob.key]
  | retried lease error availableAt now => exact h.mono (hfinished _ _ _ _ _) rfl hle
  | deadLettered lease reason payload now =>
    refine ⟨fun k hk => ?_, fun d hd => ?_⟩
    · have hkeys := hfinished lease .deadLetter none (some reason) w.db.stageJobs
      exact lt_of_lt_of_le (h.jobs k ((congrArg (k ∈ ·) hkeys).mp hk)) hle
    · rcases List.mem_append.mp hd with hold | hlast
      · exact lt_of_lt_of_le (h.deadLetters d hold) hle
      · obtain rfl := List.mem_singleton.mp hlast
        exact Nat.lt_succ_self _
  | _ => exact h.mono rfl rfl hle

theorem idsBelow (h : Reachable host C s) : IdsBelow s.world :=
  world_reach (M := machine host)
    ⟨fun _ hk => absurd hk List.not_mem_nil, fun _ hd => absurd hd List.not_mem_nil⟩
    (fun _ _ _ _ _ hc => (called hc).idsBelow) (fun _ e hw => by cases e <;> exact ⟨hw.1, hw.2⟩) h

/-- So are the ids of traces. -/
theorem tracesBelow (h : Reachable host C s) :
    ∀ t ∈ s.world.db.traceKeys, t.1 < s.world.nextId := by
  refine world_reach (M := machine host) (J := fun w => ∀ t ∈ w.db.traceKeys, t.1 < w.nextId)
    (fun _ ht => absurd ht List.not_mem_nil) (fun w op inp r w' hc hw t ht => ?_)
    (fun _ e hw => by cases e <;> exact hw) h
  have hcalled := called hc
  rcases hcalled.traceKeys with heq | ⟨alertId, stage, status, rfl, heq, -⟩
  · exact lt_of_lt_of_le (hw t (heq ▸ ht)) hcalled.nextId_le
  · have hnext : w'.nextId = w.nextId + 1 ∨ w' = w := by
      cases hcalled with
      | ensureTrace => exact Or.inl rfl
      | asked op r hop => cases hop
      | raised op e hop => exact Or.inr rfl
    rcases hnext with hnext | rfl
    · rw [hnext]
      rcases List.mem_append.mp (heq ▸ ht) with hold | hlast
      · exact Nat.lt_succ_of_lt (hw t hold)
      · rw [List.mem_singleton.mp hlast]
        exact Nat.lt_succ_self _
    · exact hw t ht

section Thread

variable {i : ℕ} {th : Thread Op Op.Ans Exn Out Task}

/-- The output of a step that has ended no job is stored under a new id. -/
theorem Concludes.message_new {lease : JobLease} {envelope : PipelineEnvelope}
    {next : Option StageName} {status : String}
    (hc : Concludes host.cfg th.log lease (some envelope) next status) (h : Reachable host C s)
    (hth : s.threads[i]? = some th) :
    ∀ m ∈ s.world.db.stageMessages, m.messageId ≠ envelope.messageId := by
  intro m hm heq
  have hdrawn := hc.drawn envelope rfl
  obtain ⟨envelope', next', rfl, hsource⟩ := message_origin h hm
  have hid : envelope'.messageId = envelope.messageId := heq
  cases hsource with
  | ingested l alertId hl hi =>
    obtain ⟨j, th', hth', hpre⟩ := hl
    have hdrawn' := hi.drawn
    rw [hid] at hdrawn'
    obtain rfl := drawn_thread h hth hth' (List.prefix_refl _) hpre hdrawn hdrawn'
    obtain rfl := Option.some.inj (hth.symm.trans hth')
    obtain ⟨stage, parent, hholds, -⟩ := hc.completes.holds
    exact hi.not_leased hholds.leased h hth hpre (List.prefix_refl _)
  | completed l lease' next' availableAt status' t out hl hcompletes =>
    obtain ⟨task, hissues⟩ := hl.issues h
    obtain ⟨j, th', hth', hpre⟩ := hl
    have hdrawn' := hissues.drawn envelope' rfl
    rw [hid] at hdrawn'
    obtain rfl := drawn_thread h hth hth' (List.prefix_refl _) ((List.prefix_append _ _).trans hpre)
      hdrawn hdrawn'
    obtain rfl := Option.some.inj (hth.symm.trans hth')
    have hended := hc.unended _ (hpre.subset (List.mem_append_right _ (List.mem_singleton.mpr rfl)))
    cases hended

/-- The candidates of a step that has saved none have new ids, no two of which are equal. -/
theorem candidates_new (h : Reachable host C s) (hth : s.threads[i]? = some th)
    {ids : List UUID} (hids : ids.Subperm (drawsIn .candidate th.log)) (hunsaved : Unsaved th.log) :
    (∀ c ∈ s.world.db.analysisCandidates, c.item.candidateId ∉ ids) ∧ ids.Nodup := by
  constructor
  · intro c hmem hid
    obtain ⟨j, th', l, l', _, hth', hl, ⟨messageId, candidates, rejected, a, rfl, hitem⟩, -, hdrawn, -⟩ :=
      written (R := fun db x => ∃ c ∈ db.analysisCandidates, c.item = x)
        (O := fun x en => ∃ messageId candidates rejected a,
          en = ⟨.tx (.saveAnalysisCandidates messageId candidates rejected), .ok a⟩ ∧
          x ∈ candidates ++ rejected) h
        (fun _ ⟨_, hc, _⟩ => absurd hc List.not_mem_nil)
        (fun w op r w' x hc ⟨c, hmem, hitem⟩ => by
          cases hc with
          | candidates messageId candidates rejected cs hrows =>
            rcases hrows c hmem with hold | ⟨-, hnew⟩
            · exact Or.inl ⟨c, hold, hitem⟩
            · exact Or.inr ⟨messageId, candidates, rejected, _, rfl, hitem ▸ hnew⟩
          | _ => exact Or.inl ⟨c, hmem, hitem⟩) (x := c.item) ⟨c, hmem, rfl⟩
    have hdrawn' := answered_of_drawsIn (hdrawn.subset (List.mem_map_of_mem hitem))
    obtain rfl := drawn_thread h hth hth' (List.prefix_refl _) ⟨_, hl.symm⟩
      (answered_of_drawsIn (hids.subset hid)) hdrawn'
    obtain rfl := Option.some.inj (hth.symm.trans hth')
    have hsaves := hunsaved _ (by rw [hl]; exact List.mem_append_right _ List.mem_cons_self)
    cases hsaves
  · obtain ⟨ids', hperm, hsub⟩ := hids
    exact hperm.nodup (((drawn h).nodup i th hth).sublist (hsub.trans drawsIn_sublist))

end Thread

/-! ## Messages that are there -/

/-- What a thread looks for, the message of its job and the trace of that message, it finds. -/
def Finds (en : Entry Op Op.Ans Exn) : Prop :=
  (∀ id, en ≠ ⟨.tx (.fetchMessage id), .ok none⟩) ∧
    ∀ id, en ≠ ⟨.tx (.sourceAlertIdForTrace id), .ok none⟩

theorem finds (h : Reachable host C s) {i : ℕ} {th : Thread Op Op.Ans Exn Out Task}
    (hth : s.threads[i]? = some th) {en : Entry Op Op.Ans Exn} (hen : en ∈ th.log) : Finds en := by
  obtain ⟨l, l', hl⟩ := List.append_of_mem hen
  refine noted_reach (M := machine host) (X := fun _ _ en _ => Finds en) ?_
    (fun _ _ _ _ _ _ _ _ _ hX => hX) h i th hth l en l' hl
  intro s i inp t log op k r w' hs _ hth hc
  have hissues := (issued hs hth).next rfl
  have hlogged : Logged s log := ⟨i, _, hth, List.prefix_refl _⟩
  refine ⟨fun id heq => ?_, fun id heq => ?_⟩
  · obtain ⟨rfl, ha⟩ := Entry.mk.inj heq
    obtain rfl := eq_of_heq ha
    obtain ⟨stage, lease, ⟨-, workerId, leasedUntil, t', hasked⟩, rfl⟩ := hissues
    obtain ⟨-, hjob⟩ : lease.stage = stage ∧ lease.key ∈ s.world.db.jobKeys :=
      hlogged.told hs hasked
    obtain ⟨envelope, hm, -⟩ := job_message hs hjob
    have hcalled := called hc
    generalize ha : (Except.ok none : Except Exn (Option StageMessage)) = a at hcalled
    cases hcalled with
    | asked op r hop => cases hop
    | raised op e hop => cases ha
    | fetchMessage id => cases (Except.ok.inj ha).trans hm
  · obtain ⟨rfl, ha⟩ := Entry.mk.inj heq
    obtain rfl := eq_of_heq ha
    obtain ⟨messageId, row, hrow, rfl⟩ := hissues
    have hfound : s.world.db.findMessage messageId = some row := hlogged.told hs hrow
    obtain ⟨htrace, -⟩ := message_references hs (mem_of_findMessage hfound).1
    obtain ⟨t', ht', hid⟩ := List.mem_map.mp htrace
    have halert := (mem_traceKeys (wellFormed hs)).mp
      (List.mem_map.mpr ⟨t', ht', congrArg (·, t'.sourceAlertId) hid⟩)
    have hcalled := called hc
    generalize ha : (Except.ok none : Except Exn (Option Text)) = a at hcalled
    cases hcalled with
    | asked op r hop => cases hop
    | raised op e hop => cases ha
    | sourceAlertIdForTrace id => cases (Except.ok.inj ha).trans halert

end Sentinel.Pipeline
