import Sentinel.Pipeline.HandOff
import Sentinel.Pipeline.Lineage

/-!
# The observations on record

* `horizons`: the traces and horizons of which there are observations; no call removes one.
* `observation_saved`: an observation was saved by a thread that had published an OUTCOME job of its
  trace.
* `followUp_queued`: a follow-up has an OUTCOME job, which `OutcomeWorker` cannot read.
-/

namespace Sentinel.Pipeline

open Logic Contracts PipelineDB

variable {host : Host} {C : State → PipelineEvent → Prop} {s : State}

namespace PipelineDB

/-- The traces and horizons of the observations. -/
def horizons (db : PipelineDB) : List (UUID × OutcomeHorizon) :=
  db.outcomeObservations.map fun o => (o.observation.traceId, o.observation.horizon)

/-- The trace has observations. -/
def Observes (db : PipelineDB) (traceId : UUID) : Prop := ∃ horizon, (traceId, horizon) ∈ db.horizons

/-- An observation of the trace has not been made. -/
def Pending (db : PipelineDB) (traceId : UUID) : Prop :=
  ∃ o ∈ db.outcomeObservations, o.observation.traceId = traceId ∧ o.observation.observedAt = none

instance decidablePending (db : PipelineDB) (traceId : UUID) : Decidable (db.Pending traceId) :=
  inferInstanceAs (Decidable (∃ _ ∈ _, _ ∧ _))

theorem mem_horizons {db : PipelineDB} {o : ObservationRow} (h : o ∈ db.outcomeObservations) :
    (o.observation.traceId, o.observation.horizon) ∈ db.horizons := List.mem_map_of_mem h

theorem Pending.observes {db : PipelineDB} {traceId : UUID} (h : db.Pending traceId) :
    db.Observes traceId := by
  obtain ⟨o, ho, rfl, -⟩ := h
  exact ⟨_, mem_horizons ho⟩

theorem pending_iff {db : PipelineDB} {traceId : UUID} :
    db.Pending traceId ↔ OutcomeWorker.pendingRows (db.listOutcomeObservations traceId) ≠ [] := by
  constructor
  · rintro ⟨o, ho, htrace, hnone⟩
    refine List.ne_nil_of_mem (a := o) (List.mem_filter.mpr ⟨?_, by simp [hnone]⟩)
    exact mem_listOutcomeObservations.mpr ⟨ho, htrace⟩
  · intro hne
    obtain ⟨o, ho⟩ := List.exists_mem_of_ne_nil _ hne
    obtain ⟨hmem, hnone⟩ := List.mem_filter.mp ho
    obtain ⟨ho, htrace⟩ := mem_listOutcomeObservations.mp hmem
    exact ⟨o, ho, htrace, by simpa using hnone⟩

end PipelineDB

/-! ## Observations stay -/

theorem Called.horizons {w w' : World} {op : Op} {r : Except Exn op.Ans} (h : Called w op r w') :
    w.db.horizons ⊆ w'.db.horizons := by
  unfold PipelineDB.horizons
  rcases h.observationRows with heq | ⟨id, o, -, -, heq⟩ |
    ⟨id, observedAt, exitPrice, returnPct, benchmark, label, -, heq⟩
  · rw [heq]
    exact List.Subset.refl _
  · rw [heq, List.map_append]
    exact List.subset_append_left _ _
  · rw [heq, map_updateWhere (f := observedRow observedAt exitPrice returnPct benchmark label)
      fun o => rfl]
    exact List.Subset.refl _

/-- What an answer says about the observations. -/
def Recorded (en : Entry Op Op.Ans Exn) (db : PipelineDB) : Prop :=
  match en with
  | ⟨.tx (.saveOutcomeObservation _ o), .ok _⟩ => (o.traceId, o.horizon) ∈ db.horizons
  | ⟨.tx (.listOutcomeObservations traceId), .ok rows⟩ =>
    ∀ row ∈ rows, (traceId, row.observation.horizon) ∈ db.horizons
  | _ => True

theorem Recorded.mono {en : Entry Op Op.Ans Exn} {db db' : PipelineDB} (h : Recorded en db)
    (hsub : db.horizons ⊆ db'.horizons) : Recorded en db' := by
  unfold Recorded at h ⊢
  split
  · exact hsub h
  · exact fun row hrow => hsub (h row hrow)
  · trivial

theorem Called.recorded {w w' : World} {op : Op} {r : Except Exn op.Ans} (h : Called w op r w') :
    Recorded ⟨op, r⟩ w'.db := by
  cases h with
  | asked op r hop =>
    cases op with
    | tx t => cases hop
    | _ => trivial
  | raised op e hop =>
    cases op with
    | tx t => cases t <;> trivial
    | _ => trivial
  | observation id o hnew =>
    show (o.traceId, o.horizon) ∈ PipelineDB.horizons { w.db with outcomeObservations := _ }
    simp [PipelineDB.horizons]
  | observations traceId =>
    intro row hrow
    obtain ⟨hmem, rfl⟩ := mem_listOutcomeObservations.mp hrow
    exact mem_horizons hmem
  | _ => trivial

theorem recorded (h : Reachable host C s) {j : ℕ} {th : Thread Op Op.Ans Exn Out Task}
    (hth : s.threads[j]? = some th) {en : Entry Op Op.Ans Exn} (hen : en ∈ th.log) :
    Recorded en s.world.db :=
  fact_reach (M := machine host) (F := fun en w => Recorded en w.db)
    (fun _ _ _ _ _ hc => (called hc).recorded)
    (fun _ _ _ _ _ _ hc hF => hF.mono (called hc).horizons)
    (fun _ e _ hF => by cases e <;> exact hF) h j th hth en hen

theorem observes_of_listed (h : Reachable host C s) {j : ℕ} {th : Thread Op Op.Ans Exn Out Task}
    (hth : s.threads[j]? = some th) {traceId : UUID} {rows : List ObservationRow}
    (hlisted : Answered th.log (.tx (.listOutcomeObservations traceId)) rows) (hne : rows ≠ []) :
    s.world.db.Observes traceId := by
  obtain ⟨row, hrow⟩ := List.exists_mem_of_ne_nil _ hne
  have htold : ∀ row ∈ rows, (traceId, row.observation.horizon) ∈ s.world.db.horizons :=
    recorded h hth hlisted
  exact ⟨_, htold row hrow⟩

/-- All the observations that a log has saved are on record. -/
theorem Scheduled.horizons {l : Log} {traceId : UUID} (hs : Scheduled l traceId)
    (h : Reachable host C s) {j : ℕ} {th : Thread Op Op.Ans Exn Out Task}
    (hth : s.threads[j]? = some th) (hl : l <+: th.log) (horizon : OutcomeHorizon) :
    (traceId, horizon) ∈ s.world.db.horizons := by
  obtain ⟨id, o, hsaved, rfl, rfl⟩ := hs horizon
  exact recorded h hth (hsaved.prefix_of hl)

/-- An observation was saved by a thread that had published an OUTCOME job of its trace. -/
theorem observation_saved (h : Reachable host C s) {traceId : UUID}
    (hobserves : s.world.db.Observes traceId) :
    ∃ (j : ℕ) (th : Thread Op Op.Ans Exn Out Task) (id : UUID) (o : OutcomeObservation),
      s.threads[j]? = some th ∧ th.task.trades = true ∧ o.traceId = traceId ∧
      Answered th.log (.tx (.saveOutcomeObservation id o)) () ∧
      ∃ envelope ∈ published .outcome th.log, envelope.traceId = traceId := by
  obtain ⟨j, th, l, l', _, hth, hl, ⟨id, o, rfl, rfl⟩, htrades, l₀, lease, parent, intent, envelope,
      availableAt, status, t, out, -, -, htrace, -, hdone, -⟩ :=
    written (R := fun db x => db.Observes x)
      (O := fun x en => ∃ id o, en = ⟨.tx (.saveOutcomeObservation id o), .ok ()⟩ ∧ o.traceId = x) h
      (fun _ ⟨_, hmem⟩ => absurd hmem List.not_mem_nil)
      (fun w op r w' x hc ⟨horizon, hmem⟩ => by
        cases hc with
        | observation id o hnew =>
          obtain ⟨row, hrow, heq⟩ := List.mem_map.mp hmem
          obtain ⟨rfl, -⟩ := Prod.mk.inj heq
          rcases List.mem_append.mp hrow with hold | hlast
          · exact Or.inl ⟨_, mem_horizons hold⟩
          · obtain rfl := List.mem_singleton.mp hlast
            exact Or.inr ⟨id, o, rfl, rfl⟩
        | observed id observedAt exitPrice returnPct benchmark label =>
          refine Or.inl ⟨horizon, ?_⟩
          have heq : (w.db.updateOutcomeObservation id observedAt exitPrice returnPct benchmark
              label).horizons = w.db.horizons :=
            map_updateWhere (f := observedRow observedAt exitPrice returnPct benchmark label)
              fun o => rfl
          exact heq ▸ hmem
        | _ => exact Or.inl ⟨horizon, hmem⟩) hobserves
  have hsaved : (⟨.tx (.saveOutcomeObservation id o), .ok ()⟩ : Entry Op Op.Ans Exn) ∈ th.log := by
    rw [hl]
    exact List.mem_append_right _ List.mem_cons_self
  refine ⟨j, th, id, o, hth, htrades, rfl, hsaved, envelope, ?_, htrace⟩
  refine List.mem_filterMap.mpr ⟨_, hdone.prefix_of (⟨_, hl.symm⟩ : l <+: th.log), ?_⟩
  simp [Op.publishes]

/-! ## Follow-ups -/

/-- A message whose key says that observations of the trace were still pending. -/
structure FollowsUp (db : PipelineDB) (m : StageMessage) (traceId : UUID) : Prop where
  trace : m.traceId = traceId
  unreadable : ExecutionDecision.contract.load m.payload = none
  job : ∃ k ∈ db.jobKeys, k.stage = .outcome ∧ k.messageId = m.messageId

theorem followUpHorizon_inj {rows rows' : List ObservationRow}
    (h : followUpHorizon rows = followUpHorizon rows') (hne : OutcomeWorker.pendingRows rows ≠ []) :
    OutcomeWorker.pendingRows rows' ≠ [] := by
  intro hnil
  simp [followUpHorizon, hne, hnil, lit] at h

theorem followUp_queued (h : Reachable host C s) {m : StageMessage}
    (hm : m ∈ s.world.db.stageMessages) {traceId : UUID} {rows : List ObservationRow}
    (hne : OutcomeWorker.pendingRows rows ≠ [])
    (hkey : m.idempotencyKey = buildOutcomeKey traceId (followUpHorizon rows)) :
    FollowsUp s.world.db m traceId := by
  refine world_invariant (M := machine host) (J := fun w => ∀ m ∈ w.db.stageMessages, ∀ traceId rows,
    OutcomeWorker.pendingRows rows ≠ [] →
    m.idempotencyKey = buildOutcomeKey traceId (followUpHorizon rows) → FollowsUp w.db m traceId)
    (fun m hm => absurd hm List.not_mem_nil) ?_ (fun s e _ ih => by cases e <;> exact ih) h m hm
    traceId rows hne hkey
  intro s i inp t log op k r w' hs _ hth hc ih m hm traceId rows hne hkey
  have hcalled := called hc
  rcases hcalled.messages with heq | ⟨envelope, hstores, hnew, -, heq⟩
  · obtain ⟨htrace, hload, k, hk, hjob⟩ := ih m (heq ▸ hm) traceId rows hne hkey
    exact ⟨htrace, hload, k, (called_grows hcalled).jobs hk, hjob⟩
  · rcases List.mem_append.mp (heq ▸ hm) with hold | hlast
    · obtain ⟨htrace, hload, k, hk, hjob⟩ := ih m hold traceId rows hne hkey
      exact ⟨htrace, hload, k, (called_grows hcalled).jobs hk, hjob⟩
    · obtain rfl := List.mem_singleton.mp hlast
      have hkey : envelope.idempotencyKey = buildOutcomeKey traceId (followUpHorizon rows) := hkey
      have hissues := (issued hs hth).next rfl
      rcases hstores with rfl | ⟨lease, next, availableAt, status, now, rfl⟩
      · obtain ⟨alertId, hi⟩ := hissues
        rw [hi.key] at hkey
        simp [buildIngestKey, buildOutcomeKey] at hkey
      · have hcompletes : Completes host.cfg log lease (some envelope) next := hissues.1
        cases hcompletes with
        | researched parent _ ingested report next h hload hreport he =>
          simp [he.key, buildResearchKey, buildOutcomeKey] at hkey
        | analysed parent _ report snapshot output next h hload hsnapshot he =>
          simp [he.key, buildAnalysisKey, buildOutcomeKey] at hkey
        | rejected parent _ decision h hstatus he =>
          simp [he.key, executionKey, buildExecutionKey, buildOutcomeKey] at hkey
        | awaiting l parent _ candidate intent checks approvalId hmode hl h he =>
          simp [he.key, executionKey, buildExecutionKey, buildOutcomeKey] at hkey
        | submitted l parent _ intent checks stage brokerOrderId hl h hstage he =>
          simp [he.key, executionKey, buildExecutionKey, buildOutcomeKey] at hkey
        | ended parent _ status decision h he => simp [he.key, buildOutcomeKey] at hkey
        | observed parent _ rows₀ rows' t next h hdue hupdated hrows' he hnext =>
          rw [he.key] at hkey
          simp only [buildOutcomeKey, List.cons_append, List.nil_append, List.cons.injEq,
            Piece.uuid.injEq, true_and] at hkey
          obtain ⟨htrace, hhorizon⟩ := hkey
          have hpending := followUpHorizon_inj hhorizon.symm hne
          rw [if_neg hpending] at hnext
          subst hnext
          refine ⟨he.traceId.trans htrace, ?_, ?_⟩
          · show ExecutionDecision.contract.load envelope.payload = none
            rw [he.payload]
            rfl
          · rcases completed_cases hcalled with ⟨hsame, -⟩ | ⟨-, -, hjobs⟩
            · rw [hsame] at heq
              simp at heq
            · exact hjobs .outcome rfl

/-! ## The message of an OUTCOME job -/

/-- `OutcomeWorker` can read the message. -/
def Readable (db : PipelineDB) (messageId : UUID) : Prop :=
  ∃ m, db.findMessage messageId = some m ∧ ExecutionDecision.contract.load m.payload ≠ none

/-- Who has listed observations for an OUTCOME job could read its message. -/
theorem readable_of_listed (h : Reachable host C s) {i : ℕ} {th : Thread Op Op.Ans Exn Out Task}
    (hth : s.threads[i]? = some th) {lease : JobLease} {parent : PipelineEnvelope}
    (hholds : Holds th.log .outcome lease parent) {traceId : UUID} {rows : List ObservationRow}
    (hlisted : Answered th.log (.tx (.listOutcomeObservations traceId)) rows) :
    Readable s.world.db lease.messageId := by
  obtain ⟨l, l', hl, hissues⟩ := (issued h hth).mem hlisted
  have hpre : l <+: th.log := ⟨_, hl.symm⟩
  rcases hissues with ⟨l₁, lease', parent', intent, hsubmits, hl₁, -⟩ |
    ⟨lease', parent', decision, intent, hholds', -, hload, -⟩
  · obtain ⟨stage, hstage, hholds'⟩ := hsubmits.holds
    obtain ⟨hsame, -⟩ := leased_unique h hth hholds.leased hholds'.leased (List.prefix_refl _)
      (hl₁.trans hpre)
    rcases hstage with rfl | rfl <;> cases hsame
  · obtain ⟨-, rfl⟩ := leased_unique h hth hholds.leased hholds'.leased (List.prefix_refl _) hpre
    have hheld := hholds'.held ⟨i, th, hth, hpre⟩ h
    exact ⟨_, hheld.message, by simp [StageMessage.ofEnvelope, hload]⟩

end Sentinel.Pipeline
