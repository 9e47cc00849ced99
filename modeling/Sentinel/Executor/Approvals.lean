import Sentinel.Pipeline.Origins

/-!
# Decisions on approvals

`decide_approval` overwrites whatever its row says: it looks neither at the status nor at the expiry
of the request.  If every decision finds its request open, a decision is final; if every approval
comes before the expiry, then so did the approval of every order that the approval worker submits.
-/

namespace Sentinel.Pipeline

open Logic Contracts PipelineDB

variable {host : Host} {C : State → PipelineEvent → Prop} {s : State}

/-- The columns in which a decision is recorded. -/
structure Decision : Type where
  status : ApprovalStatus
  decidedAt : Option Time
  approverId : Option Text
  deriving DecidableEq

def ApprovalRequest.decision (r : ApprovalRequest) : Decision := ⟨r.status, r.decidedAt, r.approverId⟩

/-- The token and the decision of a call of `decide_approval`. -/
def Op.decides : Op → Option (Text × Decision)
  | .tx (.decideApproval callbackToken status approverId _ decidedAt) =>
    some (callbackToken, ⟨status, some decidedAt, some approverId⟩)
  | _ => none

/-- The thread has called `place_order` after reading the request. -/
def SubmittedFor (th : Thread Op Op.Ans Exn Out Task) (r : ApprovalRequest) : Prop :=
  requestIn th.log = some r ∧ ∃ en ∈ th.log, en.op.places = true

instance (th : Thread Op Op.Ans Exn Out Task) (r : ApprovalRequest) : Decidable (SubmittedFor th r) :=
  inferInstanceAs (Decidable (_ ∧ ∃ _ ∈ _, _))

/-! ## The request of a submission -/

theorem mem_of_latestRequest {rs : List ApprovalRequest} {r : ApprovalRequest}
    (h : latestRequest rs = some r) : r ∈ rs := by
  induction rs with
  | nil => cases h
  | cons x rs ih =>
    unfold latestRequest at h
    split at h
    · obtain rfl := Option.some.inj h
      exact List.mem_cons_self
    · next r' hr' =>
      split_ifs at h
      · obtain rfl := Option.some.inj h
        exact List.mem_cons_self
      · obtain rfl := Option.some.inj h
        exact List.mem_cons_of_mem _ (ih hr')

theorem mem_of_approvalRequestByMessage {db : PipelineDB} {id : UUID} {r : ApprovalRequest}
    (h : db.approvalRequestByMessage id = some r) : r ∈ db.approvalRequests :=
  List.mem_of_mem_filter (mem_of_latestRequest h)

theorem answered_of_requestIn {log : Log} {r : ApprovalRequest} (h : requestIn log = some r) :
    ∃ id, Answered log (.tx (.getApprovalRequestByMessage id)) (some r) := by
  obtain ⟨en, hen, heq⟩ := List.exists_of_findSome?_eq_some h
  split at heq
  · next id request =>
    subst heq
    exact ⟨id, hen⟩
  · cases heq

/-- A request whose order was submitted was read as approved. -/
theorem submitted_approved (h : Reachable host C s) {j : ℕ} {th : Thread Op Op.Ans Exn Out Task}
    (hth : s.threads[j]? = some th) {r : ApprovalRequest} (hr : SubmittedFor th r) :
    r.status = .approved := by
  obtain ⟨hread, ⟨op, a⟩, hen, hplaces⟩ := hr
  obtain ⟨l₁, l₂, hl, hissues⟩ := (issued h hth).mem hen
  cases op with
  | placeOrder intent id =>
    obtain ⟨⟨l, lease, parent, hsubmits, -, hlog⟩, -⟩ := hissues
    have hpre : l <+: th.log := ⟨_, by rw [hl, hlog, List.append_assoc]⟩
    cases hsubmits with
    | direct candidate hmode he =>
      obtain ⟨messageId, hanswer⟩ := answered_of_requestIn hread
      obtain ⟨l', _, hl', lease', parent', hholds, -⟩ := (issued h hth).mem hanswer
      have hpre' : l' <+: th.log := ⟨_, hl'.symm⟩
      cases (leased_unique h hth he.holds.leased hholds.leased hpre hpre').1
    | approved l' request payload hlog' hrequest hstatus hh hget hload =>
      obtain rfl := Option.some.inj ((findSome?_mono hrequest hpre).symm.trans hread)
      exact hstatus
  | _ => cases hplaces

/-- What is true of every approved row, and stays true of it, is true of the request now. -/
theorem submitted_noted {X : ApprovalRequest → World → Prop}
    (hnew : ∀ s, Reachable host C s → ∀ r ∈ s.world.db.approvalRequests, r.status = .approved →
      X r s.world)
    (hkeep : ∀ s e s' r, C s e → Moved (machine host) s e s' → r.status = .approved →
      X r s.world → X r s'.world) (h : Reachable host C s) {j : ℕ}
    {th : Thread Op Op.Ans Exn Out Task} (hth : s.threads[j]? = some th) {r : ApprovalRequest}
    (hr : SubmittedFor th r) : X r s.world := by
  obtain ⟨id, hanswer⟩ := answered_of_requestIn hr.1
  obtain ⟨l, l', hl⟩ := List.append_of_mem hanswer
  have hstatus := submitted_approved h hth hr
  refine noted_reach (M := machine host) (X := fun _ _ en s => ∀ id request,
      en = ⟨.tx (.getApprovalRequestByMessage id), .ok (some request)⟩ →
        request.status = .approved → X request s.world) ?_ ?_ h j th hth l _ l' hl id r rfl hstatus
  · intro s i inp t log op k r w' hs hC hth hc id request heq hstatus
    cases heq
    have hcalled := called hc
    obtain ⟨hmem, rfl⟩ : request ∈ s.world.db.approvalRequests ∧ w' = s.world := by
      generalize ha : (Except.ok (some request) : Except Exn (Option ApprovalRequest)) = a at hcalled
      cases hcalled with
      | asked op r hop => cases hop
      | raised op e hop => cases ha
      | approvalRequest id => exact ⟨mem_of_approvalRequestByMessage (Except.ok.inj ha).symm, rfl⟩
    exact hnew s hs request hmem hstatus
  · intro s e s' t log en hs hC hm hX id request heq hstatus
    exact hkeep s e s' request hC hm hstatus (hX id request heq hstatus)

/-! ## Final decisions -/

/-- A decision that commits finds its request open, or decided just so. -/
def DecidesOpen (s : State) : PipelineEvent → Prop
  | .act i inp => ∀ op ∈ nextCall s i, ∀ d ∈ op.decides, inp.commits = true →
    ∀ r ∈ s.world.db.approvalRequests, r.callbackToken = d.1 →
      r.status = .requested ∨ r.decision = d.2
  | _ => True

instance (s : State) : ∀ e : PipelineEvent, Decidable (DecidesOpen s e)
  | .act _ _ => inferInstanceAs (Decidable (∀ _ ∈ _, ∀ _ ∈ _, _ → ∀ _ ∈ _, _ → _))
  | .start _ | .crash _ | .env _ => inferInstanceAs (Decidable True)

/-- The row of the request says what it says in `r`. -/
def Reads (db : PipelineDB) (r : ApprovalRequest) : Prop :=
  ∃ r' ∈ db.approvalRequests, r'.approvalId = r.approvalId ∧ r'.decision = r.decision

instance (db : PipelineDB) (r : ApprovalRequest) : Decidable (Reads db r) :=
  inferInstanceAs (Decidable (∃ _ ∈ _, _))

theorem reads_of_mem {db : PipelineDB} {r : ApprovalRequest} (h : r ∈ db.approvalRequests) :
    Reads db r := ⟨r, h, rfl, rfl⟩

/-- No step changes a decision. -/
theorem moved_reads {s' : State} {e : PipelineEvent} (hC : DecidesOpen s e)
    (hm : Moved (machine host) s e s') {r : ApprovalRequest} (hr : Reads s.world.db r)
    (hdecided : r.status ≠ .requested) : Reads s'.world.db r := by
  cases hm with
  | idle => exact hr
  | start => exact hr
  | crash => exact hr
  | env e => cases e <;> exact hr
  | act i inp t log op k a w' hth hc =>
    obtain ⟨r', hmem, hid, hdecision⟩ := hr
    have hcalled := called hc
    cases hcalled with
    | requested request hnew => exact ⟨r', List.mem_append_left _ hmem, hid, hdecision⟩
    | decided token status approverId reason now row hrow htoken =>
      refine ⟨_, mem_updateWhere_of_mem hmem, ?_⟩
      split_ifs with hp
      · refine ⟨hid, ?_⟩
        simp only [decide_eq_true_eq] at hp
        have hC := hC _ (nextCall_eq hth) (token, ⟨status, some now, some approverId⟩) rfl
          (commits_of_ok hc) r' hmem hp
        rcases hC with hopen | hsame
        · exact absurd ((congrArg Decision.status hdecision).symm.trans hopen) hdecided
        · exact hsame.symm.trans hdecision
      · exact ⟨hid, hdecision⟩
    | _ => exact ⟨r', hmem, hid, hdecision⟩

theorem reads_later {s' : State} {r : ApprovalRequest} (hr : Reads s.world.db r)
    (hdecided : r.status ≠ .requested) (hs' : Reach (machine host).step s DecidesOpen s') :
    Reads s'.world.db r :=
  hs'.invariant (I := fun s => Reads s.world.db r) hr fun s e _ hC ih =>
    moved_reads hC (moved (machine host) s e) ih hdecided

namespace Sample

/-- The request is approved at once and its order submitted. -/
def approvedEvents : List PipelineEvent :=
  List.flatten [requested, decided 4 .approved, polled 5, calls 5 1, ordered 5 "b1" 12]

/-- Ten minutes later the same token is used to reject it. -/
def rejectedEvents : List PipelineEvent :=
  List.flatten [tick 600000000, decided 6 .rejected]

/-- The approval comes an hour late, and before the worker's next poll. -/
def lateEvents : List PipelineEvent :=
  List.flatten [requested, tick 4500000000, decided 4 .approved, polled 5, calls 5 1,
    ordered 5 "b1" 0]

end Sample

/-- If every decision finds its request open, then decisions are final, and a request whose order
was submitted reads approved from then on. -/
theorem decided_once (h : Reachable host DecidesOpen s) :
    (∀ r ∈ s.world.db.approvalRequests, r.status ≠ .requested →
      ∀ s', Reach (machine host).step s DecidesOpen s' → Reads s'.world.db r) ∧
    ∀ th ∈ s.threads, ∀ r, SubmittedFor th r → r.status = .approved ∧
      ∀ s', Reach (machine host).step s DecidesOpen s' → Reads s'.world.db r := by
  constructor
  · exact fun r hr hdecided s' hs' => reads_later (reads_of_mem hr) hdecided hs'
  · intro th hmem r hr
    obtain ⟨j, hth⟩ := List.getElem?_of_mem hmem
    have hstatus := submitted_approved h hth hr
    have hreads : Reads s.world.db r := by
      refine submitted_noted (X := fun r w => Reads w.db r) ?_ ?_ h hth hr
      · exact fun s _ r hr _ => reads_of_mem hr
      · exact fun s e s' r hC hm happroved hX => moved_reads hC hm hX (by simp [happroved])
    exact ⟨hstatus, fun s' hs' => reads_later hreads (by simp [hstatus]) hs'⟩

theorem decided_once_approved :
    (∀ r ∈ (run (Sample.host "manual_all") Sample.approvedEvents).world.db.approvalRequests,
      r.status ≠ .requested → ∀ s', Reach (machine (Sample.host "manual_all")).step
        (run (Sample.host "manual_all") Sample.approvedEvents) DecidesOpen s' →
          Reads s'.world.db r) ∧
    ∀ th ∈ (run (Sample.host "manual_all") Sample.approvedEvents).threads, ∀ r, SubmittedFor th r →
      r.status = .approved ∧ ∀ s', Reach (machine (Sample.host "manual_all")).step
        (run (Sample.host "manual_all") Sample.approvedEvents) DecidesOpen s' →
          Reads s'.world.db r :=
  decided_once (reach_of_allowed (by decide +kernel))

/-- A request that was approved, and whose order was submitted, ends up rejected. -/
theorem decided_twice : ∃ s s', Reachable (Sample.host "manual_all") Any s ∧
    Reach (machine (Sample.host "manual_all")).step s Any s' ∧
    (∃ r ∈ s.world.db.approvalRequests, r.status ≠ .requested ∧ ¬ Reads s'.world.db r) ∧
    ∃ th ∈ s.threads, ∃ r ∈ requestIn th.log, SubmittedFor th r ∧ ¬ Reads s'.world.db r :=
  ⟨_, _, reachable_run _ Sample.approvedEvents, reach_foldl Sample.rejectedEvents,
    by decide +kernel, by decide +kernel⟩

/-! ## Approvals in time -/

/-- An approval that commits comes before its request expires. -/
def ApprovesInTime (s : State) : PipelineEvent → Prop
  | .act i inp => ∀ op ∈ nextCall s i, ∀ d ∈ op.decides, inp.commits = true →
    d.2.status = .approved → ∀ r ∈ s.world.db.approvalRequests, r.callbackToken = d.1 →
      ∀ t ∈ d.2.decidedAt, t ≤ r.expiresAt
  | _ => True

instance (s : State) : ∀ e : PipelineEvent, Decidable (ApprovesInTime s e)
  | .act _ _ => inferInstanceAs (Decidable (∀ _ ∈ _, ∀ _ ∈ _, _ → _ → ∀ _ ∈ _, _ → ∀ _ ∈ _, _))
  | .start _ | .crash _ | .env _ => inferInstanceAs (Decidable True)

def ApprovalRequest.InTime (r : ApprovalRequest) : Prop := ∃ t ∈ r.decidedAt, t ≤ r.expiresAt

instance (r : ApprovalRequest) : Decidable r.InTime := inferInstanceAs (Decidable (∃ _ ∈ _, _))

theorem approved_rows (h : Reachable host ApprovesInTime s) :
    ∀ r ∈ s.world.db.approvalRequests, r.status = .approved → r.InTime := by
  refine world_invariant (M := machine host)
    (J := fun w => ∀ r ∈ w.db.approvalRequests, r.status = .approved → r.InTime)
    (fun _ hr => absurd hr List.not_mem_nil) (fun s i inp t log op k a w' hs hC hth hc ih => ?_)
    (fun s e _ ih => by cases e <;> exact ih) h
  have hissues : Issues host.cfg t log op := (issued hs hth).next rfl
  have hcalled := called hc
  intro r hr happroved
  cases hcalled with
  | requested request hnew =>
    rcases List.mem_append.mp hr with hr | hr
    · exact ih r hr happroved
    · obtain rfl := List.mem_singleton.mp hr
      have hstatus : r.status = .requested := hissues.1
      rw [hstatus] at happroved
      cases happroved
  | decided token status approverId reason now row hrow htoken =>
    have hC : ApprovesInTime s (.act i inp) := hC
    obtain ⟨r', hr', rfl⟩ := mem_updateWhere.mp hr
    split_ifs at happroved ⊢ with hp
    · simp only [decide_eq_true_eq] at hp
      exact ⟨now, rfl, hC _ (nextCall_eq hth) (token, ⟨status, some now, some approverId⟩) rfl
        (commits_of_ok hc) happroved r' hr' hp now rfl⟩
    · exact ih r' hr' happroved
  | _ => exact ih r hr happroved

/-- If every approval comes in time, the approval worker submits orders only for requests that were
approved in time. -/
theorem submitted_inTime (h : Reachable host ApprovesInTime s) :
    ∀ th ∈ s.threads, ∀ r, SubmittedFor th r → r.status = .approved ∧ r.InTime := by
  intro th hmem r hr
  obtain ⟨j, hth⟩ := List.getElem?_of_mem hmem
  refine ⟨submitted_approved h hth hr, ?_⟩
  exact submitted_noted (X := fun r _ => r.InTime) (fun s hs => approved_rows hs)
    (fun _ _ _ _ _ _ _ hX => hX) h hth hr

theorem submitted_inTime_approved :
    (∃ th ∈ (run (Sample.host "manual_all") Sample.approvedEvents).threads,
      ∃ r ∈ requestIn th.log, SubmittedFor th r) ∧
    ∀ th ∈ (run (Sample.host "manual_all") Sample.approvedEvents).threads, ∀ r, SubmittedFor th r →
      r.status = .approved ∧ r.InTime :=
  ⟨by decide +kernel, submitted_inTime (reach_of_allowed (by decide +kernel))⟩

theorem submitted_late : ∃ s, Reachable (Sample.host "manual_all") Any s ∧
    ∃ th ∈ s.threads, ∃ r ∈ requestIn th.log, SubmittedFor th r ∧ ¬ r.InTime :=
  ⟨_, reachable_run _ Sample.lateEvents, by decide +kernel⟩

end Sentinel.Pipeline
