import Sentinel.Pipeline.Lineage

/-!
# Ids drawn by threads

Every id that a thread draws is a new one, so an id names the thread that drew it, and what two
calls with the same drawn id did was done by one thread.

* `draws`: the ids drawn in a log; `Drawn`: they are below the next id, and no two are equal.
* `drawn_thread`: the drawer of an id is unique.
* `request_origin`, `request_trace`: an approval request belongs to the trace of its message.
-/

namespace Sentinel.Pipeline

open Logic Contracts PipelineDB

variable {host : Host} {C : State → PipelineEvent → Prop} {s : State}

/-- The ids drawn in the log, at whatever place of the source. -/
def draws (log : Log) : List UUID :=
  log.filterMap fun
    | ⟨.uuid4 _, .ok id⟩ => some id
    | _ => none

theorem draws_append {log log' : Log} : draws (log ++ log') = draws log ++ draws log' :=
  List.filterMap_append

theorem mem_draws {log : Log} {site : IdSite} {id : UUID} (h : Answered log (.uuid4 site) id) :
    id ∈ draws log := List.mem_filterMap.mpr ⟨_, h, rfl⟩

/-- The ids of one place are among all ids, in their order. -/
theorem drawsIn_sublist {site : IdSite} {log : Log} : (drawsIn site log).Sublist (draws log) := by
  induction log with
  | nil => exact List.Sublist.slnil
  | cons en log ih =>
    rw [drawsIn, draws, List.filterMap_cons, List.filterMap_cons]
    obtain ⟨op, r⟩ := en
    cases r with
    | error e => cases op <;> exact ih
    | ok a =>
      cases op with
      | uuid4 site' =>
        dsimp only
        split_ifs with hsite
        · exact ih.cons_cons a
        · exact ih.cons a
      | _ => exact ih

theorem answered_of_drawsIn {site : IdSite} {log : Log} {id : UUID} (h : id ∈ drawsIn site log) :
    Answered log (.uuid4 site) id := by
  obtain ⟨en, hen, heq⟩ := List.mem_filterMap.mp h
  split at heq
  · next site' id' =>
    split_ifs at heq with hsite
    obtain rfl := Option.some.inj heq
    subst hsite
    exact hen
  · cases heq

/-! ## The counter of ids -/

theorem Called.nextId_le {w w' : World} {op : Op} {r : Except Exn op.Ans} (h : Called w op r w') :
    w.nextId ≤ w'.nextId := by
  cases h with
  | evidence messageId items es => exact Nat.le_add_right _ _
  | asked | now | breaker | placed | raised | messageKnown | messageNew | fetchMessage
  | sourceAlertIdForTrace | candidates | snapshot | requested | approvalRequest | decided
  | brokerOrder | observation | observations | observed | retried => exact le_rfl
  | _ => exact Nat.le_succ _

/-- What a call draws is the next id. -/
theorem Called.draws {w w' : World} {op : Op} {r : Except Exn op.Ans} (h : Called w op r w') :
    draws [⟨op, r⟩] = [] ∨ draws [⟨op, r⟩] = [w.nextId] ∧ w'.nextId = w.nextId + 1 := by
  cases h with
  | uuid4 site => exact Or.inr ⟨rfl, rfl⟩
  | asked op r hop =>
    refine Or.inl ?_
    cases r with
    | error e => cases op <;> rfl
    | ok a =>
      cases op with
      | uuid4 site => cases hop
      | _ => rfl
  | placed intent id r =>
    refine Or.inl ?_
    cases r <;> rfl
  | raised op e hop =>
    refine Or.inl ?_
    cases op <;> rfl
  | _ => exact Or.inl rfl

structure Drawn (s : State) : Prop where
  below : ∀ (i : ℕ) (th : Thread Op Op.Ans Exn Out Task), s.threads[i]? = some th →
    ∀ id ∈ draws th.log, id < s.world.nextId
  nodup : ∀ (i : ℕ) (th : Thread Op Op.Ans Exn Out Task), s.threads[i]? = some th →
    (draws th.log).Nodup
  apart : ∀ (i j : ℕ) (th th' : Thread Op Op.Ans Exn Out Task), s.threads[i]? = some th →
    s.threads[j]? = some th' → ∀ id ∈ draws th.log, id ∈ draws th'.log → i = j

/-- A step in which no thread draws anything. -/
theorem Drawn.same (h : Drawn s) {s' : State} (hnext : s.world.nextId ≤ s'.world.nextId)
    (hold : ∀ (j : ℕ) (th' : Thread Op Op.Ans Exn Out Task), s'.threads[j]? = some th' →
      draws th'.log = [] ∨ ∃ th, s.threads[j]? = some th ∧ draws th'.log = draws th.log) :
    Drawn s' where
  below i th' hi id hid := by
    rcases hold i th' hi with hnil | ⟨th, hth, heq⟩
    · rw [hnil] at hid
      exact absurd hid List.not_mem_nil
    · rw [heq] at hid
      exact lt_of_lt_of_le (h.below i th hth id hid) hnext
  nodup i th' hi := by
    rcases hold i th' hi with hnil | ⟨th, hth, heq⟩
    · rw [hnil]
      exact List.nodup_nil
    · rw [heq]
      exact h.nodup i th hth
  apart i j th th' hi hj id hid hid' := by
    rcases hold i th hi with hnil | ⟨th₀, hth₀, heq⟩
    · rw [hnil] at hid
      exact absurd hid List.not_mem_nil
    · rcases hold j th' hj with hnil' | ⟨th₁, hth₁, heq'⟩
      · rw [hnil'] at hid'
        exact absurd hid' List.not_mem_nil
      · exact h.apart i j th₀ th₁ hth₀ hth₁ id (heq ▸ hid) (heq' ▸ hid')

/-- A thread draws the next id. -/
theorem Drawn.draw (h : Drawn s) {i : ℕ} {th th' : Thread Op Op.Ans Exn Out Task} {w' : World}
    (hth : s.threads[i]? = some th) (hdraws : draws th'.log = draws th.log ++ [s.world.nextId])
    (hnext : w'.nextId = s.world.nextId + 1) : Drawn ⟨w', s.threads.set i th'⟩ := by
  have hfresh : ∀ (j : ℕ) (th₁ : Thread Op Op.Ans Exn Out Task), s.threads[j]? = some th₁ →
      s.world.nextId ∉ draws th₁.log := by
    intro j th₁ hj hmem
    exact absurd (h.below j th₁ hj _ hmem) (lt_irrefl _)
  refine ⟨?_, ?_, ?_⟩
  · intro j th₁ hj id hid
    change id < w'.nextId
    rw [hnext]
    rcases getElem?_set_cases hj with ⟨rfl, rfl⟩ | ⟨-, hold⟩
    · rw [hdraws, List.mem_append, List.mem_singleton] at hid
      rcases hid with hid | rfl
      · exact Nat.lt_succ_of_lt (h.below j th hth id hid)
      · exact Nat.lt_succ_self _
    · exact Nat.lt_succ_of_lt (h.below j th₁ hold id hid)
  · intro j th₁ hj
    rcases getElem?_set_cases hj with ⟨rfl, rfl⟩ | ⟨-, hold⟩
    · rw [hdraws, List.nodup_append]
      refine ⟨h.nodup j th hth, List.nodup_singleton _, fun a ha b hb hab => ?_⟩
      rw [List.mem_singleton.mp hb] at hab
      exact hfresh j th hth (hab ▸ ha)
    · exact h.nodup j th₁ hold
  · intro j j' th₁ th₂ hj hj' id hid hid'
    rcases getElem?_set_cases hj with ⟨rfl, rfl⟩ | ⟨-, hold⟩ <;>
      rcases getElem?_set_cases hj' with ⟨rfl, rfl⟩ | ⟨-, hold'⟩
    · rfl
    · rw [hdraws, List.mem_append, List.mem_singleton] at hid
      rcases hid with hid | rfl
      · exact h.apart j j' th th₂ hth hold' id hid hid'
      · exact absurd hid' (hfresh j' th₂ hold')
    · rw [hdraws, List.mem_append, List.mem_singleton] at hid'
      rcases hid' with hid' | rfl
      · exact h.apart j j' th₁ th hold hth id hid hid'
      · exact absurd hid (hfresh j th₁ hold)
    · exact h.apart j j' th₁ th₂ hold hold' id hid hid'

theorem drawn (h : Reachable host C s) : Drawn s := by
  refine h.rec_logs ?_ (fun s s' ih hworld hlogs => ih.same ?_ fun j th' hj => ?_) ?_
  · refine ⟨?_, ?_, ?_⟩ <;> simp
  · rcases hworld with hworld | ⟨e, hworld⟩
    · rw [hworld]
    · rw [hworld]
      cases e <;> exact le_rfl
  · rcases hlogs j th' hj with hlog | ⟨th, hth, hlog⟩
    · exact Or.inl (by rw [hlog]; rfl)
    · exact Or.inr ⟨th, hth, by rw [hlog]⟩
  · intro s i inp t log op k r w' _ _ ih hth hc
    have hcalled := called hc
    rcases hcalled.draws with hnone | ⟨hsome, hnext⟩
    · refine ih.same hcalled.nextId_le fun j th' hj => ?_
      rcases getElem?_set_cases hj with ⟨rfl, rfl⟩ | ⟨-, hold⟩
      · exact Or.inr ⟨_, hth, by rw [draws_append, hnone, List.append_nil]⟩
      · exact Or.inr ⟨th', hold, rfl⟩
    · exact ih.draw hth (by rw [draws_append, hsome]) hnext

/-- One thread drew the id. -/
theorem drawn_thread (h : Reachable host C s) {i j : ℕ}
    {th th' : Thread Op Op.Ans Exn Out Task} (hi : s.threads[i]? = some th)
    (hj : s.threads[j]? = some th') {l l' : Log} (hl : l <+: th.log) (hl' : l' <+: th'.log)
    {site site' : IdSite} {id : UUID} (hid : Answered l (.uuid4 site) id)
    (hid' : Answered l' (.uuid4 site') id) : i = j :=
  (drawn h).apart i j th th' hi hj id (mem_draws (hid.prefix_of hl)) (mem_draws (hid'.prefix_of hl'))

/-! ## Approval requests -/

/-- An approval request was made, in a mode that asks for approvals, by a thread that holds an
EXECUTION job of its trace and drew the id of its message. -/
theorem request_origin (h : Reachable host C s) {r : ApprovalRequest}
    (hr : r ∈ s.world.db.approvalRequests) :
    host.cfg.executor.approvalMode = "manual_all" ∧
    ∃ (j : ℕ) (th : Thread Op Op.Ans Exn Out Task) (l : Log) (lease : JobLease)
      (parent : PipelineEnvelope), s.threads[j]? = some th ∧ l <+: th.log ∧
      Holds l .execution lease parent ∧ r.traceId = parent.traceId ∧
      Answered l (.uuid4 .message) r.messageId := by
  obtain ⟨j, th, l, l', _, hth, hl, ⟨request, a, rfl, htrace, hmessage⟩, hissues⟩ :=
    written (R := fun db (x : UUID × UUID) =>
        ∃ r ∈ db.approvalRequests, r.traceId = x.1 ∧ r.messageId = x.2)
      (O := fun x en => ∃ request a, en = ⟨.tx (.createApprovalRequest request), .ok a⟩ ∧
        request.traceId = x.1 ∧ request.messageId = x.2) h
      (fun _ ⟨_, hr, _⟩ => absurd hr List.not_mem_nil)
      (fun w op r w' x hc ⟨row, hrow, htrace, hmessage⟩ => by
        cases hc with
        | requested request hnew =>
          rcases List.mem_append.mp hrow with hrow | hrow
          · exact Or.inl ⟨row, hrow, htrace, hmessage⟩
          · obtain rfl := List.mem_singleton.mp hrow
            exact Or.inr ⟨row, _, rfl, htrace, hmessage⟩
        | decided token status approverId reason now row' hrow' htoken =>
          obtain ⟨old, hold, rfl⟩ := mem_updateWhere.mp hrow
          refine Or.inl ⟨old, hold, ?_⟩
          split_ifs at htrace hmessage <;> exact ⟨htrace, hmessage⟩
        | _ => exact Or.inl ⟨row, hrow, htrace, hmessage⟩) (x := (r.traceId, r.messageId))
      ⟨r, hr, rfl, rfl⟩
  obtain ⟨-, hmode, -, hdrawn, lease, parent, hholds, hparent⟩ := hissues
  rw [hmessage] at hdrawn
  exact ⟨hmode, j, th, l, lease, parent, hth, ⟨_, hl.symm⟩, hholds, htrace.symm.trans hparent,
    hdrawn⟩

/-- The request for the message of an APPROVAL job is one of the job's trace. -/
theorem request_trace (h : Reachable host C s) {r : ApprovalRequest}
    (hr : r ∈ s.world.db.approvalRequests) {k : JobKey} (hk : k ∈ s.world.db.jobKeys)
    (hstage : k.stage = .approval) (hmessage : r.messageId = k.messageId) :
    r.traceId = k.traceId := by
  obtain ⟨-, j, th, l, lease, parent, hth, hl, hholds, htrace, hdrawn⟩ := request_origin h hr
  obtain ⟨envelope, -, hid, htr, hsource⟩ := job_origin h hk
  rw [hstage] at hsource
  cases hsource with
  | completed l' lease' next availableAt status t out hlogged hcompletes =>
    obtain ⟨task, hconcludes⟩ := hlogged.issues h
    obtain ⟨j', th', hth', hl'⟩ := hlogged.prefix_of (List.prefix_append l' _)
    have hdrawn' := hconcludes.drawn envelope rfl
    rw [hid, ← hmessage] at hdrawn'
    obtain rfl := drawn_thread h hth hth' hl hl' hdrawn hdrawn'
    obtain rfl := Option.some.inj (hth.symm.trans hth')
    obtain ⟨stage', parent', hholds', hchild⟩ := hcompletes.holds
    obtain ⟨-, rfl⟩ := leased_unique h hth hholds.leased hholds'.leased hl hl'
    have heq : parent.traceId = lease.traceId := (hholds.held ⟨j, th, hth, hl⟩ h).traceId h
    have heq' : parent'.traceId = lease.traceId := (hholds'.held ⟨j, th, hth, hl'⟩ h).traceId h
    calc r.traceId = parent.traceId := htrace
      _ = parent'.traceId := heq.trans heq'.symm
      _ = envelope.traceId := (hchild envelope rfl).1.symm
      _ = k.traceId := htr

end Sentinel.Pipeline
