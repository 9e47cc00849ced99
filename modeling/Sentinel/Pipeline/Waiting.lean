import Sentinel.Pipeline.Attempts

/-!
# Waiting and failing

`attempt_count` counts the attempts that only waited with those that failed, and the limit of the
failing path is compared with it.  So when a job is given up because of an exception, as many of its
attempts have failed as the limit asks for exactly if none below the limit only waited.
-/

namespace Sentinel.Pipeline

open Logic Contracts

variable {host : Host} {C : State → PipelineEvent → Prop} {s : State}

/-- At least `n` attempts at the job ended in an exception. -/
def RaisedAtLeast (cfg : PipelineConfig) (s : State) (jobId : UUID) (n : ℤ) : Prop :=
  ∃ is : List ℕ, is.Nodup ∧ n ≤ is.length ∧
    ∀ i ∈ is, ∃ th lease, Attempt s i th lease ∧ lease.jobId = jobId ∧ Raised cfg th lease

/-- The attempts at the job that only waited come after those that the limit counts. -/
def WaitedLate (cfg : PipelineConfig) (s : State) (jobId : UUID) : Prop :=
  ∀ j th lease, Attempt s j th lease → lease.jobId = jobId → Waited cfg th lease →
    cfg.queue.maxAttempts ≤ lease.attemptCount

/-- The number of the attempt that the thread is. -/
def numberOf (s : State) (i : ℕ) : ℕ :=
  match s.threads[i]?.bind fun th => leaseIn th.log with
  | some lease => lease.attemptCount
  | none => 0

theorem Attempt.numberOf {i : ℕ} {th : Thread Op Op.Ans Exn Out Task} {lease : JobLease}
    (ha : Attempt s i th lease) : numberOf s i = lease.attemptCount := by
  unfold Pipeline.numberOf
  rw [ha.thread, Option.bind_some, ha.lease]

/-- Threads with different numbers below `m` are fewer than `m`. -/
theorem length_lt_of_numbers {is : List ℕ} {f : ℕ → ℕ} {m : ℕ} (hnodup : is.Nodup)
    (hinj : ∀ i ∈ is, ∀ j ∈ is, f i = f j → i = j) (hf : ∀ i ∈ is, 0 < f i ∧ f i < m) :
    is.length ≤ m - 1 := by
  have hsub : is.map f ⊆ List.range' 1 (m - 1) := by
    intro n hn
    obtain ⟨i, hi, rfl⟩ := List.mem_map.mp hn
    obtain ⟨hpos, hlt⟩ := hf i hi
    rw [List.mem_range'_1]
    omega
  have hle := ((hnodup.map_on hinj).subperm hsub).length_le
  rwa [List.length_map, List.length_range'] at hle

section Given

variable {i : ℕ} {th : Thread Op Op.Ans Exn Out Task} {lease : JobLease}

/-- A job with an early wait is given up before the limit has been reached by exceptions. -/
theorem waitedLate_of_raised (h : Reachable host C s) (ha : Attempt s i th lease)
    (hend : endIn th.log = .deadLetter)
    (hmany : RaisedAtLeast host.cfg s lease.jobId host.cfg.queue.maxAttempts) :
    WaitedLate host.cfg s lease.jobId := by
  intro j th' lease' ha' hjob hwaited
  by_contra hearly
  obtain ⟨is, hnodup, hlength, his⟩ := hmany
  obtain ⟨-, hothers⟩ := ha.last h hend
  obtain ⟨m, hm⟩ : ∃ m : ℕ, host.cfg.queue.maxAttempts = m :=
    ⟨host.cfg.queue.maxAttempts.toNat, by omega⟩
  rw [hm] at hlength hearly
  -- the attempt that waited, with the failed ones other than the last
  have hne : ∀ k ∈ is, k ≠ j := by
    rintro k hk rfl
    obtain ⟨th₁, lease₁, ha₁, -, hr₁⟩ := his k hk
    obtain ⟨rfl, rfl⟩ := ha₁.eq ha'
    exact hwaited.2 hr₁
  have hnumbers : ∀ k ∈ j :: is.erase i, ∃ th₁ lease₁, Attempt s k th₁ lease₁ ∧
      lease₁.jobId = lease.jobId ∧ lease₁.attemptCount < m := by
    intro k hk
    rcases List.mem_cons.mp hk with rfl | hk
    · exact ⟨th', lease', ha', hjob, by omega⟩
    · obtain ⟨hki, hk⟩ := (hnodup.mem_erase_iff).mp hk
      obtain ⟨th₁, lease₁, ha₁, hjob₁, hr₁⟩ := his k hk
      have hlt := (ha₁.raised h hr₁).2 (hothers k th₁ lease₁ ha₁ hjob₁ hki)
      exact ⟨th₁, lease₁, ha₁, hjob₁, by omega⟩
  have hcount : (j :: is.erase i).length ≤ m - 1 := by
    refine length_lt_of_numbers (f := numberOf s) ?_ ?_ ?_
    · refine List.nodup_cons.mpr ⟨fun hj => ?_, hnodup.erase i⟩
      exact hne j (List.mem_of_mem_erase hj) rfl
    · intro k hk k' hk' heq
      obtain ⟨th₁, lease₁, ha₁, hjob₁, -⟩ := hnumbers k hk
      obtain ⟨th₂, lease₂, ha₂, hjob₂, -⟩ := hnumbers k' hk'
      rw [ha₁.numberOf, ha₂.numberOf] at heq
      exact ha₁.index_eq ha₂ h (hjob₁.trans hjob₂.symm) heq
    · intro k hk
      obtain ⟨th₁, lease₁, ha₁, -, hlt⟩ := hnumbers k hk
      obtain ⟨n, hn, -⟩ := ha₁.number h
      rw [ha₁.numberOf]
      omega
  have herase : is.length - 1 ≤ (is.erase i).length := by
    rw [List.length_erase]
    split_ifs <;> omega
  rw [List.length_cons] at hcount
  omega

/-- Without an early wait every attempt up to the limit has failed. -/
theorem raised_of_waitedLate (h : Reachable host C s) (ha : Attempt s i th lease)
    (hr : Raised host.cfg th lease) (hend : endIn th.log = .deadLetter)
    (hlate : WaitedLate host.cfg s lease.jobId) :
    RaisedAtLeast host.cfg s lease.jobId host.cfg.queue.maxAttempts := by
  obtain ⟨hlast, hothers⟩ := ha.last h hend
  have hlimit := (ha.raised h hr).1 hend
  -- the attempts numbered below the limit, and the last one
  have hexists : ∀ n : ℕ, ∃ k, (n : ℤ) + 1 < host.cfg.queue.maxAttempts → k ≠ i ∧
      ∃ th' lease', Attempt s k th' lease' ∧ lease'.jobId = lease.jobId ∧
        lease'.attemptCount = n + 1 := by
    intro n
    by_cases hn : (n : ℤ) + 1 < host.cfg.queue.maxAttempts
    · obtain ⟨k, th', lease', ha', hjob, hcount⟩ :=
        attempt_of_number h lease.jobId (n := n) (by omega)
      refine ⟨k, fun _ => ⟨?_, th', lease', ha', hjob, hcount⟩⟩
      rintro rfl
      obtain ⟨-, rfl⟩ := ha.eq ha'
      omega
    · exact ⟨0, fun hlt => absurd hlt hn⟩
  choose f hf using hexists
  have hrange : ∀ n ∈ List.range (host.cfg.queue.maxAttempts.toNat - 1),
      (n : ℤ) + 1 < host.cfg.queue.maxAttempts := by
    intro n hn
    have hlt := List.mem_range.mp hn
    omega
  refine ⟨(List.range (host.cfg.queue.maxAttempts.toNat - 1)).map f ++ [i], ?_, ?_, ?_⟩
  · refine List.nodup_append.mpr ⟨List.nodup_range.map_on fun n hn n' hn' heq => ?_,
      List.nodup_singleton i, fun k hk k' hk' => ?_⟩
    · obtain ⟨-, th₁, lease₁, ha₁, -, hcount₁⟩ := hf n (hrange n hn)
      obtain ⟨-, th₂, lease₂, ha₂, -, hcount₂⟩ := hf n' (hrange n' hn')
      rw [heq] at ha₁
      obtain ⟨-, rfl⟩ := ha₁.eq ha₂
      omega
    · obtain ⟨n, hn, rfl⟩ := List.mem_map.mp hk
      obtain rfl := List.mem_singleton.mp hk'
      exact (hf n (hrange n hn)).1
  · rw [List.length_append, List.length_map, List.length_range, List.length_singleton]
    omega
  · intro k hk
    rcases List.mem_append.mp hk with hk | hk
    · obtain ⟨n, hn, rfl⟩ := List.mem_map.mp hk
      have hlt := hrange n hn
      obtain ⟨hne, th', lease', ha', hjob, hcount⟩ := hf n hlt
      refine ⟨th', lease', ha', hjob, ?_⟩
      by_contra hnot
      have hwaited : Waited host.cfg th' lease' := ⟨hothers _ th' lease' ha' hjob hne, hnot⟩
      have hge := hlate _ th' lease' ha' hjob hwaited
      omega
    · obtain rfl := List.mem_singleton.mp hk
      exact ⟨th, lease, ha, rfl, hr⟩

theorem waiting_not_failing (h : Reachable host C s) (ha : Attempt s i th lease)
    (hr : Raised host.cfg th lease) (hend : endIn th.log = .deadLetter) :
    RaisedAtLeast host.cfg s lease.jobId host.cfg.queue.maxAttempts ↔
      WaitedLate host.cfg s lease.jobId :=
  ⟨waitedLate_of_raised h ha hend, raised_of_waitedLate h ha hr hend⟩

end Given

/-! ## Samples -/

namespace Sample

/-- The `i`-th thread has leased a job, and the test holds of it and its lease. -/
def attempted (s : State) (i : ℕ) (p : Thread Op Op.Ans Exn Out Task → JobLease → Bool) : Bool :=
  match s.threads[i]? with
  | none => false
  | some th =>
    match leaseIn th.log with
    | none => false
    | some lease => p th lease

theorem attempt_of_attempted {s : State} {i : ℕ}
    {p : Thread Op Op.Ans Exn Out Task → JobLease → Bool} (h : attempted s i p = true) :
    ∃ th lease, Attempt s i th lease ∧ p th lease = true := by
  unfold attempted at h
  split at h
  · cases h
  · next th hth =>
    split at h
    · cases h
    · next lease hlease => exact ⟨th, lease, ⟨hth, hlease⟩, h⟩

/-- The approval worker leases the job, and the message cannot be read; `n` calls handle that. -/
def failed (i n : ℕ) : List PipelineEvent :=
  List.flatten [[.start (.approval (lit "p"))], calls i 2, [.act i (.fault (lit "disk"))],
    calls i n]

/-- Three attempts fail, and the job is given up. -/
def failedEvents : List PipelineEvent :=
  List.flatten [requested, failed 4 2, tick 30000000, failed 5 2, tick 30000000, failed 6 4]

/-- The first of the three attempts waits until the request has expired. -/
def pendingEvents : List PipelineEvent :=
  List.flatten [requested, [.start (.approval (lit "p"))], calls 4 9, tick 900000000, failed 5 2,
    tick 30000000, failed 6 4]

/-- The attempt at the job gave it up after an exception. -/
def gaveUp (jobId : UUID) (th : Thread Op Op.Ans Exn Out Task) (lease : JobLease) : Bool :=
  decide (lease.jobId = jobId ∧ Raised (Sample.host "manual_all").cfg th lease ∧
    endIn th.log = .deadLetter)

/-- The first attempt at the job only waited. -/
def waitedFirst (jobId : UUID) (th : Thread Op Op.Ans Exn Out Task) (lease : JobLease) : Bool :=
  decide (lease.jobId = jobId ∧ Waited (Sample.host "manual_all").cfg th lease ∧
    lease.attemptCount = 1)

end Sample

theorem waiting_not_failing_failed : ∃ th lease,
    Attempt (run (Sample.host "manual_all") Sample.failedEvents) 6 th lease ∧
      (RaisedAtLeast (Sample.host "manual_all").cfg
          (run (Sample.host "manual_all") Sample.failedEvents) lease.jobId 3 ↔
        WaitedLate (Sample.host "manual_all").cfg
          (run (Sample.host "manual_all") Sample.failedEvents) lease.jobId) := by
  have hrun : Sample.attempted (run (Sample.host "manual_all") Sample.failedEvents) 6
      (Sample.gaveUp 14) = true := by decide +kernel
  obtain ⟨th, lease, ha, htest⟩ := Sample.attempt_of_attempted hrun
  obtain ⟨-, hr, hend⟩ := of_decide_eq_true htest
  exact ⟨th, lease, ha, waiting_not_failing (reachable_run _ _) ha hr hend⟩

/-- After one attempt that waited, two exceptions suffice. -/
theorem given_up_early : ∃ th lease,
    Attempt (run (Sample.host "manual_all") Sample.pendingEvents) 6 th lease ∧
      Raised (Sample.host "manual_all").cfg th lease ∧ endIn th.log = .deadLetter ∧
      ¬ RaisedAtLeast (Sample.host "manual_all").cfg
        (run (Sample.host "manual_all") Sample.pendingEvents) lease.jobId
        (Sample.host "manual_all").cfg.queue.maxAttempts := by
  have hrun : Sample.attempted (run (Sample.host "manual_all") Sample.pendingEvents) 6
      (Sample.gaveUp 14) = true := by decide +kernel
  have hfirst : Sample.attempted (run (Sample.host "manual_all") Sample.pendingEvents) 4
      (Sample.waitedFirst 14) = true := by decide +kernel
  obtain ⟨th, lease, ha, htest⟩ := Sample.attempt_of_attempted hrun
  obtain ⟨hjob, hr, hend⟩ := of_decide_eq_true htest
  obtain ⟨th', lease', ha', htest'⟩ := Sample.attempt_of_attempted hfirst
  obtain ⟨hjob', hwaited, hcount⟩ := of_decide_eq_true htest'
  refine ⟨th, lease, ha, hr, hend, fun hmany => ?_⟩
  have hlate := waitedLate_of_raised (reachable_run _ _) ha hend hmany 4 th' lease' ha'
    (hjob'.trans hjob.symm) hwaited
  rw [hcount] at hlate
  revert hlate
  decide

end Sentinel.Pipeline
