import Sentinel.Logic.Prog
import Sentinel.Logic.Run

/-!
# Systems of call programs

Threads run call programs against one shared world.  A step starts a thread, lets one live thread
make its next call, stops a thread for good, or changes the world from outside.  Threads are never
removed and keep the log of their calls, so the state of a system carries the history needed to
say which call brought a piece of data about.

* `Machine` and its `Machine.step`; a run starts in a world `w` without threads.
* `Moved`: the inversion of one step.
* `issued_reach`: a path property (`Always`) of the programs holds of every call ever made.
* `noted_reach`: what a call establishes about the state and every step keeps.
* `next_reach`: what holds of the call that a thread is about to make.
* `fact_reach`: what an answer tells about the world stays true while it is stable.
* `origin_reach`: whatever the world contains was brought about by a call in some log.
-/

namespace Sentinel.Logic

variable {Op : Type} {Ans : Op → Type} {ε Out World Input Task Env : Type}

/-- A running or stopped instance of a task. -/
structure Thread (Op : Type) (Ans : Op → Type) (ε Out Task : Type) : Type where
  task : Task
  log : List (Entry Op Ans ε)
  prog : Prog Op Ans ε Out
  live : Bool

/-- The call a live thread makes next. -/
def Thread.next (th : Thread Op Ans ε Out Task) : Option Op :=
  if th.live then th.prog.next else none

/-- The result of a thread that has ended by itself. -/
def Thread.result (th : Thread Op Ans ε Out Task) : Option (Except ε Out) :=
  match th.prog with
  | .ret a => some (.ok a)
  | .raise e => some (.error e)
  | .call _ _ => none

structure Sys (Op : Type) (Ans : Op → Type) (ε Out Task World : Type) : Type where
  world : World
  threads : List (Thread Op Ans ε Out Task)

inductive Event (Input Task Env : Type) : Type
  /-- A new thread begins the task. -/
  | start (t : Task)
  /-- The `i`-th thread makes its next call; the input fixes what the world leaves open. -/
  | act (i : ℕ) (inp : Input)
  /-- The `i`-th thread stops for good. -/
  | crash (i : ℕ)
  | env (e : Env)

/-- What a system runs: the program of each task, the answers of the world to calls, and the
changes of the world from outside.  `call` is `none` when the input does not fit the call. -/
structure Machine (Op : Type) (Ans : Op → Type) (ε Out World Input Task Env : Type) : Type where
  body : Task → Prog Op Ans ε Out
  call : World → (op : Op) → Input → Option (Except ε (Ans op) × World)
  env : World → Env → World

namespace Machine

variable (M : Machine Op Ans ε Out World Input Task Env)

def step (s : Sys Op Ans ε Out Task World) : Event Input Task Env → Sys Op Ans ε Out Task World
  | .start t => ⟨s.world, s.threads ++ [⟨t, [], M.body t, true⟩]⟩
  | .act i inp =>
    match s.threads[i]? with
    | some ⟨t, log, .call op k, true⟩ =>
      match M.call s.world op inp with
      | some (r, w) => ⟨w, s.threads.set i ⟨t, log ++ [⟨op, r⟩], k r, true⟩⟩
      | none => s
    | _ => s
  | .crash i =>
    match s.threads[i]? with
    | some th => ⟨s.world, s.threads.set i { th with live := false }⟩
    | none => s
  | .env e => ⟨M.env s.world e, s.threads⟩

end Machine

/-- The inversion of `Machine.step`. -/
inductive Moved (M : Machine Op Ans ε Out World Input Task Env) (s : Sys Op Ans ε Out Task World) :
    Event Input Task Env → Sys Op Ans ε Out Task World → Prop
  | idle (e) : Moved M s e s
  | start (t : Task) : Moved M s (.start t) ⟨s.world, s.threads ++ [⟨t, [], M.body t, true⟩]⟩
  | act (i : ℕ) (inp : Input) (t : Task) (log : List (Entry Op Ans ε)) (op : Op)
      (k : Except ε (Ans op) → Prog Op Ans ε Out) (r : Except ε (Ans op)) (w : World)
      (hth : s.threads[i]? = some ⟨t, log, .call op k, true⟩)
      (hcall : M.call s.world op inp = some (r, w)) :
      Moved M s (.act i inp) ⟨w, s.threads.set i ⟨t, log ++ [⟨op, r⟩], k r, true⟩⟩
  | crash (i : ℕ) (th : Thread Op Ans ε Out Task) (hth : s.threads[i]? = some th) :
      Moved M s (.crash i) ⟨s.world, s.threads.set i { th with live := false }⟩
  | env (e : Env) : Moved M s (.env e) ⟨M.env s.world e, s.threads⟩

theorem moved (M : Machine Op Ans ε Out World Input Task Env) (s : Sys Op Ans ε Out Task World)
    (e : Event Input Task Env) : Moved M s e (M.step s e) := by
  cases e with
  | start t => exact .start t
  | env e => exact .env e
  | crash i =>
    cases hth : s.threads[i]? with
    | none => simp only [Machine.step, hth]; exact .idle _
    | some th => simp only [Machine.step, hth]; exact .crash i th hth
  | act i inp =>
    cases hth : s.threads[i]? with
    | none => simp only [Machine.step, hth]; exact .idle _
    | some th =>
      obtain ⟨t, log, prog, live⟩ := th
      cases live with
      | false => simp only [Machine.step, hth]; exact .idle _
      | true =>
        cases prog with
        | ret a => simp only [Machine.step, hth]; exact .idle _
        | raise e => simp only [Machine.step, hth]; exact .idle _
        | call op k =>
          cases hcall : M.call s.world op inp with
          | none => simp only [Machine.step, hth, hcall]; exact .idle _
          | some rw =>
            obtain ⟨r, w⟩ := rw
            simp only [Machine.step, hth, hcall]
            exact .act i inp t log op k r w hth hcall

/-- An event that lets a thread act does nothing, or the thread makes its next call. -/
theorem Machine.act_cases (M : Machine Op Ans ε Out World Input Task Env)
    (s : Sys Op Ans ε Out Task World) (i : ℕ) (inp : Input) :
    (M.step s (.act i inp) = s ∧ ∀ th, s.threads[i]? = some th → ∀ op ∈ th.next,
        M.call s.world op inp = none) ∨
    ∃ t log op k r w', s.threads[i]? = some ⟨t, log, .call op k, true⟩ ∧
      M.call s.world op inp = some (r, w') ∧
      M.step s (.act i inp) = ⟨w', s.threads.set i ⟨t, log ++ [⟨op, r⟩], k r, true⟩⟩ := by
  cases hth : s.threads[i]? with
  | none => exact Or.inl ⟨by simp only [step, hth], fun th heq => nomatch heq⟩
  | some th =>
    obtain ⟨t, log, prog, live⟩ := th
    cases live with
    | false =>
      refine Or.inl ⟨by simp only [step, hth], fun th heq op hop => ?_⟩
      obtain rfl := Option.some.inj heq
      cases hop
    | true =>
      cases prog with
      | ret a | raise e =>
        refine Or.inl ⟨by simp only [step, hth], fun th heq op hop => ?_⟩
        obtain rfl := Option.some.inj heq
        cases hop
      | call op k =>
        cases hcall : M.call s.world op inp with
        | none =>
          refine Or.inl ⟨by simp only [step, hth, hcall], fun th heq op' hop => ?_⟩
          obtain rfl := Option.some.inj heq
          obtain rfl : op = op' := Option.some.inj hop
          exact hcall
        | some p =>
          obtain ⟨r, w'⟩ := p
          exact Or.inr ⟨t, log, op, k, r, w', rfl, hcall, by simp only [step, hth, hcall]⟩

/-- An inverted step is a step, or none. -/
theorem Moved.reach {M : Machine Op Ans ε Out World Input Task Env}
    {s s' : Sys Op Ans ε Out Task World} {e : Event Input Task Env} (h : Moved M s e s') :
    Reach M.step s Any s' := by
  have hstep : s' = s ∨ s' = M.step s e := by
    cases h with
    | idle => exact Or.inl rfl
    | start t => exact Or.inr rfl
    | env e => exact Or.inr rfl
    | crash i th hth => exact Or.inr (by simp only [Machine.step, hth])
    | act i inp t log op k r w hth hcall =>
      exact Or.inr (by simp only [Machine.step, hth, hcall])
  rcases hstep with rfl | rfl
  · exact .init
  · exact .step .init trivial

section Reach

variable {M : Machine Op Ans ε Out World Input Task Env} {w : World}
  {C : Sys Op Ans ε Out Task World → Event Input Task Env → Prop}
  {s : Sys Op Ans ε Out Task World}

/-- Induction over a run with its steps inverted. -/
theorem Reach.rec_moved {I : Sys Op Ans ε Out Task World → Prop} (h : Reach M.step ⟨w, []⟩ C s)
    (h0 : I ⟨w, []⟩)
    (hstep : ∀ s e s', Reach M.step ⟨w, []⟩ C s → C s e → I s → Moved M s e s' → I s') : I s :=
  h.invariant h0 fun s e hs hC ih => hstep s e _ hs hC ih (moved M s e)

/-! ### The threads after a step -/

/-- The elements of a list with one replaced. -/
theorem getElem?_set_cases {α : Type} {l : List α} {i j : ℕ} {x y : α}
    (h : (l.set i x)[j]? = some y) : j = i ∧ y = x ∨ j ≠ i ∧ l[j]? = some y := by
  by_cases hij : i = j
  · subst hij
    rw [List.getElem?_set_self'] at h
    obtain ⟨z, -, hz⟩ := Option.map_eq_some_iff.mp h
    exact Or.inl ⟨rfl, hz.symm⟩
  · rw [List.getElem?_set_ne hij] at h
    exact Or.inr ⟨Ne.symm hij, h⟩

/-- A thread of the later state is new, unchanged, stopped, or the one that made the call. -/
theorem thread_moved {e : Event Input Task Env} {s' : Sys Op Ans ε Out Task World}
    (hm : Moved M s e s') {j : ℕ} {th' : Thread Op Ans ε Out Task}
    (hj : s'.threads[j]? = some th') :
    s.threads[j]? = some th' ∨
    (∃ t, e = .start t ∧ j = s.threads.length ∧ th' = ⟨t, [], M.body t, true⟩) ∨
    (∃ th, s.threads[j]? = some th ∧ th' = { th with live := false }) ∨
    (∃ inp t log op k r, e = .act j inp ∧ s.threads[j]? = some ⟨t, log, .call op k, true⟩ ∧
      M.call s.world op inp = some (r, s'.world) ∧ s'.threads = s.threads.set j th' ∧
      th' = ⟨t, log ++ [⟨op, r⟩], k r, true⟩) := by
  cases hm with
  | idle => exact Or.inl hj
  | env => exact Or.inl hj
  | start t =>
    simp only [List.getElem?_append] at hj
    split_ifs at hj with hlt
    · exact Or.inl hj
    · simp only [List.getElem?_singleton] at hj
      split_ifs at hj with h0
      refine Or.inr (Or.inl ⟨t, rfl, by omega, ?_⟩)
      simpa using hj.symm
  | crash i th hth =>
    by_cases hij : i = j
    · subst hij
      obtain ⟨hlt, -⟩ := List.getElem?_eq_some_iff.mp hth
      rw [List.getElem?_set_self hlt] at hj
      exact Or.inr (Or.inr (Or.inl ⟨th, hth, by simpa using hj.symm⟩))
    · rw [List.getElem?_set_ne hij] at hj
      exact Or.inl hj
  | act i inp t log op k r w hth hcall =>
    by_cases hij : i = j
    · subst hij
      obtain ⟨hlt, -⟩ := List.getElem?_eq_some_iff.mp hth
      rw [List.getElem?_set_self hlt] at hj
      obtain rfl := Option.some.inj hj
      exact Or.inr (Or.inr (Or.inr ⟨inp, t, log, op, k, r, rfl, hth, hcall, rfl, rfl⟩))
    · rw [List.getElem?_set_ne hij] at hj
      exact Or.inl hj

/-- The task of the thread that the event starts. -/
def Event.started : Event Input Task Env → Option Task
  | .start t => some t
  | _ => none

def Sys.tasks (s : Sys Op Ans ε Out Task World) : List Task := s.threads.map Thread.task

theorem tasks_set {ths : List (Thread Op Ans ε Out Task)} {i : ℕ} {th th' : Thread Op Ans ε Out Task}
    (hth : ths[i]? = some th) (htask : th'.task = th.task) :
    (ths.set i th').map Thread.task = ths.map Thread.task := by
  obtain ⟨hlt, -⟩ := List.getElem?_eq_some_iff.mp hth
  rw [List.map_set, htask]
  refine List.ext_getElem? fun j => ?_
  by_cases hij : i = j
  · subst hij
    rw [List.getElem?_set_self (by simpa using hlt), List.getElem?_map, hth]
    rfl
  · rw [List.getElem?_set_ne hij]

theorem tasks_step (M : Machine Op Ans ε Out World Input Task Env)
    (s : Sys Op Ans ε Out Task World) (e : Event Input Task Env) :
    (M.step s e).tasks = s.tasks ++ e.started.toList := by
  cases e with
  | start t => exact List.map_append
  | env e => exact (List.append_nil _).symm
  | crash i =>
    show _ = s.tasks ++ []
    rw [List.append_nil]
    cases hth : s.threads[i]? with
    | none => simp only [Machine.step, hth]
    | some th =>
      simp only [Machine.step, hth]
      exact tasks_set hth rfl
  | act i inp =>
    show _ = s.tasks ++ []
    rw [List.append_nil]
    rcases M.act_cases s i inp with ⟨hidle, -⟩ | ⟨t, log, op, k, r, w', hth, -, hstep⟩
    · rw [hidle]
    · rw [hstep]
      exact tasks_set hth rfl

/-- The tasks of a run are those that it starts. -/
theorem tasks_foldl (M : Machine Op Ans ε Out World Input Task Env)
    (s : Sys Op Ans ε Out Task World) (es : List (Event Input Task Env)) :
    (es.foldl M.step s).tasks = s.tasks ++ es.filterMap Event.started := by
  induction es generalizing s with
  | nil => exact (List.append_nil _).symm
  | cons e es ih =>
    rw [List.foldl_cons, ih, tasks_step, List.append_assoc]
    cases hstarted : e.started <;> simp [hstarted]

/-- No step removes a thread or shortens a log. -/
theorem thread_kept {e : Event Input Task Env} {s' : Sys Op Ans ε Out Task World}
    (hm : Moved M s e s') {j : ℕ} {th : Thread Op Ans ε Out Task} (hj : s.threads[j]? = some th) :
    ∃ th', s'.threads[j]? = some th' ∧ th'.task = th.task ∧ th.log <+: th'.log := by
  obtain ⟨hlt, -⟩ := List.getElem?_eq_some_iff.mp hj
  cases hm with
  | idle => exact ⟨th, hj, rfl, List.prefix_refl _⟩
  | env => exact ⟨th, hj, rfl, List.prefix_refl _⟩
  | start t => exact ⟨th, by rw [List.getElem?_append_left hlt]; exact hj, rfl, List.prefix_refl _⟩
  | crash i th0 hth =>
    by_cases hij : i = j
    · subst hij
      rw [hth] at hj
      obtain rfl := Option.some.inj hj
      exact ⟨_, List.getElem?_set_self hlt, rfl, List.prefix_refl _⟩
    · exact ⟨th, by rw [List.getElem?_set_ne hij]; exact hj, rfl, List.prefix_refl _⟩
  | act i inp t log op k r w hth hcall =>
    by_cases hij : i = j
    · subst hij
      rw [hth] at hj
      obtain rfl := Option.some.inj hj
      exact ⟨_, List.getElem?_set_self hlt, rfl, List.prefix_append _ _⟩
    · exact ⟨th, by rw [List.getElem?_set_ne hij]; exact hj, rfl, List.prefix_refl _⟩

/-- A step in which no thread makes a call, or a call. -/
theorem Moved.quiet_or_call {e : Event Input Task Env} {s' : Sys Op Ans ε Out Task World}
    (hm : Moved M s e s') :
    ((s'.world = s.world ∨ ∃ e, s'.world = M.env s.world e) ∧
      ∀ (j : ℕ) (th' : Thread Op Ans ε Out Task), s'.threads[j]? = some th' →
        th'.log = [] ∨ ∃ th, s.threads[j]? = some th ∧ th'.log = th.log) ∨
    ∃ i inp t log op k r w', e = .act i inp ∧
      s.threads[i]? = some ⟨t, log, .call op k, true⟩ ∧ M.call s.world op inp = some (r, w') ∧
      s' = ⟨w', s.threads.set i ⟨t, log ++ [⟨op, r⟩], k r, true⟩⟩ := by
  cases hm with
  | idle => exact Or.inl ⟨Or.inl rfl, fun j th hj => Or.inr ⟨th, hj, rfl⟩⟩
  | env e => exact Or.inl ⟨Or.inr ⟨e, rfl⟩, fun j th hj => Or.inr ⟨th, hj, rfl⟩⟩
  | start t =>
    refine Or.inl ⟨Or.inl rfl, fun j th' hj => ?_⟩
    rcases thread_moved (.start t) hj with hold | ⟨t', -, -, rfl⟩ | ⟨th, hth, rfl⟩ |
      ⟨_, _, _, _, _, _, he, -⟩
    · exact Or.inr ⟨th', hold, rfl⟩
    · exact Or.inl rfl
    · exact Or.inr ⟨th, hth, rfl⟩
    · cases he
  | crash i th hth =>
    refine Or.inl ⟨Or.inl rfl, fun j th' hj => ?_⟩
    rcases getElem?_set_cases hj with ⟨rfl, rfl⟩ | ⟨-, hold⟩
    · exact Or.inr ⟨th, hth, rfl⟩
    · exact Or.inr ⟨th', hold, rfl⟩
  | act i inp t log op k r w' hth hc =>
    exact Or.inr ⟨i, inp, t, log, op, k, r, w', rfl, hth, hc, rfl⟩

/-- Induction over a run for what is said of the world and the logs: a step in which no thread makes
a call, and a call. -/
theorem Reach.rec_logs {I : Sys Op Ans ε Out Task World → Prop} (h : Reach M.step ⟨w, []⟩ C s)
    (h0 : I ⟨w, []⟩)
    (hquiet : ∀ s s', I s → (s'.world = s.world ∨ ∃ e, s'.world = M.env s.world e) →
      (∀ (j : ℕ) (th' : Thread Op Ans ε Out Task), s'.threads[j]? = some th' →
        th'.log = [] ∨ ∃ th, s.threads[j]? = some th ∧ th'.log = th.log) → I s')
    (hact : ∀ s i inp t log op k r w', Reach M.step ⟨w, []⟩ C s → C s (.act i inp) → I s →
      s.threads[i]? = some ⟨t, log, .call op k, true⟩ → M.call s.world op inp = some (r, w') →
      I ⟨w', s.threads.set i ⟨t, log ++ [⟨op, r⟩], k r, true⟩⟩) : I s := by
  refine h.rec_moved h0 fun s e s' hs hC ih hm => ?_
  rcases hm.quiet_or_call with ⟨hworld, hlogs⟩ | ⟨i, inp, t, log, op, k, r, w', rfl, hth, hc, rfl⟩
  · exact hquiet s s' ih hworld hlogs
  · exact hact s i inp t log op k r w' hs hC ih hth hc

/-! ### Path properties of the calls made -/

/-- A place of a log with one more entry is the last one or a place of the log before. -/
theorem append_singleton_split {ε' : Type} {log l l' : List ε'} {x en : ε'}
    (h : log ++ [x] = l ++ en :: l') :
    (l = log ∧ en = x) ∨ ∃ l'', log = l ++ en :: l'' := by
  rcases List.eq_nil_or_concat l' with rfl | ⟨l'', y, rfl⟩
  · obtain ⟨rfl, h2⟩ := List.append_inj' h rfl
    exact Or.inl ⟨rfl, ((List.cons.inj h2).1).symm⟩
  · have h1 : log ++ [x] = (l ++ en :: l'') ++ [y] := by rw [h]; simp
    exact Or.inr ⟨l'', (List.append_inj' h1 rfl).1⟩

section Issued

variable {Φ : Task → List (Entry Op Ans ε) → Op → Prop}
  {Ψ : Task → List (Entry Op Ans ε) → Except ε Out → Prop}

/-- The path property still ahead of a thread, and the one its log already satisfies. -/
def Issued (Φ : Task → List (Entry Op Ans ε) → Op → Prop)
    (Ψ : Task → List (Entry Op Ans ε) → Except ε Out → Prop)
    (th : Thread Op Ans ε Out Task) : Prop :=
  Always (Φ th.task) (Ψ th.task) th.prog th.log ∧
    ∀ l en l', th.log = l ++ en :: l' → Φ th.task l en.op

theorem issued_reach (hbody : ∀ t, Always (Φ t) (Ψ t) (M.body t) []) (h : Reach M.step ⟨w, []⟩ C s) :
    ∀ (j : ℕ) (th : Thread Op Ans ε Out Task), s.threads[j]? = some th → Issued Φ Ψ th := by
  refine h.rec_moved (I := fun s => ∀ j th, s.threads[j]? = some th → Issued Φ Ψ th) ?_ ?_
  · intro j th hj
    simp at hj
  · intro s e s' _ _ ih hm j th' hj
    rcases thread_moved hm hj with hold | ⟨t, -, -, rfl⟩ | ⟨th, hth, rfl⟩ |
      ⟨inp, t, log, op, k, r, -, hth, -, -, rfl⟩
    · exact ih j th' hold
    · exact ⟨hbody t, fun l en l' hl => by simp at hl⟩
    · exact ih j th hth
    · obtain ⟨⟨hΦ, hk⟩, hpast⟩ := ih j _ hth
      refine ⟨hk r, fun l en l' hl => ?_⟩
      rcases append_singleton_split hl with ⟨rfl, rfl⟩ | ⟨l'', hl⟩
      · exact hΦ
      · exact hpast l en l'' hl

/-- The call a live thread makes next satisfies the path property. -/
theorem Issued.next {th : Thread Op Ans ε Out Task} (h : Issued Φ Ψ th) {op : Op}
    (hop : th.next = some op) : Φ th.task th.log op := by
  obtain ⟨t, log, prog, live⟩ := th
  cases live with
  | false => simp [Thread.next] at hop
  | true => exact h.1.next (by simpa [Thread.next] using hop)

/-- The end of a thread satisfies what its program ends with. -/
theorem Issued.ended {th : Thread Op Ans ε Out Task} (h : Issued Φ Ψ th) {r : Except ε Out}
    (hr : th.result = some r) : Ψ th.task th.log r := by
  obtain ⟨t, log, prog, live⟩ := th
  cases prog with
  | ret a =>
    obtain rfl := Option.some.inj hr
    exact h.1
  | raise e =>
    obtain rfl := Option.some.inj hr
    exact h.1
  | call op k => cases hr

/-- So does every call in its log, with the log before it. -/
theorem Issued.mem {th : Thread Op Ans ε Out Task} (h : Issued Φ Ψ th) {en : Entry Op Ans ε}
    (hen : en ∈ th.log) : ∃ l l', th.log = l ++ en :: l' ∧ Φ th.task l en.op := by
  obtain ⟨l, l', hl⟩ := List.append_of_mem hen
  exact ⟨l, l', hl, h.2 l en l' hl⟩

end Issued

/-! ### What was noted when a call was made -/

/-- If every call establishes `X` of the log before it, its entry and the state after it, and every
step keeps `X`, then `X` holds at every place of every log. -/
theorem noted_reach
    {X : Task → List (Entry Op Ans ε) → Entry Op Ans ε → Sys Op Ans ε Out Task World → Prop}
    (hnew : ∀ s i inp t log op k r w', Reach M.step ⟨w, []⟩ C s → C s (.act i inp) →
      s.threads[i]? = some ⟨t, log, .call op k, true⟩ → M.call s.world op inp = some (r, w') →
      X t log ⟨op, r⟩ ⟨w', s.threads.set i ⟨t, log ++ [⟨op, r⟩], k r, true⟩⟩)
    (hkeep : ∀ s e s' t log en, Reach M.step ⟨w, []⟩ C s → C s e → Moved M s e s' →
      X t log en s → X t log en s') (h : Reach M.step ⟨w, []⟩ C s) :
    ∀ (j : ℕ) (th : Thread Op Ans ε Out Task), s.threads[j]? = some th →
      ∀ l en l', th.log = l ++ en :: l' → X th.task l en s := by
  refine h.rec_moved (I := fun s => ∀ (j : ℕ) (th : Thread Op Ans ε Out Task),
    s.threads[j]? = some th → ∀ l en l', th.log = l ++ en :: l' → X th.task l en s) ?_ ?_
  · intro j th hj
    simp at hj
  · intro s e s' hs hC ih hm j th' hj l en l' hl
    rcases thread_moved hm hj with hold | ⟨t, -, -, rfl⟩ | ⟨th, hth, rfl⟩ |
      ⟨inp, t, log, op, k, r, rfl, hth, hc, hset, rfl⟩
    · exact hkeep s e s' _ _ _ hs hC hm (ih j th' hold l en l' hl)
    · simp at hl
    · exact hkeep s e s' _ _ _ hs hC hm (ih j th hth l en l' hl)
    · rcases append_singleton_split hl with ⟨rfl, rfl⟩ | ⟨l'', hl⟩
      · obtain ⟨world, threads⟩ := s'
        obtain rfl : threads = _ := hset
        exact hnew s j inp t _ op k r _ hs hC hth hc
      · exact hkeep s _ s' _ _ _ hs hC hm (ih j _ hth l en l'' hl)

/-! ### What holds of the next call of a thread -/

/-- If `P` holds of the first call of every program, every call of a thread establishes it of the
thread's next one, and the calls of other threads and the changes from outside keep it, then `P`
holds of the next call of every live thread. -/
theorem next_reach {P : Task → List (Entry Op Ans ε) → Op → World → Prop}
    (hstart : ∀ w t op, (M.body t).next = some op → P t [] op w)
    (hown : ∀ s i inp t log op k r s' op', Reach M.step ⟨w, []⟩ C s → C s (.act i inp) →
      s.threads[i]? = some ⟨t, log, .call op k, true⟩ →
      M.call s.world op inp = some (r, s'.world) → Reach M.step ⟨w, []⟩ C s' →
      s'.threads[i]? = some ⟨t, log ++ [⟨op, r⟩], k r, true⟩ → (k r).next = some op' →
      P t log op s.world → P t (log ++ [⟨op, r⟩]) op' s'.world)
    (hother : ∀ s i inp t log op k r w' j th op', Reach M.step ⟨w, []⟩ C s → C s (.act i inp) →
      s.threads[i]? = some ⟨t, log, .call op k, true⟩ → M.call s.world op inp = some (r, w') →
      j ≠ i → s.threads[j]? = some th → th.next = some op' → P th.task th.log op' s.world →
      P th.task th.log op' w')
    (henv : ∀ s e th op, C s (.env e) → th ∈ s.threads → th.next = some op →
      P th.task th.log op s.world → P th.task th.log op (M.env s.world e))
    (h : Reach M.step ⟨w, []⟩ C s) :
    ∀ th ∈ s.threads, ∀ op, th.next = some op → P th.task th.log op s.world := by
  refine h.invariant (I := fun s => ∀ th ∈ s.threads, ∀ op, th.next = some op →
    P th.task th.log op s.world) (fun th hth => absurd hth List.not_mem_nil) ?_
  intro s e hs hC ih
  have hs' := Reach.step hs hC
  have hm := moved M s e
  generalize M.step s e = s' at hs' hm
  intro th' hth' op' hop'
  obtain ⟨j, hj⟩ := List.getElem?_of_mem hth'
  cases hm with
  | idle => exact ih th' hth' op' hop'
  | env e => exact henv s e th' op' hC hth' hop' (ih th' hth' op' hop')
  | start t =>
    rcases List.mem_append.mp hth' with hold | hnew
    · exact ih th' hold op' hop'
    · obtain rfl := List.mem_singleton.mp hnew
      exact hstart _ t op' (by simpa [Thread.next] using hop')
  | crash i th hth =>
    rcases getElem?_set_cases hj with ⟨rfl, rfl⟩ | ⟨-, hold⟩
    · simp [Thread.next] at hop'
    · exact ih th' (List.mem_of_getElem? hold) op' hop'
  | act i inp t log op k r w' hth hc =>
    rcases getElem?_set_cases hj with ⟨rfl, rfl⟩ | ⟨hne, hold⟩
    · have hP := ih _ (List.mem_of_getElem? hth) op rfl
      exact hown s j inp t log op k r _ op' hs hC hth hc hs' hj (by simpa [Thread.next] using hop') hP
    · have hP := ih th' (List.mem_of_getElem? hold) op' hop'
      exact hother s i inp t log op k r w' j th' op' hs hC hth hc hne hold hop' hP

/-! ### Carrying a thread to its end -/

/-- If whenever `J` holds of a thread about to make a call some input lets it make the call so that
`J` holds again, then the thread can be carried to its end by steps of its own. -/
theorem Reach.carried {i : ℕ} {t : Task} {A : Sys Op Ans ε Out Task World → Event Input Task Env → Prop}
    {J : Sys Op Ans ε Out Task World → List (Entry Op Ans ε) → Prog Op Ans ε Out → Prop}
    (hstep : ∀ s log op k, Reach M.step ⟨w, []⟩ C s →
      s.threads[i]? = some ⟨t, log, .call op k, true⟩ → J s log (.call op k) →
      ∃ inp r w', M.call s.world op inp = some (r, w') ∧ C s (.act i inp) ∧ A s (.act i inp) ∧
        ∀ s', s'.world = w' → Reach M.step ⟨w, []⟩ C s' →
          s'.threads[i]? = some ⟨t, log ++ [⟨op, r⟩], k r, true⟩ → J s' (log ++ [⟨op, r⟩]) (k r))
    (p : Prog Op Ans ε Out) {log : List (Entry Op Ans ε)} (h : Reach M.step ⟨w, []⟩ C s)
    (hth : s.threads[i]? = some ⟨t, log, p, true⟩) (hJ : J s log p) :
    ∃ s' log' p', Reach M.step s A s' ∧ Reach M.step ⟨w, []⟩ C s' ∧
      s'.threads[i]? = some ⟨t, log', p', true⟩ ∧ p'.next = none ∧ J s' log' p' := by
  induction p generalizing s log with
  | ret a => exact ⟨s, log, _, .init, h, hth, rfl, hJ⟩
  | raise e => exact ⟨s, log, _, .init, h, hth, rfl, hJ⟩
  | call op k ih =>
    obtain ⟨inp, r, w', hcall, hC, hA, hnext⟩ := hstep s log op k h hth hJ
    have heq : M.step s (.act i inp) =
        ⟨w', s.threads.set i ⟨t, log ++ [⟨op, r⟩], k r, true⟩⟩ := by
      simp only [Machine.step, hth, hcall]
    have hs₁ : Reach M.step ⟨w, []⟩ C (M.step s (.act i inp)) := .step h hC
    have hth₁ : (M.step s (.act i inp)).threads[i]? =
        some ⟨t, log ++ [⟨op, r⟩], k r, true⟩ := by
      obtain ⟨hlt, -⟩ := List.getElem?_eq_some_iff.mp hth
      rw [heq]
      exact List.getElem?_set_self hlt
    obtain ⟨s', log', p', hreach, hend⟩ := ih r hs₁ hth₁ (hnext _ (by rw [heq]) hs₁ hth₁)
    exact ⟨s', log', p', (Reach.step .init hA).trans hreach, hend⟩

/-! ### Facts told by answers, and the origin of what the world contains -/

/-- If making a call establishes `F` of its entry, and no later call or change destroys it, then
`F` holds of every entry of every log. -/
theorem fact_reach {F : Entry Op Ans ε → World → Prop}
    (hnew : ∀ w op inp r w', M.call w op inp = some (r, w') → F ⟨op, r⟩ w')
    (hcall : ∀ w op inp r w' en, M.call w op inp = some (r, w') → F en w → F en w')
    (henv : ∀ w e en, F en w → F en (M.env w e)) (h : Reach M.step ⟨w, []⟩ C s) :
    ∀ (j : ℕ) (th : Thread Op Ans ε Out Task), s.threads[j]? = some th →
      ∀ en ∈ th.log, F en s.world := by
  intro j th hj en hen
  obtain ⟨l, l', hl⟩ := List.append_of_mem hen
  refine noted_reach (X := fun _ _ en s => F en s.world) ?_ ?_ h j th hj l en l' hl
  · intro s i inp t log op k r w' _ _ _ hc
    exact hnew _ op inp r w' hc
  · intro s e s' t log en _ _ hm hF
    cases hm with
    | idle => exact hF
    | start => exact hF
    | crash => exact hF
    | env e => exact henv _ e en hF
    | act i inp t log op k r w' hth hc => exact hcall _ op inp r w' en hc hF

/-- If only calls bring about `R x`, each time with an entry that satisfies `O x` from then on,
then whatever row the world contains has such an entry in some log. -/
theorem origin_reach {ρ : Type} {R : World → ρ → Prop} {O : ρ → Entry Op Ans ε → World → Prop}
    (h0 : ∀ x, ¬ R w x)
    (hcall : ∀ w op inp r w' x, M.call w op inp = some (r, w') → R w' x →
      R w x ∨ O x ⟨op, r⟩ w')
    (henv : ∀ w e x, R (M.env w e) x → R w x)
    (hkeep : ∀ w op inp r w' x en, M.call w op inp = some (r, w') → O x en w → O x en w')
    (hkeep' : ∀ w e x en, O x en w → O x en (M.env w e)) (h : Reach M.step ⟨w, []⟩ C s) :
    ∀ x, R s.world x → ∃ (j : ℕ) (th : Thread Op Ans ε Out Task),
      s.threads[j]? = some th ∧ ∃ en ∈ th.log, O x en s.world := by
  refine h.rec_moved (I := fun s => ∀ x, R s.world x → ∃ (j : ℕ) (th : Thread Op Ans ε Out Task),
    s.threads[j]? = some th ∧ ∃ en ∈ th.log, O x en s.world) ?_ ?_
  · intro x hx
    exact absurd hx (h0 x)
  · intro s e s' _ _ ih hm x hx
    have hO : ∀ en, O x en s.world → O x en s'.world := by
      intro en hO
      cases hm with
      | idle => exact hO
      | start => exact hO
      | crash => exact hO
      | env e => exact hkeep' _ e x en hO
      | act i inp t log op k r w' hth hc => exact hkeep _ op inp r w' x en hc hO
    have hold : R s.world x → ∃ (j : ℕ) (th : Thread Op Ans ε Out Task),
        s'.threads[j]? = some th ∧ ∃ en ∈ th.log, O x en s'.world := by
      intro hx
      obtain ⟨j, th, hj, en, hen, hx⟩ := ih x hx
      obtain ⟨th', hj', -, hpre⟩ := thread_kept hm hj
      exact ⟨j, th', hj', en, hpre.subset hen, hO en hx⟩
    cases hm with
    | idle => exact hold hx
    | start => exact hold hx
    | crash => exact hold hx
    | env e => exact hold (henv _ e x hx)
    | act i inp t log op k r w' hth hc =>
      rcases hcall _ op inp r w' x hc hx with hx | hx
      · exact hold hx
      · obtain ⟨hlt, -⟩ := List.getElem?_eq_some_iff.mp hth
        exact ⟨i, _, List.getElem?_set_self hlt, ⟨op, r⟩, by simp, hx⟩

/-- An invariant of the world that a call keeps because of the run so far and of the thread that
makes it. -/
theorem world_invariant {J : World → Prop} (h0 : J w)
    (hcall : ∀ s i inp t log op k r w', Reach M.step ⟨w, []⟩ C s → C s (.act i inp) →
      s.threads[i]? = some ⟨t, log, .call op k, true⟩ → M.call s.world op inp = some (r, w') →
      J s.world → J w')
    (henv : ∀ s e, C s (.env e) → J s.world → J (M.env s.world e))
    (h : Reach M.step ⟨w, []⟩ C s) : J s.world := by
  refine h.rec_moved (I := fun s => J s.world) h0 ?_
  intro s e s' hs hC ih hm
  cases hm with
  | idle => exact ih
  | start => exact ih
  | crash => exact ih
  | env e => exact henv s e hC ih
  | act i inp t log op k r w' hth hc => exact hcall s i inp t log op k r w' hs hC hth hc ih

/-- An invariant of the world alone. -/
theorem world_reach {J : World → Prop} (h0 : J w)
    (hcall : ∀ w op inp r w', M.call w op inp = some (r, w') → J w → J w')
    (henv : ∀ w e, J w → J (M.env w e)) (h : Reach M.step ⟨w, []⟩ C s) : J s.world :=
  world_invariant h0 (fun _ _ inp _ _ op _ r w' _ _ _ hc => hcall _ op inp r w' hc)
    (fun s e _ => henv s.world e) h

end Reach

end Sentinel.Logic
