import Sentinel.Logic.System

/-!
# Following a log

A log with answers determines how far a program has come.

* `Plays p log q`: with the calls and answers of `log` the program `p` has come to `q`.
* `Raises p log`: along the log `p` raises, before or at its end.
* `plays_reach`: every thread has come to where its log leads its task.
-/

namespace Sentinel.Logic

variable {Op : Type} {Ans : Op → Type} {ε α β : Type}

inductive Plays : Prog Op Ans ε α → List (Entry Op Ans ε) → Prog Op Ans ε α → Prop
  | refl (p : Prog Op Ans ε α) : Plays p [] p
  | call (op : Op) (k : Except ε (Ans op) → Prog Op Ans ε α) (r : Except ε (Ans op))
      (log : List (Entry Op Ans ε)) (q : Prog Op Ans ε α) (h : Plays (k r) log q) :
      Plays (.call op k) (⟨op, r⟩ :: log) q

section Plays

variable {p q q' : Prog Op Ans ε α} {log log' : List (Entry Op Ans ε)}

theorem plays_ret {a : α} (h : Plays (.ret a : Prog Op Ans ε α) log q) : log = [] ∧ q = .ret a := by
  cases h
  exact ⟨rfl, rfl⟩

theorem plays_raise {e : ε} (h : Plays (.raise e : Prog Op Ans ε α) log q) :
    log = [] ∧ q = .raise e := by
  cases h
  exact ⟨rfl, rfl⟩

theorem plays_call {op : Op} {k : Except ε (Ans op) → Prog Op Ans ε α}
    (h : Plays (.call op k) log q) :
    log = [] ∧ q = .call op k ∨ ∃ r log', log = ⟨op, r⟩ :: log' ∧ Plays (k r) log' q := by
  cases h with
  | refl => exact Or.inl ⟨rfl, rfl⟩
  | call op k r log' q h => exact Or.inr ⟨r, log', rfl, h⟩

/-- One more call. -/
theorem Plays.concat {op : Op} {k : Except ε (Ans op) → Prog Op Ans ε α}
    (h : Plays p log (.call op k)) (r : Except ε (Ans op)) : Plays p (log ++ [⟨op, r⟩]) (k r) := by
  generalize hq : Prog.call op k = q at h
  induction h with
  | refl p =>
    subst hq
    exact .call op k r [] _ (.refl _)
  | call op' k' r' log q _ ih => exact .call op' k' r' _ _ (ih hq)

/-- A log leads to one place, from every place on the way. -/
theorem Plays.rest (h : Plays p log q) (h' : Plays p (log ++ log') q') : Plays q log' q' := by
  induction h with
  | refl p => exact h'
  | call op k r log q _ ih =>
    rcases plays_call h' with ⟨hnil, -⟩ | ⟨r', log'', heq, hk⟩
    · simp at hnil
    · obtain ⟨hen, rfl⟩ := List.cons.inj heq
      cases hen
      exact ih hk

/-- The calls ahead satisfy the path property. -/
theorem Always.plays {Φ : List (Entry Op Ans ε) → Op → Prop}
    {Ψ : List (Entry Op Ans ε) → Except ε α → Prop} (ha : Always Φ Ψ p log')
    (h : Plays p log q) : Always Φ Ψ q (log' ++ log) ∧ ∀ en ∈ log, ∃ l, Φ l en.op := by
  induction h generalizing log' with
  | refl p => exact ⟨by rwa [List.append_nil], fun en hen => absurd hen List.not_mem_nil⟩
  | call op k r log q _ ih =>
    obtain ⟨hend, hcalls⟩ := ih (ha.2 r)
    refine ⟨by rwa [List.append_cons], fun en hen => ?_⟩
    rcases List.mem_cons.mp hen with rfl | hen
    · exact ⟨log', ha.1⟩
    · exact hcalls en hen

/-- A sequence is in its first part, or past its result. -/
theorem plays_bind {f : α → Prog Op Ans ε β} {q : Prog Op Ans ε β} (h : Plays (p.bind f) log q) :
    (∃ p', Plays p log p' ∧ q = p'.bind f) ∨
    ∃ l l' a, log = l ++ l' ∧ Plays p l (.ret a) ∧ Plays (f a) l' q := by
  induction p generalizing log with
  | ret a => exact Or.inr ⟨[], log, a, rfl, .refl _, h⟩
  | raise e =>
    obtain ⟨rfl, rfl⟩ := plays_raise h
    exact Or.inl ⟨_, .refl _, rfl⟩
  | call op k ih =>
    rcases plays_call h with ⟨rfl, rfl⟩ | ⟨r, log', rfl, hk⟩
    · exact Or.inl ⟨_, .refl _, rfl⟩
    · rcases ih r hk with ⟨p', hp', rfl⟩ | ⟨l, l', a, rfl, hl, hl'⟩
      · exact Or.inl ⟨p', .call op k r _ _ hp', rfl⟩
      · exact Or.inr ⟨⟨op, r⟩ :: l, l', a, rfl, .call op k r _ _ hl, hl'⟩

/-- A program with a handler is in the program, or in the handler after an exception. -/
theorem plays_tryCatch {h : ε → Prog Op Ans ε α} (hp : Plays (p.tryCatch h) log q) :
    (∃ p', Plays p log p' ∧ q = p'.tryCatch h) ∨
    ∃ l l' e, log = l ++ l' ∧ Plays p l (.raise e) ∧ Plays (h e) l' q := by
  induction p generalizing log with
  | ret a =>
    obtain ⟨rfl, rfl⟩ := plays_ret hp
    exact Or.inl ⟨_, .refl _, rfl⟩
  | raise e => exact Or.inr ⟨[], log, e, rfl, .refl _, hp⟩
  | call op k ih =>
    rcases plays_call hp with ⟨rfl, rfl⟩ | ⟨r, log', rfl, hk⟩
    · exact Or.inl ⟨_, .refl _, rfl⟩
    · rcases ih r hk with ⟨p', hp', rfl⟩ | ⟨l, l', e, rfl, hl, hl'⟩
      · exact Or.inl ⟨p', .call op k r _ _ hp', rfl⟩
      · exact Or.inr ⟨⟨op, r⟩ :: l, l', e, rfl, .call op k r _ _ hl, hl'⟩

end Plays

/-! ## Raising along a log -/

def Raises : Prog Op Ans ε α → List (Entry Op Ans ε) → Prop
  | .raise _, _ => True
  | .ret _, _ => False
  | .call _ _, [] => False
  | .call op k, en :: log => ∃ h : en.op = op, Raises (k (h ▸ en.ans)) log

def decidableRaises [DecidableEq Op] : ∀ (p : Prog Op Ans ε α) (log : List (Entry Op Ans ε)),
    Decidable (Raises p log)
  | .raise _, _ => isTrue trivial
  | .ret _, _ => isFalse id
  | .call _ _, [] => isFalse id
  | .call op k, en :: log =>
    if h : en.op = op then
      match decidableRaises (k (h ▸ en.ans)) log with
      | isTrue hr => isTrue ⟨h, hr⟩
      | isFalse hr => isFalse fun ⟨_, hr'⟩ => hr hr'
    else isFalse fun ⟨h', _⟩ => h h'

instance [DecidableEq Op] (p : Prog Op Ans ε α) (log : List (Entry Op Ans ε)) :
    Decidable (Raises p log) := decidableRaises p log

theorem Raises.plays {p : Prog Op Ans ε α} {log : List (Entry Op Ans ε)} (h : Raises p log) :
    ∃ l l' e, log = l ++ l' ∧ Plays p l (.raise e) := by
  induction p generalizing log with
  | ret a => exact False.elim (by unfold Raises at h; exact h)
  | raise e => exact ⟨[], log, e, rfl, .refl _⟩
  | call op k ih =>
    cases log with
    | nil => exact False.elim h
    | cons en log =>
      obtain ⟨op', r⟩ := en
      obtain ⟨hop, hr⟩ := h
      obtain rfl : op' = op := hop
      obtain ⟨l, l', e, rfl, hl⟩ := ih r hr
      exact ⟨⟨op', r⟩ :: l, l', e, rfl, .call op' k r _ _ hl⟩

theorem Plays.raises {p : Prog Op Ans ε α} {log : List (Entry Op Ans ε)} {e : ε}
    (h : Plays p log (.raise e)) (log' : List (Entry Op Ans ε)) : Raises p (log ++ log') := by
  generalize hq : Prog.raise e = q at h
  induction h with
  | refl p =>
    subst hq
    unfold Raises
    trivial
  | call op k r log q _ ih => exact ⟨rfl, ih hq⟩

/-- A program with a handler that raises along the log goes on in the handler. -/
theorem Raises.handled {p q : Prog Op Ans ε α} {h : ε → Prog Op Ans ε α}
    {log : List (Entry Op Ans ε)} (hr : Raises p log) (hp : Plays (p.tryCatch h) log q) :
    ∃ l l' e, log = l ++ l' ∧ Plays p l (.raise e) ∧ Plays (h e) l' q := by
  rcases plays_tryCatch hp with ⟨p', hp', rfl⟩ | hhandler
  · obtain ⟨l, l', e, rfl, hl⟩ := hr.plays
    obtain ⟨rfl, rfl⟩ := plays_raise (hl.rest hp')
    exact ⟨l, [], e, rfl, hl, .refl _⟩
  · exact hhandler

/-! ## Threads -/

section Reach

variable {Out World Input Task Env : Type} {M : Machine Op Ans ε Out World Input Task Env}
  {w : World} {C : Sys Op Ans ε Out Task World → Event Input Task Env → Prop}
  {s : Sys Op Ans ε Out Task World}

theorem plays_reach (h : Reach M.step ⟨w, []⟩ C s) :
    ∀ (j : ℕ) (th : Thread Op Ans ε Out Task), s.threads[j]? = some th →
      Plays (M.body th.task) th.log th.prog := by
  refine h.rec_moved (I := fun s => ∀ (j : ℕ) (th : Thread Op Ans ε Out Task),
    s.threads[j]? = some th → Plays (M.body th.task) th.log th.prog) ?_ ?_
  · intro j th hj
    simp at hj
  · intro s e s' _ _ ih hm j th' hj
    rcases thread_moved hm hj with hold | ⟨t, -, -, rfl⟩ | ⟨th, hth, rfl⟩ |
      ⟨inp, t, log, op, k, r, -, hth, -, -, rfl⟩
    · exact ih j th' hold
    · exact .refl _
    · exact ih j th hth
    · exact (ih j _ hth).concat r

end Reach

end Sentinel.Logic
