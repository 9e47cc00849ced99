import Sentinel.Logic.Prog

/-!
# A call that is made again

A client that repeats a call after an exception, with a wait in between, up to a number of times and
not after an exception that is final.

* `Prog.retry`: the client.
* `always_retry`: how often it calls, how it waits and how it ends.
-/

namespace Sentinel.Logic

variable {Op : Type} {Ans : Op → Type} {ε : Type}

/-- Make the call, at most `left` times more after exceptions that are not final; `wait n` comes
after the call number `n`. -/
def Prog.retry (call : Op) (wait : ℕ → Op) (isFinal : ε → Bool) :
    ℕ → ℕ → Prog Op Ans ε (Ans call)
  | 0, _ => perform call
  | left + 1, n =>
    .call call fun
      | .ok a => .ret a
      | .error e =>
        if isFinal e then .raise e
        else perform (wait n) >>= fun _ => retry call wait isFinal left (n + 1)

/-- How many calls of a kind the log has. -/
def made (isCall : Op → Bool) (log : List (Entry Op Ans ε)) : ℕ := log.countP fun en => isCall en.op

theorem made_concat {isCall : Op → Bool} {log : List (Entry Op Ans ε)} {en : Entry Op Ans ε} :
    made isCall (log ++ [en]) = made isCall log + if isCall en.op then 1 else 0 := by
  unfold made
  rw [List.countP_append, List.countP_singleton]

section Retry

variable {call : Op} {wait : ℕ → Op} {isFinal : ε → Bool} {isCall : Op → Bool}

/-- The call has not been answered. -/
def Unanswered (call : Op) (log : List (Entry Op Ans ε)) : Prop := ∀ a, ⟨call, .ok a⟩ ∉ log

theorem Unanswered.concat {log : List (Entry Op Ans ε)} (h : Unanswered call log)
    {en : Entry Op Ans ε} (hen : ∀ a, en ≠ ⟨call, .ok a⟩) : Unanswered call (log ++ [en]) := by
  intro a hmem
  rcases List.mem_append.mp hmem with hmem | hmem
  · exact h a hmem
  · exact hen a (List.mem_singleton.mp hmem).symm

/-- What the client does: it calls while some calls are left, and waits as the number of calls
asks. -/
def Retries (call : Op) (wait : ℕ → Op) (isCall : Op → Bool) (most : ℕ)
    (log : List (Entry Op Ans ε)) (op : Op) : Prop :=
  (op = call ∧ made isCall log < most) ∨ ∃ n, made isCall log = n + 1 ∧ op = wait n

/-- How the client ends: with the answer to its last call, with an exception of it that is final or
the last allowed, or with one of a wait. -/
def Retried (call : Op) (wait : ℕ → Op) (isFinal : ε → Bool) (isCall : Op → Bool) (most : ℕ)
    (log : List (Entry Op Ans ε)) : Except ε (Ans call) → Prop
  | .ok a => ∃ l, log = l ++ [⟨call, .ok a⟩]
  | .error e => Unanswered call log ∧
    ((∃ l, log = l ++ [⟨call, .error e⟩] ∧ (isFinal e ∨ made isCall log = most)) ∨
      ∃ l n, log = l ++ [⟨wait n, .error e⟩])

theorem always_retry (hcall : isCall call = true) (hwait : ∀ n, isCall (wait n) = false)
    {left n : ℕ} {log : List (Entry Op Ans ε)} (hn : made isCall log = n)
    (hlog : Unanswered call log) :
    Always (Retries call wait isCall (n + left + 1)) (Retried call wait isFinal isCall (n + left + 1))
      (.retry call wait isFinal left n) log := by
  have herror : ∀ {log : List (Entry Op Ans ε)} {e : ε}, Unanswered call log →
      Unanswered call (log ++ [⟨call, .error e⟩]) := by
    intro log e h
    refine h.concat fun a heq => ?_
    cases eq_of_heq (Entry.mk.inj heq).2
  have hwaited : ∀ {log : List (Entry Op Ans ε)} {n : ℕ} {r : Except ε (Ans (wait n))},
      Unanswered call log → Unanswered call (log ++ [⟨wait n, r⟩]) := by
    intro log n r h
    refine h.concat fun a heq => ?_
    have hop : wait n = call := congrArg Entry.op heq
    rw [← hop, hwait] at hcall
    cases hcall
  induction left generalizing n log with
  | zero =>
    refine always_perform (Or.inl ⟨rfl, by omega⟩) fun r => ?_
    cases r with
    | ok a => exact ⟨log, rfl⟩
    | error e =>
      refine ⟨herror hlog, Or.inl ⟨log, rfl, Or.inr ?_⟩⟩
      rw [made_concat, if_pos hcall, hn]
  | succ left ih =>
    refine ⟨Or.inl ⟨rfl, by omega⟩, fun r => ?_⟩
    have hmade : made isCall (log ++ [⟨call, r⟩]) = n + 1 := by
      rw [made_concat, if_pos hcall, hn]
    cases r with
    | ok a => exact ⟨log, rfl⟩
    | error e =>
      dsimp only
      split_ifs with hfinal
      · exact ⟨herror hlog, Or.inl ⟨log, rfl, Or.inl hfinal⟩⟩
      · refine always_perform_bind (Or.inr ⟨n, hmade, rfl⟩) (fun _ => ?_) fun e' =>
          ⟨hwaited (herror hlog), Or.inr ⟨_, n, rfl⟩⟩
        rw [show n + (left + 1) + 1 = (n + 1) + left + 1 by omega]
        exact ih (by rw [made_concat, hwait, hmade]; rfl) (hwaited (herror hlog))

end Retry

end Sentinel.Logic
