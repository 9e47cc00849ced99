import Mathlib.Data.List.Basic

/-!
# Call programs

A sequential program that talks to the outside world only through *calls*: a tree whose nodes are
calls, each followed by what the program does with the answer.  An answer is a value of the call's
answer type or an exception; between two calls nothing of the program is visible, so a call is the
unit of interleaving when several programs run against one world (`Logic.System`).

* `Prog`: the programs, with sequencing (`Prog.bind`) and exception handling (`Prog.tryCatch`).
* `Entry`, a log: the calls made so far with their answers.
* `Always Φ Ψ p log`: whatever the answers are, every call `p` makes after `log` satisfies `Φ` of
  the log at that point, and `p` ends with a log and a result that satisfy `Ψ`.
* `Clean P`, `Returns Q`: postconditions that say nothing once a call has raised.
-/

namespace Sentinel.Logic

/-- A program over the calls `Op`, with answers `Ans`, exceptions `ε` and results `α`. -/
inductive Prog (Op : Type) (Ans : Op → Type) (ε α : Type) : Type
  | ret (a : α)
  | raise (e : ε)
  | call (op : Op) (k : Except ε (Ans op) → Prog Op Ans ε α)

/-- A call that has been made, with its answer. -/
structure Entry (Op : Type) (Ans : Op → Type) (ε : Type) : Type where
  op : Op
  ans : Except ε (Ans op)

variable {Op : Type} {Ans : Op → Type} {ε α β : Type}

namespace Prog

/-- Sequencing: an exception skips the rest. -/
def bind : Prog Op Ans ε α → (α → Prog Op Ans ε β) → Prog Op Ans ε β
  | ret a, f => f a
  | raise e, _ => raise e
  | call op k, f => call op fun r => (k r).bind f

/-- Run `p`; on an exception run the handler instead of what remains of `p`. -/
def tryCatch : Prog Op Ans ε α → (ε → Prog Op Ans ε α) → Prog Op Ans ε α
  | ret a, _ => ret a
  | raise e, h => h e
  | call op k, h => call op fun r => (k r).tryCatch h

/-- Make one call; an exceptional answer is raised. -/
def perform (op : Op) : Prog Op Ans ε (Ans op) :=
  call op fun
    | .ok a => ret a
    | .error e => raise e

instance : Monad (Prog Op Ans ε) where
  pure := ret
  bind := bind

/-- The value of an optional result, or the exception raised for its absence. -/
def getD (e : ε) : Option α → Prog Op Ans ε α
  | some a => ret a
  | none => raise e

theorem bind_def (p : Prog Op Ans ε α) (f : α → Prog Op Ans ε β) : p >>= f = p.bind f := rfl

theorem bind_assoc {γ : Type} (p : Prog Op Ans ε α) (f : α → Prog Op Ans ε β)
    (g : β → Prog Op Ans ε γ) : (p.bind f).bind g = p.bind fun a => (f a).bind g := by
  induction p with
  | ret a => rfl
  | raise e => rfl
  | call op k ih => simp only [bind, ih]

/-- The call a program makes next, if it has not ended. -/
def next : Prog Op Ans ε α → Option Op
  | call op _ => some op
  | _ => none

end Prog

/-! ## What a program does on every path -/

/-- Every call of `p` satisfies `Φ` of the log before it, and the end of `p` satisfies `Ψ`. -/
def Always (Φ : List (Entry Op Ans ε) → Op → Prop)
    (Ψ : List (Entry Op Ans ε) → Except ε α → Prop) :
    Prog Op Ans ε α → List (Entry Op Ans ε) → Prop
  | .ret a, log => Ψ log (.ok a)
  | .raise e, log => Ψ log (.error e)
  | .call op k, log => Φ log op ∧ ∀ r, Always Φ Ψ (k r) (log ++ [⟨op, r⟩])

section Rules

variable {Φ Φ' : List (Entry Op Ans ε) → Op → Prop} {log : List (Entry Op Ans ε)}
  {Ψ Ψ' : List (Entry Op Ans ε) → Except ε α → Prop} {p : Prog Op Ans ε α}

@[simp] theorem always_ret {a : α} : Always Φ Ψ (.ret a) log ↔ Ψ log (.ok a) := Iff.rfl

@[simp] theorem always_raise {e : ε} : Always Φ Ψ (.raise e) log ↔ Ψ log (.error e) := Iff.rfl

/-- A program satisfies what holds everywhere. -/
theorem always_of (hΦ : ∀ l op, Φ l op) (hΨ : ∀ l r, Ψ l r) : Always Φ Ψ p log := by
  induction p generalizing log with
  | ret a => exact hΨ log _
  | raise e => exact hΨ log _
  | call op k ih => exact ⟨hΦ log op, fun r => ih r⟩

theorem Always.next (h : Always Φ Ψ p log) {op : Op} (hop : p.next = some op) : Φ log op := by
  cases p with
  | ret a => cases hop
  | raise e => cases hop
  | call op' k =>
    obtain rfl := Option.some.inj hop
    exact h.1

/-- Consequence, with the log known to extend the one the program started from. -/
theorem Always.mono' (h : Always Φ Ψ p log) (hΦ : ∀ l op, log <+: l → Φ l op → Φ' l op)
    (hΨ : ∀ l r, log <+: l → Ψ l r → Ψ' l r) : Always Φ' Ψ' p log := by
  induction p generalizing log with
  | ret a => exact hΨ log _ (List.prefix_refl _) h
  | raise e => exact hΨ log _ (List.prefix_refl _) h
  | call op k ih =>
    refine ⟨hΦ log op (List.prefix_refl _) h.1, fun r => ?_⟩
    have hpre : log <+: log ++ [⟨op, r⟩] := List.prefix_append _ _
    exact ih r (h.2 r) (fun l o hl => hΦ l o (hpre.trans hl)) (fun l o hl => hΨ l o (hpre.trans hl))

theorem Always.mono (h : Always Φ Ψ p log) (hΨ : ∀ l r, log <+: l → Ψ l r → Ψ' l r) :
    Always Φ Ψ' p log :=
  h.mono' (fun _ _ _ hc => hc) hΨ

/-- Two properties of the calls and of the end are one. -/
theorem Always.and (h : Always Φ Ψ p log) (h' : Always Φ' Ψ' p log) :
    Always (fun l op => Φ l op ∧ Φ' l op) (fun l r => Ψ l r ∧ Ψ' l r) p log := by
  induction p generalizing log with
  | ret a => exact ⟨h, h'⟩
  | raise e => exact ⟨h, h'⟩
  | call op k ih => exact ⟨⟨h.1, h'.1⟩, fun r => ih r (h.2 r) (h'.2 r)⟩

/-- Sequencing. -/
theorem Always.bind {f : α → Prog Op Ans ε β} {Ψ' : List (Entry Op Ans ε) → Except ε β → Prop}
    (h : Always Φ Ψ p log) (hok : ∀ l a, log <+: l → Ψ l (.ok a) → Always Φ Ψ' (f a) l)
    (herr : ∀ l e, log <+: l → Ψ l (.error e) → Ψ' l (.error e)) : Always Φ Ψ' (p.bind f) log := by
  induction p generalizing log with
  | ret a => exact hok log a (List.prefix_refl _) h
  | raise e => exact herr log e (List.prefix_refl _) h
  | call op k ih =>
    refine ⟨h.1, fun r => ?_⟩
    have hpre : log <+: log ++ [⟨op, r⟩] := List.prefix_append _ _
    exact ih r (h.2 r) (fun l a hl => hok l a (hpre.trans hl))
      (fun l e hl => herr l e (hpre.trans hl))

/-- Exception handling. -/
theorem Always.tryCatch {h' : ε → Prog Op Ans ε α} (h : Always Φ Ψ p log)
    (hok : ∀ l a, log <+: l → Ψ l (.ok a) → Ψ' l (.ok a))
    (herr : ∀ l e, log <+: l → Ψ l (.error e) → Always Φ Ψ' (h' e) l) :
    Always Φ Ψ' (p.tryCatch h') log := by
  induction p generalizing log with
  | ret a => exact hok log a (List.prefix_refl _) h
  | raise e => exact herr log e (List.prefix_refl _) h
  | call op k ih =>
    refine ⟨h.1, fun r => ?_⟩
    have hpre : log <+: log ++ [⟨op, r⟩] := List.prefix_append _ _
    exact ih r (h.2 r) (fun l a hl => hok l a (hpre.trans hl))
      (fun l e hl => herr l e (hpre.trans hl))

/-- One call. -/
theorem always_perform {op : Op} {Ψ : List (Entry Op Ans ε) → Except ε (Ans op) → Prop}
    (hΦ : Φ log op) (hΨ : ∀ r, Ψ (log ++ [⟨op, r⟩]) r) : Always Φ Ψ (.perform op) log := by
  refine ⟨hΦ, fun r => ?_⟩
  cases r with
  | ok a => exact hΨ (.ok a)
  | error e => exact hΨ (.error e)

/-- One call and the rest of the program. -/
theorem always_perform_bind {op : Op} {f : Ans op → Prog Op Ans ε β}
    {Ψ : List (Entry Op Ans ε) → Except ε β → Prop} (hΦ : Φ log op)
    (hok : ∀ a, Always Φ Ψ (f a) (log ++ [⟨op, .ok a⟩]))
    (herr : ∀ e, Ψ (log ++ [⟨op, .error e⟩]) (.error e)) :
    Always Φ Ψ (Prog.perform op >>= f) log := by
  refine ⟨hΦ, fun r => ?_⟩
  cases r with
  | ok a => exact hok a
  | error e => exact herr e

theorem always_getD_bind {e : ε} {o : Option α} {f : α → Prog Op Ans ε β}
    {Ψ : List (Entry Op Ans ε) → Except ε β → Prop} (hsome : ∀ a, o = some a → Always Φ Ψ (f a) log)
    (hnone : o = none → Ψ log (.error e)) : Always Φ Ψ (Prog.getD e o >>= f) log := by
  cases o with
  | none => exact hnone rfl
  | some a => exact hsome a rfl

theorem always_getD {e : ε} {o : Option α} (hsome : ∀ a, o = some a → Ψ log (.ok a))
    (hnone : o = none → Ψ log (.error e)) : Always Φ Ψ (Prog.getD e o) log := by
  cases o with
  | none => exact hnone rfl
  | some a => exact hsome a rfl

end Rules

/-! ## Properties of the log that calls keep -/

section Keeps

variable {I : List (Entry Op Ans ε) → Prop} {p : Prog Op Ans ε α} {f : α → Prog Op Ans ε β}

/-- Started with `I`, the program makes every call with `I` and ends with it. -/
def Keeps (I : List (Entry Op Ans ε) → Prop) (p : Prog Op Ans ε α) : Prop :=
  ∀ log, I log → Always (fun l _ => I l) (fun l _ => I l) p log

/-- Started with `I`, the program makes every call with `I`, and raises only with `I`. -/
def KeepsRaising (I : List (Entry Op Ans ε) → Prop) (p : Prog Op Ans ε α) : Prop :=
  ∀ log, I log → Always (fun l _ => I l) (fun l r => ∀ e, r = .error e → I l) p log

theorem keeps_pure (a : α) : Keeps I (pure a : Prog Op Ans ε α) := fun _ h => h

theorem keeps_raise (e : ε) : Keeps I (.raise e : Prog Op Ans ε α) := fun _ h => h

theorem keeps_perform {op : Op} (hop : ∀ log r, I log → I (log ++ [⟨op, r⟩])) :
    Keeps I (.perform op : Prog Op Ans ε (Ans op)) :=
  fun log h => always_perform h fun r => hop log r h

theorem keeps_getD {e : ε} {o : Option α} : Keeps I (.getD e o : Prog Op Ans ε α) :=
  fun _ h => always_getD (fun _ _ => h) fun _ => h

theorem Keeps.bind (hp : Keeps I p) (hf : ∀ a, Keeps I (f a)) : Keeps I (p >>= f) :=
  fun log h => (hp log h).bind (fun l a _ hl => hf a l hl) fun _ _ _ hl => hl

theorem Keeps.raising (hp : Keeps I p) : KeepsRaising I p :=
  fun log h => (hp log h).mono fun _ _ _ hl _ _ => hl

theorem Keeps.bind_raising (hp : Keeps I p) (hf : ∀ a, KeepsRaising I (f a)) :
    KeepsRaising I (p >>= f) :=
  fun log h => (hp log h).bind (fun l a _ hl => hf a l hl) fun _ _ _ hl _ _ => hl

theorem keepsRaising_perform {op : Op} (hop : ∀ log e, I log → I (log ++ [⟨op, .error e⟩])) :
    KeepsRaising I (.perform op : Prog Op Ans ε (Ans op)) := by
  refine fun log h => always_perform h fun r => ?_
  cases r with
  | ok a => exact fun _ he => nomatch he
  | error e => exact fun _ _ => hop log e h

/-- What follows the last call only makes a result of its answer. -/
theorem KeepsRaising.map (hp : KeepsRaising I p) (g : α → β) :
    KeepsRaising I (p >>= fun a => pure (g a)) :=
  fun log h => (hp log h).bind (fun _ _ _ _ _ he => nomatch he) fun _ e _ hl _ _ => hl e rfl

theorem KeepsRaising.tryCatch {h : ε → Prog Op Ans ε α} (hp : KeepsRaising I p)
    (hh : ∀ e, KeepsRaising I (h e)) : KeepsRaising I (p.tryCatch h) :=
  fun log hI => (hp log hI).tryCatch (fun _ _ _ _ _ he => nomatch he)
    fun l e _ hl => hh e l (hl e rfl)

end Keeps

/-! ## Logs without exceptions -/

section NoRaise

variable {log log' : List (Entry Op Ans ε)} {en : Entry Op Ans ε}

/-- No call of the log raised. -/
def NoRaise (log : List (Entry Op Ans ε)) : Prop := ∀ en ∈ log, ∃ a, en.ans = .ok a

theorem NoRaise.prefix_of (h : NoRaise log') (hpre : log <+: log') : NoRaise log :=
  fun en hen => h en (hpre.subset hen)

theorem not_noRaise {op : Op} {e : ε} : ¬ NoRaise (log ++ [⟨op, .error e⟩]) := by
  intro h
  obtain ⟨a, ha⟩ := h ⟨op, .error e⟩ (by simp)
  cases ha

/-- `P` is only promised when no call raised. -/
def Clean (P : List (Entry Op Ans ε) → Except ε α → Prop) (log : List (Entry Op Ans ε))
    (r : Except ε α) : Prop := NoRaise log → P log r

/-- `Q` of the result, and an exception only when a call raised. -/
def Returns (Q : List (Entry Op Ans ε) → α → Prop) (log : List (Entry Op Ans ε)) :
    Except ε α → Prop
  | .ok a => Q log a
  | .error _ => ¬ NoRaise log

/-- A postcondition that a call which raises establishes. -/
class Tolerant (Ψ : List (Entry Op Ans ε) → Except ε α → Prop) : Prop where
  raise : ∀ log (op : Op) e e', Ψ (log ++ [⟨op, .error e⟩]) (.error e')

instance (P : List (Entry Op Ans ε) → Except ε α → Prop) : Tolerant (Clean P) :=
  ⟨fun _ _ _ _ h => absurd h not_noRaise⟩

instance (Q : List (Entry Op Ans ε) → α → Prop) : Tolerant (Returns Q) :=
  ⟨fun _ _ _ _ => not_noRaise⟩

variable {Φ : List (Entry Op Ans ε) → Op → Prop} {Ψ : List (Entry Op Ans ε) → Except ε β → Prop}

/-- One call and the rest of the program, when it does not matter what an exception means. -/
theorem always_op [Tolerant Ψ] {op : Op} {f : Ans op → Prog Op Ans ε β} (hΦ : Φ log op)
    (hok : ∀ a, Always Φ Ψ (f a) (log ++ [⟨op, .ok a⟩])) :
    Always Φ Ψ (Prog.perform op >>= f) log :=
  always_perform_bind hΦ hok fun e => Tolerant.raise log op e e

/-- A program that raises only when a call raises, and the rest of the program. -/
theorem Always.returns {Q : List (Entry Op Ans ε) → α → Prop}
    {P : List (Entry Op Ans ε) → Except ε β → Prop} {p : Prog Op Ans ε α}
    {f : α → Prog Op Ans ε β} (h : Always Φ (Returns Q) p log)
    (hok : ∀ l a, log <+: l → Q l a → Always Φ (Clean P) (f a) l) :
    Always Φ (Clean P) (p >>= f) log :=
  h.bind hok fun _ _ _ herr hclean => absurd hclean herr

end NoRaise

end Sentinel.Logic
