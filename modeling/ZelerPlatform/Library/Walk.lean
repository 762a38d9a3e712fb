import Mathlib.Data.List.Basic
import Mathlib.Data.List.Nodup
import Mathlib.Data.List.TakeDrop

/-!
# Walks over a list of tasks

A walk works on one task after the other. A task takes any number of calls, which hand on a
token, until one of them ends it; calls may fail, and tokens may be forgotten. However it is
interrupted, what a walk has ended is a first part of its tasks.
-/

namespace Walk

variable {τ σ : Type}

inductive Answer (σ : Type)
  | failed
  | more (token : σ)
  | ended
  deriving DecidableEq, Repr

/-- One call for a task, with the token that it hands on. -/
structure Call (τ σ : Type) where
  task : τ
  token : Option σ
  answer : Answer σ
  deriving DecidableEq, Repr

/-- The calls of a walk, how many tasks they ended, and the token of the next one. -/
inductive Walks (tasks : List τ) : List (Call τ σ) → Nat → Option σ → Prop
  | start : Walks tasks [] 0 none
  | forget {calls : List (Call τ σ)} {n : Nat} {token : Option σ}
      (walk : Walks tasks calls n token) : Walks tasks calls n none
  | failed {calls : List (Call τ σ)} {n : Nat} {token : Option σ} {task : τ} {sent : Option σ}
      (walk : Walks tasks calls n token) (current : tasks[n]? = some task)
      (own : sent = none ∨ sent = token) :
      Walks tasks (calls ++ [⟨task, sent, .failed⟩]) n token
  | more {calls : List (Call τ σ)} {n : Nat} {token : Option σ} {task : τ} {sent : Option σ}
      (next : σ) (walk : Walks tasks calls n token) (current : tasks[n]? = some task)
      (own : sent = none ∨ sent = token) :
      Walks tasks (calls ++ [⟨task, sent, .more next⟩]) n (some next)
  | ended {calls : List (Call τ σ)} {n : Nat} {token : Option σ} {task : τ} {sent : Option σ}
      (walk : Walks tasks calls n token) (current : tasks[n]? = some task)
      (own : sent = none ∨ sent = token) :
      Walks tasks (calls ++ [⟨task, sent, .ended⟩]) (n + 1) none

variable [DecidableEq σ] {tasks : List τ} {calls : List (Call τ σ)} {n : Nat} {token : Option σ}

/-- The tasks that calls ended. -/
def endedTasks (calls : List (Call τ σ)) : List τ :=
  (calls.filter fun call => call.answer = .ended).map Call.task

omit [DecidableEq σ] in
theorem Walks.le_length (h : Walks tasks calls n token) : n ≤ tasks.length := by
  induction h with
  | start => exact Nat.zero_le _
  | forget _ ih => exact ih
  | failed _ _ _ ih => exact ih
  | more _ _ _ _ ih => exact ih
  | ended _ current _ _ => exact (List.getElem?_eq_some_iff.mp current).1

/-- Every task up to the current one was ended, once and in its order. -/
theorem Walks.endedTasks_eq (h : Walks tasks calls n token) : endedTasks calls = tasks.take n := by
  induction h with
  | start => rfl
  | forget _ ih => exact ih
  | failed _ _ _ ih => simpa [endedTasks, List.filter_append] using ih
  | more _ _ _ _ ih => simpa [endedTasks, List.filter_append] using ih
  | ended _ current _ ih =>
      rw [List.take_add_one, current, ← ih]
      simp [endedTasks, List.filter_append]

omit [DecidableEq σ] in
/-- The task of each call is one that was not ended before it. -/
theorem Walks.task_of_mem (h : Walks tasks calls n token) {call : Call τ σ}
    (mem : call ∈ calls) : ∃ i ≤ n, tasks[i]? = some call.task ∧
      (call.answer = .ended → i < n) := by
  induction h with
  | start => cases mem
  | forget _ ih => exact ih mem
  | @failed _ n _ _ _ _ current _ ih =>
      obtain mem | heq := List.mem_append.mp mem
      · exact ih mem
      · obtain rfl := List.mem_singleton.mp heq
        exact ⟨n, Nat.le_refl n, current, by simp⟩
  | @more _ n _ _ _ _ _ current _ ih =>
      obtain mem | heq := List.mem_append.mp mem
      · exact ih mem
      · obtain rfl := List.mem_singleton.mp heq
        exact ⟨n, Nat.le_refl n, current, by simp⟩
  | @ended _ n _ _ _ _ current _ ih =>
      obtain mem | heq := List.mem_append.mp mem
      · obtain ⟨i, hle, htask, hlt⟩ := ih mem
        exact ⟨i, Nat.le_succ_of_le hle, htask, fun hended => Nat.lt_succ_of_lt (hlt hended)⟩
      · obtain rfl := List.mem_singleton.mp heq
        exact ⟨n, n.le_succ, current, fun _ => n.lt_succ_self⟩

omit [DecidableEq σ] in
/-- A task that was ended is not called again. -/
theorem Walks.not_again (h : Walks tasks calls n token) (once : tasks.Nodup) :
    calls.Pairwise fun a b => a.answer = .ended → b.task ≠ a.task := by
  have hlast {calls : List (Call τ σ)} {n : Nat} {token : Option σ} {task : τ}
      (walk : Walks tasks calls n token) (current : tasks[n]? = some task) (call : Call τ σ)
      (mem : call ∈ calls) (ended : call.answer = .ended) : task ≠ call.task := by
    rintro rfl
    obtain ⟨i, -, htask, hlt⟩ := walk.task_of_mem mem
    obtain ⟨hn, heq⟩ := List.getElem?_eq_some_iff.mp current
    obtain ⟨hi, heq'⟩ := List.getElem?_eq_some_iff.mp htask
    have := (once.getElem_inj_iff).mp (heq.trans heq'.symm)
    have := hlt ended
    omega
  induction h with
  | start => exact .nil
  | forget _ ih => exact ih
  | failed walk current _ ih =>
      rw [List.pairwise_append]
      refine ⟨ih, List.pairwise_singleton _ _, fun a ha b hb => ?_⟩
      rw [List.mem_singleton.mp hb]
      exact hlast walk current a ha
  | more _ walk current _ ih =>
      rw [List.pairwise_append]
      refine ⟨ih, List.pairwise_singleton _ _, fun a ha b hb => ?_⟩
      rw [List.mem_singleton.mp hb]
      exact hlast walk current a ha
  | ended walk current _ ih =>
      rw [List.pairwise_append]
      refine ⟨ih, List.pairwise_singleton _ _, fun a ha b hb => ?_⟩
      rw [List.mem_singleton.mp hb]
      exact hlast walk current a ha

omit [DecidableEq σ] in
/-- A token comes from a call for the same task. -/
theorem Walks.token_own (h : Walks tasks calls n token) :
    (∀ x, token = some x → ∃ call ∈ calls, tasks[n]? = some call.task ∧ call.answer = .more x) ∧
      ∀ call ∈ calls, ∀ x, call.token = some x →
        ∃ before ∈ calls, before.task = call.task ∧ before.answer = .more x := by
  have hsnoc {calls : List (Call τ σ)} {n : Nat} {token sent : Option σ} {task : τ}
      (ih : (∀ x, token = some x → ∃ call ∈ calls, tasks[n]? = some call.task ∧
          call.answer = .more x) ∧
        ∀ call ∈ calls, ∀ x, call.token = some x →
          ∃ before ∈ calls, before.task = call.task ∧ before.answer = .more x)
      (current : tasks[n]? = some task) (own : sent = none ∨ sent = token) (answer : Answer σ) :
      ∀ call ∈ calls ++ [⟨task, sent, answer⟩], ∀ x, call.token = some x →
        ∃ before ∈ calls ++ [⟨task, sent, answer⟩],
          before.task = call.task ∧ before.answer = .more x := by
    intro call mem x hx
    obtain mem | heq := List.mem_append.mp mem
    · obtain ⟨before, hbefore, hsame⟩ := ih.2 call mem x hx
      exact ⟨before, List.mem_append_left _ hbefore, hsame⟩
    · obtain rfl := List.mem_singleton.mp heq
      obtain hnone | hsent := own
      · cases hnone.symm.trans hx
      · obtain ⟨before, hbefore, htask, hmore⟩ := ih.1 x (hsent.symm.trans hx)
        refine ⟨before, List.mem_append_left _ hbefore, ?_, hmore⟩
        exact Option.some_inj.mp (htask.symm.trans current)
  induction h with
  | start => exact ⟨by simp, by simp⟩
  | forget _ ih => exact ⟨by simp, ih.2⟩
  | failed _ current own ih =>
      refine ⟨fun x hx => ?_, hsnoc ih current own _⟩
      obtain ⟨call, mem, hcall⟩ := ih.1 x hx
      exact ⟨call, List.mem_append_left _ mem, hcall⟩
  | more next _ current own ih =>
      refine ⟨fun x hx => ?_, hsnoc ih current own _⟩
      obtain rfl := Option.some_inj.mp hx
      exact ⟨_, List.mem_append_right _ (List.mem_singleton_self _), current, rfl⟩
  | ended _ current own ih => exact ⟨by simp, hsnoc ih current own _⟩

end Walk
