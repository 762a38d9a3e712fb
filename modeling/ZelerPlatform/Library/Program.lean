import Mathlib.Data.List.Basic
import ZelerPlatform.Library.Run

/-!
# Programs of atomic operations

A `Program` is a call that touches shared state by labelled atomic operations only: what it
does next may depend on all it has read. Calls run side by side as the processes of a pool,
one operation at a time, in any order.

A `Contract` says what a call may rely on between its operations, what each of its
operations guarantees to the others, and what holds when it returns. `Meets` is the contract
met from a state on, whatever the others do in the meantime; it is proved along the text of
the call. Where every guarantee of one call is among the things the others rely on,
contracts that are met at the start stay met along every run.

The operations of a run may be restricted to those that are allowed in the state they find.
-/

namespace Transition

universe u v w

inductive Program (L : Type u) (S : Type v) (A : Type w)
  | ret (a : A)
  | atomic (label : L) (write : S → S) (next : S → Program L S A)

namespace Program

variable {L : Type u} {S : Type v} {A B : Type w}

def bind : Program L S A → (A → Program L S B) → Program L S B
  | ret a, k => k a
  | atomic label write next, k => atomic label write fun s => (next s).bind k

instance : Monad (Program L S) where
  pure := ret
  bind := bind

/-- One operation with an answer. -/
def act (label : L) (f : S → A × S) : Program L S A :=
  atomic label (fun s => (f s).2) fun s => ret (f s).1

/-- An operation that reads. -/
def read (label : L) (f : S → A) : Program L S A := act label fun s => (f s, s)

/-- The call on its own: its result and the state it leaves. -/
def run : Program L S A → S → A × S
  | ret a, s => (a, s)
  | atomic _ write next, s => (next s).run (write s)

@[simp] theorem run_pure (a : A) (s : S) : run (Pure.pure a : Program L S A) s = (a, s) := rfl

@[simp] theorem run_act (label : L) (f : S → A × S) (s : S) : (act label f).run s = f s := rfl

@[simp] theorem run_bind (p : Program L S A) (k : A → Program L S B) (s : S) :
    (p >>= k).run s = (k (p.run s).1).run (p.run s).2 := by
  induction p generalizing s with
  | ret a => rfl
  | atomic label write next ih => exact ih s (write s)

/-- The operations of the call on its own. -/
def trace : Program L S A → S → List L
  | ret _, _ => []
  | atomic label write next, s => label :: (next s).trace (write s)

@[simp] theorem trace_pure (a : A) (s : S) : trace (Pure.pure a : Program L S A) s = [] := rfl

@[simp] theorem trace_act (label : L) (f : S → A × S) (s : S) : (act label f).trace s = [label] :=
  rfl

@[simp] theorem trace_bind (p : Program L S A) (k : A → Program L S B) (s : S) :
    (p >>= k).trace s = p.trace s ++ (k (p.run s).1).trace (p.run s).2 := by
  induction p generalizing s with
  | ret a => rfl
  | atomic label write next ih => exact congrArg (label :: ·) (ih s (write s))

theorem bind_assoc {C : Type w} (p : Program L S A) (k : A → Program L S B)
    (m : B → Program L S C) : (p >>= k) >>= m = p >>= fun a => k a >>= m := by
  show (p.bind k).bind m = p.bind fun a => (k a).bind m
  induction p with
  | ret a => rfl
  | atomic label write next ih =>
      show atomic label write _ = atomic label write _
      congr 1
      exact funext ih

@[simp] theorem pure_bind (a : A) (k : A → Program L S B) : (Pure.pure a >>= k) = k a := rfl

/-! ### Side by side -/

/-- The next operation of a call. -/
inductive Move {ι : Type*} (i : ι) : Program L S A → S → ι × L → Program L S A → S → Prop
  | atomic {label : L} {write : S → S} {next : S → Program L S A} {s : S} :
      Move i (.atomic label write next) s (i, label) (next s) (write s)

variable {ι : Type*} [DecidableEq ι]

/-- Calls side by side, with nothing else touching the state. -/
abbrev Step : Pool ι S (Program L S A) → ι × L → Pool ι S (Program L S A) → Prop :=
  Pool.Step Move fun _ _ _ => False

/-- The operations that are allowed in the state they find. -/
def Allowed (allowed : ι → S → L → Prop) (pool : Pool ι S (Program L S A)) (e : ι × L) : Prop :=
  allowed e.1 pool.shared e.2

theorem always_step {pool pool' : Pool ι S (Program L S A)} {e : ι × L}
    (step : Step pool e pool') : restrict Step (Allowed fun _ _ _ => True) pool e pool' :=
  ⟨trivial, step⟩

/-- Without a restriction every operation is allowed. -/
theorem always {start pool : Pool ι S (Program L S A)} {es : List (ι × L)}
    (run : Run Step start es pool) :
    Run (restrict Step (Allowed fun _ _ _ => True)) start es pool := run.mono always_step

/-- A step names the call and the operation that was next in it. -/
theorem step_cases {pool pool' : Pool ι S (Program L S A)} {e : ι × L} (step : Step pool e pool') :
    ∃ i label write next, pool.control i = .atomic label write next ∧ e = (i, label) ∧
      pool' = ⟨write pool.shared, Function.update pool.control i (next pool.shared)⟩ := by
  cases step with
  | move i h =>
      generalize hcontrol : pool.control i = p at h
      cases h with
      | atomic => exact ⟨i, _, _, _, hcontrol, rfl, rfl⟩
  | env h => exact h.elim

/-- The next step of a call, if it has not returned. -/
def next (i : ι) (pool : Pool ι S (Program L S A)) :
    Option ((ι × L) × Pool ι S (Program L S A)) :=
  match pool.control i with
  | .ret _ => none
  | .atomic label write next =>
      some ((i, label), ⟨write pool.shared, Function.update pool.control i (next pool.shared)⟩)

theorem step_of_next {i : ι} {pool pool' : Pool ι S (Program L S A)} {e : ι × L}
    (h : next i pool = some (e, pool')) : Step pool e pool' := by
  unfold next at h
  split at h
  · cases h
  · next hcontrol =>
      obtain ⟨rfl, rfl⟩ := Prod.mk.inj (Option.some.inj h)
      apply Pool.Step.move i
      rw [hcontrol]
      constructor

/-- A call without a next step has returned. -/
theorem returned_of_next {i : ι} {pool : Pool ι S (Program L S A)}
    (h : (next i pool).isNone = true) : ∃ a, pool.control i = .ret a := by
  unfold next at h
  split at h
  · next a hcontrol => exact ⟨a, hcontrol⟩
  · cases h

/-- A list of calls is a schedule: each entry lets that call take its next step. -/
theorem run_of_schedule {schedule : List ι} {start pool : Pool ι S (Program L S A)}
    {es : List (ι × L)} (h : perform next schedule start = some (es, pool)) :
    Run Step start es pool := run_of_perform step_of_next h

/-- The same where the operations have to be allowed. -/
theorem run_of_guarded {schedule : List ι} {start pool : Pool ι S (Program L S A)}
    {es : List (ι × L)} {allowed : ι → S → L → Prop} [∀ i s l, Decidable (allowed i s l)]
    (h : perform (guarded (fun pool e => decide (allowed e.1 pool.shared e.2)) next) schedule start
      = some (es, pool)) :
    Run (restrict Step (Allowed allowed)) start es pool := by
  have run : Run (restrict Step fun pool e => decide (allowed e.1 pool.shared e.2) = true)
      start es pool := run_of_perform (restrict_of_guarded step_of_next) h
  refine run.mono fun {pool e pool'} h => ⟨?_, h.2⟩
  exact of_decide_eq_true (p := allowed e.1 pool.shared e.2) h.1

/-- A call may take all its steps before any other does. -/
theorem run_to_end (i : ι) (pool : Pool ι S (Program L S A)) :
    ∃ es, Run Step pool es ⟨((pool.control i).run pool.shared).2,
      Function.update pool.control i (.ret ((pool.control i).run pool.shared).1)⟩ := by
  generalize hcontrol : pool.control i = p
  induction p generalizing pool with
  | ret a =>
      refine ⟨[], ?_⟩
      show Run Step pool [] ⟨pool.shared, Function.update pool.control i (.ret a)⟩
      rw [← hcontrol, Function.update_eq_self]
      exact .nil
  | atomic label write next ih =>
      obtain ⟨es, run⟩ := ih pool.shared
        ⟨write pool.shared, Function.update pool.control i (next pool.shared)⟩ (by simp)
      have first : Step pool (i, label)
          ⟨write pool.shared, Function.update pool.control i (next pool.shared)⟩ := by
        apply Pool.Step.move i
        rw [hcontrol]
        constructor
      simp only [Function.update_idem] at run
      exact ⟨_, run.cons first⟩

/-- Calls may run one after another, in any order. -/
theorem run_in_order {order : List ι} (hnodup : order.Nodup) (pool : Pool ι S (Program L S A)) :
    ∃ es pool', Run Step pool es pool' ∧
      pool'.shared = order.foldl (fun s i => ((pool.control i).run s).2) pool.shared ∧
      (∀ i ∈ order, ∃ a, pool'.control i = .ret a) ∧
      ∀ i ∉ order, pool'.control i = pool.control i := by
  induction order generalizing pool with
  | nil => exact ⟨[], pool, .nil, rfl, by simp, fun _ _ => rfl⟩
  | cons i rest ih =>
      obtain ⟨hi, hrest⟩ := List.nodup_cons.mp hnodup
      obtain ⟨es, first⟩ := run_to_end i pool
      obtain ⟨fs, pool', others, hshared, hreturned, hsame⟩ := ih hrest
        ⟨((pool.control i).run pool.shared).2,
          Function.update pool.control i (.ret ((pool.control i).run pool.shared).1)⟩
      refine ⟨es ++ fs, pool', first.trans others, ?_, ?_, ?_⟩
      · rw [hshared, List.foldl_cons]
        refine List.foldl_ext _ _ _ fun s j hj => ?_
        have hne : j ≠ i := fun h => hi (h ▸ hj)
        show ((Function.update pool.control i _ j).run s).2 = _
        rw [Function.update_of_ne hne]
      · intro j hj
        rcases List.mem_cons.mp hj with rfl | hj
        · exact ⟨_, (hsame j hi).trans (Function.update_self _ _ _)⟩
        · exact hreturned j hj
      · intro j hj
        obtain ⟨hne, hj⟩ := List.ne_and_not_mem_of_not_mem_cons hj
        exact (hsame j hj).trans (Function.update_of_ne hne _ _)

/-! ### Contracts -/

end Program

/-- What a call relies on, what it guarantees and what holds when it returns. -/
structure Contract (S : Type v) (A : Type w) where
  rely : S → S → Prop
  guar : S → S → Prop
  post : A → S → Prop
  refl : ∀ s, rely s s
  trans : ∀ {s t u}, rely s t → rely t u → rely s u

/-- The contract with one thing more to hold at the end. -/
def Contract.and {S : Type v} {A : Type w} (c : Contract S A) (P : S → Prop) : Contract S A where
  rely := c.rely
  guar := c.guar
  post a s := c.post a s ∧ P s
  refl := c.refl
  trans := c.trans

namespace Program

variable {L : Type u} {S : Type v} {A B : Type w}
variable {allowed : S → L → Prop} {c : Contract S A} {s t : S}

/-- From this state on the call keeps its contract. -/
def Meets (c : Contract S A) (allowed : S → L → Prop) : Program L S A → S → Prop
  | ret a, s => ∀ t, c.rely s t → c.post a t
  | atomic label write next, s =>
      ∀ t, c.rely s t → allowed t label → c.guar t (write t) ∧ Meets c allowed (next t) (write t)

namespace Meets

theorem stable {p : Program L S A} (h : Meets c allowed p s) (hrely : c.rely s t) :
    Meets c allowed p t := by
  cases p with
  | ret a => exact fun u htu => h u (c.trans hrely htu)
  | atomic label write next => exact fun u htu => h u (c.trans hrely htu)

theorem ret {a : A} (h : ∀ t, c.rely s t → c.post a t) : Meets c allowed (.ret a) s := h

theorem pure {a : A} (h : ∀ t, c.rely s t → c.post a t) : Meets c allowed (pure a) s := h

/-- An operation and what follows it. -/
theorem act {label : L} {f : S → B × S} {k : B → Program L S A}
    (h : ∀ t, c.rely s t → allowed t label →
      c.guar t (f t).2 ∧ Meets c allowed (k (f t).1) (f t).2) :
    Meets c allowed (Program.act label f >>= k) s := h

/-- A last operation. -/
theorem last {label : L} {f : S → A × S}
    (h : ∀ t, c.rely s t → allowed t label →
      c.guar t (f t).2 ∧ ∀ u, c.rely (f t).2 u → c.post (f t).1 u) :
    Meets c allowed (Program.act label f) s := h

/-- A reading operation and what follows it. -/
theorem read {label : L} {f : S → B} {k : B → Program L S A}
    (h : ∀ t, c.rely s t → c.guar t t ∧ Meets c allowed (k (f t)) t) :
    Meets c allowed (Program.read label f >>= k) s := fun t hst _ => h t hst

/-- A call within a call. -/
theorem bind {c' : Contract S B} {p : Program L S B} {k : B → Program L S A}
    (hrely : ∀ s t, c.rely s t → c'.rely s t) (hguar : ∀ s t, c'.guar s t → c.guar s t)
    (h : Meets c' allowed p s) (hnext : ∀ b t, c'.post b t → Meets c allowed (k b) t) :
    Meets c allowed (p >>= k) s := by
  induction p generalizing s with
  | ret b => exact hnext b s (h s (c'.refl s))
  | atomic label write next ih =>
      intro t hst hallowed
      obtain ⟨hg, hn⟩ := h t (hrely s t hst) hallowed
      exact ⟨hguar _ _ hg, ih t hn⟩

/-- A weaker postcondition. -/
theorem weaken {c' : Contract S A} {p : Program L S A} (h : Meets c allowed p s)
    (hpost : ∀ a t, c.post a t → c'.post a t)
    (hrely : ∀ s t, c'.rely s t → c.rely s t := by exact fun _ _ h => h)
    (hguar : ∀ s t, c.guar s t → c'.guar s t := by exact fun _ _ h => h) :
    Meets c' allowed p s := by
  induction p generalizing s with
  | ret a => exact fun t hst => hpost a t (h t (hrely s t hst))
  | atomic label write next ih =>
      intro t hst hallowed
      obtain ⟨hg, hn⟩ := h t (hrely s t hst) hallowed
      exact ⟨hguar _ _ hg, ih t hn⟩

/-- What neither the call nor the others undo holds when the call returns. -/
theorem frame {P : S → Prop} {p : Program L S A} (hrely : ∀ s t, c.rely s t → P s → P t)
    (hguar : ∀ s t, c.guar s t → P s → P t) (hs : P s) (h : Meets c allowed p s) :
    Meets (c.and P) allowed p s := by
  induction p generalizing s with
  | ret a => exact fun t hst => ⟨h t hst, hrely s t hst hs⟩
  | atomic label write next ih =>
      intro t hst hallowed
      obtain ⟨hg, hn⟩ := h t hst hallowed
      exact ⟨hg, ih t (hguar _ _ hg (hrely s t hst hs)) hn⟩

end Meets

variable {ι : Type*} [DecidableEq ι] {allowed : ι → S → L → Prop} {c : ι → Contract S A}

/-- Contracts met at the start stay met along every run. -/
theorem meets_of_run {start pool : Pool ι S (Program L S A)} {es : List (ι × L)}
    (compatible : ∀ i j, i ≠ j → ∀ s t, (c i).guar s t → (c j).rely s t)
    (hstart : ∀ i, Meets (c i) (allowed i) (start.control i) start.shared)
    (run : Run (restrict Step (Allowed allowed)) start es pool) :
    ∀ i, Meets (c i) (allowed i) (pool.control i) pool.shared := by
  refine run.state_invariant (P := fun pool =>
    ∀ i, Meets (c i) (allowed i) (pool.control i) pool.shared) hstart ?_
  rintro pool ⟨i, label⟩ pool' h ⟨hallowed, step⟩ j
  obtain ⟨i, label, write, next, hcontrol, heq, rfl⟩ := step_cases step
  cases heq
  have hi := h i
  rw [hcontrol] at hi
  obtain ⟨hguar, hnext⟩ := hi pool.shared ((c i).refl _) hallowed
  by_cases hj : j = i
  · subst hj
    simpa using hnext
  · simpa [Function.update_of_ne hj] using
      (h j).stable (compatible i j (Ne.symm hj) _ _ hguar)

/-- A step along such a run is one of the call it names and keeps that call's guarantee. -/
theorem guar_of_step {start pool pool' : Pool ι S (Program L S A)} {es : List (ι × L)} {e : ι × L}
    (compatible : ∀ i j, i ≠ j → ∀ s t, (c i).guar s t → (c j).rely s t)
    (hstart : ∀ i, Meets (c i) (allowed i) (start.control i) start.shared)
    (run : Run (restrict Step (Allowed allowed)) start es pool)
    (step : restrict Step (Allowed allowed) pool e pool') :
    (c e.1).guar pool.shared pool'.shared := by
  obtain ⟨hallowed, step⟩ := step
  obtain ⟨i, label, write, next, hcontrol, rfl, rfl⟩ := step_cases step
  have hi := meets_of_run compatible hstart run i
  rw [hcontrol] at hi
  exact (hi pool.shared ((c i).refl _) hallowed).1

/-- What every guarantee preserves holds along every run. -/
theorem invariant_of_run {I : S → Prop} {start pool : Pool ι S (Program L S A)}
    {es : List (ι × L)} (compatible : ∀ i j, i ≠ j → ∀ s t, (c i).guar s t → (c j).rely s t)
    (hstart : ∀ i, Meets (c i) (allowed i) (start.control i) start.shared)
    (initial : I start.shared) (preserved : ∀ i s t, I s → (c i).guar s t → I t)
    (run : Run (restrict Step (Allowed allowed)) start es pool) : I pool.shared := by
  refine run.invariant (P := fun _ pool => I pool.shared) initial ?_
  intro es pool e pool' run ih step
  exact preserved e.1 _ _ ih (guar_of_step compatible hstart run step)

/-- The postcondition of a call that has returned. -/
theorem post_of_run {start pool : Pool ι S (Program L S A)} {es : List (ι × L)}
    (compatible : ∀ i j, i ≠ j → ∀ s t, (c i).guar s t → (c j).rely s t)
    (hstart : ∀ i, Meets (c i) (allowed i) (start.control i) start.shared)
    (run : Run (restrict Step (Allowed allowed)) start es pool) {i : ι} {a : A}
    (returned : pool.control i = .ret a) : (c i).post a pool.shared := by
  have := meets_of_run compatible hstart run i
  rw [returned] at this
  exact this _ ((c i).refl _)

end Program

end Transition
