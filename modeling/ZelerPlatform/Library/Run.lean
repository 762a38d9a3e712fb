import Mathlib.Logic.Function.Basic

/-!
# Runs of labelled transition systems and of processes over shared state

A `Run` lists the labels of its steps in the order in which they were taken, so a
property of a run may speak of everything that has happened. `Run.invariant` is the
induction every safety proof uses; `Run.restrict` is the same system in which only the
steps meeting a condition are taken.

A `Pool` is any number of processes over one shared state. A process moves by a local
step that reads and writes the shared state and changes its own control state only;
the environment moves the shared state alone. `Pool.invariant` asks of an assertion for
each control state that it survives the own step and the steps of everyone else.
-/

namespace Transition

variable {σ ε : Type*} {step : σ → ε → σ → Prop} {s t u : σ} {es fs : List ε}

/-- A finite run from `s`. -/
inductive Run (step : σ → ε → σ → Prop) (s : σ) : List ε → σ → Prop
  | nil : Run step s [] s
  | snoc {es t e u} (run : Run step s es t) (last : step t e u) : Run step s (es ++ [e]) u

/-- The steps that also meet a condition on the state before them. -/
def restrict (step : σ → ε → σ → Prop) (allowed : σ → ε → Prop) (s : σ) (e : ε) (t : σ) : Prop :=
  allowed s e ∧ step s e t

namespace Run

/-- A property of the past labels and the current state holds along every run once it
holds at the start and every step that a run can take preserves it. -/
theorem invariant {P : List ε → σ → Prop} (start : P [] s)
    (preserved : ∀ {es t e u}, Run step s es t → P es t → step t e u → P (es ++ [e]) u)
    (run : Run step s es t) : P es t := by
  induction run with
  | nil => exact start
  | snoc run last ih => exact preserved run ih last

theorem state_invariant {P : σ → Prop} (start : P s)
    (preserved : ∀ {t e u}, P t → step t e u → P u) (run : Run step s es t) : P t :=
  run.invariant (P := fun _ t => P t) start (fun _ h last => preserved h last)

theorem mono {step' : σ → ε → σ → Prop} (weaker : ∀ {t e u}, step t e u → step' t e u)
    (run : Run step s es t) : Run step' s es t := by
  induction run with
  | nil => exact .nil
  | snoc _ last ih => exact ih.snoc (weaker last)

theorem trans (first : Run step s es t) (second : Run step t fs u) :
    Run step s (es ++ fs) u := by
  induction second with
  | nil => simpa using first
  | snoc _ last ih =>
      rw [← List.append_assoc]
      exact ih.snoc last

theorem single {e : ε} (h : step s e t) : Run step s [e] t := Run.nil.snoc h

theorem cons {e : ε} (first : step s e t) (run : Run step t es u) : Run step s (e :: es) u :=
  (single first).trans run

/-- Every label of a run is that of a step. -/
theorem step_of_mem {e : ε} (run : Run step s es t) (mem : e ∈ es) : ∃ u v, step u e v := by
  induction run with
  | nil => cases mem
  | snoc _ last ih =>
      obtain hold | hlast := List.mem_append.mp mem
      · exact ih hold
      · obtain rfl := List.mem_singleton.mp hlast
        exact ⟨_, _, last⟩

theorem unrestrict {allowed : σ → ε → Prop} (run : Run (restrict step allowed) s es t) :
    Run step s es t := run.mono And.right

end Run

/-! ### Schedules

Where each step is named by an action and can be computed, a list of actions is a run. -/

/-- The labels and the last state of a list of actions, each of which must be possible. -/
def perform {α : Type*} (next : α → σ → Option (ε × σ)) : List α → σ → Option (List ε × σ)
  | [], s => some ([], s)
  | a :: rest, s =>
      (next a s).bind fun (e, t) => (perform next rest t).map fun (es, u) => (e :: es, u)

theorem run_of_perform {α : Type*} {next : α → σ → Option (ε × σ)}
    (sound : ∀ {a s e t}, next a s = some (e, t) → step s e t) {actions : List α}
    (h : perform next actions s = some (es, t)) : Run step s es t := by
  induction actions generalizing s es with
  | nil =>
      obtain ⟨rfl, rfl⟩ : [] = es ∧ s = t := by simpa [perform] using h
      exact .nil
  | cons a rest ih =>
      obtain ⟨⟨e, u⟩, hnext, hrest⟩ := Option.bind_eq_some_iff.mp h
      obtain ⟨⟨fs, v⟩, hperform, heq⟩ := Option.map_eq_some_iff.mp hrest
      obtain ⟨rfl, rfl⟩ := Prod.mk.inj heq
      exact (ih hperform).cons (sound hnext)

/-- The actions whose step meets a condition. -/
def guarded {α : Type*} (allowed : σ → ε → Bool) (next : α → σ → Option (ε × σ)) (a : α) (s : σ) :
    Option (ε × σ) :=
  (next a s).filter fun result => allowed s result.1

theorem restrict_of_guarded {α : Type*} {allowed : σ → ε → Bool} {next : α → σ → Option (ε × σ)}
    (sound : ∀ {a s e t}, next a s = some (e, t) → step s e t) {a : α} {e : ε}
    (h : guarded allowed next a s = some (e, t)) :
    restrict step (fun s e => allowed s e = true) s e t := by
  obtain ⟨hnext, hallowed⟩ := Option.filter_eq_some_iff.mp h
  exact ⟨hallowed, sound hnext⟩

/-! ### Processes over shared state -/

/-- The shared state and the control state of each process. -/
structure Pool (ι D P : Type*) where
  shared : D
  control : ι → P

namespace Pool

variable {ι D P : Type*} [DecidableEq ι]

/-- One process takes a local step, or the environment moves. -/
inductive Step (move : ι → P → D → ε → P → D → Prop) (env : D → ε → D → Prop) :
    Pool ι D P → ε → Pool ι D P → Prop
  | move {pool : Pool ι D P} {e : ε} (i : ι) {p : P} {d : D}
      (h : move i (pool.control i) pool.shared e p d) :
      Step move env pool e ⟨d, Function.update pool.control i p⟩
  | env {pool : Pool ι D P} {e : ε} {d : D} (h : env pool.shared e d) :
      Step move env pool e ⟨d, pool.control⟩

variable {move : ι → P → D → ε → P → D → Prop} {env : D → ε → D → Prop}
variable {start pool : Pool ι D P}

/-- A run goes on with a step of one process. -/
theorem run_move (run : Run (Step move env) start es pool) (i : ι) {p p' : P} {e : ε} {d : D}
    (control : pool.control i = p) (h : move i p pool.shared e p' d) :
    Run (Step move env) start (es ++ [e]) ⟨d, Function.update pool.control i p'⟩ :=
  run.snoc (.move i (control ▸ h))

/-- The same where steps have to meet a condition. -/
theorem run_move_restrict {allowed : Pool ι D P → ε → Prop}
    (run : Run (restrict (Step move env) allowed) start es pool) (i : ι) {p p' : P} {e : ε} {d : D}
    (control : pool.control i = p) (h : move i p pool.shared e p' d) (meets : allowed pool e) :
    Run (restrict (Step move env) allowed) start (es ++ [e])
      ⟨d, Function.update pool.control i p'⟩ :=
  run.snoc ⟨meets, .move i (control ▸ h)⟩

/-- The shared state meets `I`, and every process its assertion `L`, along every run once
both hold at the start, a process's own step restores them, and nobody else's step
breaks the assertion of a process. -/
theorem invariant {I : D → Prop} {L : ι → P → D → Prop}
    (shared : I start.shared) (control : ∀ i, L i (start.control i) start.shared)
    (own : ∀ {i p d e p' d'}, I d → L i p d → move i p d e p' d' → I d' ∧ L i p' d')
    (other : ∀ {i j p q d e p' d'}, i ≠ j → I d → L i p d → L j q d →
      move i p d e p' d' → L j q d')
    (outside : ∀ {d e d'}, I d → env d e d' → I d')
    (outside_control : ∀ {j q d e d'}, I d → L j q d → env d e d' → L j q d')
    (run : Run (Step move env) start es pool) :
    I pool.shared ∧ ∀ i, L i (pool.control i) pool.shared := by
  refine run.state_invariant (P := fun pool =>
    I pool.shared ∧ ∀ i, L i (pool.control i) pool.shared) ⟨shared, control⟩ ?_
  rintro t e u ⟨hshared, hcontrol⟩ hstep
  cases hstep with
  | move i h =>
      have hown := own hshared (hcontrol i) h
      refine ⟨hown.1, fun j => ?_⟩
      by_cases hj : j = i
      · subst hj
        simpa using hown.2
      · simpa [Function.update_of_ne hj] using
          other (Ne.symm hj) hshared (hcontrol i) (hcontrol j) h
  | env h => exact ⟨outside hshared h, fun j => outside_control hshared (hcontrol j) h⟩

end Pool

end Transition
