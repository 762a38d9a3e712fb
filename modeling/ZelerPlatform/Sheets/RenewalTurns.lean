import Mathlib.Data.Finset.Basic
import Mathlib.Data.Int.Order.Basic

/-!
# Renewal passes take turns

The planner reads which passes of the current slot and of the one before exist, and from them
whose turn it is. A seller with a pass in flight keeps the turn; otherwise the sellers are tried in
order until one is admitted. Workers move the passes at any time, and a pass that has ended is not
reopened.
-/

namespace ZelerPlatform.Sheets.Renewals

/-! ### Passes -/

inductive PassState
  | pending
  | running
  | completed
  | failed
  deriving DecidableEq, Repr

def PassState.inFlight : PassState → Bool
  | pending | running => true
  | completed | failed => false

/-- The sweeps of `RENEWAL_SWEEP_READ_MODELS`; each has a read model of its own. -/
inductive Sweep
  | buybox
  | enrichment
  deriving DecidableEq, Repr

/-- What `slot_key` makes a key of. -/
structure SlotKey where
  seller : String
  sweep : Sweep
  slot : Int
  deriving DecidableEq, Repr

abbrev Passes := List (SlotKey × PassState)

/-- What workers make of the states; a pass that has ended stays so. -/
structure Workers where
  move : SlotKey → PassState → PassState
  ended : ∀ key state, state.inFlight = false → (move key state).inFlight = false

/-- What comes of an enqueue: an error, an active job that has the identities already, the pass, or
a timeout on one side of the commit. -/
inductive Enqueue
  | rejected
  | coalesced
  | committed
  | timedOutBefore
  | timedOutAfter
  deriving DecidableEq, Repr

/-- What one access of the planner meets: what the workers did since the one before, the clock,
whether a read fails, another explicit-ID pass of the model, the identities that are due, and the
enqueue. -/
structure Moment where
  workers : Workers
  now : Int
  fails : Bool
  otherInFlight : Bool
  due : Option (List String)
  enqueue : Enqueue

structure Planner where
  sweeps : List (Sweep × Int)
  allowedSellers : Option (List String)
  positive : ∀ sweep ∈ sweeps, 0 < sweep.2 ∧ sweep.2 ≤ 43200000000

/-- The jobs, the memory of the planner, the passes that were stored and the states of the jobs so
far; `tick` counts the accesses of a call. -/
structure World where
  passes : Passes
  settled : List ((String × Sweep) × Int)
  created : List SlotKey
  journal : List Passes
  tick : Nat

/-- `RENEWAL_SLOT_ORIGIN`. -/
def renewalSlotOrigin : Int := 1767229200000000

/-- `renewal_slot`. -/
def renewalSlot (now interval : Int) : Int :=
  renewalSlotOrigin + interval * ((now - renewalSlotOrigin) / interval)

/-! ### Accesses -/

def World.record (w : World) (passes : Passes) : World :=
  { w with passes := passes, journal := w.journal ++ [passes] }

/-- The jobs when the next access reaches them. -/
def World.wait (w : World) (moment : Moment) : World :=
  { w.record (w.passes.map fun pass => (pass.1, moment.workers.move pass.1 pass.2)) with
    tick := w.tick + 1 }

/-- A new pass, unless the slot has one. -/
def World.store (w : World) (key : SlotKey) : World :=
  if w.passes.any (·.1 = key) then w
  else { w.record (w.passes ++ [(key, .pending)]) with created := w.created ++ [key] }

def World.settle (w : World) (seller : String) (sweep : Sweep) (slot : Int) : World :=
  { w with settled := ((seller, sweep), slot) :: w.settled }

/-- `_admit`. -/
def admitPass (moments : Nat → Moment) (key : SlotKey) (w : World) : Bool × World :=
  let moment := moments w.tick
  let w := w.wait moment
  match moment.enqueue with
  | .rejected | .timedOutBefore => (false, w)
  | .coalesced => (true, w)
  | .committed => (true, w.store key)
  | .timedOutAfter => (false, w.store key)

/-- `_plan_renewal_sweep`. -/
def planRenewalSweep (moments : Nat → Moment) (seller : String) (sweep : Sweep × Int) (w : World) :
    Bool × World :=
  let slot := renewalSlot (moments w.tick).now sweep.2
  if w.settled.lookup (seller, sweep.1) = some slot then (false, w)
  else
    let status := moments w.tick
    let w := w.wait status
    if status.fails then (false, w)
    else if status.otherInFlight || w.passes.any (fun pass =>
        pass.1.seller = seller && pass.1.sweep = sweep.1 && pass.2.inFlight) then (false, w)
    else if w.passes.any (·.1 = ⟨seller, sweep.1, slot⟩) then
      (false, w.settle seller sweep.1 slot)
    else
      let selection := moments w.tick
      let w := w.wait selection
      match selection.due with
      | none => (false, w)
      | some [] => (false, w.settle seller sweep.1 slot)
      | some _ =>
          match admitPass moments ⟨seller, sweep.1, slot⟩ w with
          | (true, w) => (true, w.settle seller sweep.1 slot)
          | (false, w) => (false, w)

/-- The sweeps of one seller. -/
def planSweeps (moments : Nat → Moment) (seller : String) :
    List (Sweep × Int) → World → Bool × World
  | [], w => (false, w)
  | sweep :: rest, w =>
      let (first, w) := planRenewalSweep moments seller sweep w
      let (others, w) := planSweeps moments seller rest w
      (first || others, w)

/-- The sellers in the order of their turns; without a holder the first one that is admitted ends
the round. -/
def planSellers (moments : Nat → Moment) (sweeps : List (Sweep × Int)) (held : Bool) :
    List String → World → Bool × World
  | [], w => (false, w)
  | seller :: rest, w =>
      let (admitted, w) := planSweeps moments seller sweeps w
      if admitted && !held then (true, w)
      else
        let (others, w) := planSellers moments sweeps held rest w
        (admitted || others, w)

/-- Whether a pass is of the current slot of its sweep, or of the one before. -/
def ofSlot (sweeps : List (Sweep × Int)) (now : Int) (previous : Bool) (key : SlotKey) : Bool :=
  sweeps.any fun sweep => sweep.1 = key.sweep &&
    key.slot = renewalSlot now sweep.2 - (if previous then sweep.2 else 0)

/-- The sellers with a pass in flight among those that are read. -/
def holders (sweeps : List (Sweep × Int)) (sellers : List String) (now : Int) (passes : Passes) :
    List String :=
  sellers.filter fun seller => passes.any fun pass => pass.1.seller = seller && pass.2.inFlight &&
    (ofSlot sweeps now false pass.1 || ofSlot sweeps now true pass.1)

/-- The sellers with a pass in the previous slot. -/
def reached (sweeps : List (Sweep × Int)) (now : Int) (passes : Passes) (seller : String) : Bool :=
  passes.any fun pass => pass.1.seller = seller && ofSlot sweeps now true pass.1

def candidates (sweeps : List (Sweep × Int)) (sellers : List String) (now : Int)
    (passes : Passes) : List String :=
  match holders sweeps sellers now passes with
  | [] => sellers.filter (fun seller => !reached sweeps now passes seller) ++
      sellers.filter (reached sweeps now passes)
  | holding => holding

def Planner.sellers (planner : Planner) (sellerIds : List String) : List String :=
  (sellerIds.filter fun seller => planner.allowedSellers.all (seller ∈ ·)).eraseDups

/-- `plan_renewals`. -/
def planRenewals (planner : Planner) (sellerIds : List String) (moments : Nat → Moment)
    (w : World) : Bool × World :=
  let w := { w with tick := 0 }
  let sellers := planner.sellers sellerIds
  if planner.sweeps = [] ∨ sellers = [] then (false, w)
  else
    let turn := moments 0
    let w := w.wait turn
    if turn.fails then (false, w)
    else planSellers moments planner.sweeps
      (!(holders planner.sweeps sellers turn.now w.passes).isEmpty)
      (candidates planner.sweeps sellers turn.now w.passes) w

/-! ### Turns -/

/-- At most one seller has passes in flight. -/
def OneSeller (passes : Passes) : Prop :=
  ∀ p ∈ passes, ∀ q ∈ passes, p.2.inFlight = true → q.2.inFlight = true →
    p.1.seller = q.1.seller

/-- The passes in flight are all of one seller. -/
def OnlyBy (seller : String) (passes : Passes) : Prop :=
  ∀ p ∈ passes, p.2.inFlight = true → p.1.seller = seller

def Idle (passes : Passes) : Prop := ∀ p ∈ passes, p.2.inFlight = false

/-- What holds between the accesses: one seller at a time at every moment so far, each slot stored
once, and no pass in flight for a seller that is not planned. -/
structure Sound (sellers : List String) (w : World) : Prop where
  current : OneSeller w.passes
  journal : ∀ passes ∈ w.journal, OneSeller passes
  once : w.created.Nodup
  known : ∀ key ∈ w.created, key ∈ w.passes.map Prod.fst
  ours : ∀ p ∈ w.passes, p.2.inFlight = true → p.1.seller ∈ sellers

section

variable {sellers : List String} {seller : String} {w : World} {moment : Moment}
variable {moments : Nat → Moment} {key : SlotKey} {passes : Passes}

theorem OnlyBy.oneSeller (h : OnlyBy seller passes) : OneSeller passes :=
  fun p hp q hq hpf hqf => (h p hp hpf).trans (h q hq hqf).symm

theorem Idle.onlyBy (h : Idle passes) : OnlyBy seller passes := by
  intro p hp hflight
  rw [h p hp] at hflight
  cases hflight

theorem OneSeller.onlyBy (h : OneSeller passes) {p : SlotKey × PassState} (mem : p ∈ passes)
    (flight : p.2.inFlight = true) : OnlyBy p.1.seller passes :=
  fun q hq hqf => h q hq p mem hqf flight

/-- What is in flight after the workers was in flight before. -/
theorem mem_wait {p : SlotKey × PassState} (mem : p ∈ (w.wait moment).passes)
    (flight : p.2.inFlight = true) : ∃ q ∈ w.passes, q.1 = p.1 ∧ q.2.inFlight = true := by
  obtain ⟨q, hq, rfl⟩ := List.mem_map.mp mem
  refine ⟨q, hq, rfl, ?_⟩
  by_contra hended
  rw [moment.workers.ended q.1 q.2 (Bool.eq_false_iff.mpr hended)] at flight
  cases flight

theorem OnlyBy.wait (h : OnlyBy seller w.passes) : OnlyBy seller (w.wait moment).passes := by
  intro p hp hflight
  obtain ⟨q, hq, hkey, hqf⟩ := mem_wait hp hflight
  rw [← hkey]
  exact h q hq hqf

theorem Idle.wait (h : Idle w.passes) : Idle (w.wait moment).passes := by
  intro p hp
  by_contra hflight
  obtain ⟨q, hq, -, hqf⟩ := mem_wait hp (Bool.eq_true_of_not_eq_false hflight)
  rw [h q hq] at hqf
  cases hqf

theorem Sound.wait (h : Sound sellers w) : Sound sellers (w.wait moment) := by
  have hcurrent : OneSeller (w.wait moment).passes := by
    intro p hp q hq hpf hqf
    obtain ⟨p', hp', hkeyP, hpf'⟩ := mem_wait hp hpf
    obtain ⟨q', hq', hkeyQ, hqf'⟩ := mem_wait hq hqf
    rw [← hkeyP, ← hkeyQ]
    exact h.current p' hp' q' hq' hpf' hqf'
  refine ⟨hcurrent, ?_, h.once, ?_, ?_⟩
  · intro passes mem
    obtain mem | mem := List.mem_append.mp mem
    · exact h.journal passes mem
    · exact List.mem_singleton.mp mem ▸ hcurrent
  · intro key mem
    obtain ⟨p, hp, rfl⟩ := List.mem_map.mp (h.known key mem)
    exact List.mem_map.mpr ⟨_, List.mem_map_of_mem hp, rfl⟩
  · intro p hp hflight
    obtain ⟨q, hq, hkey, hqf⟩ := mem_wait hp hflight
    rw [← hkey]
    exact h.ours q hq hqf

/-- Sound, with one seller's passes in flight. -/
structure Held (sellers : List String) (seller : String) (w : World) : Prop extends
    Sound sellers w where
  onlyBy : OnlyBy seller w.passes
  planned : seller ∈ sellers

theorem Held.wait (h : Held sellers seller w) : Held sellers seller (w.wait moment) :=
  ⟨h.toSound.wait, h.onlyBy.wait, h.planned⟩

theorem Held.settle (h : Held sellers seller w) {sweep : Sweep} {slot : Int} :
    Held sellers seller (w.settle seller sweep slot) :=
  ⟨⟨h.current, h.journal, h.once, h.known, h.ours⟩, h.onlyBy, h.planned⟩

theorem Held.store (h : Held sellers seller w) (owner : key.seller = seller) :
    Held sellers seller (w.store key) := by
  rw [World.store]
  split
  case isTrue => exact h
  case isFalse hnew =>
      have honly : OnlyBy seller (w.passes ++ [(key, .pending)]) := by
        intro p hp hflight
        obtain hp | hp := List.mem_append.mp hp
        · exact h.onlyBy p hp hflight
        · obtain rfl := List.mem_singleton.mp hp
          exact owner
      refine ⟨⟨honly.oneSeller, ?_, ?_, ?_, ?_⟩, honly, h.planned⟩
      · intro passes mem
        obtain mem | mem := List.mem_append.mp mem
        · exact h.journal passes mem
        · exact List.mem_singleton.mp mem ▸ honly.oneSeller
      · refine List.nodup_append.mpr ⟨h.once, List.nodup_singleton key, ?_⟩
        rintro k hk _ hkey rfl
        obtain rfl := List.mem_singleton.mp hkey
        obtain ⟨p, hp, hpk⟩ := List.mem_map.mp (h.known _ hk)
        exact hnew (List.any_eq_true.mpr ⟨p, hp, decide_eq_true hpk⟩)
      · intro k hk
        show k ∈ (w.passes ++ [(key, PassState.pending)]).map Prod.fst
        rw [List.map_append, List.mem_append]
        obtain hk | hk := List.mem_append.mp hk
        · exact .inl (h.known k hk)
        · exact .inr hk
      · intro p hp hflight
        rw [honly p hp hflight]
        exact h.planned

/-! ### One seller -/

theorem Held.admitPass (h : Held sellers seller w) (owner : key.seller = seller) :
    Held sellers seller (admitPass moments key w).2 := by
  rw [Renewals.admitPass]
  cases (moments w.tick).enqueue with
  | rejected => exact h.wait
  | coalesced => exact h.wait
  | committed => exact h.wait.store owner
  | timedOutBefore => exact h.wait
  | timedOutAfter => exact h.wait.store owner

/-- An enqueue that stores its pass reports it. -/
def Prompt (moments : Nat → Moment) : Prop := ∀ i, (moments i).enqueue ≠ .timedOutAfter

theorem idle_admitPass (prompt : Prompt moments) (idle : Idle w.passes)
    (refused : (admitPass moments key w).1 = false) : Idle (admitPass moments key w).2.passes := by
  have hprompt := prompt w.tick
  rw [admitPass] at refused ⊢
  revert refused
  cases henqueue : (moments w.tick).enqueue with
  | rejected => exact fun _ => idle.wait
  | coalesced => exact fun h => Bool.noConfusion h
  | committed => exact fun h => Bool.noConfusion h
  | timedOutBefore => exact fun _ => idle.wait
  | timedOutAfter => exact absurd henqueue hprompt

/-- What one sweep of a seller does. -/
inductive Swept (moments : Nat → Moment) (seller : String) (sweep : Sweep) (w : World) :
    Bool × World → Prop
  | known : Swept moments seller sweep w (false, w)
  | read (status : Moment) : Swept moments seller sweep w (false, w.wait status)
  | taken (status : Moment) (slot : Int) :
      Swept moments seller sweep w (false, (w.wait status).settle seller sweep slot)
  | unselected (status selection : Moment) :
      Swept moments seller sweep w (false, (w.wait status).wait selection)
  | nothingDue (status selection : Moment) (slot : Int) : Swept moments seller sweep w
      (false, ((w.wait status).wait selection).settle seller sweep slot)
  | admitted (status selection : Moment) (slot : Int) (w' : World)
      (result : admitPass moments ⟨seller, sweep, slot⟩ ((w.wait status).wait selection) =
        (true, w')) : Swept moments seller sweep w (true, w'.settle seller sweep slot)
  | refused (status selection : Moment) (slot : Int) (w' : World)
      (result : admitPass moments ⟨seller, sweep, slot⟩ ((w.wait status).wait selection) =
        (false, w')) : Swept moments seller sweep w (false, w')

theorem swept_planRenewalSweep (moments : Nat → Moment) (seller : String) (sweep : Sweep × Int)
    (w : World) : Swept moments seller sweep.1 w (planRenewalSweep moments seller sweep w) := by
  simp only [planRenewalSweep]
  split
  case isTrue => exact .known
  case isFalse =>
      split
      case isTrue => exact .read _
      case isFalse =>
          split
          case isTrue => exact .read _
          case isFalse =>
              split
              case isTrue => exact .taken _ _
              case isFalse =>
                  split
                  case h_1 => exact .unselected _ _
                  case h_2 => exact .nothingDue _ _ _
                  case h_3 =>
                      split
                      case h_1 w' result => exact .admitted _ _ _ w' result
                      case h_2 w' result => exact .refused _ _ _ w' result

theorem Held.afterSweep {sweep : Sweep} {result : Bool × World} (h : Held sellers seller w)
    (swept : Swept moments seller sweep w result) : Held sellers seller result.2 := by
  cases swept with
  | known => exact h
  | read status => exact h.wait
  | taken status slot => exact h.wait.settle
  | unselected status selection => exact h.wait.wait
  | nothingDue status selection slot => exact h.wait.wait.settle
  | admitted status selection slot w' result =>
      have hadmit : Held sellers seller (Renewals.admitPass moments ⟨seller, sweep, slot⟩
        ((w.wait status).wait selection)).2 := h.wait.wait.admitPass rfl
      rw [result] at hadmit
      exact hadmit.settle
  | refused status selection slot w' result =>
      have hadmit : Held sellers seller (Renewals.admitPass moments ⟨seller, sweep, slot⟩
        ((w.wait status).wait selection)).2 := h.wait.wait.admitPass rfl
      rw [result] at hadmit
      exact hadmit

theorem idle_swept {sweep : Sweep} {result : Bool × World} (prompt : Prompt moments)
    (idle : Idle w.passes) (swept : Swept moments seller sweep w result)
    (unplanned : result.1 = false) : Idle result.2.passes := by
  cases swept with
  | known => exact idle
  | read status => exact idle.wait
  | taken status slot =>
      show Idle (w.wait status).passes
      exact idle.wait
  | unselected status selection => exact idle.wait.wait
  | nothingDue status selection slot =>
      show Idle ((w.wait status).wait selection).passes
      exact idle.wait.wait
  | admitted status selection slot w' result => cases unplanned
  | refused status selection slot w' result =>
      have hidle : Idle ((w.wait status).wait selection).passes := idle.wait.wait
      have hadmit := idle_admitPass prompt hidle (congrArg Prod.fst result)
      rw [result] at hadmit
      exact hadmit

theorem Held.planSweeps (h : Held sellers seller w) (sweeps : List (Sweep × Int)) :
    Held sellers seller (planSweeps moments seller sweeps w).2 := by
  induction sweeps generalizing w with
  | nil => exact h
  | cons sweep rest ih => exact ih (h.afterSweep (swept_planRenewalSweep moments seller sweep w))

theorem idle_planSweeps {sweeps : List (Sweep × Int)} (prompt : Prompt moments)
    (idle : Idle w.passes) (unplanned : (planSweeps moments seller sweeps w).1 = false) :
    Idle (planSweeps moments seller sweeps w).2.passes := by
  induction sweeps generalizing w with
  | nil => exact idle
  | cons sweep rest ih =>
      obtain ⟨hfirst, hrest⟩ := Bool.or_eq_false_iff.mp unplanned
      exact ih (idle_swept prompt idle (swept_planRenewalSweep moments seller sweep w) hfirst)
        hrest

/-! ### A round -/

/-- With a holder only its own sweeps are planned. -/
theorem Held.planSellers {order : List String} {sweeps : List (Sweep × Int)}
    (h : Held sellers seller w) (own : ∀ other ∈ order, other = seller) :
    Held sellers seller (planSellers moments sweeps true order w).2 := by
  induction order generalizing w with
  | nil => exact h
  | cons other rest ih =>
      obtain rfl := own other List.mem_cons_self
      have hnext : Held sellers other (Renewals.planSweeps moments other sweeps w).2 :=
        h.planSweeps sweeps
      have hrest := ih hnext fun o mem => own o (List.mem_cons_of_mem _ mem)
      rw [Renewals.planSellers, Bool.not_true]
      simp only [Bool.and_false, Bool.false_eq_true, if_false]
      exact hrest

/-- Without a holder the first seller that is admitted is the only one. -/
theorem sound_planSellers {order : List String} {sweeps : List (Sweep × Int)}
    (sound : Sound sellers w) (idle : Idle w.passes) (prompt : Prompt moments)
    (within : ∀ other ∈ order, other ∈ sellers) :
    Sound sellers (planSellers moments sweeps false order w).2 := by
  induction order generalizing w with
  | nil => exact sound
  | cons seller rest ih =>
      have hheld : Held sellers seller w := ⟨sound, idle.onlyBy, within seller List.mem_cons_self⟩
      have hnext : Held sellers seller (planSweeps moments seller sweeps w).2 :=
        hheld.planSweeps sweeps
      simp only [planSellers, Bool.not_false, Bool.and_true]
      cases hadmitted : (planSweeps moments seller sweeps w).1 with
      | true => exact hnext.toSound
      | false =>
          exact ih hnext.toSound (idle_planSweeps prompt idle hadmitted)
            fun o mem => within o (List.mem_cons_of_mem _ mem)

/-- When a round is read: a pass in flight is of a slot that is looked at, and with none in flight
no enqueue of the round stores a pass and times out. -/
def Meets (planner : Planner) (moments : Nat → Moment) (w : World) : Prop :=
  (∀ p ∈ (w.wait (moments 0)).passes, p.2.inFlight = true →
    ∃ q ∈ (w.wait (moments 0)).passes, q.2.inFlight = true ∧
      (ofSlot planner.sweeps (moments 0).now false q.1 = true ∨
        ofSlot planner.sweeps (moments 0).now true q.1 = true)) ∧
  (Idle (w.wait (moments 0)).passes → Prompt moments)

theorem mem_holders {sweeps : List (Sweep × Int)} {now : Int} :
    seller ∈ holders sweeps sellers now passes ↔ seller ∈ sellers ∧ ∃ p ∈ passes,
      p.1.seller = seller ∧ p.2.inFlight = true ∧
        (ofSlot sweeps now false p.1 = true ∨ ofSlot sweeps now true p.1 = true) := by
  simp only [holders, List.mem_filter, List.any_eq_true, Bool.and_eq_true, decide_eq_true_eq,
    Bool.or_eq_true, and_assoc]

theorem candidates_subset {sweeps : List (Sweep × Int)} {now : Int} :
    ∀ other ∈ candidates sweeps sellers now passes, other ∈ sellers := by
  intro other mem
  rw [candidates] at mem
  split at mem
  case h_1 =>
      obtain mem | mem := List.mem_append.mp mem
      · exact (List.mem_filter.mp mem).1
      · exact (List.mem_filter.mp mem).1
  case h_2 => exact (mem_holders.mp mem).1

theorem Sound.planRenewals {planner : Planner} {sellerIds : List String}
    (sound : Sound (planner.sellers sellerIds) w)
    (meets : Meets planner moments { w with tick := 0 }) :
    Sound (planner.sellers sellerIds) (planRenewals planner sellerIds moments w).2 := by
  have hstart : Sound (planner.sellers sellerIds) { w with tick := 0 } :=
    ⟨sound.current, sound.journal, sound.once, sound.known, sound.ours⟩
  have hread : Sound (planner.sellers sellerIds) (({ w with tick := 0 } : World).wait (moments 0)) :=
    hstart.wait
  rw [Renewals.planRenewals]
  split
  case isTrue => exact hstart
  case isFalse =>
      simp only
      split
      case isTrue => exact hread
      case isFalse =>
          obtain ⟨hvisible, hprompt⟩ := meets
          generalize ({ w with tick := 0 } : World).wait (moments 0) = read at *
          by_cases idle : Idle read.passes
          · have hnone : holders planner.sweeps (planner.sellers sellerIds) (moments 0).now
                read.passes = [] := by
              refine List.eq_nil_iff_forall_not_mem.mpr fun other mem => ?_
              obtain ⟨-, p, hp, -, hflight, -⟩ := mem_holders.mp mem
              rw [idle p hp] at hflight
              cases hflight
            rw [hnone]
            exact sound_planSellers hread idle (hprompt idle) candidates_subset
          · obtain ⟨p, hp, hflight⟩ : ∃ p ∈ read.passes, p.2.inFlight = true := by
              by_contra hnone
              refine idle fun p hp => Bool.eq_false_iff.mpr fun hflight => ?_
              exact hnone ⟨p, hp, hflight⟩
            obtain ⟨q, hq, hqf, hslot⟩ := hvisible p hp hflight
            have honly : OnlyBy q.1.seller read.passes := hread.current.onlyBy hq hqf
            have hours := hread.ours q hq hqf
            have hholder : q.1.seller ∈ holders planner.sweeps (planner.sellers sellerIds)
                (moments 0).now read.passes := mem_holders.mpr ⟨hours, q, hq, rfl, hqf, hslot⟩
            have hown : ∀ other ∈ candidates planner.sweeps (planner.sellers sellerIds)
                (moments 0).now read.passes, other = q.1.seller := by
              intro other mem
              rw [candidates] at mem
              split at mem
              case h_1 hempty =>
                  rw [hempty] at hholder
                  cases hholder
              case h_2 =>
                  obtain ⟨-, r, hr, hseller, hrf, -⟩ := mem_holders.mp mem
                  rw [← hseller]
                  exact honly r hr hrf
            have hnonempty : (holders planner.sweeps (planner.sellers sellerIds) (moments 0).now
                read.passes).isEmpty = false := by
              cases hlist : holders planner.sweeps (planner.sellers sellerIds) (moments 0).now
                  read.passes with
              | nil =>
                  rw [hlist] at hholder
                  cases hholder
              | cons _ _ => rfl
            rw [hnonempty]
            exact (Held.planSellers ⟨hread, honly, hours⟩ hown).toSound

end

/-! ### A run -/

/-- The calls of a run, one after the other. -/
def renewals (planner : Planner) (sellerIds : List String) (calls : List (Nat → Moment))
    (w : World) : World :=
  calls.foldl (fun w moments => (planRenewals planner sellerIds moments w).2) w

/-- Every call of a run meets the condition when it begins. -/
def MeetsAll (planner : Planner) (sellerIds : List String) : List (Nat → Moment) → World → Prop
  | [], _ => True
  | moments :: rest, w => Meets planner moments { w with tick := 0 } ∧
      MeetsAll planner sellerIds rest (planRenewals planner sellerIds moments w).2

theorem Sound.renewals {planner : Planner} {sellerIds : List String}
    {calls : List (Nat → Moment)} {w : World} (sound : Sound (planner.sellers sellerIds) w)
    (meets : MeetsAll planner sellerIds calls w) :
    Sound (planner.sellers sellerIds) (renewals planner sellerIds calls w) := by
  induction calls generalizing w with
  | nil => exact sound
  | cons moments rest ih => exact ih (sound.planRenewals meets.1) meets.2

/-- A planner that has just started, with the jobs of earlier passes. -/
def World.start (passes : Passes) : World := ⟨passes, [], [], [], 0⟩

/-- From a start with no pass in flight, along calls that meet the condition, one seller at a time
has passes in flight and every slot is stored once. -/
theorem renewals_takeTurns (planner : Planner) (sellerIds : List String)
    (calls : List (Nat → Moment)) {passes : Passes} (idle : Idle passes)
    (meets : MeetsAll planner sellerIds calls (World.start passes)) :
    (∀ state ∈ (renewals planner sellerIds calls (World.start passes)).journal,
        OneSeller state) ∧
      (renewals planner sellerIds calls (World.start passes)).created.Nodup := by
  have hstart : Sound (planner.sellers sellerIds) (World.start passes) := by
    have honly : OnlyBy "" passes := idle.onlyBy
    refine ⟨honly.oneSeller, by simp [World.start], List.nodup_nil, by simp [World.start], ?_⟩
    intro p hp hflight
    rw [idle p hp] at hflight
    cases hflight
  have hsound := hstart.renewals meets
  exact ⟨hsound.journal, hsound.once⟩

/-! ### Two sellers at once -/

/-- Workers that leave every pass as it is. -/
def resting : Workers := ⟨fun _ state => state, fun _ _ h => h⟩

/-- A quiet access some hours after the origin of the slots. -/
def atHour (hours : Int) (enqueue : Enqueue) : Moment :=
  ⟨resting, renewalSlotOrigin + hours * 3600000000, false, false, some ["MLA1"], enqueue⟩

/-- A planner of one sweep with slots of an hour. -/
def hourly : Planner := ⟨[(.buybox, 3600000000)], none, by decide⟩

theorem renewals_takeTurns_hourly :
    (∀ state ∈ (renewals hourly ["1", "2"] [fun _ => atHour 0 .committed,
      fun _ => atHour 1 .committed] (World.start [])).journal, OneSeller state) ∧
    (renewals hourly ["1", "2"] [fun _ => atHour 0 .committed,
      fun _ => atHour 1 .committed] (World.start [])).created.Nodup := by
  refine renewals_takeTurns hourly ["1", "2"] _ (by simp [Idle]) ⟨⟨?_, ?_⟩, ⟨?_, ?_⟩, trivial⟩
  · decide
  · exact fun _ _ => by simp [atHour]
  · decide
  · exact fun _ _ => by simp [atHour]

/-- A call whose first enqueue stores its pass and times out. -/
def timedOut (tick : Nat) : Moment := atHour 0 (if tick = 3 then .timedOutAfter else .committed)

/-- A pass that is still in flight two slots later is not seen, and the next seller is admitted; so
it is in the round of an enqueue that stored its pass and timed out. -/
theorem renewals_twoSellers :
    (∃ state ∈ (renewals hourly ["1", "2"] [fun _ => atHour 0 .committed,
      fun _ => atHour 2 .committed] (World.start [])).journal, ¬ OneSeller state) ∧
    ∃ state ∈ (renewals hourly ["1", "2"] [timedOut] (World.start [])).journal,
      ¬ OneSeller state := by
  refine ⟨⟨[(⟨"1", .buybox, renewalSlotOrigin⟩, .pending),
      (⟨"2", .buybox, renewalSlotOrigin + 7200000000⟩, .pending)], by decide, fun h => ?_⟩,
    ⟨[(⟨"1", .buybox, renewalSlotOrigin⟩, .pending),
      (⟨"2", .buybox, renewalSlotOrigin⟩, .pending)], by decide, fun h => ?_⟩⟩
  · exact absurd (h _ List.mem_cons_self _ (List.mem_cons_of_mem _ List.mem_cons_self) rfl rfl)
      (by decide)
  · exact absurd (h _ List.mem_cons_self _ (List.mem_cons_of_mem _ List.mem_cons_self) rfl rfl)
      (by decide)

end ZelerPlatform.Sheets.Renewals
