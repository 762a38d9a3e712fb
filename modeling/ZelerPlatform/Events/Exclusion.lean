import ZelerPlatform.Events.Claims

/-!
# Exclusion and at-most-once completion

An owner knows the expiry of the lease it has acquired. Until then the claim document is
its own (`LeaseKept`), since a takeover needs an expired document, deletions other than
TTL filter on the owner token, and TTL deletes expired documents only.

That the second duplicate check of `claim` comes after its acquisition, and the marker
before the deletion in `complete`, gives `Unmarked`: an owner past its second check whose
lease lasts has seen every marker that was written in time.
-/

namespace ZelerPlatform.Events

open Mongo Transition

variable {ι : Type*} {settings : Settings} {i j : ι}
variable {owner owner' : Owner} {store store' : Store ι} {event : Event ι}

/-! ### What a step does to the stores -/

theorem acquireClaim_cases {call : ClaimCall} {now : Int}
    (h : acquireClaim i call now store = some store') :
    (∀ doc ∈ store.claim, doc.expiresAt ≤ Value.floorMs now) ∧
    store' = { store with
      claim := some ⟨i, Value.floorMs now, Value.floorMs (now + call.lease)⟩ } := by
  simp only [acquireClaim, Option.ite_none_right_eq_some, Option.all_eq_true,
    decide_eq_true_eq] at h
  exact ⟨h.1, (Option.some.inj h.2).symm⟩

theorem insertMarker_cases {now : Int} (h : insertMarker settings now store = some store') :
    store.marker = none ∧ store' = { store with
      marker := some ⟨Value.floorMs now, Value.floorMs (now + settings.retention)⟩ } := by
  unfold insertMarker at h
  split at h
  · next hnone => exact ⟨hnone, (Option.some.inj h).symm⟩
  · cases h

/-! ### Leases -/

/-- The calls of `claim`. -/
def Call.isClaim : Call → Bool
  | .check .. | .acquiring _ | .acquire .. | .dropping | .retry _ => true
  | _ => false

/-- `i` holds a claim that expires at `expiry`. -/
def Holds (i : ι) (expiry : Int) (store : Store ι) : Prop :=
  ∃ doc, store.claim = some doc ∧ doc.owner = i ∧ doc.expiresAt = expiry

/-- A lease that has not expired is in the store, and nothing is held before `claim`
returns. -/
structure LeaseKept (i : ι) (owner : Owner) (store : Store ι) : Prop where
  past : ∀ call now, owner.call = .acquire call now → now ≤ store.clock
  unheld : owner.called = false ∨ owner.call.isClaim = true → owner.held = none
  calling : owner.call.isClaim = true → owner.called = true
  lease : ∀ expiry, owner.lease? = some expiry → store.clock < expiry → Holds i expiry store

theorem Owner.lease?_of_not_claim (h : owner.call.isClaim = false) :
    owner.lease? = owner.held := by
  unfold Owner.lease?
  split <;> simp_all [Call.isClaim]

namespace LeaseKept

/-- An owner that holds nothing and is in no call. -/
theorem ended {called : Bool} : LeaseKept i ⟨called, none, .idle⟩ store where
  past := by simp
  unheld _ := rfl
  calling := by simp [Call.isClaim]
  lease := by simp [Owner.lease?]

/-- An owner within `claim` holds nothing but what this call has acquired. -/
theorem within {call : Call} (past : ∀ c now, call = .acquire c now → now ≤ store.clock)
    (lease : ∀ expiry, Owner.lease? ⟨true, none, call⟩ = some expiry → store.clock < expiry →
      Holds i expiry store) : LeaseKept i ⟨true, none, call⟩ store where
  past := past
  unheld _ := rfl
  calling _ := rfl
  lease := lease

/-- A step of a call other than `claim` that changes neither claim nor clock. -/
theorem calls (h : LeaseKept i owner store) {call : Call}
    (before : owner.call.isClaim = false) (after : call.isClaim = false)
    (hclaim : store'.claim = store.claim) (hclock : store'.clock = store.clock) :
    LeaseKept i { owner with call := call } store' where
  past c now hcall := by
    obtain rfl : call = .acquire c now := hcall
    cases after
  unheld hor := h.unheld (hor.imp id (by simp [after]))
  calling := by simp [after]
  lease expiry hlease hlt := by
    rw [Owner.lease?_of_not_claim after] at hlease
    have hholds := h.lease expiry (by rw [Owner.lease?_of_not_claim before]; exact hlease)
      (by rw [← hclock]; exact hlt)
    simpa only [Holds, hclaim] using hholds

theorem afterCheck (h : LeaseKept i owner store) {call : ClaimCall} {phase : Phase}
    {check : Check} (hcall : owner.call = .check call phase check) (duplicate : Bool) :
    LeaseKept i (afterCheck i owner call phase duplicate).2 store := by
  have hunheld := h.unheld (.inr (by rw [hcall]; rfl))
  have hcalled := h.calling (by rw [hcall]; rfl)
  have hlease := h.lease
  obtain ⟨called, held, current⟩ := owner
  obtain rfl : held = none := hunheld
  obtain rfl : called = true := hcalled
  obtain rfl : current = .check call phase check := hcall
  cases phase with
  | before =>
      cases duplicate with
      | true => exact ended
      | false => exact within (by simp) (by simp [Owner.lease?])
  | after lease =>
      cases duplicate with
      | true => exact within (by simp) (by simp [Owner.lease?])
      | false =>
          cases lease with
          | none => exact within (by simp) (by simp [Owner.lease?])
          | some expiry =>
              exact ⟨by simp [Events.afterCheck], by simp [Events.afterCheck, Call.isClaim],
                fun _ => rfl, hlease⟩

end LeaseKept

variable [DecidableEq ι]

theorem deleteOwned_claim (i : ι) (store : Store ι) {doc : ClaimDoc ι} :
    (deleteOwned i store).claim = some doc ↔ store.claim = some doc ∧ doc.owner ≠ i := by
  unfold deleteOwned ownsClaim
  cases hclaim : store.claim with
  | none => simp [hclaim]
  | some own => by_cases hown : own.owner = i <;> simp [hclaim, hown] <;> grind

@[simp] theorem deleteOwned_marker (i : ι) (store : Store ι) :
    (deleteOwned i store).marker = store.marker := by
  unfold deleteOwned
  split <;> rfl

@[simp] theorem deleteOwned_clock (i : ι) (store : Store ι) :
    (deleteOwned i store).clock = store.clock := by
  unfold deleteOwned
  split <;> rfl

/-- An owner acquires over no live claim, deletes its own, or writes the first marker. -/
inductive StoreStep (settings : Settings) (i : ι) (call : Call) (store : Store ι) :
    Event ι → Store ι → Prop
  | same {event : Event ι} (h : ∀ k, event ≠ .marked k) :
      StoreStep settings i call store event store
  | acquired {claimCall : ClaimCall} {now : Int} (hcall : call = .acquire claimCall now)
      (free : ∀ doc ∈ store.claim, doc.expiresAt ≤ Value.floorMs now) :
      StoreStep settings i call store .local { store with
        claim := some ⟨i, Value.floorMs now, Value.floorMs (now + claimCall.lease)⟩ }
  | deleted {event : Event ι} (h : ∀ k, event ≠ .marked k) :
      StoreStep settings i call store event (deleteOwned i store)
  | marked {now : Int} (hcall : call = .insertMarker now) (absent : store.marker = none) :
      StoreStep settings i call store (.marked i) { store with
        marker := some ⟨Value.floorMs now, Value.floorMs (now + settings.retention)⟩ }

omit [DecidableEq ι] in
theorem afterCheck_event (call : ClaimCall) (phase : Phase) (duplicate : Bool) (k : ι) :
    (afterCheck i owner call phase duplicate).1 ≠ .marked k := by
  unfold afterCheck
  split <;> simp

theorem advance_storeStep (h : advance settings i owner store = (event, owner', store')) :
    StoreStep settings i owner.call store event store' := by
  cases hcall : owner.call with
  | idle | acquiring | marking =>
      simp only [advance, hcall, Prod.mk.injEq] at h
      obtain ⟨rfl, -, rfl⟩ := h
      exact .same (by simp)
  | check call phase check =>
      cases check with
      | current | legacy =>
          simp only [advance, hcall, Prod.mk.injEq] at h
          obtain ⟨rfl, -, rfl⟩ := h
          exact .same (by simp)
      | currentFound =>
          simp only [advance, hcall] at h
          split at h <;> obtain ⟨rfl, -, rfl⟩ := Prod.mk.inj h |>.imp id Prod.mk.inj
          · exact .same (afterCheck_event _ _ _)
          · exact .same (by simp)
      | legacyFound =>
          simp only [advance, hcall, Prod.mk.injEq] at h
          obtain ⟨rfl, -, rfl⟩ := h
          exact .same (afterCheck_event _ _ _)
  | acquire call now =>
      simp only [advance, hcall] at h
      split at h <;> obtain ⟨rfl, -, rfl⟩ := Prod.mk.inj h |>.imp id Prod.mk.inj
      · next hacquire =>
          obtain ⟨free, rfl⟩ := acquireClaim_cases hacquire
          exact .acquired rfl free
      · exact .same (by simp)
  | dropping | clearing | releasing =>
      simp only [advance, hcall, Prod.mk.injEq] at h
      obtain ⟨rfl, -, rfl⟩ := h
      exact .deleted (by simp)
  | retry =>
      simp only [advance, hcall] at h
      split at h <;> obtain ⟨rfl, -, rfl⟩ := Prod.mk.inj h |>.imp id Prod.mk.inj <;>
        exact .same (by simp)
  | finding =>
      simp only [advance, hcall] at h
      split at h <;> obtain ⟨rfl, -, rfl⟩ := Prod.mk.inj h |>.imp id Prod.mk.inj <;>
        exact .same (by simp)
  | insertMarker now =>
      simp only [advance, hcall] at h
      split at h <;> obtain ⟨rfl, -, rfl⟩ := Prod.mk.inj h |>.imp id Prod.mk.inj
      · next hinsert =>
          obtain ⟨absent, rfl⟩ := insertMarker_cases hinsert
          exact .marked rfl absent
      · exact .same (by simp)

theorem Move.storeStep (h : Move settings i owner store event owner' store') :
    StoreStep settings i owner.call store event store' := by
  cases h with
  | claim | complete | release | deleteFailed | raised => exact .same (by simp)
  | advance h => exact advance_storeStep h

namespace LeaseKept

omit [DecidableEq ι] in
/-- The reads of a duplicate check leave the lease of the call as it is. -/
theorem read (h : LeaseKept i owner store) {call : ClaimCall} {phase : Phase} {check : Check}
    (hcall : owner.call = .check call phase check) (next : Check) :
    LeaseKept i { owner with call := .check call phase next } store where
  past := by simp
  unheld _ := h.unheld (.inr (by rw [hcall]; rfl))
  calling _ := h.calling (by rw [hcall]; rfl)
  lease expiry hlease := by
    refine h.lease expiry ?_
    rw [← hlease]
    cases phase <;> simp [Owner.lease?, hcall]

/-- The steps of `claim` outside its duplicate checks. -/
theorem claimStep (h : LeaseKept i owner store) (hclaim : owner.call.isClaim = true)
    (hcheck : ∀ call phase check, owner.call ≠ .check call phase check)
    (hadvance : advance settings i owner store = (event, owner', store')) :
    LeaseKept i owner' store' := by
  have hunheld := h.unheld (.inr hclaim)
  have hcalled := h.calling hclaim
  obtain ⟨called, held, call⟩ := owner
  obtain rfl : held = none := hunheld
  obtain rfl : called = true := hcalled
  cases call with
  | check call phase check => exact absurd rfl (hcheck call phase check)
  | acquiring call =>
      simp only [advance, Prod.mk.injEq] at hadvance
      obtain ⟨-, rfl, rfl⟩ := hadvance
      refine within ?_ (by simp [Owner.lease?])
      rintro _ _ ⟨⟩
      exact le_rfl
  | acquire call now =>
      simp only [advance] at hadvance
      split at hadvance <;> obtain ⟨-, rfl, rfl⟩ := (Prod.mk.inj hadvance).imp id Prod.mk.inj
      · next hacquire =>
          obtain ⟨-, rfl⟩ := acquireClaim_cases hacquire
          refine within (by simp) fun expiry hlease _ => ?_
          exact ⟨_, rfl, rfl, by simpa [Owner.lease?] using hlease⟩
      · exact within (by simp) (by simp [Owner.lease?])
  | dropping =>
      simp only [advance, Prod.mk.injEq] at hadvance
      obtain ⟨-, rfl, rfl⟩ := hadvance
      exact ended
  | retry call =>
      simp only [advance] at hadvance
      split at hadvance <;> obtain ⟨-, rfl, rfl⟩ := (Prod.mk.inj hadvance).imp id Prod.mk.inj
      · exact ended
      · exact within (by simp) (by simp [Owner.lease?])
  | idle | finding | marking | insertMarker | clearing | releasing => cases hclaim

theorem advance (h : LeaseKept i owner store)
    (hadvance : advance settings i owner store = (event, owner', store')) :
    LeaseKept i owner' store' := by
  cases hcall : owner.call with
  | idle =>
      simp only [Events.advance, hcall, Prod.mk.injEq] at hadvance
      obtain ⟨-, rfl, rfl⟩ := hadvance
      exact h
  | check call phase check =>
      cases check with
      | current | legacy =>
          simp only [Events.advance, hcall, Prod.mk.injEq] at hadvance
          obtain ⟨-, rfl, rfl⟩ := hadvance
          exact h.read hcall _
      | currentFound =>
          simp only [Events.advance, hcall] at hadvance
          split at hadvance <;>
            obtain ⟨-, rfl, rfl⟩ := (Prod.mk.inj hadvance).imp id Prod.mk.inj
          · exact h.afterCheck hcall _
          · exact h.read hcall _
      | legacyFound =>
          simp only [Events.advance, hcall, Prod.mk.injEq] at hadvance
          obtain ⟨-, rfl, rfl⟩ := hadvance
          exact h.afterCheck hcall _
  | acquiring | acquire | dropping | retry =>
      exact h.claimStep (by rw [hcall]; rfl) (by simp [hcall]) hadvance
  | finding =>
      simp only [Events.advance, hcall] at hadvance
      split at hadvance <;> obtain ⟨-, rfl, rfl⟩ := (Prod.mk.inj hadvance).imp id Prod.mk.inj
      · exact h.calls (by rw [hcall]; rfl) rfl rfl rfl
      · exact ended
  | marking =>
      simp only [Events.advance, hcall, Prod.mk.injEq] at hadvance
      obtain ⟨-, rfl, rfl⟩ := hadvance
      exact h.calls (by rw [hcall]; rfl) rfl rfl rfl
  | insertMarker now =>
      simp only [Events.advance, hcall] at hadvance
      split at hadvance <;> obtain ⟨-, rfl, rfl⟩ := (Prod.mk.inj hadvance).imp id Prod.mk.inj
      · next hinsert =>
          obtain ⟨-, rfl⟩ := insertMarker_cases hinsert
          exact h.calls (by rw [hcall]; rfl) rfl rfl rfl
      · exact h.calls (by rw [hcall]; rfl) rfl rfl rfl
  | clearing | releasing =>
      simp only [Events.advance, hcall, Prod.mk.injEq] at hadvance
      obtain ⟨-, rfl, rfl⟩ := hadvance
      exact ended

/-- The owner's own step restores its lease. -/
theorem own (h : LeaseKept i owner store)
    (hmove : Move settings i owner store event owner' store') : LeaseKept i owner' store' := by
  cases hmove with
  | claim _ _ _ _ fresh =>
      have hunheld := h.unheld (.inl fresh)
      obtain ⟨_, held, _⟩ := owner
      obtain rfl : held = none := hunheld
      exact within (by simp) (by simp [Owner.lease?])
  | complete idle | release idle => exact h.calls (by rw [idle]; rfl) rfl rfl rfl
  | deleteFailed => exact ended
  | raised =>
      cases hcall : owner.call.isClaim with
      | false => exact h.calls hcall rfl rfl rfl
      | true =>
          have hunheld := h.unheld (.inr hcall)
          obtain ⟨_, held, _⟩ := owner
          obtain rfl : held = none := hunheld
          exact ended
  | advance hadvance => exact h.advance hadvance

omit [DecidableEq ι] in
/-- A step of somebody else keeps the lease if it keeps the claim while it lasts. -/
theorem frame (h : LeaseKept j owner store) (hclock : store.clock ≤ store'.clock)
    (hholds : ∀ expiry, store'.clock < expiry → Holds j expiry store → Holds j expiry store') :
    LeaseKept j owner store' where
  past call now hcall := (h.past call now hcall).trans hclock
  unheld := h.unheld
  calling := h.calling
  lease expiry hlease hlt := hholds expiry hlt (h.lease expiry hlease (hclock.trans_lt hlt))

/-- Nobody takes over or deletes a claim of another owner before it expires. -/
theorem other (hij : i ≠ j) {other : Owner} (hi : LeaseKept i owner store)
    (hj : LeaseKept j other store)
    (hmove : Move settings i owner store event owner' store') : LeaseKept j other store' := by
  cases hmove.storeStep with
  | same => exact hj
  | acquired hcall free =>
      refine hj.frame le_rfl ?_
      rintro expiry hlt ⟨doc, hdoc, -, rfl⟩
      have hpast := hi.past _ _ hcall
      have hexpired := (free doc hdoc).trans ((Value.floorMs_le _).trans hpast)
      exact absurd hlt hexpired.not_gt
  | deleted =>
      refine hj.frame (by simp) ?_
      rintro expiry - ⟨doc, hdoc, rfl, rfl⟩
      exact ⟨doc, (deleteOwned_claim i store).mpr ⟨hdoc, hij.symm⟩, rfl, rfl⟩
  | marked => exact hj.frame le_rfl fun _ _ h => h

omit [DecidableEq ι] in
theorem environment (h : LeaseKept j owner store) (henv : Environment store event store') :
    LeaseKept j owner store' := by
  cases henv with
  | tick hclock => exact h.frame hclock fun _ _ h => h
  | expire hdoc expired =>
      refine h.frame le_rfl ?_
      rintro expiry hlt ⟨doc, hown, -, rfl⟩
      obtain rfl := Option.some.inj (hdoc.symm.trans hown)
      exact absurd hlt expired.not_gt

end LeaseKept

/-! ### The marker -/

def MarkerActive (store : Store ι) : Prop :=
  isActive (store.marker.map (·.expiresAt)) store.clock = true

/-- Past the reads of its second check, an owner whose lease lasts sees no active marker:
one that is active it is about to read or has just read. -/
def Unmarked (owner : Owner) (store : Store ι) : Prop :=
  ∀ call lease check, owner.call = .check call (.after (some lease)) check →
    store.clock < lease → MarkerActive store →
    check = .current ∨ check = .currentFound (store.marker.map (·.expiresAt))

/-- A marker is written while the lease of its writer lasts. -/
def timely (pool : Pool ι (Store ι) Owner) : Event ι → Bool
  | .marked i => pool.shared.claim.any fun doc => doc.owner = i && pool.shared.clock < doc.expiresAt
  | _ => true

theorem timely_marked {pool : Pool ι (Store ι) Owner} (h : timely pool (.marked i) = true) :
    ∃ expiry, Holds i expiry pool.shared ∧ pool.shared.clock < expiry := by
  simp only [timely, Option.any_eq_true, Bool.and_eq_true, decide_eq_true_eq] at h
  obtain ⟨doc, hdoc, howner, hlt⟩ := h
  exact ⟨doc.expiresAt, ⟨doc, hdoc, howner, rfl⟩, hlt⟩

/-- The system in which every marker is written in time. -/
abbrev TimelyStep (settings : Settings) :
    Pool ι (Store ι) Owner → Event ι → Pool ι (Store ι) Owner → Prop :=
  restrict (Step settings) fun pool event => timely pool event = true

omit [DecidableEq ι] in
theorem isActive_mono {expiresAt : Option Int} {now now' : Int} (h : now ≤ now')
    (hactive : isActive expiresAt now' = true) : isActive expiresAt now = true := by
  simp only [isActive, Option.any_eq_true, decide_eq_true_eq] at hactive ⊢
  obtain ⟨expiry, hexpiry, hlt⟩ := hactive
  exact ⟨expiry, hexpiry, h.trans_lt hlt⟩

namespace Unmarked

omit [DecidableEq ι] in
/-- Outside the second check of `claim` there is nothing to see. -/
theorem trivial (h : ∀ call lease check, owner.call ≠ .check call (.after (some lease)) check) :
    Unmarked owner store :=
  fun call lease check hcall => absurd hcall (h call lease check)

omit [DecidableEq ι] in
theorem afterCheck {call : ClaimCall} {phase : Phase} (duplicate : Bool) :
    Unmarked (afterCheck i owner call phase duplicate).2 store := by
  refine trivial fun _ _ _ => ?_
  unfold Events.afterCheck
  split <;> simp

theorem advance (h : Unmarked owner store)
    (hadvance : advance settings i owner store = (event, owner', store')) :
    Unmarked owner' store' := by
  cases hcall : owner.call with
  | idle =>
      simp only [Events.advance, hcall, Prod.mk.injEq] at hadvance
      obtain ⟨-, rfl, rfl⟩ := hadvance
      exact h
  | check call phase check =>
      cases check with
      | current =>
          simp only [Events.advance, hcall, Prod.mk.injEq] at hadvance
          obtain ⟨-, rfl, rfl⟩ := hadvance
          rintro _ _ _ ⟨⟩ - -
          exact .inr rfl
      | currentFound expiresAt =>
          simp only [Events.advance, hcall] at hadvance
          split at hadvance <;>
            obtain ⟨-, rfl, rfl⟩ := (Prod.mk.inj hadvance).imp id Prod.mk.inj
          · exact afterCheck _
          · next hinactive =>
              rintro _ lease _ ⟨⟩ hlt hactive
              -- what was read is the marker, which is not active
              obtain hread | hread := h call lease _ hcall hlt hactive
              · cases hread
              · cases hread
                exact absurd hactive hinactive
      | legacy =>
          simp only [Events.advance, hcall, Prod.mk.injEq] at hadvance
          obtain ⟨-, rfl, rfl⟩ := hadvance
          rintro _ lease _ ⟨⟩ hlt hactive
          obtain hread | hread := h call lease _ hcall hlt hactive <;> cases hread
      | legacyFound =>
          simp only [Events.advance, hcall, Prod.mk.injEq] at hadvance
          obtain ⟨-, rfl, rfl⟩ := hadvance
          exact afterCheck _
  | acquire call now =>
      simp only [Events.advance, hcall] at hadvance
      split at hadvance <;> obtain ⟨-, rfl, rfl⟩ := (Prod.mk.inj hadvance).imp id Prod.mk.inj
      · rintro _ _ _ ⟨⟩ - -
        exact .inl rfl
      · exact trivial (by simp)
  | acquiring | marking | dropping | clearing | releasing =>
      simp only [Events.advance, hcall, Prod.mk.injEq] at hadvance
      obtain ⟨-, rfl, rfl⟩ := hadvance
      exact trivial (by simp)
  | retry | finding | insertMarker =>
      simp only [Events.advance, hcall] at hadvance
      split at hadvance <;> obtain ⟨-, rfl, rfl⟩ := (Prod.mk.inj hadvance).imp id Prod.mk.inj <;>
        exact trivial (by simp)

theorem own (h : Unmarked owner store)
    (hmove : Move settings i owner store event owner' store') : Unmarked owner' store' := by
  cases hmove with
  | claim | complete | release | deleteFailed | raised => exact trivial (by simp)
  | advance hadvance => exact h.advance hadvance

/-- A marker that another owner writes in time is no concern of an owner whose lease lasts:
it is the other's lease that lasts. -/
theorem other (hij : i ≠ j) {other : Owner} (h : Unmarked other store)
    (hj : LeaseKept j other store)
    (hmove : Move settings i owner store event owner' store')
    (htimely : ∀ k, event = .marked k → ∃ expiry, Holds k expiry store ∧ store.clock < expiry) :
    Unmarked other store' := by
  cases hmove.storeStep with
  | same => exact h
  | acquired => exact h
  | deleted =>
      intro call lease check hcall hlt hactive
      simpa using h call lease check hcall (by simpa using hlt)
        (by simpa [MarkerActive] using hactive)
  | marked =>
      intro call lease check hcall hlt _
      obtain ⟨_, ⟨doc, hdoc, howner, _⟩, _⟩ := htimely i rfl
      obtain ⟨own, hown, howner', _⟩ := hj.lease lease (by simp [Owner.lease?, hcall]) hlt
      obtain rfl := Option.some.inj (hdoc.symm.trans hown)
      exact absurd (howner.symm.trans howner') hij

omit [DecidableEq ι] in
theorem environment (h : Unmarked owner store) (henv : Environment store event store') :
    Unmarked owner store' := by
  cases henv with
  | tick hclock =>
      intro call lease check hcall hlt hactive
      exact h call lease check hcall (hclock.trans_lt hlt) (isActive_mono hclock hactive)
  | expire => exact h

end Unmarked

/-! ### Completions -/

def Event.isMarked : Event ι → Bool
  | .marked _ => true
  | _ => false

/-- `complete` has returned True. -/
def Event.isCompleted : Event ι → Bool
  | .completeReturned _ result => result
  | _ => false

/-- What a step does to the marker and to who is about to report it. -/
inductive MarkerStep (i : ι) (call call' : Call) (store store' : Store ι) : Event ι → Prop
  | marked (hcall : call' = .clearing true) (absent : store.marker = none)
      (present : store'.marker ≠ none) : MarkerStep i call call' store store' (.marked i)
  | reported (hcall : call = .clearing true) (idle : call' = .idle)
      (same : store'.marker = store.marker) :
      MarkerStep i call call' store store' (.completeReturned i true)
  | other {event : Event ι} (hmarked : event.isMarked = false)
      (hcompleted : event.isCompleted = false)
      (hcall : call' = .clearing true → call = .clearing true)
      (same : store'.marker = store.marker) : MarkerStep i call call' store store' event

omit [DecidableEq ι] in
theorem afterCheck_markerStep {call : ClaimCall} {phase : Phase} (duplicate : Bool) :
    MarkerStep i owner.call (afterCheck i owner call phase duplicate).2.call store store
      (afterCheck i owner call phase duplicate).1 := by
  unfold afterCheck
  split <;> exact .other rfl rfl (by simp) rfl

theorem advance_markerStep (h : advance settings i owner store = (event, owner', store')) :
    MarkerStep i owner.call owner'.call store store' event := by
  cases hcall : owner.call with
  | idle =>
      simp only [advance, hcall, Prod.mk.injEq] at h
      obtain ⟨rfl, rfl, rfl⟩ := h
      exact .other rfl rfl (by simp [hcall]) rfl
  | check call phase check =>
      rw [← hcall]
      cases check with
      | current | legacy =>
          simp only [advance, hcall, Prod.mk.injEq] at h
          obtain ⟨rfl, rfl, rfl⟩ := h
          exact .other rfl rfl (by simp) rfl
      | currentFound =>
          simp only [advance, hcall] at h
          split at h <;> obtain ⟨rfl, rfl, rfl⟩ := (Prod.mk.inj h).imp id Prod.mk.inj
          · exact afterCheck_markerStep _
          · exact .other rfl rfl (by simp) rfl
      | legacyFound =>
          simp only [advance, hcall, Prod.mk.injEq] at h
          obtain ⟨rfl, rfl, rfl⟩ := h
          exact afterCheck_markerStep _
  | acquire call now =>
      simp only [advance, hcall] at h
      split at h <;> obtain ⟨rfl, rfl, rfl⟩ := (Prod.mk.inj h).imp id Prod.mk.inj
      · next hacquire =>
          obtain ⟨-, rfl⟩ := acquireClaim_cases hacquire
          exact .other rfl rfl (by simp) rfl
      · exact .other rfl rfl (by simp) rfl
  | acquiring | marking | dropping | releasing =>
      simp only [advance, hcall, Prod.mk.injEq] at h
      obtain ⟨rfl, rfl, rfl⟩ := h
      exact .other rfl rfl (by simp) (by simp)
  | retry | finding =>
      simp only [advance, hcall] at h
      split at h <;> obtain ⟨rfl, rfl, rfl⟩ := (Prod.mk.inj h).imp id Prod.mk.inj <;>
        exact .other rfl rfl (by simp) rfl
  | insertMarker now =>
      simp only [advance, hcall] at h
      split at h <;> obtain ⟨rfl, rfl, rfl⟩ := (Prod.mk.inj h).imp id Prod.mk.inj
      · next hinsert =>
          obtain ⟨absent, rfl⟩ := insertMarker_cases hinsert
          exact .marked rfl absent (by simp)
      · exact .other rfl rfl (by simp) rfl
  | clearing marked =>
      simp only [advance, hcall, Prod.mk.injEq] at h
      obtain ⟨rfl, rfl, rfl⟩ := h
      cases marked with
      | true => exact .reported rfl rfl (by simp)
      | false => exact .other rfl rfl (by simp) (by simp)

theorem Move.markerStep (h : Move settings i owner store event owner' store') :
    MarkerStep i owner.call owner'.call store store' event := by
  cases h with
  | claim | complete | release | raised => exact .other rfl rfl (by simp) rfl
  | advance h => exact advance_markerStep h
  | deleteFailed hcall =>
      rename_i marked
      cases marked with
      | true => exact .reported hcall rfl rfl
      | false => exact .other rfl rfl (by simp) rfl

/-- At most one marker is written, and reported by its writer only. -/
structure Completions (events : List (Event ι)) (pool : Pool ι (Store ι) Owner) : Prop where
  absent : pool.shared.marker = none → events.countP Event.isMarked = 0
  marked_le : events.countP Event.isMarked ≤ 1
  completed_le : events.countP Event.isCompleted ≤ events.countP Event.isMarked
  pending : ∀ i, (pool.control i).call = .clearing true →
    events.countP Event.isCompleted = 0 ∧ events.countP Event.isMarked = 1
  alone : ∀ i j, (pool.control i).call = .clearing true → (pool.control j).call = .clearing true →
    i = j

namespace Completions

variable {events : List (Event ι)} {pool pool' : Pool ι (Store ι) Owner}

omit [DecidableEq ι] in
/-- A step that writes no marker, reports none, and leaves nobody new to report one. -/
theorem quiet (h : Completions events pool) (hmarked : event.isMarked = false)
    (hcompleted : event.isCompleted = false)
    (hmarker : pool'.shared.marker = none → pool.shared.marker = none)
    (hcall : ∀ i, (pool'.control i).call = .clearing true →
      (pool.control i).call = .clearing true) : Completions (events ++ [event]) pool' where
  absent hnone := by simpa [hmarked] using h.absent (hmarker hnone)
  marked_le := by simpa [hmarked] using h.marked_le
  completed_le := by simpa [hmarked, hcompleted] using h.completed_le
  pending i hi := by simpa [hmarked, hcompleted] using h.pending i (hcall i hi)
  alone i j hi hj := h.alone i j (hcall i hi) (hcall j hj)

theorem step (h : Completions events pool) (hstep : Step settings pool event pool') :
    Completions (events ++ [event]) pool' := by
  cases hstep with
  | env henv =>
      cases henv with
      | tick | expire => exact h.quiet rfl rfl id fun _ => id
  | move i hmove =>
      have hothers : ∀ {q : Owner} {j}, j ≠ i →
          (Function.update pool.control i q) j = pool.control j :=
        fun hj => Function.update_of_ne hj _ _
      cases hmove.markerStep with
      | marked hcall absent present =>
          have hzero := h.absent absent
          have hnobody : ∀ j, (pool.control j).call ≠ .clearing true := by
            intro j hj
            have := (h.pending j hj).2
            omega
          have honly : ∀ {q : Owner} j, (Function.update pool.control i q j).call = .clearing true →
              j = i := by
            intro q j hj
            by_contra hne
            rw [hothers hne] at hj
            exact hnobody j hj
          constructor
          case absent => exact fun hnone => absurd hnone present
          case marked_le => simp [Event.isMarked, hzero]
          case completed_le =>
            have hcompleted : events.countP Event.isCompleted = 0 := by
              have := h.completed_le
              omega
            simp [Event.isCompleted, hcompleted]
          case pending =>
            have hcompleted : events.countP Event.isCompleted = 0 := by
              have := h.completed_le
              omega
            intro j _
            simp only [List.countP_append, List.countP_singleton, Event.isMarked,
              Event.isCompleted, hzero, hcompleted]
            exact ⟨rfl, rfl⟩
          case alone => exact fun j k hj hk => (honly j hj).trans (honly k hk).symm
      | reported hcall idle same =>
          obtain ⟨hnone, hone⟩ := h.pending i hcall
          have hnobody : ∀ {q : Owner} j, q.call = .idle →
              (Function.update pool.control i q j).call ≠ .clearing true := by
            intro q j hq hj
            by_cases hne : j = i
            · subst hne
              simp [hq] at hj
            · rw [hothers hne] at hj
              exact hne (h.alone j i hj hcall)
          constructor
          case absent =>
            intro hmarker
            have := h.absent (by rw [← same]; exact hmarker)
            omega
          case marked_le => simp [Event.isMarked, hone]
          case completed_le => simp [Event.isMarked, Event.isCompleted, hnone, hone]
          case pending => exact fun j hj => absurd hj (hnobody j idle)
          case alone => exact fun j _ hj => absurd hj (hnobody j idle)
      | other hmarked hcompleted hcall same =>
          refine h.quiet hmarked hcompleted (by simp [same]) fun j hj => ?_
          by_cases hne : j = i
          · subst hne
            exact hcall (by simpa using hj)
          · simpa [Function.update_of_ne hne] using hj

end Completions

/-! ### Runs -/

variable {events : List (Event ι)} {start pool pool' : Pool ι (Store ι) Owner}

/-- The calls of `complete` and `release`. -/
def Call.isFinish : Call → Bool
  | .finding | .marking | .insertMarker _ | .clearing _ | .releasing => true
  | _ => false

theorem leaseKept_run (fresh : ∀ i, start.control i = .fresh)
    (run : Run (Step settings) start events pool) (i : ι) :
    LeaseKept i (pool.control i) pool.shared := by
  refine (Pool.invariant (I := fun _ => True) (L := LeaseKept) trivial ?_ ?_ ?_ ?_ ?_ run).2 i
  · intro i
    rw [fresh i]
    exact .ended
  · exact fun _ h hmove => ⟨trivial, h.own hmove⟩
  · exact fun hij _ hi hj hmove => hi.other hij hj hmove
  · exact fun _ _ => trivial
  · exact fun _ h henv => h.environment henv

theorem completions_run (fresh : ∀ i, start.control i = .fresh)
    (run : Run (Step settings) start events pool) : Completions events pool := by
  refine run.invariant ?_ fun _ h hstep => h.step hstep
  constructor <;> simp [fresh, Owner.fresh]

theorem unmarked_run (fresh : ∀ i, start.control i = .fresh)
    (run : Run (TimelyStep settings) start events pool) (i : ι) :
    Unmarked (pool.control i) pool.shared := by
  refine run.invariant (P := fun _ pool => ∀ i, Unmarked (pool.control i) pool.shared) ?_ ?_ i
  · intro i
    rw [fresh i]
    exact .trivial (by simp [Owner.fresh])
  · rintro es pool e pool' before h ⟨htimely, hstep⟩ j
    cases hstep with
    | env henv => exact (h j).environment henv
    | move i hmove =>
        by_cases hj : j = i
        · subst hj
          simpa using (h j).own hmove
        · have hkept := leaseKept_run fresh before.unrestrict j
          have hother := (h j).other (Ne.symm hj) hkept hmove (by
            rintro k rfl
            exact timely_marked htimely)
          simpa [Function.update_of_ne hj] using hother

theorem lease_exclusive (fresh : ∀ i, start.control i = .fresh)
    (run : Run (Step settings) start events pool) {i j : ι} {expiry expiry' : Int}
    (hi : (pool.control i).lease? = some expiry) (hj : (pool.control j).lease? = some expiry')
    (hlasts : pool.shared.clock < expiry) (hlasts' : pool.shared.clock < expiry') : i = j := by
  obtain ⟨doc, hdoc, rfl, _⟩ := (leaseKept_run fresh run i).lease expiry hi hlasts
  obtain ⟨doc', hdoc', rfl, _⟩ := (leaseKept_run fresh run j).lease expiry' hj hlasts'
  rw [Option.some.inj (hdoc.symm.trans hdoc')]

omit [DecidableEq ι] in
theorem held_lease (h : LeaseKept i owner store) {expiry : Int} (hheld : owner.held = some expiry) :
    owner.lease? = some expiry := by
  rw [Owner.lease?_of_not_claim, hheld]
  by_contra hclaim
  simp [h.unheld (.inr (by simpa using hclaim))] at hheld

/-- `claim` returns CLAIMED from the last read of its second check. -/
theorem claimReturned_check
    (h : Move settings i owner store (.claimReturned j .claimed) owner' store') :
    j = i ∧ ∃ call lease expiresAt,
      owner.call = .check call (.after (some lease)) (.legacyFound expiresAt) := by
  cases h with
  | advance hadvance =>
      cases hcall : owner.call with
      | check call phase check =>
          cases check with
          | current | legacy => simp [advance, hcall] at hadvance
          | currentFound =>
              cases phase <;> simp only [advance, hcall, afterCheck] at hadvance <;>
                split at hadvance <;> simp at hadvance
          | legacyFound expiresAt =>
              simp only [advance, hcall, afterCheck, Prod.mk.injEq] at hadvance
              obtain ⟨hevent, -, -⟩ := hadvance
              split at hevent <;> simp at hevent
              exact ⟨hevent.symm, call, _, expiresAt, rfl⟩
      | acquire | retry | finding | insertMarker =>
          simp only [advance, hcall] at hadvance
          split at hadvance <;> simp at hadvance
      | idle | acquiring | dropping | marking | clearing | releasing =>
          simp [advance, hcall] at hadvance

/-- Exclusion and at-most-once completion, in every state that a run reaches. -/
theorem claims_exclusive (fresh : ∀ i, start.control i = .fresh)
    (run : Run (Step settings) start events pool) :
    -- no two owners have a lease that lasts
    (∀ i j expiry expiry', (pool.control i).lease? = some expiry →
      (pool.control j).lease? = some expiry' → pool.shared.clock < expiry →
      pool.shared.clock < expiry' → i = j) ∧
    -- `complete` returns True at most once
    events.countP Event.isCompleted ≤ 1 ∧
    (Run (TimelyStep settings) start events pool →
      -- no `claim` whose lease lasts returns CLAIMED while a marker is active
      (∀ i pool', Step settings pool (.claimReturned i .claimed) pool' →
        MarkerActive pool.shared → ∀ expiry ∈ (pool.control i).lease?,
        expiry ≤ pool.shared.clock) ∧
      -- no two owners are in their sections with leases that last
      (∀ i j expiry expiry', (pool.control i).held = some expiry →
        (pool.control j).held = some expiry' → pool.shared.clock < expiry →
        pool.shared.clock < expiry' → i = j)) ∧
    -- `complete` and `release` leave the claim of another owner as it is
    (∀ i event owner' store', Move settings i (pool.control i) pool.shared event owner' store' →
      (pool.control i).call.isFinish = true → ∀ doc, pool.shared.claim = some doc →
      doc.owner ≠ i → store'.claim = some doc) := by
  refine ⟨fun i j _ _ hi hj => lease_exclusive fresh run hi hj,
    (completions_run fresh run).completed_le.trans (completions_run fresh run).marked_le,
    fun intime => ⟨?_, ?_⟩, ?_⟩
  · rintro i pool' hstep hactive expiry hlease
    cases hstep with
    | env henv => cases henv
    | move k hmove =>
        obtain ⟨rfl, call, lease, expiresAt, hcall⟩ := claimReturned_check hmove
        obtain rfl : lease = expiry := by simpa [Owner.lease?, hcall] using hlease
        by_contra hlasts
        obtain hread | hread := unmarked_run fresh intime i call lease _ hcall
          (not_le.mp hlasts) hactive <;> cases hread
  · exact fun i j _ _ hi hj => lease_exclusive fresh run
      (held_lease (leaseKept_run fresh run i) hi) (held_lease (leaseKept_run fresh run j) hj)
  · intro i event owner' store' hmove hfinish doc hdoc hother
    cases hmove.storeStep with
    | same => exact hdoc
    | acquired hcall => simp [hcall, Call.isFinish] at hfinish
    | deleted => exact (deleteOwned_claim i _).mpr ⟨hdoc, hother⟩
    | marked => exact hdoc

/-! ### Two runs -/

/-- Two days of retention, a poll every quarter of a second, and no legacy document. -/
def defaultSettings : Settings := ⟨172800000000, 250000, none⟩

def freshPool : Pool (Fin 2) (Store (Fin 2)) Owner := ⟨⟨0, none, none⟩, fun _ => .fresh⟩

/-- One owner claims and completes. -/
theorem claims_exclusive_one_owner :
    ∃ events, ∃ pool : Pool (Fin 2) (Store (Fin 2)) Owner,
      Run (Step defaultSettings) freshPool events pool ∧ events.countP Event.isCompleted = 1 ∧
      events.countP Event.isCompleted ≤ 1 := by
  obtain ⟨⟨events, pool⟩, hperform, hcount⟩ := Option.any_eq_true _ _ |>.mp (by decide +kernel :
    (perform (act defaultSettings) (.claim 0 "sheets" none 120000000 0 ::
      List.replicate 10 (.advance 0) ++ .complete 0 :: List.replicate 4 (.advance 0))
      freshPool).any (fun result => result.1.countP Event.isCompleted = 1) = true)
  have run : Run (Step defaultSettings) freshPool events pool := run_of_perform act_step hperform
  exact ⟨events, pool, run, by simpa using hcount, (claims_exclusive (fun _ => rfl) run).2.1⟩

/-- Owner 0 acquires with a lease of one second and is held up between the two reads of its
second check. Its lease expires; owner 1 takes over, gets CLAIMED and writes the marker
within its own lease. Then the call of owner 0 goes on and returns CLAIMED, while the marker
is active and owner 1 still in its section. -/
theorem stalled_claim_returns_after_completion :
    ∃ events, ∃ pool pool' : Pool (Fin 2) (Store (Fin 2)) Owner,
      Run (TimelyStep defaultSettings) freshPool events pool ∧ MarkerActive pool.shared ∧
      TimelyStep defaultSettings pool (.claimReturned 0 .claimed) pool' ∧
      (pool'.control 0).held.isSome ∧ (pool'.control 1).held.isSome := by
  obtain ⟨⟨events, pool⟩, hperform, hlast⟩ := Option.any_eq_true _ _ |>.mp (by decide +kernel :
    (perform (guarded timely (act defaultSettings)) (.claim 0 "sheets" none 1000000 0 ::
      List.replicate 9 (.advance 0) ++ .tick 2000000 :: .claim 1 "sheets" none 1000000 0 ::
      List.replicate 10 (.advance 1) ++ .complete 1 :: List.replicate 3 (.advance 1))
      freshPool).any (fun result =>
        isActive (result.2.shared.marker.map (·.expiresAt)) result.2.shared.clock &&
        (guarded timely (act defaultSettings) (.advance 0) result.2).any fun next =>
          next.1 = .claimReturned 0 .claimed && (next.2.control 0).held.isSome &&
          (next.2.control 1).held.isSome) = true)
  have sound : ∀ {a} {s t : Pool (Fin 2) (Store (Fin 2)) Owner} {e},
      guarded timely (act defaultSettings) a s = some (e, t) → TimelyStep defaultSettings s e t :=
    restrict_of_guarded act_step
  simp only [Bool.and_eq_true, Option.any_eq_true, decide_eq_true_eq] at hlast
  obtain ⟨hactive, ⟨event, pool'⟩, hnext, ⟨rfl, hfirst⟩, hsecond⟩ := hlast
  exact ⟨events, pool, pool', run_of_perform sound hperform, hactive, sound hnext, hfirst, hsecond⟩

end ZelerPlatform.Events
