import ZelerPlatform.Recovery.Continuation

/-!
# What a staging transaction commits

A transaction that returns has replaced the stored checkpoint it was given by the one it
proposes, one revision later, and has added receipts of its own pass only. A release leaves the
receipts alone and the checkpoint too, unless it starts a new pass.
-/

namespace ZelerPlatform.Recovery

open Fallible

variable {q : Queue} {evidence : Evidence} {job claimed : Job} {head expected proposed saved : Head}
variable {db db' : Db} {receipts : List Receipt} {now : Time}

theorem checkedHead_ok (h : checkedHead evidence head = .ok saved) :
    saved = head ∧ head.valid = true := by
  unfold checkedHead at h
  split at h
  · cases h
  next hvalid =>
    split at h
    · cases h
    · exact ⟨(pure_ok h).symm, by simpa using hvalid⟩

/-- A fence leaves everything but the job alone. -/
theorem current_stored (h : current q job head now db = .ok (claimed, db')) :
    db.heads.findOne (fun stored => stored.id = head.id) = some head ∧
    ∃ jobs, db' = { db with jobs } := by
  unfold current at h
  obtain ⟨jobs, -, h⟩ := bind_ok h
  obtain ⟨-, h⟩ := raiseIf_ok h
  obtain ⟨hstored, h⟩ := raiseIf_ok h
  have hfound := (not_or.mp hstored).1
  split at h
  · cases h
  · obtain ⟨-, h⟩ := raiseIf_ok h
    obtain ⟨-, h⟩ := raiseIf_ok h
    obtain ⟨-, h⟩ := raiseIf_ok h
    obtain ⟨-, rfl⟩ := Prod.mk.inj (pure_ok h)
    exact ⟨not_not.mp hfound, _, rfl⟩

/-! ### Receipts -/

/-- A batch adds the receipts that were not there yet, in its order. -/
theorem storeReceipts_ok {stored stored' : Collection Receipt.id} {discovered fetched : Nat}
    (distinct : (receipts.map Receipt.identity).Nodup)
    (h : storeReceipts false receipts stored = .ok (discovered, fetched, stored')) :
    ∃ fresh : List Receipt, fresh.Sublist receipts ∧ stored'.docs = stored.docs ++ fresh ∧
      discovered = memberships fresh ∧
      ∀ receipt ∈ receipts, receipt ∈ fresh ∨
        ∃ other ∈ stored.docs, other.identity = receipt.identity := by
  induction receipts generalizing stored discovered fetched with
  | nil =>
      obtain ⟨rfl, hpair⟩ := Prod.mk.inj (pure_ok h)
      obtain ⟨-, rfl⟩ := Prod.mk.inj hpair
      exact ⟨[], .slnil, by simp, rfl, by simp⟩
  | cons receipt rest ih =>
      obtain ⟨hreceipt, hrest⟩ := List.nodup_cons.mp distinct
      rw [storeReceipts] at h
      split at h
      · next other hother =>
          obtain ⟨-, h⟩ := raiseIf_ok h
          obtain ⟨fresh, hsub, hdocs, hcount, hcovered⟩ := ih hrest h
          refine ⟨fresh, hsub.cons _, hdocs, hcount, fun r mem => ?_⟩
          obtain rfl | mem := List.mem_cons.mp mem
          · obtain ⟨mem, hidentity⟩ := Collection.findOne_mem hother
            exact .inr ⟨other, mem, of_decide_eq_true hidentity⟩
          · exact hcovered r mem
      · next hnone =>
          obtain ⟨-, h⟩ := raiseIf_ok h
          obtain ⟨-, h⟩ := raiseIf_ok h
          split at h
          · cases h
          next inserted hinsert =>
            obtain ⟨⟨discovered', fetched', stored''⟩, hnext, hlast⟩ := bind_ok h
            obtain ⟨rfl, hpair⟩ := Prod.mk.inj (pure_ok hlast)
            obtain ⟨-, rfl⟩ := Prod.mk.inj hpair
            obtain ⟨fresh, hsub, hdocs, hcount, hcovered⟩ := ih hrest hnext
            refine ⟨receipt :: fresh, hsub.cons_cons _, ?_, ?_, fun r mem => ?_⟩
            · rw [hdocs, Collection.insert_docs hinsert, List.append_assoc, List.singleton_append]
            · rw [hcount, memberships, memberships, List.countP_cons]
              simp
            · obtain rfl | hmem := List.mem_cons.mp mem
              · exact .inl List.mem_cons_self
              · obtain hfresh | ⟨other, hother, hidentity⟩ := hcovered r hmem
                · exact .inl (List.mem_cons_of_mem _ hfresh)
                · obtain hother | rfl := (Collection.mem_insert hinsert).mp hother
                  · exact .inr ⟨other, hother, hidentity⟩
                  · exact absurd (hidentity ▸ List.mem_map_of_mem hmem) hreceipt

/-! ### Commits -/

/-- A transaction has replaced a checkpoint by the next one and stored receipts of its pass. -/
structure Committed (head saved : Head) (receipts : List Receipt) (db db' : Db) : Prop where
  stored : db.heads.byKey head.id = some head
  heads : ∀ id, db'.heads.byKey id = if id = head.id then some saved else db.heads.byKey id
  identity : sameIdentity head saved = true
  revision : saved.checkpointRevision = head.checkpointRevision + 1
  distinct : (receipts.map Receipt.identity).Nodup
  own : ∀ receipt ∈ receipts, receipt.acquisitionId = head.id ∧
    receipt.generation = head.generation ∧ receipt.passNumber = head.passNumber
  added : ∃ fresh : List Receipt, fresh.Sublist receipts ∧
    db'.receipts.docs = db.receipts.docs ++ fresh ∧
    saved.discoveredCount = head.discoveredCount + memberships fresh ∧
    ∀ receipt ∈ receipts, receipt ∈ fresh ∨
      ∃ other ∈ db.receipts.docs, other.identity = receipt.identity

theorem replaceHead_ok {message : String} (identity : expected.id = saved.id)
    (stored : db.heads.byKey expected.id = some expected)
    (h : replaceHead expected saved message db = .ok db') :
    (∀ id, db'.heads.byKey id = if id = expected.id then some saved else db.heads.byKey id) ∧
    db'.receipts = db.receipts := by
  unfold replaceHead at h
  obtain ⟨-, h⟩ := raiseIf_ok h
  obtain rfl := pure_ok h
  refine ⟨fun id => ?_, rfl⟩
  rw [Collection.byKey_update]
  by_cases hid : id = expected.id
  · subst hid
    rw [if_pos rfl, stored]
    simp [identity]
  · rw [if_neg hid]
    cases hfound : db.heads.byKey id with
    | none => rfl
    | some other =>
        have hother : other.id ≠ expected.id := by
          rw [(Collection.byKey_some.mp hfound).2]
          exact hid
        simp [hother]

theorem checkCheckpoint_ok (h : checkCheckpoint evidence expected proposed receipts = .ok ⟨⟩) :
    sameIdentity expected proposed = true ∧
    proposed.checkpointRevision = expected.checkpointRevision + 1 ∧
    (∀ receipt ∈ receipts, receipt.acquisitionId = proposed.id ∧
      receipt.generation = proposed.generation ∧ receipt.passNumber = proposed.passNumber) ∧
    (receipts.map Receipt.identity).Nodup := by
  unfold checkCheckpoint at h
  obtain ⟨hidentity, h⟩ := raiseIf_ok h
  obtain ⟨hstaging, h⟩ := raiseIf_ok h
  obtain ⟨-, h⟩ := raiseIf_ok h
  obtain ⟨hown, h⟩ := raiseIf_ok h
  obtain ⟨-, h⟩ := raiseIf_ok h
  obtain ⟨hdistinct, -⟩ := raiseIf_ok h
  refine ⟨not_not.mp hidentity, (not_not.mp hstaging).2.2.1, fun receipt mem => ?_,
    not_not.mp hdistinct⟩
  have hthis := List.any_eq_false.mp (Bool.eq_false_iff.mpr hown) receipt mem
  simp only [Bool.or_eq_true, decide_eq_true_eq, not_or, not_not] at hthis
  obtain ⟨⟨⟨⟨⟨hid, -⟩, -⟩, hgeneration⟩, hpass⟩, -⟩ := hthis
  exact ⟨hid, hgeneration, hpass⟩

theorem id_of_sameIdentity (h : sameIdentity head saved = true) :
    head.id = saved.id ∧ head.dateFrom = saved.dateFrom ∧ head.dateTo = saved.dateTo ∧
    head.generation = saved.generation ∧ head.passNumber = saved.passNumber ∧
    head.sellerId = saved.sellerId ∧ head.readModel = saved.readModel := by
  unfold sameIdentity at h
  simp only [Bool.and_eq_true, decide_eq_true_eq] at h
  obtain ⟨⟨⟨⟨⟨⟨⟨⟨⟨⟨hid, hseller⟩, hmodel⟩, -⟩, -⟩, -⟩, hfrom⟩, hto⟩, hgeneration⟩, hpass⟩, -⟩ := h
  exact ⟨hid, hfrom, hto, hgeneration, hpass, hseller, hmodel⟩

theorem checkpoint_ok {before after : Time} (hstored : db.heads.byKey expected.id = some expected)
    (h : checkpoint q evidence job expected proposed receipts before after db =
      .ok (saved, db')) :
    saved = proposed ∧ Committed expected proposed receipts db db' := by
  unfold checkpoint at h
  obtain ⟨⟨⟩, hcheck, h⟩ := bind_ok h
  obtain ⟨jobs, -, h⟩ := bind_ok h
  obtain ⟨hidentity, hrevision, hown, hdistinct⟩ := checkCheckpoint_ok hcheck
  obtain ⟨hid, -, -, hgeneration, hpass, -⟩ := id_of_sameIdentity hidentity
  have hfound : db.heads.findOne (fun stored => stored.id = expected.id) = some expected := hstored
  rw [hfound] at h
  have hnew : ¬ some expected = some proposed := by
    intro heq
    rw [← Option.some.inj heq] at hrevision
    omega
  obtain ⟨-, h⟩ := raiseIf_ok h
  simp only [hnew, decide_false] at h
  obtain ⟨⟨discovered, fetched, stagedReceipts⟩, hreceipts, h⟩ := bind_ok h
  obtain ⟨dbSaved, hsaved, h⟩ := bind_ok h
  obtain ⟨jobs', -, h⟩ := bind_ok h
  obtain ⟨rfl, rfl⟩ := Prod.mk.inj (pure_ok h)
  obtain ⟨fresh, hsub, hdocs, hcount, hcovered⟩ := storeReceipts_ok hdistinct hreceipts
  rw [saveHead, if_neg Bool.false_ne_true] at hsaved
  obtain ⟨hcounts, hreplaced⟩ := raiseIf_ok hsaved
  obtain ⟨hheads, hsame⟩ := replaceHead_ok hid (by exact hstored) hreplaced
  refine ⟨rfl, hstored, hheads, hidentity, hrevision, hdistinct, fun receipt mem => ?_,
    fresh, hsub, ?_, ?_, hcovered⟩
  · obtain ⟨hacquisition, hgen, hpassed⟩ := hown receipt mem
    exact ⟨hacquisition.trans hid.symm, hgen.trans hgeneration.symm, hpassed.trans hpass.symm⟩
  · rw [← hdocs]
    exact congrArg Collection.docs hsame
  · rw [← hcount]
    exact (not_not.mp hcounts).1

theorem yieldPending_jobs {jobs : Jobs} (committed : Committed head saved receipts db db') :
    Committed head saved receipts db { db' with jobs } :=
  ⟨committed.stored, committed.heads, committed.identity, committed.revision, committed.distinct,
    committed.own, committed.added⟩

theorem progress_ok {readings : Readings}
    (h : progress q evidence job expected proposed receipts readings db = .ok (saved, db')) :
    saved = proposed ∧ Committed expected proposed receipts db db' := by
  unfold progress at h
  obtain ⟨_, hhead, hrest⟩ := bind_ok h
  obtain ⟨rfl, -⟩ := checkedHead_ok hhead
  obtain ⟨_, hnext, hblock⟩ := bind_ok hrest
  obtain ⟨rfl, -⟩ := checkedHead_ok hnext
  obtain ⟨-, hcalls⟩ := raiseIf_ok hblock
  obtain ⟨⟨claimed, db₁⟩, hcurrent, h⟩ := bind_ok hcalls
  obtain ⟨⟨saved', db₂⟩, hcheckpoint, h⟩ := bind_ok h
  obtain ⟨jobs, -, h⟩ := bind_ok h
  obtain ⟨rfl, rfl⟩ := Prod.mk.inj (pure_ok h)
  obtain ⟨hfound, _, rfl⟩ := current_stored hcurrent
  obtain ⟨rfl, committed⟩ := checkpoint_ok (by exact hfound) hcheckpoint
  exact ⟨rfl, yieldPending_jobs ⟨hfound, committed.heads, committed.identity, committed.revision,
    committed.distinct, committed.own, committed.added⟩⟩

/-! ### Handing an acquisition over -/

/-- A transaction has replaced a checkpoint by the next one and left the receipts alone. -/
structure HandedOver (head saved : Head) (db db' : Db) : Prop where
  stored : db.heads.byKey head.id = some head
  heads : ∀ id, db'.heads.byKey id = if id = head.id then some saved else db.heads.byKey id
  bounds : saved.dateFrom = head.dateFrom ∧ saved.dateTo = head.dateTo
  generation : saved.generation = head.generation
  revision : saved.checkpointRevision = head.checkpointRevision + 1
  receipts : db'.receipts = db.receipts

theorem HandedOver.of_replaceHead {message : String} {jobs jobs' : Jobs}
    (hfound : db.heads.findOne (fun stored => stored.id = expected.id) = some expected)
    (identity : expected.id = saved.id)
    (bounds : saved.dateFrom = expected.dateFrom ∧ saved.dateTo = expected.dateTo)
    (generation : saved.generation = expected.generation)
    (revision : saved.checkpointRevision = expected.checkpointRevision + 1)
    (h : replaceHead expected saved message { db with jobs } = .ok db') :
    HandedOver expected saved db { db' with jobs := jobs' } := by
  obtain ⟨hheads, hreceipts⟩ := replaceHead_ok identity (by exact hfound) h
  exact ⟨hfound, hheads, bounds, generation, revision, hreceipts⟩

theorem beginVerification_ok {readings : Readings}
    (h : beginVerification q evidence job expected readings db = .ok (saved, db')) :
    HandedOver expected saved db db' ∧ expected.phase = .hydrate ∧
    saved.passNumber = expected.passNumber + 1 := by
  unfold beginVerification at h
  obtain ⟨_, hhead, hrest⟩ := bind_ok h
  obtain ⟨rfl, -⟩ := checkedHead_ok hhead
  obtain ⟨hphase, hblock⟩ := raiseIf_ok hrest
  obtain ⟨⟨claimed, db₁⟩, hcurrent, hcounts⟩ := bind_ok hblock
  obtain ⟨-, hsave⟩ := raiseIf_ok hcounts
  obtain ⟨_, hsaved, hreplace⟩ := bind_ok hsave
  obtain ⟨rfl, -⟩ := checkedHead_ok hsaved
  obtain ⟨db₂, hreplaced, hfence⟩ := bind_ok hreplace
  obtain ⟨jobs, -, hyield⟩ := bind_ok hfence
  obtain ⟨jobs', -, hlast⟩ := bind_ok hyield
  obtain ⟨rfl, rfl⟩ := Prod.mk.inj (pure_ok hlast)
  obtain ⟨hfound, _, rfl⟩ := current_stored hcurrent
  exact ⟨.of_replaceHead hfound rfl ⟨rfl, rfl⟩ rfl rfl hreplaced, (not_not.mp hphase).2.1, rfl⟩

theorem beginPublication_ok {readings : Readings}
    (h : beginPublication q evidence job expected readings db = .ok (saved, db')) :
    HandedOver expected saved db db' ∧ expected.phase = .verify ∧ expected.nextCursor = none ∧
    saved.phase = .publish ∧ saved.passNumber = expected.passNumber := by
  unfold beginPublication at h
  obtain ⟨_, hhead, hrest⟩ := bind_ok h
  obtain ⟨rfl, -⟩ := checkedHead_ok hhead
  obtain ⟨hphase, hblock⟩ := raiseIf_ok hrest
  obtain ⟨⟨claimed, db₁⟩, hcurrent, hcounts⟩ := bind_ok hblock
  obtain ⟨-, hdetails⟩ := raiseIf_ok hcounts
  obtain ⟨-, hsave⟩ := raiseIf_ok hdetails
  obtain ⟨_, hsaved, hreplace⟩ := bind_ok hsave
  obtain ⟨rfl, -⟩ := checkedHead_ok hsaved
  obtain ⟨db₂, hreplaced, hyield⟩ := bind_ok hreplace
  obtain ⟨jobs', -, hlast⟩ := bind_ok hyield
  obtain ⟨rfl, rfl⟩ := Prod.mk.inj (pure_ok hlast)
  obtain ⟨hfound, _, rfl⟩ := current_stored hcurrent
  obtain ⟨-, hverify, hcursor, -⟩ := not_not.mp hphase
  exact ⟨.of_replaceHead hfound rfl ⟨rfl, rfl⟩ rfl rfl hreplaced, hverify, hcursor, rfl, rfl⟩

/-- A release gives the job back, and starts a new pass if the source has changed. -/
theorem release_ok {reason : ReleaseReason} {readings : Readings}
    (h : release q evidence job expected reason readings db = .ok (saved, db')) :
    (∃ jobs, db' = { db with jobs }) ∨
    HandedOver expected saved db db' ∧ saved.passNumber = expected.passNumber + 1 := by
  unfold release at h
  obtain ⟨checked, hhead, hrest⟩ := bind_ok h
  obtain ⟨rfl, -⟩ := checkedHead_ok hhead
  obtain ⟨⟨claimed, db₁⟩, hcurrent, hblock⟩ := bind_ok hrest
  obtain ⟨hfound, _, rfl⟩ := current_stored hcurrent
  have hstop {retryable bind : Bool} {why : FailureReason} {message : String} {jobs : Jobs}
      (h : stop claimed checked retryable why bind message readings { db with jobs } =
        .ok (saved, db')) : ∃ jobs, db' = { db with jobs } := by
    unfold stop at h
    split at h
    · cases h
    · cases h
    · exact ⟨_, (Prod.mk.inj (pure_ok h)).2.symm⟩
  dsimp only at hblock
  split at hblock
  · exact .inl (hstop hblock)
  split at hblock
  · exact .inl (hstop hblock)
  obtain ⟨⟨restarting, db₂⟩, hrestart, hfence⟩ := bind_ok hblock
  obtain ⟨jobs, -, hyield⟩ := bind_ok hfence
  obtain ⟨jobs', -, hlast⟩ := bind_ok hyield
  obtain ⟨rfl, rfl⟩ := Prod.mk.inj (pure_ok hlast)
  unfold restartHead at hrestart
  split at hrestart
  · obtain ⟨_, hsaved, hreplace⟩ := bind_ok hrestart
    obtain ⟨rfl, -⟩ := checkedHead_ok hsaved
    obtain ⟨db₃, hreplaced, hpair⟩ := bind_ok hreplace
    obtain ⟨rfl, rfl⟩ := Prod.mk.inj (pure_ok hpair)
    exact .inr ⟨.of_replaceHead hfound rfl ⟨rfl, rfl⟩ rfl rfl hreplaced, rfl⟩
  · obtain ⟨-, rfl⟩ := Prod.mk.inj (pure_ok hrestart)
    exact .inl ⟨_, rfl⟩

end ZelerPlatform.Recovery
