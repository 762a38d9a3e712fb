import Mathlib.Tactic.Ring
import ZelerPlatform.Devoluciones.RunIdentity
import ZelerPlatform.Library.Sorted
import ZelerPlatform.Library.Tiling

/-!
# The windows of a run

The windows of a run are computed three times: from its binding, one after another from the
stored run when the next one is looked for, and once more when a completed run is proven. The
three agree, and a proof takes the rows in any order but no other rows.
-/

namespace ZelerPlatform.Devoluciones

open Mongo Mongo.Value Fallible

/-! ### Windows -/

/-- The last instant of a `datetime`. -/
def datetimeMax : Int := 253402300799999999

inductive RunError
  | overflow
  | write (error : Collection.WriteError)
  | unexpected (message : String)
  deriving DecidableEq, Repr

structure RunWindow where
  runId : String
  index : Nat
  start : Int
  stop : Int
  deriving DecidableEq, Repr

/-- `window_id`. -/
def RunWindow.windowId (sha256 : String → String) (window : RunWindow) : String :=
  sha256 (String.intercalate "|"
    [window.runId, toString window.index, isoformat window.start, isoformat window.stop])

/-- `start + timedelta(days=WINDOW_DAYS)`. -/
def plusWindow (start : Int) : Except RunError Int :=
  if datetimeMax < start + windowLength then .error .overflow else .ok (start + windowLength)

/-- The loop of `partition_windows`. -/
def windowsFrom (runId : String) (stop : Int) (index : Nat) (start : Int) :
    Except RunError (List RunWindow) :=
  if h : start < stop then do
    let after ← plusWindow start
    let rest ← windowsFrom runId stop (index + 1) (min (start + windowLength) stop)
    return ⟨runId, index, start, min after stop⟩ :: rest
  else .ok []
termination_by (stop - start).toNat
decreasing_by
  simp only [windowLength]
  omega

/-- `partition_windows`. -/
def RunBinding.windows (digests : Digests) (binding : RunBinding) :
    Except RunError (List RunWindow) :=
  windowsFrom (digests.runId binding) binding.stop 0 binding.start

/-- A window of the run as the partition lists it. -/
def RunWindow.ofPart (runId : String) (part : Nat × Int × Int) : RunWindow :=
  ⟨runId, part.1, part.2.1, part.2.2⟩

/-! ### The repository -/

/-- A document of `sheets_devoluciones_run_windows` with its identity. -/
structure WindowRow extends WindowDoc where
  id : String
  fence : Int
  idempotencyKey : String
  createdAt : Int
  updatedAt : Int

/-- The collections that `MongoRunWindowRepository` works on. No two windows of a run have one
index. -/
structure RunRepository where
  operation : Option OperationDoc
  runs : Collection RunDoc.id
  windows : Collection WindowRow.id
  indexed : (windows.docs.map fun row => (row.runId, row.index)).Nodup

namespace RunRepository

variable (s : RunRepository)

/-- `_guard`. -/
def guarded (ctx : Context) (now : Int) : Option RunRepository :=
  match s.operation with
  | some operation =>
      if leaseGuard ctx now operation then
        some { s with operation := some { operation with updatedAt := some (floorMs now) } }
      else none
  | none => none

/-- `_prepared_window_matches`. -/
def preparedWindowMatches (row : WindowRow) (window : RunWindow) (idempotencyKey : String) : Bool :=
  row.runId = window.runId && row.index = window.index && row.start = window.start &&
    row.stop = window.stop && row.idempotencyKey = idempotencyKey

/-- The document that `prepare` inserts. -/
def preparedRow (sha256 : String → String) (ctx : Context) (window : RunWindow)
    (idempotencyKey : String) (clock : Int) : WindowRow where
  runId := window.runId
  index := window.index
  start := floorMs window.start
  stop := floorMs window.stop
  state := "prepared"
  proof := none
  id := window.windowId sha256
  fence := ctx.fence
  idempotencyKey
  createdAt := floorMs clock
  updatedAt := floorMs clock

/-- An insertion under both unique keys. -/
def insertWindow (row : WindowRow) : Except RunError RunRepository :=
  if h : (row.runId, row.index) ∈ s.windows.docs.map fun row => (row.runId, row.index) then
    .error (.write .duplicateKey)
  else match hinsert : s.windows.insert row with
    | none => .error (.write .duplicateKey)
    | some windows => .ok { s with
        windows
        indexed := by
          rw [Collection.insert_docs hinsert, List.map_append, List.nodup_append]
          refine ⟨s.indexed, List.nodup_singleton _, ?_⟩
          rintro _ hold _ hnew rfl
          obtain rfl := List.mem_singleton.mp hnew
          exact h hold }

/-- `prepare`. -/
def prepare (sha256 : String → String) (window : RunWindow) (ctx : Context)
    (idempotencyKey : String) (now clock : Int) : Except RunError (Bool × RunRepository) :=
  match s.guarded ctx now with
  | none => .ok (false, s)
  | some s => match s.windows.byKey (window.windowId sha256) with
      | some existing => .ok (preparedWindowMatches existing window idempotencyKey, s)
      | none => (s.insertWindow (preparedRow sha256 ctx window idempotencyKey clock)).map
          fun s => (true, s)

/-- The loop of `read_next`. -/
def nextFrom (runId : String) (stop : Int) : Nat → Nat → Int → Except RunError (Option RunWindow)
  | 0, _, _ => .ok none
  | count + 1, index, start => do
      let after ← plusWindow start
      let window : RunWindow := ⟨runId, index, start, min after stop⟩
      match s.windows.findOne fun row => row.runId = runId && row.index = index with
      | none => return some window
      | some row =>
          if row.state = "completed" then nextFrom runId stop count (index + 1) window.stop
          else return some window

/-- `read_next`. -/
def readNext (runId : String) (ctx : Context) (now : Int) :
    Except RunError (Option RunWindow × RunRepository) :=
  match s.guarded ctx now with
  | none => .ok (none, s)
  | some s => match s.runs.byKey runId with
      | none => .ok (none, s)
      | some run => (s.nextFrom runId run.stop run.windowCount.toNat 0 run.start).map fun next => (next, s)

/-- A window is completed. -/
def completed (window : RunWindow) : Bool :=
  (s.windows.findOne fun row => row.runId = window.runId && row.index = window.index).any
    (·.state = "completed")

end RunRepository

/-! ### The partition -/

variable {digests : Digests} {binding : RunBinding} {runId : String} {start stop : Int}
variable {window : RunWindow} {s t : RunRepository}

theorem partitionWindows_nil (h : stop ≤ start) : partitionWindows start stop = [] := by
  have hcount : ((stop - start + windowLength - 1) / windowLength).toNat = 0 := by
    simp only [windowLength]
    omega
  rw [partitionWindows, hcount]
  rfl

/-- The windows after the first one are those of what is left, one index further on. -/
theorem partitionWindows_cons (h : start < stop) : partitionWindows start stop =
    (0, start, min (start + windowLength) stop) ::
      (partitionWindows (min (start + windowLength) stop) stop).map fun part =>
        (part.1 + 1, part.2.1, part.2.2) := by
  obtain hlast | hmore := le_or_gt stop (start + windowLength)
  · have hcount : ((stop - start + windowLength - 1) / windowLength).toNat = 1 := by
      simp only [windowLength] at *
      omega
    rw [min_eq_right hlast, partitionWindows_nil le_rfl, partitionWindows, hcount]
    simp [hlast]
  · have hcount : ((stop - start + windowLength - 1) / windowLength).toNat =
        ((stop - (start + windowLength) + windowLength - 1) / windowLength).toNat + 1 := by
      simp only [windowLength] at *
      omega
    rw [min_eq_left hmore.le, partitionWindows, hcount, List.range_succ_eq_map, List.map_cons,
      List.map_map, partitionWindows, List.map_map]
    refine congrArg₂ List.cons ?_ (List.map_congr_left fun index _ => ?_)
    · simp [hmore.le]
    · simp only [Function.comp_apply, Nat.succ_eq_add_one, Prod.mk.injEq, true_and]
      push_cast
      exact ⟨by ring, by ring_nf⟩

/-- Induction over what is left of a range. -/
theorem range_induction (stop : Int) {P : Int → Prop} (done : ∀ start, stop ≤ start → P start)
    (step : ∀ start, start < stop → P (min (start + windowLength) stop) → P start) (start : Int) :
    P start := by
  induction h : (stop - start).toNat using Nat.strong_induction_on generalizing start with
  | _ n ih =>
      obtain hdone | hmore := le_or_gt stop start
      · exact done start hdone
      · refine step start hmore (ih _ ?_ _ rfl)
        simp only [windowLength]
        omega

/-- The windows of the partition from an index on. -/
def partsFrom (runId : String) (stop : Int) (index : Nat) (start : Int) : List RunWindow :=
  (partitionWindows start stop).map fun part => ⟨runId, index + part.1, part.2.1, part.2.2⟩

theorem partsFrom_nil {index : Nat} (h : stop ≤ start) : partsFrom runId stop index start = [] := by
  rw [partsFrom, partitionWindows_nil h]
  rfl

theorem partsFrom_cons {index : Nat} (h : start < stop) : partsFrom runId stop index start =
    ⟨runId, index, start, min (start + windowLength) stop⟩ ::
      partsFrom runId stop (index + 1) (min (start + windowLength) stop) := by
  rw [partsFrom, partitionWindows_cons h, List.map_cons, List.map_map, partsFrom]
  refine congrArg₂ List.cons rfl (List.map_congr_left fun part _ => ?_)
  rw [Function.comp_apply, Nat.add_assoc, Nat.add_comm 1]

theorem plusWindow_ok (inRange : stop + windowLength ≤ datetimeMax) (h : start ≤ stop) :
    plusWindow start = .ok (start + windowLength) :=
  if_neg (not_lt.mpr ((Int.add_le_add_right h _).trans inRange))

/-- Where the days do not run out, the loop makes the windows of the partition. -/
theorem windowsFrom_eq (inRange : stop + windowLength ≤ datetimeMax) (index : Nat) :
    windowsFrom runId stop index start = .ok (partsFrom runId stop index start) := by
  induction start using range_induction stop generalizing index with
  | done start hdone => rw [windowsFrom, dif_neg (not_lt.mpr hdone), partsFrom_nil hdone]
  | step start hmore ih =>
      rw [windowsFrom, dif_pos hmore, plusWindow_ok inRange hmore.le, partsFrom_cons hmore,
        ih (index + 1)]
      rfl

/-- The windows follow one another from the start to the stop. -/
theorem partsFrom_adjoining (h : start ≤ stop) (index : Nat) :
    Adjoining RunWindow.start RunWindow.stop start (partsFrom runId stop index start) stop := by
  induction start using range_induction stop generalizing index with
  | done start hdone =>
      rw [partsFrom_nil hdone]
      exact le_antisymm h hdone
  | step start hmore ih =>
      rw [partsFrom_cons hmore]
      refine ⟨rfl, lt_min ?_ hmore, ih (min_le_right _ _) (index + 1)⟩
      simp only [windowLength]
      omega

/-- No window is longer than ten days, and each has its run. -/
theorem partsFrom_short {index : Nat} (mem : window ∈ partsFrom runId stop index start) :
    window.stop - window.start ≤ windowLength ∧ window.runId = runId := by
  induction start using range_induction stop generalizing index with
  | done start hdone =>
      rw [partsFrom_nil hdone] at mem
      cases mem
  | step start hmore ih =>
      rw [partsFrom_cons hmore] at mem
      obtain rfl | mem := List.mem_cons.mp mem
      · refine ⟨?_, rfl⟩
        have := min_le_left (start + windowLength) stop
        show min (start + windowLength) stop - start ≤ windowLength
        omega
      · exact ih mem

theorem partitionWindows_indices (start stop : Int) :
    (partitionWindows start stop).map Prod.fst =
      List.range (partitionWindows start stop).length := by
  rw [partitionWindows, List.map_map, List.length_map, List.length_range]
  exact List.map_id _

theorem partsFrom_indices : (partsFrom runId stop 0 start).map (·.index) =
    List.range (partsFrom runId stop 0 start).length := by
  rw [partsFrom, List.map_map, List.length_map, ← partitionWindows_indices]
  exact List.map_congr_left fun part _ => Nat.zero_add _

/-! ### The next window -/

/-- From an index on, the next window is the first that is not completed. -/
theorem nextFrom_eq (inRange : stop + windowLength ≤ datetimeMax) (index : Nat) :
    s.nextFrom runId stop (partsFrom runId stop index start).length index start =
      .ok ((partsFrom runId stop index start).find? fun window => !s.completed window) := by
  induction start using range_induction stop generalizing index with
  | done start hdone =>
      rw [partsFrom_nil hdone]
      rfl
  | step start hmore ih =>
      rw [partsFrom_cons hmore, List.length_cons, RunRepository.nextFrom,
        plusWindow_ok inRange hmore.le, List.find?_cons, RunRepository.completed]
      cases hrow : s.windows.findOne fun row => row.runId = runId && row.index = index with
      | none => rfl
      | some row =>
          by_cases hcompleted : row.state = "completed"
          · simpa [hcompleted, bind, Except.bind] using ih (index + 1)
          · simp [hcompleted]

/-- The run that a binding has created, in whatever state. -/
def RunDoc.Created (digests : Digests) (binding : RunBinding) (run : RunDoc) : Prop :=
  run = { id := digests.runId binding
          authorizationId := binding.authorizationId
          cohortId := binding.cohortId
          sellerId := binding.sellerId
          scope := binding.scope
          start := floorMs binding.start
          stop := floorMs binding.stop
          partitionVersion := binding.partitionVersion
          releaseFingerprints := binding.releaseFingerprints
          windowCount := (partitionWindows binding.start binding.stop).length
          state := run.state
          updatedAt := run.updatedAt }

/-- Bounds that BSON keeps, and no window beyond the last year. -/
structure RunBinding.Aligned (binding : RunBinding) : Prop where
  start : floorMs binding.start = binding.start
  stop : floorMs binding.stop = binding.stop
  inRange : binding.stop + windowLength ≤ datetimeMax

/-- The partition of a binding. -/
def RunBinding.partition (digests : Digests) (binding : RunBinding) : List RunWindow :=
  partsFrom (digests.runId binding) binding.stop 0 binding.start

theorem RunBinding.Aligned.windows (h : binding.Aligned) :
    binding.windows digests = .ok (binding.partition digests) := windowsFrom_eq h.inRange 0

namespace RunRepository

variable {ctx ctx' : Context} {now now' clock clock' : Int} {sha256 : String → String}
variable {key key' : String} {run : RunDoc}

theorem guarded_windows (h : s.guarded ctx now = some t) : t.windows = s.windows ∧ t.runs = s.runs := by
  rw [guarded] at h
  split at h
  · split at h
    · exact Option.some.inj h ▸ ⟨rfl, rfl⟩
    · cases h
  · cases h

theorem completed_congr (h : t.windows = s.windows) : t.completed = s.completed := by
  funext window
  rw [completed, completed, h]

/-- Under a valid lease the next window is the first of the partition that is not completed. -/
theorem readNext_eq (aligned : binding.Aligned) (created : run.Created digests binding)
    (found : s.runs.byKey (digests.runId binding) = some run) (lease : s.guarded ctx now = some t) :
    s.readNext (digests.runId binding) ctx now =
      .ok ((binding.partition digests).find? fun window => !s.completed window, t) := by
  obtain ⟨hwindows, hruns⟩ := guarded_windows lease
  have hcount : run.windowCount.toNat = (binding.partition digests).length := by
    rw [created, RunBinding.partition, partsFrom, List.length_map]
    exact Int.toNat_natCast _
  have hstart : run.start = binding.start := by
    rw [created]
    exact aligned.start
  have hstop : run.stop = binding.stop := by
    rw [created]
    exact aligned.stop
  rw [readNext, lease]
  simp only [hruns, found]
  rw [hcount, hstart, hstop, RunBinding.partition, nextFrom_eq aligned.inRange, completed_congr hwindows]
  rfl

/-! ### Preparation -/

/-- What a document of a window keeps from its preparation on. -/
def SameRow (row row' : WindowRow) : Prop :=
  row.runId = row'.runId ∧ row.index = row'.index ∧ row.start = row'.start ∧ row.stop = row'.stop ∧
    row.idempotencyKey = row'.idempotencyKey

theorem preparedWindowMatches_iff {row : WindowRow} :
    preparedWindowMatches row window key = true ↔ row.runId = window.runId ∧
      row.index = window.index ∧ row.start = window.start ∧ row.stop = window.stop ∧
        row.idempotencyKey = key := by
  simp [preparedWindowMatches, and_assoc]

theorem insertWindow_byKey {row : WindowRow} (h : s.insertWindow row = .ok t) :
    t.windows.byKey row.id = some row := by
  rw [insertWindow] at h
  split at h
  · cases h
  · split at h
    · cases h
    · next windows hinsert =>
        rw [← Except.ok.inj h]
        exact (Collection.byKey_insert hinsert).trans (if_pos rfl)

/-- A preparation that succeeds leaves the document of its window. -/
theorem prepare_row (hstart : floorMs window.start = window.start)
    (hstop : floorMs window.stop = window.stop)
    (h : s.prepare sha256 window ctx key now clock = .ok (true, t)) :
    ∃ row, t.windows.byKey (window.windowId sha256) = some row ∧
      preparedWindowMatches row window key = true := by
  rw [prepare] at h
  split at h
  · cases h
  · next u _ =>
      split at h
      · next row hrow =>
          obtain ⟨hmatches, rfl⟩ := Prod.mk.inj (Except.ok.inj h)
          exact ⟨row, hrow, hmatches⟩
      · cases hinsert : u.insertWindow (preparedRow sha256 ctx window key clock) with
        | error error =>
            rw [hinsert] at h
            cases h
        | ok made =>
            rw [hinsert] at h
            obtain ⟨-, rfl⟩ := Prod.mk.inj (Except.ok.inj h)
            exact ⟨_, insertWindow_byKey hinsert,
              preparedWindowMatches_iff.mpr ⟨rfl, rfl, hstart, hstop, rfl⟩⟩

/-- A preparation of a window that is there writes no window and succeeds with the same key only,
whoever makes it and whatever has become of the window. -/
theorem prepare_again {u v : RunRepository} {row row' : WindowRow}
    (hmatches : preparedWindowMatches row window key = true)
    (hrow' : u.windows.byKey (window.windowId sha256) = some row') (same : SameRow row' row)
    (lease : u.guarded ctx' now' = some v) :
    u.prepare sha256 window ctx' key' now' clock' = .ok (decide (key' = key), v) ∧
      v.windows = u.windows := by
  obtain ⟨hwindows, -⟩ := guarded_windows lease
  refine ⟨?_, hwindows⟩
  rw [prepare, lease]
  simp only [hwindows, hrow']
  obtain ⟨hrun, hindex, hstart, hstop, hkey⟩ := preparedWindowMatches_iff.mp hmatches
  obtain ⟨hrun', hindex', hstart', hstop', hkey'⟩ := same
  have hsame : preparedWindowMatches row' window key' = decide (key' = key) := by
    rw [Bool.eq_iff_iff, preparedWindowMatches_iff, decide_eq_true_eq, hrun', hindex', hstart',
      hstop', hkey', hkey]
    exact ⟨fun h => h.2.2.2.2.symm, fun h => ⟨hrun, hindex, hstart, hstop, h.symm⟩⟩
  rw [hsame]

end RunRepository

/-! ### Provenance -/

variable {run : RunDoc} {rows rows' sorted : List WindowDoc} {row : WindowDoc}

/-- The rows, in some order, prove one window of the run after the other. -/
def Proves (run : RunDoc) (rows : List WindowDoc) : Prop :=
  ∃ sorted : List WindowDoc, sorted.Perm rows ∧
    List.Forall₂ (fun row part => (windowEvidence run.id row part).isSome)
      sorted (partitionWindows run.start run.stop)

/-- The run is bound to its identity and completed. -/
structure RunDoc.Bound (digests : Digests) (run : RunDoc) : Prop where
  wellFormed : run.binding.wellFormed = true
  id : run.id = digests.runId run.binding
  state : run.state = "completed"
  scope : run.scope = "devoluciones"
  count : run.windowCount = (partitionWindows run.start run.stop).length

/-- All that a window has acquired is stored and complete. -/
structure WindowProof.Whole (proof : WindowProof) : Prop where
  source : proof.sourceFingerprint.isEmpty = false
  readModel : proof.readModelFingerprint.isEmpty = false
  missing : proof.missingCount = 0
  persisted : proof.expectedCount = proof.persistedCount
  complete : proof.persistedCount = proof.completeCount
  nonneg : 0 ≤ proof.expectedCount

/-- The completed document of a window. -/
structure CompletedRow (row : WindowDoc) (window : RunWindow) : Prop where
  runId : row.runId = window.runId
  index : row.index = window.index
  start : row.start = window.start
  stop : row.stop = window.stop
  state : row.state = "completed"
  proof : ∃ proof, row.proof = some proof ∧ proof.Whole

theorem windowEvidence_isSome {part : Nat × Int × Int} :
    (windowEvidence runId row part).isSome ↔ CompletedRow row (.ofPart runId part) := by
  rw [windowEvidence]
  cases hproof : row.proof with
  | none =>
      refine ⟨fun h => (Bool.false_ne_true h).elim, fun h => ?_⟩
      obtain ⟨proof, hsome, -⟩ := h.proof
      rw [hproof] at hsome
      cases hsome
  | some proof =>
      simp only [Option.bind_eq_bind, Option.bind_some, Option.isSome_ite, Bool.and_eq_true,
        beq_iff_eq, decide_eq_true_eq, Bool.not_eq_true']
      constructor
      · rintro ⟨⟨⟨⟨⟨⟨⟨⟨⟨⟨hrun, hindex⟩, hstart⟩, hstop⟩, hstate⟩, hsource⟩, hmodel⟩, hmissing⟩,
          hpersisted⟩, hcomplete⟩, hnonneg⟩
        exact ⟨hrun, hindex, hstart, hstop, hstate, proof, hproof,
          hsource, hmodel, hmissing, hpersisted, hcomplete, hnonneg⟩
      · intro h
        obtain ⟨other, hother, hwhole⟩ := h.proof
        obtain rfl := Option.some.inj (hproof.symm.trans hother)
        exact ⟨⟨⟨⟨⟨⟨⟨⟨⟨⟨h.runId, h.index⟩, h.start⟩, h.stop⟩, h.state⟩, hwhole.source⟩,
          hwhole.readModel⟩, hwhole.missing⟩, hwhole.persisted⟩, hwhole.complete⟩, hwhole.nonneg⟩

theorem indices_of_forall₂ {parts : List (Nat × Int × Int)}
    (h : List.Forall₂ (fun row part => (windowEvidence runId row part).isSome) sorted parts) :
    sorted.map (·.index) = parts.map Prod.fst := by
  induction h with
  | nil => rfl
  | cons hhead _ ih =>
      rw [List.map_cons, List.map_cons, ih, (windowEvidence_isSome.mp hhead).index]
      rfl

/-- Rows that prove the windows have their indices, each once. -/
theorem Proves.indices (h : Proves run rows) : (rows.map (·.index)).Perm
    (List.range (partitionWindows run.start run.stop).length) := by
  obtain ⟨sorted, hperm, hproves⟩ := h
  rw [← partitionWindows_indices, ← indices_of_forall₂ hproves]
  exact (hperm.map _).symm

theorem Proves.perm (h : Proves run rows) (perm : rows.Perm rows') : Proves run rows' := by
  obtain ⟨sorted, hperm, hproves⟩ := h
  exact ⟨sorted, hperm.trans perm, hproves⟩

/-- The rows by their index. -/
def byIndex (rows : List WindowDoc) : List WindowDoc :=
  rows.insertionSort fun a b => a.index ≤ b.index

theorem byIndex_perm : (byIndex rows).Perm rows := List.perm_insertionSort _ _

theorem byIndex_pairwise : (byIndex rows).Pairwise fun a b => a.index ≤ b.index := by
  have : Std.Total fun a b : WindowDoc => a.index ≤ b.index := ⟨fun _ _ => Nat.le_total _ _⟩
  have : IsTrans WindowDoc fun a b => a.index ≤ b.index := ⟨fun _ _ _ => Nat.le_trans⟩
  exact List.pairwise_insertionSort _ _

/-- With distinct indices the sorted rows are unique. -/
theorem eq_of_sorted {xs ys : List WindowDoc} (once : (xs.map (·.index)).Nodup) (perm : xs.Perm ys)
    (hxs : xs.Pairwise fun a b => a.index ≤ b.index)
    (hys : ys.Pairwise fun a b => a.index ≤ b.index) : xs = ys := by
  refine List.Perm.eq_of_pairwise ?_ hxs hys perm
  intro a b ha hb hab hba
  exact List.inj_on_of_nodup_map once ha (perm.symm.subset hb) (Nat.le_antisymm hab hba)

theorem byIndex_eq_of_forall₂ (hperm : sorted.Perm rows)
    (h : List.Forall₂ (fun row part => (windowEvidence run.id row part).isSome)
      sorted (partitionWindows run.start run.stop)) : byIndex rows = sorted := by
  have hindices := (indices_of_forall₂ h).trans (partitionWindows_indices run.start run.stop)
  have honce : (sorted.map (·.index)).Nodup := by
    rw [hindices]
    exact List.nodup_range
  have hsorted : sorted.Pairwise fun a b => a.index ≤ b.index := by
    have hpairwise : (sorted.map (·.index)).Pairwise (· ≤ ·) := by
      rw [hindices]
      exact List.pairwise_le_range
    exact List.pairwise_map.mp hpairwise
  exact (eq_of_sorted honce (hperm.trans byIndex_perm.symm) hsorted byIndex_pairwise).symm

theorem mapM_evidence {parts : List (Nat × Int × Int)} (hlength : sorted.length = parts.length) :
    ((sorted.zip parts).mapM fun pair => windowEvidence runId pair.1 pair.2).isSome ↔
      List.Forall₂ (fun row part => (windowEvidence runId row part).isSome) sorted parts := by
  induction sorted generalizing parts with
  | nil =>
      obtain rfl := List.eq_nil_of_length_eq_zero hlength.symm
      simp
  | cons row rest ih =>
      cases parts with
      | nil => cases hlength
      | cons part parts =>
          rw [List.zip_cons_cons, List.mapM_cons, List.forall₂_cons, ← ih (Nat.succ.inj hlength)]
          cases windowEvidence runId row part with
          | none => simp
          | some evidence =>
              cases (rest.zip parts).mapM fun pair => windowEvidence runId pair.1 pair.2 <;> simp

/-- A failure of the proof has one form. -/
theorem quotaProvenance_error {error : CoverageError}
    (h : quotaProvenance digests run rows = .error error) :
    error = .unavailable "invalid quota acquisition evidence" := by
  rw [quotaProvenance] at h
  simp only [raiseIf] at h
  split at h
  · exact (Except.error.inj h).symm
  · split at h
    · exact (Except.error.inj h).symm
    · split at h
      · exact (Except.error.inj h).symm
      · cases h

/-- What the evidence of the windows adds up to. -/
theorem quotaProvenance_eq {evidence : List WindowEvidence} (hbound : run.Bound digests)
    (hlength : (byIndex rows).length = (partitionWindows run.start run.stop).length)
    (hevidence : ((byIndex rows).zip (partitionWindows run.start run.stop)).mapM
      (fun pair => windowEvidence run.id pair.1 pair.2) = some evidence) :
    quotaProvenance digests run rows = .ok
      { sourceFingerprint := some (digests.sources (evidence.map (·.sourceFingerprint)))
        acquisitionFingerprint := digests.acquisition run.id evidence
        expectedCount := (evidence.map (·.expectedCount)).sum } := by
  rw [quotaProvenance, raiseIf_of_not (by simp [hbound.wellFormed])]
  have hok : ¬ (run.id ≠ digests.runId run.binding ∨ run.state ≠ "completed" ∨
      run.scope ≠ "devoluciones" ∨
      (byIndex rows).length ≠ (partitionWindows run.start run.stop).length ∨
      run.windowCount ≠ (partitionWindows run.start run.stop).length) := by
    simp only [not_or, not_not]
    exact ⟨hbound.id, hbound.state, hbound.scope, hlength, hbound.count⟩
  rw [byIndex] at hok hevidence
  simp only [raiseIf_of_not hok, hevidence]
  rfl

/-- A completed run is proven just by rows that prove its windows. -/
theorem quotaProvenance_isOk : (∃ evidence, quotaProvenance digests run rows = .ok evidence) ↔
    run.Bound digests ∧ Proves run rows := by
  constructor
  · rintro ⟨evidence, h⟩
    rw [quotaProvenance] at h
    obtain ⟨hwellFormed, h⟩ := raiseIf_ok h
    obtain ⟨hbound, h⟩ := raiseIf_ok h
    simp only [not_or, not_not] at hbound
    obtain ⟨hid, hstate, hscope, hlength, hcount⟩ := hbound
    refine ⟨⟨by simpa using hwellFormed, hid, hstate, hscope, hcount⟩, byIndex rows, byIndex_perm, ?_⟩
    refine (mapM_evidence hlength).mp ?_
    split at h
    · cases h
    · next hevidence => exact Option.isSome_of_mem hevidence
  · rintro ⟨hbound, sorted, hperm, hproves⟩
    have hlength := hproves.length_eq
    obtain ⟨evidence, hevidence⟩ :=
      Option.isSome_iff_exists.mp ((mapM_evidence hlength).mpr hproves)
    rw [← byIndex_eq_of_forall₂ hperm hproves] at hevidence hlength
    exact ⟨_, quotaProvenance_eq hbound hlength hevidence⟩

/-- The order of the rows does not matter. -/
theorem quotaProvenance_perm (perm : rows.Perm rows') :
    quotaProvenance digests run rows = quotaProvenance digests run rows' := by
  by_cases h : Proves run rows
  · have honce : ((byIndex rows).map (·.index)).Nodup :=
      ((byIndex_perm.map _).trans h.indices).nodup_iff.mpr List.nodup_range
    have hsame : byIndex rows = byIndex rows' :=
      eq_of_sorted honce (byIndex_perm.trans (perm.trans byIndex_perm.symm)) byIndex_pairwise
        byIndex_pairwise
    rw [byIndex, byIndex] at hsame
    rw [quotaProvenance, quotaProvenance, hsame]
  · have hfails {rows : List WindowDoc} (hnot : ¬ Proves run rows) :
        quotaProvenance digests run rows = .error (.unavailable "invalid quota acquisition evidence") := by
      cases hresult : quotaProvenance digests run rows with
      | error error => rw [quotaProvenance_error hresult]
      | ok evidence => exact absurd (quotaProvenance_isOk.mp ⟨evidence, hresult⟩).2 hnot
    rw [hfails h, hfails fun h' => h (h'.perm perm.symm)]

/-- Rows with a flaw prove nothing. -/
inductive Flawed (run : RunDoc) (rows : List WindowDoc) : Prop
  | missing {part : Nat × Int × Int} (mem : part ∈ partitionWindows run.start run.stop)
      (none : ∀ row ∈ rows, row.index ≠ part.1)
  | duplicated (twice : ¬ (rows.map (·.index)).Nodup)
  | shifted {row : WindowDoc} (mem : row ∈ rows)
      (off : ∀ part ∈ partitionWindows run.start run.stop, row.index = part.1 →
        row.start ≠ part.2.1 ∨ row.stop ≠ part.2.2)
  | incomplete {row : WindowDoc} (mem : row ∈ rows)
      (open' : row.state ≠ "completed" ∨ ∀ proof, row.proof = some proof → ¬ proof.Whole)
  | foreign {row : WindowDoc} (mem : row ∈ rows) (other : row.runId ≠ run.id)

theorem Proves.part (h : Proves run rows) (mem : row ∈ rows) :
    ∃ part ∈ partitionWindows run.start run.stop, (windowEvidence run.id row part).isSome := by
  obtain ⟨sorted, hperm, hproves⟩ := h
  exact forall₂_left hproves (hperm.symm.subset mem)

theorem not_proves_of_flawed (h : Flawed run rows) : ¬ Proves run rows := by
  intro hproves
  cases h with
  | @missing part mem none =>
      have hindex : part.1 ∈ rows.map (·.index) := by
        refine hproves.indices.symm.subset ?_
        rw [← partitionWindows_indices]
        exact List.mem_map_of_mem mem
      obtain ⟨row, hrow, heq⟩ := List.mem_map.mp hindex
      exact none row hrow heq
  | duplicated twice => exact twice (hproves.indices.nodup_iff.mpr List.nodup_range)
  | shifted mem off =>
      obtain ⟨part, hpart, hevidence⟩ := hproves.part mem
      have hrow := windowEvidence_isSome.mp hevidence
      obtain hne | hne := off part hpart hrow.index
      · exact hne hrow.start
      · exact hne hrow.stop
  | incomplete mem open' =>
      obtain ⟨part, -, hevidence⟩ := hproves.part mem
      have hrow := windowEvidence_isSome.mp hevidence
      obtain hne | hpartial := open'
      · exact hne hrow.state
      · obtain ⟨proof, hproof, hwhole⟩ := hrow.proof
        exact hpartial proof hproof hwhole
  | foreign mem other =>
      obtain ⟨part, -, hevidence⟩ := hproves.part mem
      exact other (windowEvidence_isSome.mp hevidence).runId

theorem quotaProvenance_flawed (h : Flawed run rows) :
    quotaProvenance digests run rows = .error (.unavailable "invalid quota acquisition evidence") := by
  cases hresult : quotaProvenance digests run rows with
  | error error => rw [quotaProvenance_error hresult]
  | ok evidence =>
      exact absurd (quotaProvenance_isOk.mp ⟨evidence, hresult⟩).2 (not_proves_of_flawed h)

/-- The run that a binding has created is bound to it once it is completed. -/
theorem RunDoc.Created.bound (h : run.Created digests binding) (accepted : binding.Accepted)
    (aligned : binding.Aligned) (state : run.state = "completed")
    (scope : binding.scope = "devoluciones") : run.Bound digests := by
  have hbinding : run.binding = binding := by
    rw [h, RunDoc.binding, aligned.start, aligned.stop]
  refine ⟨?_, ?_, state, ?_, ?_⟩
  · rw [hbinding]
    exact accepted.wellFormed
  · rw [hbinding, h]
  · rw [h]
    exact scope
  · rw [h]
    show ((partitionWindows binding.start binding.stop).length : Int) =
      (partitionWindows (floorMs binding.start) (floorMs binding.stop)).length
    rw [aligned.start, aligned.stop]

/-! ### Agreement -/

theorem floorMs_min_of_aligned {a b : Int} (ha : floorMs a = a) (hb : floorMs b = b) :
    floorMs (min a b) = min a b := by
  obtain h | h := min_choice a b <;> rw [h] <;> assumption

/-- The windows of an aligned range have bounds that BSON keeps. -/
theorem partsFrom_aligned (hstart : floorMs start = start) (hstop : floorMs stop = stop)
    {index : Nat} (mem : window ∈ partsFrom runId stop index start) :
    floorMs window.start = window.start ∧ floorMs window.stop = window.stop := by
  induction start using range_induction stop generalizing index with
  | done start hdone =>
      rw [partsFrom_nil hdone] at mem
      cases mem
  | step start hmore ih =>
      have hnext : floorMs (start + windowLength) = start + windowLength := by
        simp only [floorMs, windowLength] at *
        omega
      rw [partsFrom_cons hmore] at mem
      obtain rfl | mem := List.mem_cons.mp mem
      · exact ⟨hstart, floorMs_min_of_aligned hnext hstop⟩
      · exact ih (floorMs_min_of_aligned hnext hstop) mem

/-- The windows of a binding tile its range in their order. -/
structure TilesRange (digests : Digests) (binding : RunBinding) (windows : List RunWindow) : Prop where
  adjoining : Adjoining RunWindow.start RunWindow.stop binding.start windows binding.stop
  short : ∀ window ∈ windows, window.stop - window.start ≤ windowLength
  run : ∀ window ∈ windows, window.runId = digests.runId binding
  indices : windows.map (·.index) = List.range windows.length

/-- Planner, resumer and prover agree on the windows of a binding. A lookup finds the first one
that is not completed, a preparation is repeated by its own key only, and a completed run of
devoluciones is proven by the rows of its windows in any order and by no rows with a flaw. -/
theorem runWindows_agree (digests : Digests) (sha256 : String → String) (binding : RunBinding)
    (accepted : binding.Accepted) (aligned : binding.Aligned) :
    ∃ windows, binding.windows digests = .ok windows ∧ TilesRange digests binding windows ∧
      (∀ (s t : RunRepository) (run : RunDoc) (ctx : Context) (now : Int),
        run.Created digests binding → s.runs.byKey (digests.runId binding) = some run →
          s.guarded ctx now = some t → s.readNext (digests.runId binding) ctx now =
            .ok (windows.find? fun window => !s.completed window, t)) ∧
      (∀ window ∈ windows, ∀ (s t : RunRepository) (ctx : Context) (key : String) (now clock : Int),
        s.prepare sha256 window ctx key now clock = .ok (true, t) →
          ∃ row, t.windows.byKey (window.windowId sha256) = some row ∧
            ∀ (u v : RunRepository) (row' : WindowRow) (ctx' : Context) (key' : String)
              (now' clock' : Int), u.windows.byKey (window.windowId sha256) = some row' →
                RunRepository.SameRow row' row → u.guarded ctx' now' = some v →
                  u.prepare sha256 window ctx' key' now' clock' = .ok (decide (key' = key), v) ∧
                    v.windows = u.windows) ∧
      ∀ (run : RunDoc) (rows : List WindowDoc), run.Created digests binding →
        run.state = "completed" →
          (binding.scope = "devoluciones" → List.Forall₂ CompletedRow rows windows →
            ∃ evidence, ∀ rows' : List WindowDoc, rows'.Perm rows →
              quotaProvenance digests run rows' = .ok evidence) ∧
          (Flawed run rows → quotaProvenance digests run rows =
            .error (.unavailable "invalid quota acquisition evidence")) := by
  have hlt : binding.start < binding.stop := by
    have hwellFormed := accepted.wellFormed
    simp only [RunBinding.wellFormed, Bool.and_eq_true, decide_eq_true_eq] at hwellFormed
    exact hwellFormed.1.1.2
  refine ⟨binding.partition digests, aligned.windows, ?_, ?_, ?_, ?_⟩
  · exact ⟨partsFrom_adjoining hlt.le 0, fun _ mem => (partsFrom_short mem).1,
      fun _ mem => (partsFrom_short mem).2, partsFrom_indices⟩
  · exact fun s t run ctx now created found lease =>
      RunRepository.readNext_eq aligned created found lease
  · intro window mem s t ctx key now clock h
    obtain ⟨hstart, hstop⟩ := partsFrom_aligned aligned.start aligned.stop mem
    obtain ⟨row, hrow, hmatches⟩ := RunRepository.prepare_row hstart hstop h
    exact ⟨row, hrow, fun u v row' ctx' key' now' clock' hrow' same lease =>
      RunRepository.prepare_again hmatches hrow' same lease⟩
  · intro run rows created state
    refine ⟨fun scope hrows => ?_, quotaProvenance_flawed⟩
    have hparts : List.Forall₂ (fun row part => (windowEvidence run.id row part).isSome) rows
        (partitionWindows run.start run.stop) := by
      rw [RunBinding.partition, partsFrom, List.forall₂_map_right_iff] at hrows
      rw [created]
      simp only [aligned.start, aligned.stop]
      refine hrows.imp fun row part hrow => windowEvidence_isSome.mpr ?_
      rw [RunWindow.ofPart]
      rwa [Nat.zero_add] at hrow
    obtain ⟨evidence, hevidence⟩ := quotaProvenance_isOk.mpr
      ⟨created.bound accepted aligned state scope, rows, .refl _, hparts⟩
    exact ⟨evidence, fun rows' perm => (quotaProvenance_perm perm).trans hevidence⟩

/-- A binding of a scope and a range. -/
def rangeBinding (scope : String) (start stop : Int) : RunBinding where
  authorizationId := "authorization"
  cohortId := "cohort"
  sellerId := "1"
  scope := scope
  start := start
  stop := stop
  partitionVersion := "v1"
  releaseFingerprints := [("sheets", "f")]

theorem rangeBinding_accepted {scope : String} (hscope : nonBlank scope = true) (lt : start < stop)
    (first : -62135596800000000 ≤ start) (last : stop ≤ 253402300799999999) :
    (rangeBinding scope start stop).Accepted where
  wellFormed := by
    have hplain : [("authorization" : String), "cohort", "1", "v1"].all nonBlank = true := by
      decide +kernel
    simp only [List.all_cons, List.all_nil, Bool.and_true, Bool.and_eq_true] at hplain
    simp [RunBinding.wellFormed, rangeBinding, hplain, hscope, lt]
  start := ⟨first, lt.le.trans last⟩
  stop := ⟨first.trans lt.le, last⟩
  mapping := List.nodup_singleton _

theorem runWindows_agree_elevenDays : ∃ windows,
    (rangeBinding "devoluciones" 0 950400000000).windows plainDigests = .ok windows ∧
      TilesRange plainDigests (rangeBinding "devoluciones" 0 950400000000) windows := by
  obtain ⟨windows, hwindows, htiles, -⟩ := runWindows_agree plainDigests (fun text => text)
    (rangeBinding "devoluciones" 0 950400000000)
    (rangeBinding_accepted (by decide +kernel) (by decide) (by decide) (by decide))
    ⟨by decide, by decide, by decide⟩
  exact ⟨windows, hwindows, htiles⟩

/-- In the last ten days of the calendar there is no partition, and a run of another scope is
never proven. -/
theorem runWindows_disagree :
    (¬ ∀ (digests : Digests) (binding : RunBinding), binding.Accepted →
        floorMs binding.start = binding.start → floorMs binding.stop = binding.stop →
          ∃ windows, binding.windows digests = .ok windows) ∧
    ¬ ∀ (digests : Digests) (binding : RunBinding) (windows : List RunWindow) (run : RunDoc)
        (rows : List WindowDoc), binding.Accepted → binding.Aligned →
          binding.windows digests = .ok windows → run.Created digests binding →
            run.state = "completed" → List.Forall₂ CompletedRow rows windows →
              ∃ evidence, quotaProvenance digests run rows = .ok evidence := by
  constructor
  · intro h
    obtain ⟨windows, hwindows⟩ := h plainDigests
      (rangeBinding "devoluciones" 253402300799998000 253402300799999000)
      (rangeBinding_accepted (by decide +kernel) (by decide) (by decide) (by decide))
      (by decide) (by decide)
    rw [RunBinding.windows, windowsFrom, dif_pos (by decide)] at hwindows
    cases hwindows
  · intro h
    let binding := rangeBinding "other" 0 1000
    let run : RunDoc :=
      { id := plainDigests.runId binding
        authorizationId := binding.authorizationId
        cohortId := binding.cohortId
        sellerId := binding.sellerId
        scope := binding.scope
        start := 0
        stop := 1000
        partitionVersion := binding.partitionVersion
        releaseFingerprints := binding.releaseFingerprints
        windowCount := 1
        state := "completed"
        updatedAt := none }
    have aligned : binding.Aligned := ⟨by decide, by decide, by decide⟩
    obtain ⟨evidence, hevidence⟩ := h plainDigests binding (binding.partition plainDigests) run
      [⟨plainDigests.runId binding, 0, 0, 1000, "completed", some ⟨0, 0, 0, 0, "s", "r"⟩⟩]
      (rangeBinding_accepted (by decide +kernel) (by decide) (by decide) (by decide)) aligned
      aligned.windows rfl rfl
      (.cons ⟨rfl, rfl, rfl, rfl, rfl, _, rfl, by decide, by decide, rfl, rfl, rfl, by decide⟩ .nil)
    have hscope := (quotaProvenance_isOk.mp ⟨evidence, hevidence⟩).1.scope
    exact absurd hscope (by decide)

end ZelerPlatform.Devoluciones
