import ZelerPlatform.Dlq.Archive
import ZelerPlatform.Library.Deliveries
import ZelerPlatform.Library.Tally

/-!
# An archive run over the dead-letter queue

A run draws messages from the head of the queue. A message that is archived is taken out after
its record has been stored; every other one is held until the end of the run and then given back,
the last one first. Messages may come in all the time, and each call to the broker or to the
store may fail with or without effect, or be interrupted.
-/

namespace ZelerPlatform.Dlq

open Fallible Mongo
open Imports (ImportError Texts orElse pyStr)
open Recovery (civil padded)

/-- A message in the queue. -/
structure Delivery where
  tag : Nat
  body : String
  deriving DecidableEq, Repr

/-- What becomes of a call: it returns, it raises, or it is interrupted, with effect or without. -/
inductive Effect
  | done
  | failed (applied : Bool)
  | interrupted (applied : Bool)
  deriving DecidableEq, Repr

/-- What the read of the evidence brings: the documents as they are then, or nothing. -/
inductive Evidence
  | read (db : Documents)
  | failed
  | interrupted

/-- What happens in one pass of the loop: the messages that have come in, whether a message can
be drawn, and the outcomes of the calls for it. -/
structure Turn where
  arrivals : List Delivery
  answers : Bool
  evidence : Evidence
  store : Effect
  ack : Effect

/-- The settings of a run. `loads` is `json.loads` of a body, if it can be read. -/
structure ArchiveRun where
  texts : Texts
  sha256 : String → String
  loads : String → Option Value
  sellers : List String
  now : Int
  retention : Int
  dryRun : Bool

inductive StopReason
  | evidenceReadFailed
  | archiveWriteFailed
  | releaseFailed
  deriving DecidableEq, Repr

/-- `_decode`. -/
def ArchiveRun.decode (run : ArchiveRun) (body : String) : Doc :=
  ((run.loads body).bind Value.document?).getD []

/-- `_COUNTABLE_EVENT_TYPE`: words of small letters with dots between them, two at least. -/
def countable (text : String) : Bool :=
  let words := text.toList.splitOn '.'
  2 ≤ words.length && words.all fun word =>
    word ≠ [] && word.all fun c => ('a' ≤ c && c ≤ 'z') || c = '_'

/-- `_countable_event_type`. -/
def ArchiveRun.countableEventType (run : ArchiveRun) (message : Doc) : String :=
  let kind := eventType run.texts message
  if kind.length ≤ 64 ∧ countable kind then kind else "other"

/-- `_occurred_month`. -/
def ArchiveRun.occurredMonth (run : ArchiveRun) (message : Doc) : String :=
  match parseTimestamp run.texts (Doc.getD message "occurred_at") with
  | .ok (some t) =>
      let (year, month, _) := civil (t / 86400000000)
      padded 4 year ++ "-" ++ padded 2 month
  | _ => "unknown"

/-- The counts of `ArchiveRunReport` that a pass adds to; `by_event_type_reason` counts pairs. -/
structure Counts where
  archived : Nat
  retained : Nat
  scanned : Nat
  wouldArchive : Nat
  byReason : Tally Reason
  byEventType : Tally String
  byMonth : Tally String
  byEventTypeReason : Tally (String × Reason)
  deriving DecidableEq, Repr

def Counts.zero : Counts := ⟨0, 0, 0, 0, [], [], [], []⟩

/-- The queue, the collection of records, the messages held, and the counts. -/
structure Scan where
  queue : Deliveries Delivery
  records : List ArchiveRecord
  held : List Delivery
  counts : Counts

/-- How the loop ends: its report can be made, or something has been raised. -/
inductive Halt
  | ended (reason : Option StopReason)
  | raised
  deriving DecidableEq, Repr

/-- A failed release is the reason of the stop if there is no other one. -/
def Halt.releaseFailed : Halt → Halt
  | ended none => ended (some .releaseFailed)
  | halt => halt

namespace ArchiveRun

variable (run : ArchiveRun)

/-- Hold a message until the end. -/
def hold (delivery : Delivery) (s : Scan) : Scan :=
  { s with held := s.held ++ [delivery], counts := { s.counts with retained := s.counts.retained + 1 } }

/-- Count a decision. -/
def count (message : Doc) (decision : ArchiveDecision) (s : Scan) : Scan :=
  let kind := run.countableEventType message
  { s with counts := { s.counts with
      byReason := s.counts.byReason.inc decision.reasonCode
      byEventType := s.counts.byEventType.inc kind
      byMonth := s.counts.byMonth.inc (run.occurredMonth message)
      byEventTypeReason := s.counts.byEventTypeReason.inc (kind, decision.reasonCode)
      wouldArchive := s.counts.wouldArchive + if decision.archive then 1 else 0 } }

/-- Take an archived message out. -/
def acknowledge (ack : Effect) (delivery : Delivery) (s : Scan) : Scan × Option Halt :=
  match ack with
  | .done => ({ s with
      queue := s.queue.take delivery
      counts := { s.counts with archived := s.counts.archived + 1 } }, none)
  | .failed applied | .interrupted applied =>
      (if applied then { s with queue := s.queue.take delivery } else s, some .raised)

/-- Store the record of a message, then take it out. -/
def archive (turn : Turn) (delivery : Delivery) (record : ArchiveRecord) (s : Scan) :
    Scan × Option Halt :=
  let stored := { s with records := s.records ++ [record] }
  match turn.store with
  | .done => acknowledge turn.ack delivery stored
  | .failed applied =>
      (hold delivery (if applied then stored else s), some (.ended (some .archiveWriteFailed)))
  | .interrupted applied => (if applied then stored else s, some .raised)

/-- What is done with a message once the evidence for it has been read. -/
def dispose (coverage : Coverage) (turn : Turn) (db : Documents) (delivery : Delivery) (s : Scan) :
    Scan × Option Halt :=
  let message := run.decode delivery.body
  match decideArchive run.texts message coverage run.now run.retention
      (mongoRereadLookup run.texts run.sellers db message) with
  | .error _ => (s, some .raised)
  | .ok decision =>
      let s := run.count message decision s
      if run.dryRun ∨ ¬ decision.archive then (hold delivery s, none)
      else
        match buildArchiveRecord run.texts run.sha256 message decision run.now with
        | .error _ => (s, some .raised)
        | .ok record => archive turn delivery record s

/-- One pass of the loop. -/
def pass (coverage : Coverage) (turn : Turn) (s : Scan) : Scan × Option Halt :=
  let s := { s with queue := s.queue.arrive turn.arrivals }
  if ¬ turn.answers then (s, some .raised)
  else
    match s.queue.draw with
    | none => (s, some (.ended none))
    | some (delivery, queue) =>
        let s := { s with
          queue, counts := { s.counts with scanned := s.counts.scanned + 1 } }
        match turn.evidence with
        | .failed => (hold delivery s, some (.ended (some .evidenceReadFailed)))
        | .interrupted => (s, some .raised)
        | .read db => run.dispose coverage turn db delivery s

/-- The loop, with one turn for each pass that the limit allows. -/
def scan (coverage : Coverage) : List Turn → Scan → Scan × Halt
  | [], s => (s, .ended none)
  | turn :: rest, s =>
      match run.pass coverage turn s with
      | (s, none) => scan coverage rest s
      | (s, some halt) => (s, halt)

/-- Give the held messages back, in this order. An interruption leaves the rest unsettled. -/
def release (give : Delivery → Effect) : List Delivery → Deliveries Delivery → Halt →
    Deliveries Delivery × Halt
  | [], queue, halt => (queue, halt)
  | delivery :: rest, queue, halt =>
      match give delivery with
      | .done => release give rest (queue.giveBack delivery) halt
      | .failed applied =>
          release give rest (if applied then queue.giveBack delivery else queue)
            halt.releaseFailed
      | .interrupted applied => (if applied then queue.giveBack delivery else queue, .raised)

/-- What a run leaves: the queue, the records, and the counts with the reason of the stop where it
reports them. -/
structure Result where
  queue : Deliveries Delivery
  records : List ArchiveRecord
  report : Option (Counts × Option StopReason)
  deriving DecidableEq, Repr

/-- `run_archive`, with the markers as they are before it and the messages that come in while the
held ones are given back. -/
def runArchive (markers : Documents) (turns : List Turn) (give : Delivery → Effect)
    (late : List Delivery) (queue : Deliveries Delivery) (records : List ArchiveRecord) :
    Except ImportError Result := do
  let coverage ← loadReconciledCoverages run.texts run.sellers markers
  let (s, halt) := run.scan coverage turns ⟨queue, records, [], .zero⟩
  let (queue, halt) := release give s.held.reverse s.queue halt
  return {
    queue := (queue.arrive late).close
    records := s.records
    report := match halt with
      | .ended reason => some (s.counts, reason)
      | .raised => none }

end ArchiveRun

/-! ### What holds in the loop -/

/-- The record stands for a message whose removal the evidence read in one of the turns
authorizes. -/
def Recorded (run : ArchiveRun) (markers : Documents) (turns : List Turn) (delivery : Delivery)
    (record : ArchiveRecord) : Prop :=
  ∃ turn ∈ turns, ∃ db decision, turn.evidence = .read db ∧
    Authorized run.texts run.sellers markers db (run.decode delivery.body) run.now run.retention
      decision.reasonCode ∧
    buildArchiveRecord run.texts run.sha256 (run.decode delivery.body) decision run.now = .ok record

/-- What holds at any point: no message is lost or doubled, and the removed ones have their
records, in the same order. At most one record stands for a message that is not removed. -/
structure Sound (run : ArchiveRun) (markers : Documents) (turns : List Turn)
    (records : List ArchiveRecord) (s : Scan) : Prop where
  conserved : s.queue.Conserved
  recorded : ∃ added extra, s.records = records ++ added ++ extra ∧
    List.Forall₂ (Recorded run markers turns) s.queue.removed added ∧
    (extra = [] ∨ ∃ delivery ∈ s.queue.unsettled, ∃ record, extra = [record] ∧
      Recorded run markers turns delivery record)
  dry : run.dryRun = true → s.queue.removed = [] ∧ s.records = records
  unsettled : ∃ rest, s.queue.unsettled.Perm (s.held ++ rest)

/-- The counts fit together, after so many decisions. -/
structure Counts.Fit (counts : Counts) (removed decided : Nat) : Prop where
  archived : counts.archived = removed
  scanned : counts.scanned = counts.archived + counts.retained
  byReason : counts.byReason.total = decided
  byEventType : counts.byEventType.total = decided
  byMonth : counts.byMonth.total = decided
  byEventTypeReason : counts.byEventTypeReason.total = decided

/-- What holds where the report can be made: the messages that are left are in their order, and
everything has been counted. -/
structure Orderly (s : Scan) (reason : Option StopReason) : Prop where
  order : (s.held ++ s.queue.ready).Sublist s.queue.published
  unsettled : s.queue.unsettled.Perm s.held
  counts : ∃ decided, s.counts.Fit s.queue.removed.length decided ∧
    s.counts.scanned = decided + if reason = some .evidenceReadFailed then 1 else 0

/-- What holds between two passes. -/
structure Between (run : ArchiveRun) (markers : Documents) (turns : List Turn)
    (records : List ArchiveRecord) (s : Scan) : Prop where
  conserved : s.queue.Conserved
  recorded : ∃ added, s.records = records ++ added ∧
    List.Forall₂ (Recorded run markers turns) s.queue.removed added
  dry : run.dryRun = true → s.queue.removed = [] ∧ s.records = records
  orderly : Orderly s none

/-- What a pass that ends the loop leaves. -/
def Halts (run : ArchiveRun) (markers : Documents) (turns : List Turn)
    (records : List ArchiveRecord) (s : Scan) (halt : Halt) : Prop :=
  Sound run markers turns records s ∧ ∀ reason, halt = .ended reason → Orderly s reason

/-- What a pass leaves. -/
def Settles (run : ArchiveRun) (markers : Documents) (turns : List Turn)
    (records : List ArchiveRecord) : Scan × Option Halt → Prop
  | (s, none) => Between run markers turns records s
  | (s, some halt) => Halts run markers turns records s halt

section

variable {run : ArchiveRun} {markers : Documents} {turns : List Turn} {turn : Turn}
variable {records : List ArchiveRecord} {s s' : Scan} {coverage : Coverage}
variable {delivery : Delivery} {record : ArchiveRecord} {halt : Halt}

theorem Between.sound (h : Between run markers turns records s) :
    Sound run markers turns records s := by
  obtain ⟨added, hrecords, hall⟩ := h.recorded
  exact ⟨h.conserved, ⟨added, [], by simp [hrecords], hall, .inl rfl⟩, h.dry,
    ⟨[], by simpa using h.orderly.unsettled⟩⟩

/-- A message that has just been drawn: it is the last one that is unsettled. -/
structure Drawn (run : ArchiveRun) (markers : Documents) (turns : List Turn)
    (records : List ArchiveRecord) (delivery : Delivery) (s : Scan) : Prop where
  conserved : s.queue.Conserved
  recorded : ∃ added, s.records = records ++ added ∧
    List.Forall₂ (Recorded run markers turns) s.queue.removed added
  dry : run.dryRun = true → s.queue.removed = [] ∧ s.records = records
  order : (s.held ++ delivery :: s.queue.ready).Sublist s.queue.published
  unsettled : s.queue.unsettled.Perm (s.held ++ [delivery])
  archived : s.counts.archived = s.queue.removed.length
  scanned : s.counts.scanned = s.counts.archived + s.counts.retained + 1

theorem Drawn.sound (h : Drawn run markers turns records delivery s) :
    Sound run markers turns records s := by
  obtain ⟨added, hrecords, hall⟩ := h.recorded
  exact ⟨h.conserved, ⟨added, [], by simp [hrecords], hall, .inl rfl⟩, h.dry,
    ⟨[delivery], h.unsettled⟩⟩

/-- A message whose record has been stored is still there. -/
theorem Drawn.sound_stored (h : Drawn run markers turns records delivery s)
    (real : run.dryRun = false) (hrecord : Recorded run markers turns delivery record) :
    Sound run markers turns records { s with records := s.records ++ [record] } := by
  obtain ⟨added, hrecords, hall⟩ := h.recorded
  refine ⟨h.conserved, ⟨added, [record], by simp [hrecords], hall, .inr ⟨delivery, ?_, record, rfl,
    hrecord⟩⟩, fun hdry => ?_, ⟨[delivery], h.unsettled⟩⟩
  · exact h.unsettled.mem_iff.mpr (by simp)
  · rw [real] at hdry
    cases hdry

/-- Holding a message keeps its place. -/
theorem Drawn.hold_sound (h : Drawn run markers turns records delivery s)
    (sound : Sound run markers turns records s') (queue : s'.queue = s.queue)
    (held : s'.held = s.held) : Sound run markers turns records (ArchiveRun.hold delivery s') := by
  refine ⟨sound.conserved, sound.recorded, sound.dry, ⟨[], ?_⟩⟩
  show s'.queue.unsettled.Perm (s'.held ++ [delivery] ++ [])
  rw [queue, held, List.append_nil]
  exact h.unsettled

theorem Drawn.hold_orderly (h : Drawn run markers turns records delivery s) {decided : Nat}
    {reason : Option StopReason} (queue : s'.queue = s.queue) (held : s'.held = s.held)
    (archived : s'.counts.archived = s.counts.archived)
    (retained : s'.counts.retained = s.counts.retained)
    (scanned : s'.counts.scanned = s.counts.scanned)
    (byReason : s'.counts.byReason.total = decided)
    (byEventType : s'.counts.byEventType.total = decided)
    (byMonth : s'.counts.byMonth.total = decided)
    (byEventTypeReason : s'.counts.byEventTypeReason.total = decided)
    (count : s.counts.scanned = decided + if reason = some .evidenceReadFailed then 1 else 0) :
    Orderly (ArchiveRun.hold delivery s') reason := by
  refine ⟨?_, ?_, decided, ⟨?_, ?_, byReason, byEventType, byMonth, byEventTypeReason⟩, ?_⟩
  · show (s'.held ++ [delivery] ++ s'.queue.ready).Sublist s'.queue.published
    rw [queue, held, List.append_assoc, List.singleton_append]
    exact h.order
  · show s'.queue.unsettled.Perm (s'.held ++ [delivery])
    rw [queue, held]
    exact h.unsettled
  · show s'.counts.archived = s'.queue.removed.length
    rw [archived, queue, h.archived]
  · show s'.counts.scanned = s'.counts.archived + (s'.counts.retained + 1)
    rw [archived, retained, scanned, h.scanned]
    omega
  · exact scanned.trans count

/-- A message that is taken out, with its record. -/
theorem Drawn.take (h : Drawn run markers turns records delivery s) (real : run.dryRun = false)
    (hrecord : Recorded run markers turns delivery record) {decided : Nat}
    (byReason : s.counts.byReason.total = decided)
    (byEventType : s.counts.byEventType.total = decided)
    (byMonth : s.counts.byMonth.total = decided)
    (byEventTypeReason : s.counts.byEventTypeReason.total = decided)
    (scanned : s.counts.scanned = decided) :
    Between run markers turns records { s with
      records := s.records ++ [record]
      queue := s.queue.take delivery
      counts := { s.counts with archived := s.counts.archived + 1 } } := by
  have hmem : delivery ∈ s.queue.unsettled := h.unsettled.mem_iff.mpr (by simp)
  obtain ⟨added, hrecords, hall⟩ := h.recorded
  refine ⟨h.conserved.take hmem, ⟨added ++ [record], ?_, ?_⟩, fun hdry => ?_, ?_, ?_, decided,
    ⟨?_, ?_, byReason, byEventType, byMonth, byEventTypeReason⟩, ?_⟩
  · simp [hrecords]
  · exact List.rel_append hall (.cons hrecord .nil)
  · rw [real] at hdry
    cases hdry
  · exact ((List.Sublist.refl s.held).append (List.sublist_cons_self delivery _)).trans h.order
  · have hcons : (delivery :: s.queue.unsettled.erase delivery).Perm (delivery :: s.held) :=
      (List.perm_cons_erase hmem).symm.trans (h.unsettled.trans (List.perm_append_singleton delivery s.held))
    exact hcons.cons_inv
  · show s.counts.archived + 1 = (s.queue.removed ++ [delivery]).length
    rw [h.archived, List.length_append, List.length_singleton]
  · show s.counts.scanned = s.counts.archived + 1 + s.counts.retained
    rw [h.scanned]
    omega
  · show s.counts.scanned = decided + 0
    rw [scanned, Nat.add_zero]

theorem Sound.raised (h : Sound run markers turns records s) :
    Halts run markers turns records s .raised := ⟨h, nofun⟩

theorem Drawn.archive (h : Drawn run markers turns records delivery s) (real : run.dryRun = false)
    (hrecord : Recorded run markers turns delivery record) (turn : Turn)
    (byReason : s.counts.byReason.total = s.counts.scanned)
    (byEventType : s.counts.byEventType.total = s.counts.scanned)
    (byMonth : s.counts.byMonth.total = s.counts.scanned)
    (byEventTypeReason : s.counts.byEventTypeReason.total = s.counts.scanned) :
    Settles run markers turns records (ArchiveRun.archive turn delivery record s) := by
  have htaken := h.take real hrecord byReason byEventType byMonth byEventTypeReason rfl
  have hstored := h.sound_stored real hrecord
  have hgiven {stored : Scan} (sound : Sound run markers turns records stored)
      (same : stored = s ∨ stored = { s with records := s.records ++ [record] }) :
      Halts run markers turns records (ArchiveRun.hold delivery stored)
        (.ended (some .archiveWriteFailed)) := by
    have hqueue : stored.queue = s.queue ∧ stored.held = s.held ∧ stored.counts = s.counts := by
      obtain rfl | rfl := same
      · exact ⟨rfl, rfl, rfl⟩
      · exact ⟨rfl, rfl, rfl⟩
    obtain ⟨hqueue, hheld, hcounts⟩ := hqueue
    refine ⟨h.hold_sound sound hqueue hheld, fun reason hreason => ?_⟩
    obtain rfl : some .archiveWriteFailed = reason := Halt.ended.inj hreason
    exact h.hold_orderly hqueue hheld (by rw [hcounts]) (by rw [hcounts]) (by rw [hcounts])
      (by rw [hcounts, byReason]) (by rw [hcounts, byEventType]) (by rw [hcounts, byMonth])
      (by rw [hcounts, byEventTypeReason]) rfl
  unfold ArchiveRun.archive
  dsimp only
  split
  · unfold ArchiveRun.acknowledge
    split
    · exact htaken
    · next applied _ =>
        cases applied with
        | true => exact Sound.raised ⟨htaken.conserved, htaken.sound.recorded, htaken.dry,
            htaken.sound.unsettled⟩
        | false => exact hstored.raised
    · next applied _ =>
        cases applied with
        | true => exact Sound.raised ⟨htaken.conserved, htaken.sound.recorded, htaken.dry,
            htaken.sound.unsettled⟩
        | false => exact hstored.raised
  · next applied _ =>
      cases applied with
      | true => exact hgiven hstored (.inr rfl)
      | false => exact hgiven h.sound (.inl rfl)
  · next applied _ =>
      cases applied with
      | true => exact hstored.raised
      | false => exact h.sound.raised

/-- Counting a decision changes nothing else. -/
theorem Drawn.count (h : Drawn run markers turns records delivery s) (message : Doc)
    (decision : ArchiveDecision) :
    Drawn run markers turns records delivery (run.count message decision s) :=
  ⟨h.conserved, h.recorded, h.dry, h.order, h.unsettled, h.archived, h.scanned⟩

theorem Drawn.dispose
    (markers_ok : loadReconciledCoverages run.texts run.sellers markers = .ok coverage)
    (h : Drawn run markers turns records delivery s) (mem : turn ∈ turns) {db : Documents}
    (evidence : turn.evidence = .read db) {decided : Nat} (count : s.counts.scanned = decided + 1)
    (byReason : s.counts.byReason.total = decided)
    (byEventType : s.counts.byEventType.total = decided)
    (byMonth : s.counts.byMonth.total = decided)
    (byEventTypeReason : s.counts.byEventTypeReason.total = decided) :
    Settles run markers turns records (run.dispose coverage turn db delivery s) := by
  unfold ArchiveRun.dispose
  dsimp only
  split
  · exact h.sound.raised
  · next decision hdecision =>
      have hcounted := h.count (run.decode delivery.body) decision
      have hscanned : (run.count (run.decode delivery.body) decision s).counts.scanned =
          decided + 1 := count
      have htotals {κ : Type} [DecidableEq κ] {tally : Tally κ} {key : κ}
          (total : tally.total = decided) : (tally.inc key).total = (decided + 1 : Nat) := by
        rw [Tally.total_inc, total]
        rfl
      split
      · refine ⟨?_, ?_, ?_, ?_⟩
        · exact h.conserved
        · exact h.recorded
        · exact h.dry
        · exact hcounted.hold_orderly rfl rfl rfl rfl rfl (htotals byReason) (htotals byEventType)
            (htotals byMonth) (htotals byEventTypeReason) (by rw [hscanned]; rfl)
      · next harchives =>
          obtain ⟨hreal, harchive⟩ := not_or.mp harchives
          split
          · exact hcounted.sound.raised
          · next record hrecord =>
              refine hcounted.archive (by simpa using hreal) ⟨turn, mem, db, decision, evidence, ?_,
                hrecord⟩ turn ?_ ?_ ?_ ?_
              · exact authorized_of_decide markers_ok hdecision (not_not.mp harchive)
              · rw [hscanned]
                exact htotals byReason
              · rw [hscanned]
                exact htotals byEventType
              · rw [hscanned]
                exact htotals byMonth
              · rw [hscanned]
                exact htotals byEventTypeReason

/-- One pass. -/
theorem Between.pass
    (markers_ok : loadReconciledCoverages run.texts run.sellers markers = .ok coverage)
    (h : Between run markers turns records s) (mem : turn ∈ turns) :
    Settles run markers turns records (run.pass coverage turn s) := by
  obtain ⟨decided, hfit, hcount⟩ := h.orderly.counts
  have harrived : Between run markers turns records
      { s with queue := s.queue.arrive turn.arrivals } := by
    refine ⟨h.conserved.arrive _, h.recorded, h.dry, ?_, h.orderly.unsettled, decided, hfit, hcount⟩
    show (s.held ++ (s.queue.ready ++ turn.arrivals)).Sublist (s.queue.published ++ turn.arrivals)
    rw [← List.append_assoc]
    exact h.orderly.order.append_right turn.arrivals
  unfold ArchiveRun.pass
  dsimp only
  split
  · exact harrived.sound.raised
  · split
    · refine ⟨harrived.sound, fun reason hreason => ?_⟩
      obtain rfl : none = reason := Halt.ended.inj hreason
      exact harrived.orderly
    · next delivery queue hdraw =>
        obtain ⟨hready, hunsettled, hremoved, hpublished⟩ := Deliveries.draw_some hdraw
        have hdrawn : Drawn run markers turns records delivery { s with
            queue, counts := { s.counts with scanned := s.counts.scanned + 1 } } := by
          refine ⟨harrived.conserved.draw hdraw, ?_, ?_, ?_, ?_, ?_, ?_⟩
          · rw [hremoved]
            exact h.recorded
          · rw [hremoved]
            exact h.dry
          · rw [hpublished, ← hready]
            exact harrived.orderly.order
          · rw [hunsettled]
            exact h.orderly.unsettled.append_right [delivery]
          · rw [hremoved]
            exact hfit.archived
          · rw [hfit.scanned]
        have hscanned : s.counts.scanned + 1 = decided + 1 := by
          rw [hcount]
          rfl
        split
        · refine ⟨hdrawn.hold_sound hdrawn.sound rfl rfl, fun reason hreason => ?_⟩
          obtain rfl : some .evidenceReadFailed = reason := Halt.ended.inj hreason
          exact hdrawn.hold_orderly rfl rfl rfl rfl rfl hfit.byReason hfit.byEventType hfit.byMonth
            hfit.byEventTypeReason (by rw [if_pos rfl]; exact hscanned)
        · exact hdrawn.sound.raised
        · next db hdb =>
            exact hdrawn.dispose markers_ok mem hdb hscanned hfit.byReason hfit.byEventType
              hfit.byMonth hfit.byEventTypeReason

/-! ### The loop -/

theorem published_archive : (ArchiveRun.archive turn delivery record s).1.queue.published =
    s.queue.published := by
  unfold ArchiveRun.archive ArchiveRun.acknowledge
  dsimp only
  split
  · split
    · rfl
    · split <;> rfl
    · split <;> rfl
  · split <;> rfl
  · split <;> rfl

theorem published_dispose {db : Documents} :
    (run.dispose coverage turn db delivery s).1.queue.published = s.queue.published := by
  unfold ArchiveRun.dispose
  dsimp only
  split
  · rfl
  · split
    · rfl
    · split
      · rfl
      · exact published_archive

/-- A pass puts in what has come in meanwhile. -/
theorem published_pass :
    (run.pass coverage turn s).1.queue.published = s.queue.published ++ turn.arrivals := by
  unfold ArchiveRun.pass
  dsimp only
  split
  · rfl
  · split
    · rfl
    · next delivery queue hdraw =>
        obtain ⟨-, -, -, hpublished⟩ := Deliveries.draw_some hdraw
        split
        · exact hpublished
        · exact hpublished
        · exact published_dispose.trans hpublished

theorem Between.scan
    (markers_ok : loadReconciledCoverages run.texts run.sellers markers = .ok coverage)
    {rest : List Turn} (h : Between run markers turns records s)
    (mem : ∀ turn ∈ rest, turn ∈ turns) :
    Halts run markers turns records (run.scan coverage rest s).1 (run.scan coverage rest s).2 ∧
    ∃ taken, taken <+: rest ∧ (run.scan coverage rest s).1.queue.published =
      s.queue.published ++ taken.flatMap Turn.arrivals := by
  induction rest generalizing s with
  | nil =>
      refine ⟨⟨h.sound, fun reason hreason => ?_⟩, [], List.prefix_rfl, by simp [ArchiveRun.scan]⟩
      obtain rfl : none = reason := Halt.ended.inj hreason
      exact h.orderly
  | cons turn rest ih =>
      obtain ⟨hturn, hrest⟩ := List.forall_mem_cons.mp mem
      have hsettles := h.pass markers_ok hturn
      have hpublished : (run.pass coverage turn s).1.queue.published =
          s.queue.published ++ turn.arrivals := published_pass
      rw [ArchiveRun.scan]
      revert hsettles hpublished
      split
      · next after heq =>
          rw [heq]
          intro hbetween hpublished
          obtain ⟨hhalts, taken, hprefix, hall⟩ := ih hbetween hrest
          refine ⟨hhalts, turn :: taken, List.cons_prefix_cons.mpr ⟨rfl, hprefix⟩, ?_⟩
          rw [hall, hpublished, List.flatMap_cons, List.append_assoc]
      · next after halt heq =>
          rw [heq]
          intro hhalts hpublished
          exact ⟨hhalts, [turn], List.cons_prefix_cons.mpr ⟨rfl, List.nil_prefix⟩, by
            simpa using hpublished⟩

/-! ### Giving back -/

variable {give : Delivery → Effect} {todo rest : List Delivery} {queue queue' : Deliveries Delivery}

/-- What giving back keeps, however the calls turn out. -/
structure GivesBack (queue queue' : Deliveries Delivery) (halt halt' : Halt) : Prop where
  conserved : queue'.Conserved
  removed : queue'.removed = queue.removed
  published : queue'.published = queue.published
  reported : ∀ reason, halt' = .ended reason → ∃ reason', halt = .ended reason' ∧
    (reason = some .evidenceReadFailed ↔ reason' = some .evidenceReadFailed)

theorem reported_of_failure {reason : Option StopReason}
    (h : halt.releaseFailed = .ended reason) : ∃ reason', halt = .ended reason' ∧
      (reason = some .evidenceReadFailed ↔ reason' = some .evidenceReadFailed) := by
  unfold Halt.releaseFailed at h
  split at h
  · cases h
    exact ⟨none, rfl, by simp⟩
  · exact ⟨reason, h, Iff.rfl⟩

theorem release_keeps {halt' : Halt} (conserved : queue.Conserved)
    (perm : queue.unsettled.Perm (todo ++ rest))
    (h : ArchiveRun.release give todo queue halt = (queue', halt')) :
    GivesBack queue queue' halt halt' := by
  induction todo generalizing queue halt rest with
  | nil =>
      obtain ⟨rfl, rfl⟩ := Prod.mk.inj h
      exact ⟨conserved, rfl, rfl, fun reason hreason => ⟨reason, hreason, Iff.rfl⟩⟩
  | cons delivery todo ih =>
      have hgiven := conserved.giveBack (perm.mem_iff.mpr (List.mem_append_left rest
        (List.mem_cons_self ..)))
      have herased : (queue.giveBack delivery).unsettled.Perm (todo ++ rest) :=
        ((List.perm_cons_erase (perm.mem_iff.mpr (List.mem_append_left rest
          (List.mem_cons_self ..)))).symm.trans perm).cons_inv
      have hleft : queue.unsettled.Perm (todo ++ delivery :: rest) :=
        perm.trans List.perm_middle.symm
      rw [ArchiveRun.release] at h
      split at h
      · obtain ⟨hconserved, hremoved, hpublished, hreported⟩ := ih hgiven herased h
        exact ⟨hconserved, hremoved, hpublished, hreported⟩
      · next applied _ =>
          cases applied with
          | true =>
              obtain ⟨hconserved, hremoved, hpublished, hreported⟩ := ih hgiven herased h
              refine ⟨hconserved, hremoved, hpublished, fun reason hended => ?_⟩
              obtain ⟨reason', hhalt, hsame⟩ := hreported reason hended
              obtain ⟨reason'', hhalt', hsame'⟩ := reported_of_failure hhalt
              exact ⟨reason'', hhalt', hsame.trans hsame'⟩
          | false =>
              obtain ⟨hconserved, hremoved, hpublished, hreported⟩ := ih conserved hleft h
              refine ⟨hconserved, hremoved, hpublished, fun reason hended => ?_⟩
              obtain ⟨reason', hhalt, hsame⟩ := hreported reason hended
              obtain ⟨reason'', hhalt', hsame'⟩ := reported_of_failure hhalt
              exact ⟨reason'', hhalt', hsame.trans hsame'⟩
      · next applied _ =>
          obtain ⟨rfl, rfl⟩ := Prod.mk.inj h
          cases applied with
          | true => exact ⟨hgiven, rfl, rfl, nofun⟩
          | false => exact ⟨conserved, rfl, rfl, nofun⟩

/-- Where every message is given back, the held ones stand in front of the others, the last one
given back first. -/
theorem release_done (halt : Halt) (done : ∀ delivery, give delivery = .done)
    (perm : queue.unsettled.Perm todo) :
    (ArchiveRun.release give todo queue halt).1.ready = todo.reverse ++ queue.ready ∧
    (ArchiveRun.release give todo queue halt).1.unsettled = [] ∧
    (ArchiveRun.release give todo queue halt).1.published = queue.published := by
  induction todo generalizing queue with
  | nil => exact ⟨rfl, List.perm_nil.mp perm, rfl⟩
  | cons delivery todo ih =>
      have herased : (queue.giveBack delivery).unsettled.Perm todo :=
        ((List.perm_cons_erase (perm.mem_iff.mpr (List.mem_cons_self ..))).symm.trans perm).cons_inv
      obtain ⟨hready, hunsettled, hpublished⟩ := ih herased
      rw [ArchiveRun.release, done]
      refine ⟨?_, hunsettled, hpublished⟩
      rw [hready, List.reverse_cons, List.append_assoc]
      rfl

end

/-! ### Whole runs -/

/-- What an archive run does: it loses and doubles no message, takes out only messages for whose
removal there is evidence and a record, which was stored before, and reports what it has done.
A record may stand for one message that is still there, as the run stops there. -/
structure Archived (run : ArchiveRun) (markers : Documents) (turns : List Turn)
    (give : Delivery → Effect) (late queue : List Delivery) (records : List ArchiveRecord)
    (result : ArchiveRun.Result) : Prop where
  published : ∃ taken, taken <+: turns ∧
    result.queue.published = queue ++ taken.flatMap Turn.arrivals ++ late
  conserved : (result.queue.ready ++ result.queue.removed).Perm result.queue.published
  recorded : ∃ added extra, result.records = records ++ added ++ extra ∧
    List.Forall₂ (Recorded run markers turns) result.queue.removed added ∧
    (extra = [] ∨ ∃ delivery ∈ result.queue.ready, ∃ record, extra = [record] ∧
      Recorded run markers turns delivery record)
  dry : run.dryRun = true → result.queue.removed = [] ∧ result.records = records
  report : ∀ counts reason, result.report = some (counts, reason) → ∃ decided,
    counts.Fit result.queue.removed.length decided ∧
    counts.scanned = decided + if reason = some .evidenceReadFailed then 1 else 0
  order : (∀ delivery, give delivery = .done) → result.report.isSome →
    result.queue.ready.Sublist result.queue.published

/-- However the calls of a run turn out and wherever it is interrupted. -/
theorem archive_run_safe (run : ArchiveRun) (markers : Documents) (turns : List Turn)
    (give : Delivery → Effect) (late queue : List Delivery) (records : List ArchiveRecord)
    (result : ArchiveRun.Result)
    (h : run.runArchive markers turns give late (.ofList queue) records = .ok result) :
    Archived run markers turns give late queue records result := by
  unfold ArchiveRun.runArchive at h
  obtain ⟨coverage, hcoverage, hrest⟩ := bind_ok h
  have hstart : Between run markers turns records ⟨.ofList queue, records, [], .zero⟩ :=
    ⟨Deliveries.conserved_ofList queue, ⟨[], by simp, .nil⟩, fun _ => ⟨rfl, rfl⟩,
      ⟨List.Sublist.refl _, List.Perm.refl _, 0, ⟨rfl, rfl, rfl, rfl, rfl, rfl⟩, rfl⟩⟩
  obtain ⟨⟨hsound, horderly⟩, taken, hprefix, htaken⟩ := hstart.scan hcoverage fun _ => id
  generalize run.scan coverage turns ⟨.ofList queue, records, [], .zero⟩ = scanned at *
  obtain ⟨s, halt⟩ := scanned
  obtain ⟨queue', halt', hrelease⟩ :
      ∃ queue' halt', ArchiveRun.release give s.held.reverse s.queue halt = (queue', halt') :=
    ⟨_, _, rfl⟩
  dsimp only at hrest hsound horderly htaken
  rw [hrelease] at hrest
  obtain rfl := pure_ok hrest
  obtain ⟨rest, hperm⟩ := hsound.unsettled
  have hgives := release_keeps hsound.conserved
    (hperm.trans ((List.reverse_perm s.held).symm.append_right rest)) hrelease
  have hclosed := (hgives.conserved.arrive late).close
  refine ⟨⟨taken, hprefix, ?_⟩, ?_, ?_, ?_, ?_, ?_⟩
  · show queue'.published ++ late = _
    rw [hgives.published, htaken]
    rfl
  · unfold Deliveries.Conserved at hclosed
    simpa [Deliveries.close] using hclosed
  · obtain ⟨added, extra, hrecords, hall, hextra⟩ := hsound.recorded
    refine ⟨added, extra, hrecords, ?_, ?_⟩
    · show List.Forall₂ _ queue'.removed added
      rw [hgives.removed]
      exact hall
    · obtain hnone | ⟨delivery, hmem, record, hrecord, hrecorded⟩ := hextra
      · exact .inl hnone
      · refine .inr ⟨delivery, ?_, record, hrecord, hrecorded⟩
        have hleft := hsound.conserved.left hgives.conserved hgives.removed hgives.published
        have hthere := hleft.mem_iff.mpr (List.mem_append_right s.queue.ready hmem)
        show delivery ∈ queue'.unsettled ++ (queue'.ready ++ late)
        obtain hready | hunsettled := List.mem_append.mp hthere
        · exact List.mem_append_right _ (List.mem_append_left _ hready)
        · exact List.mem_append_left _ hunsettled
  · intro hdry
    show queue'.removed = [] ∧ _
    rw [hgives.removed]
    exact hsound.dry hdry
  · intro counts reason hreport
    cases halt' with
    | raised => cases hreport
    | ended reason' =>
        obtain ⟨rfl, rfl⟩ := Prod.mk.inj (Option.some.inj hreport)
        obtain ⟨before, rfl, hsame⟩ := hgives.reported reason' rfl
        obtain ⟨decided, hfit, hcount⟩ := (horderly before rfl).counts
        refine ⟨decided, ?_, ?_⟩
        · show s.counts.Fit queue'.removed.length decided
          rw [hgives.removed]
          exact hfit
        · rw [hcount]
          simp only [hsame]
  · intro hdone hreport
    cases halt' with
    | raised => cases hreport
    | ended reason' =>
        obtain ⟨before, rfl, -⟩ := hgives.reported reason' rfl
        obtain ⟨horder, hunsettled, -⟩ := horderly before rfl
        have hback := release_done (.ended before) hdone
          (hunsettled.trans (List.reverse_perm s.held).symm)
        rw [hrelease, List.reverse_reverse] at hback
        obtain ⟨hready, hnone, hpublished⟩ := hback
        show (queue'.unsettled ++ (queue'.ready ++ late)).Sublist (queue'.published ++ late)
        rw [hnone, List.nil_append, hready, hpublished]
        exact horder.append_right late

/-- A run thirty days and a microsecond after the epoch. A body tells the instant of its event. -/
def lateRun : ArchiveRun where
  texts := Imports.plainTexts
  sha256 text := text
  loads body := some (.document [("occurred_at", .date (if body = "old" then 0 else 1000000))])
  sellers := ["7"]
  now := retentionBound + 1
  retention := retentionBound
  dryRun := false

/-- A turn whose calls all work. -/
def calmTurn : Turn := ⟨[], true, .read fun _ => [], .done, .done⟩

/-- The event at the epoch is too old, the one a second later is not. -/
def lateResult : ArchiveRun.Result where
  queue := ⟨[⟨2, "new"⟩], [], [⟨1, "old"⟩], [⟨1, "old"⟩, ⟨2, "new"⟩]⟩
  records := [⟨"", none, none, none, some "1970-01-01T00:00:00+00:00", .ageExceeded,
    "1970-01-31T00:00:00.000001+00:00"⟩]
  report := some (⟨1, 1, 2, 1, [(.ageExceeded, 1), (.retained, 1)], [("other", 2)],
    [("1970-01", 2)], [(("other", .ageExceeded), 1), (("other", .retained), 1)]⟩, none)

theorem archive_run_safe_late : Archived lateRun (fun _ => []) [calmTurn, calmTurn, calmTurn]
    (fun _ => .done) [] [⟨1, "old"⟩, ⟨2, "new"⟩] [] lateResult :=
  archive_run_safe lateRun (fun _ => []) [calmTurn, calmTurn, calmTurn] (fun _ => .done) []
    [⟨1, "old"⟩, ⟨2, "new"⟩] [] lateResult (by decide +kernel)

end ZelerPlatform.Dlq
