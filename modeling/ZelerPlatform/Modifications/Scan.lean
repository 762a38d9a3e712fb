import ZelerPlatform.Library.Program
import ZelerPlatform.Recovery.Queue

/-!
# Scans of modified orders

A scan enumerates the orders of a seller that were modified up to its cutoff, twice. The
first pass asks the recovery queue for every order it finds in the window, the second pass
finds each of them again with its recovery completed. A page is stored with its receipts in
one transaction, which compares the scan of the plan with the one the caller holds. The
cutoff of a completed scan becomes the watermark from which the next one starts.

Callers hold any scans and any pages. The jobs are those of the recovery queue; what other
workers make of them is arbitrary, except that a modification that has ended stays so.
Digests stand for what they digest. Instants are in microseconds; stored ones are cut to
milliseconds.
-/

namespace ZelerPlatform.Modifications

open Fallible Transition
open Mongo.Value (floorMs)
open Recovery (Jobs Queue Request)

/-- `SCAN_INTERVAL` -/
def scanInterval : ℤ := 15 * 60 * 1000000

/-- How far a window starts before the watermark. -/
def overlap : ℤ := 24 * 60 * 60 * 1000000

/-- `MAX_MODIFICATION_RESULTS` -/
def maxModificationResults : Nat := 10000

/-- `MAX_SCAN_GENERATION` -/
def maxScanGeneration : Nat := 4

inductive ScanError
  | invalid
  | drift (message : String)
  | blocked
  | limit
  deriving DecidableEq, Repr

/-! ### Documents -/

def isDecimal (text : String) : Bool := text ≠ "" && text.toList.all Char.isDigit

inductive Phase
  | discover
  | verify
  | completed
  | failed
  deriving DecidableEq, Repr

def Phase.terminal : Phase → Bool
  | completed => true
  | failed => true
  | _ => false

structure ScanId where
  sellerId : String
  watermark : ℤ
  cutoff : ℤ
  deriving DecidableEq, Repr

/-- `ModificationScan` -/
structure Scan where
  sellerId : String
  scanId : ScanId
  watermark : ℤ
  cutoff : ℤ
  phase : Phase
  nextOffset : Nat
  sourceTotal : Option Nat
  pageSequence : Nat
  revision : Nat
  generation : Nat
  deriving DecidableEq, Repr

def Scan.valid (scan : Scan) : Bool :=
  isDecimal scan.sellerId && scan.watermark ≤ scan.cutoff &&
    scan.sourceTotal.all (fun total => total ≤ maxModificationResults && scan.nextOffset ≤ total) &&
    (scan.sourceTotal.isSome || scan.nextOffset = 0) &&
    (scan.phase = .discover || scan.phase = .failed || scan.sourceTotal.isSome) &&
    (scan.phase ≠ .failed || (scan.nextOffset = 0 && scan.sourceTotal.isNone)) &&
    (scan.phase ≠ .completed || scan.sourceTotal = some scan.nextOffset) && 1 ≤ scan.generation

/-- The constructor checks the state. -/
def Scan.make (scan : Scan) : Except ScanError Scan :=
  if scan.valid then .ok scan else .error .invalid

def Scan.stored (scan : Scan) : Scan :=
  { scan with watermark := floorMs scan.watermark, cutoff := floorMs scan.cutoff }

/-- What the scans read of an order: its identity, when it was modified (if that is an
instant), its seller, its fingerprint, and whether it can be stored. -/
structure Row where
  identity : String
  modified : Option ℤ
  sellerId : Option String
  fingerprint : String
  safe : Bool
  deriving DecidableEq, Repr

/-- `ModificationSearchPage` -/
structure SearchPage where
  sellerId : String
  watermark : ℤ
  cutoff : ℤ
  rows : List Row
  sourceTotal : Nat
  nextOffset : Option Nat
  deriving DecidableEq, Repr

inductive Kind
  | membership
  | exclusion
  deriving DecidableEq, Repr

structure ReceiptId where
  scanId : ScanId
  generation : Nat
  passNumber : Nat
  kind : Kind
  identity : String
  deriving DecidableEq, Repr

/-- A document of `sheets_history_receipts` of a scan. -/
structure Receipt where
  id : ReceiptId
  acquisitionId : ScanId
  sellerId : String
  generation : Nat
  passNumber : Nat
  pageSequence : Nat
  kind : Kind
  resourceId : String
  observedAt : ℤ
  sourceVersion : String
  sourceHash : String
  sourcePayload : Row
  exclusionReason : Option String
  deriving DecidableEq, Repr

abbrev Receipts := Collection Receipt.id

/-- What the scans read and write of a document of `sheets_history_backfill_plans`. -/
structure Plan where
  sellerId : String
  cutoff : Option ℤ
  watermark : Option ℤ
  scan : Option Scan
  deriving DecidableEq, Repr

/-- Beside the documents, the scans that were completed and by which call, newest first. -/
structure Store (ι : Type*) where
  plans : Collection Plan.sellerId
  receipts : Receipts
  jobs : Jobs
  completed : List (ι × Scan)

inductive Op
  | readPlan (sellerId : String)
  | begin (sellerId : String)
  | restart (sellerId : String)
  | readBaseline (identity : String)
  | readJob (identity : String)
  | readActive (identity : String)
  | admission (identity : String)
  | checkpoint (sellerId : String)
  | recover
  deriving DecidableEq, Repr

/-! ### Requests for recovery -/

/-- `datetime.isoformat` of a UTC datetime. -/
def isoformat (t : ℤ) : String :=
  let (year, month, day) := Recovery.civil (t / 86400000000)
  let rest := t % 86400000000
  let fraction := if rest % 1000000 = 0 then "" else "." ++ Recovery.padded 6 (rest % 1000000)
  Recovery.padded 4 year ++ "-" ++ Recovery.padded 2 month ++ "-" ++ Recovery.padded 2 day ++ "T"
    ++ Recovery.padded 2 (rest / 3600000000) ++ ":" ++ Recovery.padded 2 (rest / 60000000 % 60)
    ++ ":" ++ Recovery.padded 2 (rest / 1000000 % 60) ++ fraction ++ "+00:00"

/-- `ModifiedOrderIdsRecoveryRequest` for one version of an order. -/
def modifiedRequest (sellerId orderId version hash : String) (modified : ℤ) : Request :=
  .modifiedOrderIds sellerId orderId ⟨modified / 1000, version, hash⟩

def isHash (text : String) : Bool :=
  text.length = 64 && text.toList.all fun c => c.isDigit || ('a' ≤ c && c ≤ 'f')

/-- The checks of its constructor. -/
def validRequest (sellerId orderId hash : String) : Bool :=
  sellerId.toList.any (!·.isWhitespace) && isDecimal orderId && isHash hash

/-- The key of the job for one version of an order. -/
def modifiedKey (sha256 : String → String) (sellerId orderId version hash : String) : String :=
  sha256 (modifiedRequest sellerId orderId version hash 0).keyText

/-- A change that other workers make to the jobs. A modification that has ended stays so. -/
structure JobChange (sha256 : String → String) where
  apply : Jobs → Jobs
  keeps : ∀ jobs sellerId orderId version hash job,
    jobs.byKey (modifiedKey sha256 sellerId orderId version hash) = some job →
    (job.state = .completed ∨ job.state = .failed) →
      ∃ job', (apply jobs).byKey (modifiedKey sha256 sellerId orderId version hash) = some job' ∧
        job'.state = job.state ∧ job'.sellerId = job.sellerId

/-! ### Windows and receipts -/

def modificationWindow (watermark cutoff : ℤ) : Except ScanError (ℤ × ℤ) :=
  if cutoff < watermark then .error .invalid else .ok (watermark - overlap, cutoff)

def Scan.passNumber (scan : Scan) : Nat := if scan.phase = .discover then 1 else 2

/-- `_receipt` -/
def receipt (scan : Scan) (observedAt : ℤ) (row : Row) : Except ScanError Receipt := do
  match row.modified with
  | none => throw (.drift "modification receipt time is invalid")
  | some modified => do
      raiseIf (isDecimal row.identity = false ∨ row.sellerId ≠ some scan.sellerId)
        (.drift "modification receipt scope is invalid")
      let (start, stop) ← modificationWindow scan.watermark scan.cutoff
      let kind := if start ≤ modified ∧ modified < stop then Kind.membership else .exclusion
      return {
        id := ⟨scan.scanId, scan.generation, scan.passNumber, kind, row.identity⟩
        acquisitionId := scan.scanId
        sellerId := scan.sellerId
        generation := scan.generation
        passNumber := scan.passNumber
        pageSequence := scan.pageSequence + 1
        kind
        resourceId := row.identity
        observedAt := floorMs observedAt
        sourceVersion := isoformat modified
        sourceHash := row.fingerprint
        sourcePayload := row
        exclusionReason :=
          if kind = .membership then none else some "outside_requested_modification_interval" }

/-- A receipt of the identity in a pass. -/
def inPass (scan : Scan) (passNumber : Nat) (resourceId : String) (stored : Receipt) : Bool :=
  stored.acquisitionId = scan.scanId && stored.generation = scan.generation &&
    stored.passNumber = passNumber && stored.resourceId = resourceId

/-- The first pass recorded the same kind, version and hash. -/
def matchesBaseline (scan : Scan) (document : Receipt) (receipts : Receipts) : Bool :=
  (receipts.findOne (inPass scan 1 document.resourceId)).any fun baseline =>
    baseline.kind = document.kind && baseline.sourceVersion = document.sourceVersion &&
      baseline.sourceHash = document.sourceHash

variable {ι : Type}

/-! ### Begin -/

/-- The plan still has the scan that was read, completed, or still has none. -/
def unchanged (sellerId : String) (current : Option Scan) (plan : Plan) : Bool :=
  plan.sellerId = sellerId &&
    match current with
    | none => plan.scan.isNone
    | some current => plan.scan.any fun scan =>
        scan.scanId = current.scanId && scan.phase = .completed && scan.revision = current.revision

def setScan (scan : Scan) (plan : Plan) : Plan := { plan with scan := some scan.stored }

theorem setScan_sellerId (scan : Scan) (plan : Plan) :
    (setScan scan plan).sellerId = plan.sellerId := rfl

def beginScan (sellerId : String) (current : Option Scan) (scan : Scan) (s : Store ι) :
    Unit × Store ι :=
  ((), { s with
    plans := s.plans.update (unchanged sellerId current) (setScan scan) (setScan_sellerId scan) })

/-- The scan that starts at the watermark. -/
def newScan (sellerId : String) (watermark cutoff : ℤ) : Scan where
  sellerId
  scanId := ⟨sellerId, watermark, cutoff⟩
  watermark
  cutoff
  phase := .discover
  nextOffset := 0
  sourceTotal := none
  pageSequence := 0
  revision := 0
  generation := 1

/-- The current scan, unless it is completed and the interval has passed. -/
def continuing (cutoff : ℤ) (plan : Plan) : Option Scan :=
  plan.scan.filter fun previous =>
    previous.phase ≠ .completed || cutoff < previous.cutoff + scanInterval

def beginNew (sellerId : String) (cutoff watermark : ℤ) (current : Option Scan) :
    Program Op (Store ι) (Except ScanError (Option Scan)) :=
  match modificationWindow watermark cutoff >>= fun _ => (newScan sellerId watermark cutoff).make with
  | .error error => pure (.error error)
  | .ok scan => do
      Program.act (.begin sellerId) (beginScan sellerId current scan)
      let stored ← Program.read (.readPlan sellerId) fun s => s.plans.byKey sellerId
      match stored >>= Plan.scan with
      | none => pure (.error (.drift "modification scan admission lost"))
      | some scan => pure (scan.make.map some)

/-- `begin` -/
def begin (sellerId : String) (cutoff : ℤ) :
    Program Op (Store ι) (Except ScanError (Option Scan)) :=
  if isDecimal sellerId = false then pure (.error .invalid)
  else do
    let plan ← Program.read (.readPlan sellerId) fun s => s.plans.byKey sellerId
    match plan with
    | none => pure (.error .invalid)
    | some plan =>
        match plan.cutoff with
        | none => pure (.error .invalid)
        | some first =>
            match continuing cutoff plan with
            | some previous => pure (previous.make.map some)
            | none => beginNew sellerId cutoff (plan.watermark.getD first) plan.scan

/-! ### Restart -/

def restartScan (scan proposed : Scan) (s : Store ι) : Bool × Store ι :=
  let selected := fun plan : Plan => plan.sellerId = scan.sellerId && plan.scan = some scan.stored
  (s.plans.matched selected,
    { s with plans := s.plans.update selected (setScan proposed) (setScan_sellerId proposed) })

def restarted (scan : Scan) : Scan :=
  { scan with
    phase := if scan.generation + 1 > maxScanGeneration then .failed else .discover
    nextOffset := 0
    sourceTotal := none
    pageSequence := 0
    revision := scan.revision + 1
    generation := scan.generation + 1 }

/-- `restart` -/
def restart (scan : Scan) : Program Op (Store ι) (Except ScanError (Option Scan)) :=
  if scan.phase.terminal then pure (.error .invalid)
  else
    match (restarted scan).make with
    | .error error => pure (.error error)
    | .ok proposed => do
        let matched ← Program.act (.restart scan.sellerId) (restartScan scan proposed)
        pure (if matched then .ok (some proposed)
          else .error (.drift "modification restart lost its revision"))

/-! ### Admission -/

/-- What a call reads from outside: the queue with the answer of its seller gate, its clocks,
and whether the documents of its page are too large to be stored. -/
structure Surroundings where
  queue : Queue
  gate : Option Bool
  enqueuedAt : Recovery.Time
  observedAt : ℤ
  oversized : Bool

inductive Admission
  | admitted
  | deferred
  | failed
  deriving DecidableEq, Repr

def admissionOf : Recovery.QueueError → Admission
  | .capacityError => .deferred
  | _ => .failed

/-- The transaction of `enqueue`. -/
def admitRequest (sha256 : String → String) (r : Surroundings) (request : Request) (s : Store ι) :
    Admission × Store ι :=
  match r.queue.runAdmission sha256 request false r.enqueuedAt s.jobs with
  | .ok (_, jobs) => (.admitted, { s with jobs })
  | .error error => (admissionOf error, s)

def enqueue (sha256 : String → String) (r : Surroundings) (request : Request) (identity : String) :
    Program Op (Store ι) Admission :=
  match r.queue.admissible request r.gate with
  | .error error => pure (admissionOf error)
  | .ok _ => do
      let active ← Program.read (.readActive identity) fun s =>
        Queue.activeJob sha256 request s.jobs
      match active with
      | some _ => pure .admitted
      | none => Program.act (.admission identity) (admitRequest sha256 r request)

/-- One order of a page; orders outside the window are left out. -/
def admitRow (sha256 : String → String) (r : Surroundings) (page : SearchPage) (row : Row) :
    Program Op (Store ι) Admission :=
  match row.modified with
  | none => pure .failed
  | some modified =>
      if row.safe = false ∨ row.sellerId ≠ some page.sellerId then pure .failed
      else if ¬ (page.watermark - overlap ≤ modified ∧ modified < page.cutoff) then pure .admitted
      else if validRequest page.sellerId row.identity row.fingerprint = false then pure .failed
      else
        enqueue sha256 r
          (modifiedRequest page.sellerId row.identity (isoformat modified) row.fingerprint modified)
          row.identity

def admitRows (sha256 : String → String) (r : Surroundings) (page : SearchPage) :
    List Row → Program Op (Store ι) Admission
  | [] => pure .admitted
  | row :: rest => do
      let outcome ← admitRow sha256 r page row
      match outcome with
      | .admitted => admitRows sha256 r page rest
      | outcome => pure outcome

/-- `admit_modifications` of one page -/
def admitModifications (sha256 : String → String) (r : Surroundings) (page : SearchPage) :
    Program Op (Store ι) Admission :=
  if (r.queue.allowedSellers.any fun sellers => page.sellerId ∉ sellers) ∨
      Recovery.ReadModel.orders ∉ r.queue.enabledModels ∨ isDecimal page.sellerId = false ∨
      page.cutoff < page.watermark ∨ 50 < page.rows.length then pure .failed
  else admitRows sha256 r page page.rows

/-! ### Verification -/

inductive Verdict
  | ready
  | waiting
  deriving DecidableEq, Repr

/-- The recovery of a verified order. -/
def awaitRecovery (sha256 : String → String) (scan : Scan) (document : Receipt) :
    Program Op (Store ι) (Except ScanError Verdict) :=
  if validRequest scan.sellerId document.resourceId document.sourceHash = false then
    pure (.error .invalid)
  else do
    let job ← Program.read (.readJob document.resourceId) fun s =>
      s.jobs.findOne fun job =>
        job.id = modifiedKey sha256 scan.sellerId document.resourceId document.sourceVersion
          document.sourceHash && job.sellerId = scan.sellerId
    match job.map Recovery.Job.state with
    | none => pure (.ok .waiting)
    | some .pending => pure (.ok .waiting)
    | some .running => pure (.ok .waiting)
    | some .failed => pure (.error .blocked)
    | some .completed => pure (.ok .ready)

def verifyReceipt (sha256 : String → String) (scan : Scan) (document : Receipt) :
    Program Op (Store ι) (Except ScanError Verdict) := do
  let same ← Program.read (.readBaseline document.resourceId) fun s =>
    matchesBaseline scan document s.receipts
  if same = false then pure (.error (.drift "modification verification manifest changed"))
  else if document.kind = .membership then awaitRecovery sha256 scan document
  else pure (.ok .ready)

def verifyReceipts (sha256 : String → String) (scan : Scan) :
    List Receipt → Program Op (Store ι) (Except ScanError Verdict)
  | [] => pure (.ok .ready)
  | document :: rest => do
      let verdict ← verifyReceipt sha256 scan document
      match verdict with
      | .ok .ready => verifyReceipts sha256 scan rest
      | verdict => pure verdict

/-! ### Checkpoint -/

def insertReceipt (scan : Scan) (receipts : Receipts) (document : Receipt) :
    Except ScanError Receipts := do
  raiseIf (scan.phase = .verify ∧ matchesBaseline scan document receipts = false)
    (.drift "modification verification manifest changed")
  raiseIf (receipts.matched (inPass scan document.passNumber document.resourceId) = true)
    (.drift "modification scan repeated a source identity")
  match receipts.insert document with
  | some receipts => return receipts
  | none => throw (.drift "modification receipt identity collided")

/-- The receipts of a pass of a scan. -/
def passReceipts (scan : Scan) (passNumber : Nat) (receipts : Receipts) : List Receipt :=
  receipts.find fun stored =>
    stored.acquisitionId = scan.scanId && stored.generation = scan.generation &&
      stored.passNumber = passNumber

/-- A completed scan sets the watermark. -/
def publish (scan proposed : Scan) (plan : Plan) : Plan :=
  { setScan proposed plan with
    watermark := if proposed.phase = .completed then some (floorMs scan.cutoff) else plan.watermark }

theorem publish_sellerId (scan proposed : Scan) (plan : Plan) :
    (publish scan proposed plan).sellerId = plan.sellerId := rfl

/-- The transaction of `_checkpoint`. -/
def checkpointScan (i : ι) (scan proposed : Scan) (page : SearchPage) (documents : List Receipt)
    (s : Store ι) : Except ScanError (Store ι) := do
  raiseIf ((s.plans.byKey scan.sellerId).bind Plan.scan ≠ some scan)
    (.drift "modification checkpoint owner changed")
  let receipts ← documents.foldlM (insertReceipt scan) s.receipts
  raiseIf (page.nextOffset = none ∧
      (passReceipts scan scan.passNumber receipts).length ≠ page.sourceTotal)
    (.drift "modification manifest count differs from source total")
  return {
    plans := s.plans.update
      (fun plan => plan.sellerId = scan.sellerId && plan.scan.any fun stored =>
        stored.scanId = scan.scanId && stored.revision = scan.revision)
      (publish scan proposed) (publish_sellerId scan proposed)
    receipts
    jobs := s.jobs
    completed :=
      if proposed.phase = .completed then (i, proposed) :: s.completed else s.completed }

/-- A call that raises stores nothing. -/
def transact (result : Scan) (transaction : Store ι → Except ScanError (Store ι)) (s : Store ι) :
    Except ScanError (Option Scan) × Store ι :=
  match transaction s with
  | .ok t => (.ok (some result), t)
  | .error error => (.error error, s)

/-- The scan after a page. -/
def proposal (scan : Scan) (page : SearchPage) : Scan :=
  { scan with
    phase :=
      if page.nextOffset.isSome then scan.phase
      else if scan.phase = .discover then .verify else .completed
    nextOffset := page.nextOffset.getD (if scan.phase = .discover then 0 else page.sourceTotal)
    sourceTotal := some page.sourceTotal
    pageSequence := scan.pageSequence + 1
    revision := scan.revision + 1 }

/-- `_checkpoint` -/
def checkpoint (i : ι) (r : Surroundings) (scan : Scan) (page : SearchPage)
    (documents : List Receipt) : Program Op (Store ι) (Except ScanError (Option Scan)) :=
  if r.oversized then pure (.error .limit)
  else
    match (proposal scan page).make with
    | .error error => pure (.error error)
    | .ok proposed =>
        Program.act (.checkpoint scan.sellerId)
          (transact proposed (checkpointScan i scan proposed page documents))

/-! ### Advance -/

/-- The page belongs to the scan and goes on where it stands. -/
def checkPage (scan : Scan) (page : SearchPage) : Except ScanError Unit := do
  raiseIf (page.sellerId ≠ scan.sellerId ∨ page.watermark ≠ scan.watermark ∨
      page.cutoff ≠ scan.cutoff ∨ maxModificationResults < page.sourceTotal ∨
      (scan.sourceTotal.any (page.sourceTotal ≠ ·)) = true ∨ 50 < page.rows.length)
    (.drift "modification page binding changed")
  let nextOffset := scan.nextOffset + page.rows.length
  raiseIf (page.sourceTotal < nextOffset ∨
      page.nextOffset ≠ (if nextOffset = page.sourceTotal then none else some nextOffset) ∨
      (page.rows = [] ∧ scan.nextOffset ≠ page.sourceTotal))
    (.drift "modification page cursor changed")

/-- What comes before the checkpoint: admission, or verification. -/
def prepare (sha256 : String → String) (r : Surroundings) (scan : Scan) (page : SearchPage)
    (documents : List Receipt) : Program Op (Store ι) (Except ScanError Verdict) :=
  if scan.phase = .discover then do
    let outcome ← admitModifications sha256 r page
    match outcome with
    | .admitted => pure (.ok .ready)
    | .deferred => pure (.ok .waiting)
    | .failed => pure (.error (.drift "modification page could not be admitted"))
  else verifyReceipts sha256 scan documents

/-- `advance` -/
def advance (sha256 : String → String) (i : ι) (r : Surroundings) (scan : Scan)
    (page : SearchPage) : Program Op (Store ι) (Except ScanError (Option Scan)) :=
  if scan.phase.terminal then pure (.error .invalid)
  else
    match checkPage scan page >>= fun _ => page.rows.mapM (receipt scan r.observedAt) with
    | .error error => pure (.error error)
    | .ok documents => do
        let prepared ← prepare sha256 r scan page documents
        match prepared with
        | .error error => pure (.error error)
        | .ok .waiting => pure (.ok (some scan))
        | .ok .ready => checkpoint i r scan page documents

/-! ### Calls -/

/-- The work of others on the jobs. -/
def recover {sha256 : String → String} : List (JobChange sha256) →
    Program Op (Store ι) (Except ScanError (Option Scan))
  | [] => pure (.ok none)
  | change :: rest => do
      Program.act .recover fun s => ((), { s with jobs := change.apply s.jobs })
      recover rest

inductive Call (sha256 : String → String)
  | begin (sellerId : String) (cutoff : ℤ)
  | advance (r : Surroundings) (scan : Scan) (page : SearchPage)
  | restart (scan : Scan)
  | recover (changes : List (JobChange sha256))

def Call.program {sha256 : String → String} (i : ι) :
    Call sha256 → Program Op (Store ι) (Except ScanError (Option Scan))
  | .begin sellerId cutoff => Modifications.begin sellerId cutoff
  | .advance r scan page => Modifications.advance sha256 i r scan page
  | .restart scan => Modifications.restart scan
  | .recover changes => Modifications.recover changes

end ZelerPlatform.Modifications
