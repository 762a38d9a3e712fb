import ZelerPlatform.Library.Mongo.Value
import ZelerPlatform.Library.Run
import Mathlib.Data.List.AList

/-!
# The token refresh worker

Any number of `refresh_once` runs pass over `meli_accounts`. A run fixes its `now` when
it starts, finds the eligible accounts, and for each of them takes a lock that lasts
until two minutes after that `now`, exchanges the refresh token, and writes the outcome.
Each of these is one step, and any time may pass between two of them.

The lock is checked when it is taken and not when the outcome is written: the three
completion writes filter on `_id` alone. A run that comes back after its deadline
overwrites what a later run has stored. As long as no run has started after the deadline
of a run that writes, the write finds the account as that run has locked it.
-/

namespace ZelerPlatform.Gateway.RefreshWorker

open Mongo Transition

/-! ### Accounts -/

structure EncryptedToken where
  ciphertext : List UInt8
  nonce : List UInt8
  dekWrapped : List UInt8
  kmsKeyVersion : String
  deriving DecidableEq

/-- The fields of an account that the worker reads or writes. The two tokens of an account
share `kms_key_version`. Dates are stored in milliseconds. -/
structure MeliAccount where
  accessTokenCiphertext : List UInt8
  accessTokenDekWrapped : List UInt8
  refreshTokenCiphertext : List UInt8
  refreshTokenDekWrapped : List UInt8
  tokenNonce : List UInt8
  refreshTokenNonce : List UInt8
  kmsKeyVersion : String
  expiresAt : Option Int
  status : String
  lastError : Option String
  lockHeldUntil : Option Int
  lastRefreshAt : Option Int
  lastRefreshedAt : Option Int
  updatedAt : Option Int
  deriving DecidableEq

/-- `meli_accounts`, by `_id`. -/
abbrev Accounts := AList fun _ : String => MeliAccount

def refreshWindow (now : Int) : Int := now + 15 * 60 * 1000000

def lockDeadline (now : Int) : Int := now + 120 * 1000000

def isRetryableHttpStatus (status : Nat) : Bool :=
  status = 429 || (500 ≤ status && status < 600)

def refreshHttpError (status : Nat) : String :=
  s!"Meli refresh failed with status {status}"

def legacyTransientErrors : List String :=
  (429 :: List.range' 500 100).map refreshHttpError

/-- `query`, the accounts a run looks at. -/
def eligible (now : Int) (account : MeliAccount) : Bool :=
  (account.status == "active" || account.status == "refresh_pending" ||
    (account.status == "error" && account.lastError.any legacyTransientErrors.contains)) &&
  account.expiresAt.any (· < Value.floorMs (refreshWindow now))

/-- The `find_one_and_update` that takes the lock, with the document after it. -/
def acquireLock (now : Int) (id : String) (accounts : Accounts) : Option (MeliAccount × Accounts) :=
  match accounts.lookup id with
  | none => none
  | some account =>
      if eligible now account && account.lockHeldUntil.all (· < Value.floorMs now) then
        let locked := { account with
          lockHeldUntil := some (Value.floorMs (lockDeadline now))
          status := "refresh_pending" }
        some (locked, accounts.insert id locked)
      else none

/-! ### The exchange and its completion -/

structure TokenResponse where
  accessToken : String
  refreshToken : String
  expiresIn : Int

/-- How the exchange ends: with a response, whose body may carry an error or the tokens,
with a transport error, or with another of the exceptions the worker handles. -/
inductive Reply
  | response (status : Nat) (error : Option String) (tokens : TokenResponse)
  | transportError (message : String)
  | otherError (message : String)

/-- What a run is about to write. -/
inductive Completion
  | refreshed (access refresh : EncryptedToken) (expiresIn : Int)
  | invalidGrant
  | failed (retryable : Bool) (message : String)

/-- `_call_meli_refresh` and the handlers around it; `encrypt` draws fresh key material. -/
def completionOf (encrypt : String → EncryptedToken) : Reply → Completion
  | .response status error tokens =>
      if 400 ≤ status then
        if status < 500 && error == some "invalid_grant" then .invalidGrant
        else .failed (isRetryableHttpStatus status) (refreshHttpError status)
      else .refreshed (encrypt tokens.accessToken) (encrypt tokens.refreshToken) tokens.expiresIn
  | .transportError message => .failed true message
  | .otherError message => .failed false message

/-- The `$set` of the three completion writes. -/
def Completion.apply (now : Int) (account : MeliAccount) : Completion → MeliAccount
  | .invalidGrant => { account with
      status := "revoked"
      lockHeldUntil := none
      updatedAt := some (Value.floorMs now) }
  | .failed retryable message => { account with
      status := if retryable then "refresh_pending" else "error"
      lastError := some (String.ofList (message.toList.take 500))
      lockHeldUntil := none
      updatedAt := some (Value.floorMs now) }
  | .refreshed access refresh expiresIn => { account with
      accessTokenCiphertext := access.ciphertext
      accessTokenDekWrapped := access.dekWrapped
      refreshTokenCiphertext := refresh.ciphertext
      refreshTokenDekWrapped := refresh.dekWrapped
      tokenNonce := access.nonce
      refreshTokenNonce := refresh.nonce
      kmsKeyVersion := access.kmsKeyVersion
      expiresAt := some (Value.floorMs (now + expiresIn * 1000000))
      status := "active"
      lockHeldUntil := none
      lastRefreshAt := some (Value.floorMs now)
      lastRefreshedAt := some (Value.floorMs now)
      updatedAt := some (Value.floorMs now) }

/-- The `update_one` of a completion: its filter is the `_id`. -/
def complete (now : Int) (id : String) (completion : Completion) (accounts : Accounts) :
    Accounts :=
  match accounts.lookup id with
  | none => accounts
  | some account => accounts.insert id (completion.apply now account)

/-! ### Runs -/

structure RefreshRunStats where
  attempted : Nat := 0
  succeeded : Nat := 0
  failed : Nat := 0
  revoked : Nat := 0
  skipped : Nat := 0

def RefreshRunStats.withCompletion (stats : RefreshRunStats) : Completion → RefreshRunStats
  | .refreshed .. => { stats with succeeded := stats.succeeded + 1 }
  | .invalidGrant => { stats with revoked := stats.revoked + 1 }
  | .failed .. => { stats with failed := stats.failed + 1 }

/-- The control state of a run. -/
inductive RefreshRun
  | idle
  | finding (now : Int)
  | scanning (now : Int) (rest : List String) (stats : RefreshRunStats)
  | exchanging (now : Int) (id : String) (locked : MeliAccount) (rest : List String)
      (stats : RefreshRunStats)
  | writing (now : Int) (id : String) (locked : MeliAccount) (completion : Completion)
      (rest : List String) (stats : RefreshRunStats)
  | ended (now : Int)

namespace RefreshRun

/-- The `now` of a run that has started. -/
def now? : RefreshRun → Option Int
  | idle => none
  | finding now | scanning now .. | exchanging now .. | writing now .. | ended now => some now

/-- The account a run has locked and not completed: its `now`, the `_id` and the document
`find_one_and_update` has returned. -/
def holding? : RefreshRun → Option (Int × String × MeliAccount)
  | exchanging now id locked .. | writing now id locked .. => some (now, id, locked)
  | _ => none

end RefreshRun

/-- What a step did, and which run did it. -/
inductive Event (ι : Type*)
  | local
  | locked (run : ι) (id : String)
  | wrote (run : ι) (id : String)

variable {ι : Type*}

/-- One step of run `i`. -/
inductive Move (i : ι) : RefreshRun → Accounts → Event ι → RefreshRun → Accounts → Prop
  | start {accounts} (now : Int) : Move i .idle accounts .local (.finding now) accounts
  | find {accounts now} (ids : List String)
      (h : ids.Perm ((accounts.entries.filter fun entry => eligible now entry.2).map (·.1))) :
      Move i (.finding now) accounts .local (.scanning now ids {}) accounts
  | skip {accounts now id rest stats} (h : acquireLock now id accounts = none) :
      Move i (.scanning now (id :: rest) stats) accounts .local
        (.scanning now rest { stats with skipped := stats.skipped + 1 }) accounts
  | lock {accounts now id rest stats locked accounts'}
      (h : acquireLock now id accounts = some (locked, accounts')) :
      Move i (.scanning now (id :: rest) stats) accounts (.locked i id)
        (.exchanging now id locked rest { stats with attempted := stats.attempted + 1 }) accounts'
  | exchange {accounts now id locked rest stats} (encrypt : String → EncryptedToken)
      (reply : Reply) :
      Move i (.exchanging now id locked rest stats) accounts .local
        (.writing now id locked (completionOf encrypt reply) rest stats) accounts
  | write {accounts now id locked completion rest stats} :
      Move i (.writing now id locked completion rest stats) accounts (.wrote i id)
        (.scanning now rest (stats.withCompletion completion))
        (complete now id completion accounts)
  | finish {accounts now stats} :
      Move i (.scanning now [] stats) accounts .local (.ended now) accounts
  | crash {accounts run now} (h : run.now? = some now) :
      Move i run accounts .local (.ended now) accounts

/-- The runs, indexed by `ι`; nobody else writes accounts. -/
abbrev Step [DecidableEq ι] :
    Pool ι Accounts RefreshRun → Event ι → Pool ι Accounts RefreshRun → Prop :=
  Pool.Step Move fun _ _ _ => False

/-! ### Superseded runs -/

def Event.touches (id : String) : Event ι → Option ι
  | .local => none
  | .locked run own | .wrote run own => if own = id then some run else none

/-- The run that last locked or refreshed an account. -/
def latestRun (id : String) (events : List (Event ι)) : Option ι :=
  events.foldl (fun latest event => (event.touches id).or latest) none

@[simp] theorem latestRun_append (id : String) (events : List (Event ι)) (event : Event ι) :
    latestRun id (events ++ [event]) = (event.touches id).or (latestRun id events) := by
  simp [latestRun]

/-- No run, finished or not, has started after `deadline`. -/
def NoneStartedAfter (deadline : Int) (pool : Pool ι Accounts RefreshRun) : Prop :=
  ∀ j, ∀ now ∈ (pool.control j).now?, Value.floorMs now ≤ Value.floorMs deadline

/-- A run writes its outcome before any run has started after its lock deadline. -/
def InTime (pool : Pool ι Accounts RefreshRun) : Event ι → Prop
  | .wrote run _ => ∀ now ∈ (pool.control run).now?, NoneStartedAfter (lockDeadline now) pool
  | _ => True

/-! ### The invariant -/

theorem acquireLock_cases {now : Int} {id : String} {accounts accounts' : Accounts}
    {locked : MeliAccount} (h : acquireLock now id accounts = some (locked, accounts')) :
    ∃ account, accounts.lookup id = some account ∧
      (∀ til ∈ account.lockHeldUntil, til < Value.floorMs now) ∧
      locked.lockHeldUntil = some (Value.floorMs (lockDeadline now)) ∧
      accounts' = accounts.insert id locked := by
  unfold acquireLock at h
  split at h
  · cases h
  · next account hlookup =>
      simp only [Option.ite_none_right_eq_some, Bool.and_eq_true, Option.all_eq_true,
        decide_eq_true_eq] at h
      obtain ⟨⟨_, hfree⟩, heq⟩ := h
      obtain ⟨rfl, rfl⟩ := Prod.mk.inj (Option.some.inj heq)
      exact ⟨account, hlookup, hfree, rfl, rfl⟩

theorem Move.now? {i : ι} {run run' : RefreshRun} {accounts accounts' : Accounts} {e : Event ι}
    (h : Move i run accounts e run' accounts') : ∀ now ∈ run.now?, now ∈ run'.now? := by
  cases h with
  | start => simp [RefreshRun.now?]
  | find | skip | lock | exchange | write | finish => exact fun _ hnow => hnow
  | crash h =>
      intro now hnow
      rwa [h] at hnow

/-- A run that holds an account, while no run has started after its deadline, is the last
to have touched the account, which is as the run has locked it. -/
def Current (events : List (Event ι)) (pool : Pool ι Accounts RefreshRun) : Prop :=
  ∀ i now id locked, (pool.control i).holding? = some (now, id, locked) →
    NoneStartedAfter (lockDeadline now) pool →
    latestRun id events = some i ∧ pool.shared.lookup id = some locked ∧
      locked.lockHeldUntil = some (Value.floorMs (lockDeadline now))

variable {events : List (Event ι)} {start pool pool' : Pool ι Accounts RefreshRun}

/-- What a step of run `i` does to an account that another run `j` is still entitled to. -/
theorem Current.other (h : Current events pool) {i j : ι} (hij : j ≠ i) {e : Event ι}
    {run' : RefreshRun} {accounts' : Accounts}
    (hmove : Move i (pool.control i) pool.shared e run' accounts') (timely : InTime pool e)
    {now : Int} {id : String} {locked : MeliAccount}
    (hholding : (pool.control j).holding? = some (now, id, locked))
    (hnone : NoneStartedAfter (lockDeadline now) pool) :
    e.touches id = none ∧ accounts'.lookup id = some locked := by
  obtain ⟨hlatest, hlookup, hlock⟩ := h j now id locked hholding hnone
  generalize hrun : pool.control i = run at hmove
  cases hmove with
  | start | find | skip | exchange | finish | crash => exact ⟨rfl, hlookup⟩
  | @lock _ own ownId rest stats ownLocked _ hacquire =>
      obtain ⟨account, hown, hfree, -, rfl⟩ := acquireLock_cases hacquire
      by_cases hid : ownId = id
      · -- the lock of `j` would have to have expired before `own`, which is too late
        subst hid
        obtain rfl : account = locked := Option.some.inj (hown.symm.trans hlookup)
        have hexpired := hfree _ hlock
        have hstarted := hnone i own (by simp [hrun, RefreshRun.now?])
        omega
      · exact ⟨if_neg hid, by rw [AList.lookup_insert_ne (Ne.symm hid), hlookup]⟩
  | @write _ own ownId ownLocked completion rest stats =>
      by_cases hid : ownId = id
      · -- `i` is the last to have touched the account, and so is `j`
        subst hid
        have hnow : own ∈ (pool.control i).now? := by simp [hrun, RefreshRun.now?]
        obtain ⟨hlast, _⟩ := h i own ownId ownLocked (by simp [hrun, RefreshRun.holding?])
          (timely own hnow)
        exact absurd (Option.some.inj (hlatest.symm.trans hlast)) hij
      · refine ⟨if_neg hid, ?_⟩
        unfold complete
        split
        · exact hlookup
        · rw [AList.lookup_insert_ne (Ne.symm hid), hlookup]

theorem Current.own (h : Current events pool) {i : ι} {e : Event ι}
    {run' : RefreshRun} {accounts' : Accounts}
    (hmove : Move i (pool.control i) pool.shared e run' accounts')
    {now : Int} {id : String} {locked : MeliAccount}
    (hholding : run'.holding? = some (now, id, locked))
    (hnone : NoneStartedAfter (lockDeadline now) pool) :
    latestRun id (events ++ [e]) = some i ∧ accounts'.lookup id = some locked ∧
      locked.lockHeldUntil = some (Value.floorMs (lockDeadline now)) := by
  generalize hrun : pool.control i = run at hmove
  cases hmove with
  | start | find | skip | write | finish | crash => simp [RefreshRun.holding?] at hholding
  | lock hacquire =>
      obtain ⟨rfl, rfl, rfl⟩ : _ ∧ _ ∧ _ := by simpa [RefreshRun.holding?] using hholding
      obtain ⟨_, _, _, hlock, rfl⟩ := acquireLock_cases hacquire
      exact ⟨by simp [Event.touches], AList.lookup_insert _, hlock⟩
  | exchange =>
      have hbefore := h i now id locked (by simpa [hrun, RefreshRun.holding?] using hholding) hnone
      simpa [Event.touches] using hbefore

variable [DecidableEq ι]

/-- Runs that have started stay started. -/
theorem NoneStartedAfter.before {e : Event ι} {deadline : Int} (h : NoneStartedAfter deadline pool')
    (hstep : Step pool e pool') : NoneStartedAfter deadline pool := by
  cases hstep with
  | env henv => exact henv.elim
  | move i hmove =>
      intro j now hnow
      by_cases hj : j = i
      · subst hj
        exact h j now (by simpa using hmove.now? now hnow)
      · exact h j now (by simpa [Function.update_of_ne hj] using hnow)

theorem Current.step (h : Current events pool) {e : Event ι}
    (hstep : restrict Step InTime pool e pool') : Current (events ++ [e]) pool' := by
  obtain ⟨timely, hstep⟩ := hstep
  intro j now id locked hholding hnone
  have hbefore := hnone.before hstep
  cases hstep with
  | env h => exact h.elim
  | move i hmove =>
      by_cases hj : j = i
      · subst hj
        exact h.own hmove (by simpa using hholding) hbefore
      · have hheld : (pool.control j).holding? = some (now, id, locked) := by
          simpa [Function.update_of_ne hj] using hholding
        obtain ⟨htouches, hlookup⟩ := h.other hj hmove timely hheld hbefore
        obtain ⟨hlatest, _, hlock⟩ := h j now id locked hheld hbefore
        exact ⟨by simpa [htouches] using hlatest, hlookup, hlock⟩

theorem Current.run (idle : ∀ i, start.control i = .idle)
    (run : Run (restrict Step InTime) start events pool) : Current events pool := by
  refine run.invariant ?_ fun _ h hstep => h.step hstep
  intro i now id locked hholding
  simp [idle, RefreshRun.holding?] at hholding

/-- Where outcomes are written in time, a write by a run that another run has superseded
changes nothing: there is none, and each write finds the account, with its refresh token,
as the run has locked it. -/
theorem superseded_run_changes_nothing (idle : ∀ i, start.control i = .idle)
    (run : Run (restrict Step InTime) start events pool) {i : ι} {id : String}
    (write : restrict Step InTime pool (.wrote i id) pool') :
    (latestRun id events ≠ some i → pool'.shared.lookup id = pool.shared.lookup id) ∧
    ∃ now locked, (pool.control i).holding? = some (now, id, locked) ∧
      pool.shared.lookup id = some locked := by
  obtain ⟨timely, hstep⟩ := write
  cases hstep with
  | env h => exact h.elim
  | move j hmove =>
      generalize hrun : pool.control j = control at hmove
      cases hmove with
      | @write _ now _ locked _ _ _ =>
          have hholding : (pool.control i).holding? = some (now, id, locked) := by
            simp [hrun, RefreshRun.holding?]
          obtain ⟨hlatest, hlookup, _⟩ := Current.run idle run i now id locked hholding
            (timely now (by simp [hrun, RefreshRun.now?]))
          exact ⟨fun h => absurd hlatest h, now, locked, hholding, hlookup⟩

/-! ### A run that comes back too late -/

/-- An account that is due for a refresh. -/
def dueAccount : MeliAccount where
  accessTokenCiphertext := [0]
  accessTokenDekWrapped := [0]
  refreshTokenCiphertext := [0]
  refreshTokenDekWrapped := [0]
  tokenNonce := [0]
  refreshTokenNonce := [0]
  kmsKeyVersion := "k"
  expiresAt := some 0
  status := "active"
  lastError := none
  lockHeldUntil := none
  lastRefreshAt := none
  lastRefreshedAt := none
  updatedAt := none

def dueAccounts : Accounts := AList.singleton "1" dueAccount

/-- The account after the first run has locked it. -/
def lockedAccount : MeliAccount :=
  { dueAccount with lockHeldUntil := some 120000000, status := "refresh_pending" }

private theorem acquire_dueAccounts : acquireLock 0 "1" dueAccounts =
    some (lockedAccount, dueAccounts.insert "1" lockedAccount) := by
  rfl

def relockedAccount : MeliAccount :=
  { lockedAccount with lockHeldUntil := some 241000000 }

private theorem acquire_lockedAccount : acquireLock 121000000 "1" (dueAccounts.insert "1" lockedAccount) =
    some (relockedAccount, (dueAccounts.insert "1" lockedAccount).insert "1" relockedAccount) := by
  rfl

/-- The tokens that Mercado Libre hands out, encrypted. -/
def freshToken : EncryptedToken := ⟨[1], [1], [1], "k"⟩

def grantedReply : Reply := .response 200 none ⟨"access", "refresh", 21600⟩

def refusedReply : Reply := .response 400 (some "invalid_grant") ⟨"", "", 0⟩

/-- A single run finds the account as it has locked it. -/
theorem superseded_run_changes_nothing_single :
    ∃ events, ∃ pool pool' : Pool Unit Accounts RefreshRun,
      restrict Step InTime pool (.wrote () "1") pool' ∧ latestRun "1" events = some () ∧
      (latestRun "1" events ≠ some () → pool'.shared.lookup "1" = pool.shared.lookup "1") := by
  let start : Pool Unit Accounts RefreshRun := ⟨dueAccounts, fun _ => .idle⟩
  have run : Run (restrict Step InTime) start [] start := .nil
  have run := Pool.run_move_restrict run () rfl (.start 0) trivial
  have run := Pool.run_move_restrict run () rfl (.find ["1"] (by decide)) trivial
  have run := Pool.run_move_restrict run () rfl (.lock acquire_dueAccounts) trivial
  have run := Pool.run_move_restrict run () rfl
    (.exchange (fun _ => freshToken) grantedReply) trivial
  have write : ∀ {pool : Pool Unit Accounts RefreshRun} {now id locked completion rest stats},
      pool.control () = .writing now id locked completion rest stats →
      Step pool (.wrote () id) ⟨complete now id completion pool.shared,
        Function.update pool.control () (.scanning now rest (stats.withCompletion completion))⟩ :=
    fun h => .move () (h ▸ .write)
  refine ⟨_, _, _, ⟨?timely, by exact write rfl⟩, rfl,
    (superseded_run_changes_nothing (fun _ => rfl) run ⟨?timely, write rfl⟩).1⟩
  rintro now ⟨⟩ j now' ⟨⟩
  decide

/-- Run 0 locks the account and is held up in its exchange. Its lock expires; run 1 locks
the account, refreshes it and makes it active. Then run 0, whose refresh token has been
used up, revokes it. -/
theorem late_run_revokes_active_account :
    ∃ start pool pool' : Pool (Fin 2) Accounts RefreshRun, ∃ events,
      (∀ i, start.control i = .idle) ∧ Run Step start events pool ∧
      Step pool (.wrote 0 "1") pool' ∧ latestRun "1" events = some 1 ∧
      (pool.shared.lookup "1").map (·.status) = some "active" ∧
      (pool'.shared.lookup "1").map (·.status) = some "revoked" := by
  let start : Pool (Fin 2) Accounts RefreshRun := ⟨dueAccounts, fun _ => .idle⟩
  have run : Run Step start [] start := .nil
  have run := Pool.run_move run 0 rfl (.start 0)
  have run := Pool.run_move run 0 rfl (.find ["1"] (by decide))
  have run := Pool.run_move run 0 rfl (.lock acquire_dueAccounts)
  have run := Pool.run_move run 0 rfl (.exchange (fun _ => freshToken) refusedReply)
  have run := Pool.run_move run 1 rfl (.start 121000000)
  have run := Pool.run_move run 1 rfl (.find ["1"] (by decide))
  have run := Pool.run_move run 1 rfl (.lock acquire_lockedAccount)
  have run := Pool.run_move run 1 rfl (.exchange (fun _ => freshToken) grantedReply)
  have run := Pool.run_move run 1 rfl .write
  exact ⟨start, _, _, _, fun _ => rfl, run, .move 0 .write, rfl, rfl, rfl⟩

end ZelerPlatform.Gateway.RefreshWorker
