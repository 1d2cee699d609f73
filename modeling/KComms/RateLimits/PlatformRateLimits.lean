import KComms.Lib.FixedWindow
import Mathlib.Data.List.Find
import Mathlib.Data.List.Sort

/-!
# Rate limits of the platform (`PlatformRateLimits`)

One statement counts a call in the bucket of its window and decides on it, and deletes some buckets that have expired.
The clock of the database is in microseconds.
-/

namespace KComms.PlatformRateLimits

inductive Scope
  | instantRoomCreate | instantRoomJoin | instantRoomConversion | instantRoomMessage | instantRoomWhiteboard
  | directAudioJoin | directAudioSignal
  deriving DecidableEq, Repr

/-- A row of `public_rate_limit_buckets`; instants are in seconds. -/
structure Bucket where
  scope : Scope
  keyDigest : List UInt8
  windowSeconds : Nat
  windowStartedAt : Nat
  requestCount : Nat
  expiresAt : Nat
  deriving DecidableEq, Repr

/-- What calls have in common that are counted together. -/
structure Key where
  scope : Scope
  keyDigest : List UInt8
  windowSeconds : Nat
  deriving DecidableEq, Repr

def Bucket.key (bucket : Bucket) : Key := ⟨bucket.scope, bucket.keyDigest, bucket.windowSeconds⟩

structure Decision where
  allowed : Bool
  retryAfter : Nat
  deriving DecidableEq, Repr

/-- What is raised: by the guards of `allow?`, or by the database on a number that it cannot hold. -/
inductive Raised
  | invalidArguments
  | outOfRange
  deriving DecidableEq, Repr

/-- A call of `allow?`, with the clock of the database and the rows that other sessions have locked. -/
structure Call where
  scope : Scope
  keyDigest : List UInt8
  limit : Nat
  windowSeconds : Nat
  cost : Nat
  clock : Nat
  locked : Bucket → Bool

def cleanupLimit : Nat := 100

def maximumBigint : Nat := 2 ^ 63 - 1

/-- The last second that a timestamp can hold. -/
def maximumTimestamp : Nat := 9224318015999

namespace Call

variable (call : Call)

def key : Key := ⟨call.scope, call.keyDigest, call.windowSeconds⟩

def epochSecond : Nat := call.clock / 1000000

/-- The number of the window. -/
def window : Nat := call.epochSecond / call.windowSeconds

def startedEpoch : Nat := call.window * call.windowSeconds

def endsEpoch : Nat := (call.window + 1) * call.windowSeconds

/-- The guards of `allow?`. -/
def valid : Bool := call.keyDigest.length = 32 ∧ 0 < call.limit ∧ 0 < call.windowSeconds ∧ 0 < call.cost

/-- The parameters and the end of the window can be held. -/
def inRange : Bool :=
  call.limit ≤ maximumBigint ∧ call.windowSeconds ≤ maximumBigint ∧ call.cost ≤ maximumBigint ∧
    call.endsEpoch ≤ maximumTimestamp

/-- The row is that of the window. -/
def counts (bucket : Bucket) : Bool := bucket.key = call.key ∧ bucket.windowStartedAt = call.startedEpoch

end Call

/-- The rows that a call deletes: the first that have expired and are not locked. -/
def expired (call : Call) (table : List Bucket) : List Bucket :=
  (((table.filter fun bucket => bucket.expiresAt ≤ call.epochSecond).insertionSort
    fun bucket bucket' => bucket.expiresAt ≤ bucket'.expiresAt).filter fun bucket => !call.locked bucket).take cleanupLimit

/-- The upsert, with the count that it returns. -/
def increment (call : Call) (table : List Bucket) : List Bucket × Nat :=
  match table.find? call.counts with
  | some bucket =>
    (table.map fun bucket =>
      if call.counts bucket then { bucket with requestCount := bucket.requestCount + call.cost } else bucket,
     bucket.requestCount + call.cost)
  | none =>
    (table ++ [{ scope := call.scope, keyDigest := call.keyDigest, windowSeconds := call.windowSeconds,
                 windowStartedAt := call.startedEpoch, requestCount := call.cost, expiresAt := call.endsEpoch }],
     call.cost)

/-- The decision on a count. -/
def decision (call : Call) (requestCount : Nat) : Decision :=
  if requestCount ≤ call.limit then ⟨true, 0⟩ else ⟨false, max 1 (call.endsEpoch - call.epochSecond)⟩

/-- `allow?`; a statement that raises changes nothing. -/
def allow (call : Call) (table : List Bucket) : Except Raised (List Bucket × Decision) :=
  if !call.valid then .error .invalidArguments
  else if !call.inRange then .error .outOfRange
  else
    let gone := expired call table
    let (table, requestCount) := increment call (table.filter fun bucket => bucket ∉ gone)
    if maximumBigint < requestCount then .error .outOfRange
    else .ok (table, decision call requestCount)

/-- A call with what came of it. -/
structure Entry where
  call : Call
  result : Except Raised Decision

/-- The table with all the calls so far. -/
structure State where
  log : List Entry
  table : List Bucket

def step (state : State) (call : Call) : State :=
  match allow call state.table with
  | .ok (table, decision) => ⟨state.log ++ [⟨call, .ok decision⟩], table⟩
  | .error raised => ⟨state.log ++ [⟨call, .error raised⟩], state.table⟩

def run (calls : List Call) : State := calls.foldl step ⟨[], []⟩

end KComms.PlatformRateLimits
