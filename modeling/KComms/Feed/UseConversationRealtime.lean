import KComms.Feed.ConversationFeedCatchUp
import KComms.Feed.UseConversationFeed
import KComms.Lib.CommandRuns

/-!
# Requests to catch up (`useConversationRealtime.ts`)

Requests are merged into one pending request, and a drain loads pages for it.  A drain is kept as data: it waits for a
page, for the promise of its catch-up, or for one of its handlers.  The messages of a page go to
`receiveMessages`, which may ask for more while the drain is running.

The feed stays current; `history` is what a run is judged by.
-/

namespace KComms.Feed

/-- Where the drain waits. -/
inductive Drain
  /-- for the answer of `api.messages` -/
  | paging (requestInFlight : CatchUpRequest) (before startedAt : Nat) (cursor : Int) (pages : Nat)
  /-- behind `await catchUp` -/
  | caughtUp (requestInFlight : CatchUpRequest) (before startedAt : Nat)
  /-- for its `catch` -/
  | rejected (requestInFlight : CatchUpRequest) (startedAt : Nat)
  /-- for its `finally` -/
  | settled (failed : Bool)
  deriving DecidableEq, Repr

inductive CatchUpNote
  | requested (request : CatchUpRequest)
  /-- the catch-up that was started after so many notes -/
  | completed (request : CatchUpRequest) (startedAt : Nat)
  | gapLeft
  deriving DecidableEq, Repr

structure Realtime where
  feed : ConversationFeed
  catchUpInFlight : Bool
  /-- the drains that run, each in its place -/
  drains : List Drain
  catchUpRetryTimer : Bool
  /-- the retry timers that have not fired, those included that `catchUpRetryTimer` has been cleared for -/
  retryTimers : Nat
  catchUpRetryAttempts : Nat
  reconnectTimer : Bool
  reconnectAttempts : Nat
  history : List CatchUpNote

namespace Realtime

def scheduleReconnect (s : Realtime) : Realtime :=
  if s.reconnectTimer then s else { s with reconnectTimer := true, reconnectAttempts := s.reconnectAttempts + 1 }

def withPending (s : Realtime) (pending : Option CatchUpRequest) : Realtime :=
  { s with feed := { s.feed with pendingCatchUpRequest := pending } }

def note (s : Realtime) (note : CatchUpNote) : Realtime := { s with history := s.history ++ [note] }

/-- A drain waits for something else. -/
def waitsFor (s : Realtime) (i : Nat) (drain : Drain) : Realtime := { s with drains := s.drains.set i drain }

/-- The head of the loop of `drainCatchUpRequests`: the next catch-up, or the end. -/
def nextCatchUp (s : Realtime) : Realtime × Drain :=
  match s.feed.pendingCatchUpRequest with
  | some requested =>
    (s.withPending none, .paging requested s.feed.contiguousSequence s.history.length requested.afterSequence 0)
  | none => (s, .settled false)

/-- `void drainCatchUpRequests()` -/
def startDrain (s : Realtime) : Realtime :=
  let (s, drain) := s.nextCatchUp
  { s with drains := s.drains ++ [drain] }

def requestCatchUp (afterSequence : Int) (beforeSequence : Option Int) (s : Realtime) : Realtime :=
  let s := { s with feed := s.feed.requestCatchUp afterSequence beforeSequence }.note
    (.requested ⟨afterSequence, beforeSequence⟩)
  if s.catchUpInFlight then s else { s with catchUpInFlight := true }.startDrain

/-- `receiveMessages`, with `requestCatchUpRef.current()` in it. -/
def receiveMessages (incoming : List Message) (s : Realtime) : Realtime :=
  if incoming = [] then s
  else
    let s := { s with feed := s.feed.updateConversationSummaries incoming }
    let activeIncoming := s.feed.active incoming
    if activeIncoming = [] then s
    else
      let s := { s with feed := s.feed.note activeIncoming }
      let s := if s.feed.futureSequences ≠ ∅ then s.requestCatchUp s.feed.contiguousSequence none else s
      { s with feed := s.feed.mergeMessages activeIncoming }

/-- An answer of `api.messages` in `loadConversationCatchUp`. -/
def pageAnswered (i : Nat) (answer : Except Messaging.ReadError MessagePage) (s : Realtime) : Realtime :=
  match s.drains[i]? with
  | some (.paging requestInFlight before startedAt cursor pages) =>
    match answer with
    | .error _ => s.waitsFor i (.rejected requestInFlight startedAt)
    | .ok page =>
      let s := s.receiveMessages page.data
      if !page.hasMore then s.waitsFor i (.caughtUp requestInFlight before startedAt)
      else
        match page.nextAfterSequence with
        | none => s.waitsFor i (.rejected requestInFlight startedAt)
        | some next =>
          if (next : Int) ≤ cursor then s.waitsFor i (.rejected requestInFlight startedAt)
          else if pages + 1 < 500 then s.waitsFor i (.paging requestInFlight before startedAt next (pages + 1))
          else s.waitsFor i (.rejected requestInFlight startedAt)
  | _ => s

/-- The rest of a round of the loop, once the catch-up is complete. -/
def roundEnds (i : Nat) (s : Realtime) : Realtime :=
  match s.drains[i]? with
  | some (.caughtUp requestInFlight before startedAt) =>
    let s := { s with catchUpRetryAttempts := 0 }.note (.completed requestInFlight startedAt)
    if s.feed.futureSequences ≠ ∅ ∧ s.feed.contiguousSequence = before then
      ((s.withPending none).note .gapLeft).scheduleReconnect.waitsFor i (.settled false)
    else
      let (s, drain) := s.nextCatchUp
      s.waitsFor i drain
  | _ => s

/-- The `catch` of the drain. -/
def drainFailed (i : Nat) (s : Realtime) : Realtime :=
  match s.drains[i]? with
  | some (.rejected requestInFlight _) =>
    (s.withPending (some (mergeCatchUpRequests s.feed.pendingCatchUpRequest requestInFlight))).waitsFor i
      (.settled true)
  | _ => s

/-- The callback of the retry timer, which the `finally` also calls. -/
def retry (s : Realtime) : Realtime :=
  let s := { s with catchUpRetryTimer := false }
  match s.feed.pendingCatchUpRequest with
  | none => s
  | some pending => (s.withPending none).requestCatchUp pending.afterSequence pending.beforeSequence

/-- The `finally` of the drain. -/
def drainSettled (i : Nat) (s : Realtime) : Realtime :=
  match s.drains[i]? with
  | some (.settled failed) =>
    let s := { s with catchUpInFlight := false, drains := s.drains.eraseIdx i }
    match s.feed.pendingCatchUpRequest with
    | none => s
    | some _ =>
      if failed then
        if s.catchUpRetryTimer then s
        else
          { s with
            catchUpRetryTimer := true
            retryTimers := s.retryTimers + 1
            catchUpRetryAttempts := s.catchUpRetryAttempts + 1 }
      else s.retry
  | _ => s

/-- The feed of a conversation, before anything is requested. -/
def opened (feed : ConversationFeed) : Realtime where
  feed := { feed with pendingCatchUpRequest := none }
  catchUpInFlight := false
  drains := []
  catchUpRetryTimer := false
  retryTimers := 0
  catchUpRetryAttempts := 0
  reconnectTimer := false
  reconnectAttempts := 0
  history := []

end Realtime

/-- What happens to the page, and which of its drains goes on. -/
inductive RealtimeEvent
  | requestCatchUp (afterSequence : Int) (beforeSequence : Option Int)
  | receiveMessages (incoming : List Message)
  | pageAnswered (i : Nat) (answer : Except Messaging.ReadError MessagePage)
  | roundEnds (i : Nat)
  | drainFailed (i : Nat)
  | drainSettled (i : Nat)
  | retryFires
  | scheduleReconnect
  | reconnectFires
  | live

def Realtime.next (s : Realtime) : RealtimeEvent → Realtime
  | .requestCatchUp afterSequence beforeSequence => s.requestCatchUp afterSequence beforeSequence
  | .receiveMessages incoming => s.receiveMessages incoming
  | .pageAnswered i answer => s.pageAnswered i answer
  | .roundEnds i => s.roundEnds i
  | .drainFailed i => s.drainFailed i
  | .drainSettled i => s.drainSettled i
  | .retryFires => if 0 < s.retryTimers then { s with retryTimers := s.retryTimers - 1 }.retry else s
  | .scheduleReconnect => s.scheduleReconnect
  | .reconnectFires => { s with reconnectTimer := false }
  | .live => { s with reconnectAttempts := 0 }

end KComms.Feed
