import Mathlib.Data.String.Basic

/-!
# Synchronised drafts (`useSynchronizedDraft.ts`)

A draft of one conversation and thread in one editor, and the drafts that the server has stored for it, one for each
version.  The server takes a write if it expects the current version (`put_draft`); other devices write as well.  A
request is answered in two steps, so that writes of other devices can come between them and an answer can get lost.
-/

namespace KComms.Drafts

structure SynchronizedDraft where
  body : String
  version : Nat
  deriving DecidableEq, Repr

/-- `"local"` is `unsaved` here. -/
inductive DraftStatus
  | unsaved
  | syncing
  | synced
  | conflict
  | unavailable
  deriving DecidableEq, Repr

/-- What the server has done with a write. -/
inductive WriteAnswer
  | saved (version : Nat)
  | staleDraft
  deriving DecidableEq, Repr

/-- The request in flight, with its answer once the server has handled it. -/
inductive DraftRequest
  | read (answer : Option SynchronizedDraft)
  | write (snapshot : String) (expected : Nat) (answer : Option WriteAnswer)
  | reread (answer : Option SynchronizedDraft)
  deriving DecidableEq, Repr

/-- What the hook keeps.  `debounce` is the timer of the effect on the body, `timeouts` are the other timers that call
`write`, with their delays; `request` is set while `busy` is, and `failed` tells whether the last request failed. -/
structure DraftSync where
  body : String
  versionRef : Option Nat
  dirty : Bool
  conflict : Bool
  status : DraftStatus
  remote : Option SynchronizedDraft
  retry : Nat
  debounce : Bool
  timeouts : List Nat
  request : Option DraftRequest
  failed : Bool
  deriving DecidableEq, Repr

namespace DraftSync

/-- The effect on `[body, attempt]`: it clears its timer, and sets it again if there is something to write. -/
def bodyEffect (s : DraftSync) : DraftSync := { s with debounce := s.dirty && !s.conflict }

def setBody (body : String) (s : DraftSync) : DraftSync :=
  if body = s.body then s else bodyEffect { s with body := body }

/-- `edited()`, and the change of the body. -/
def edited (body : String) (s : DraftSync) : DraftSync :=
  setBody body { s with dirty := true, status := if s.conflict then s.status else .unsaved }

/-! ### Reading -/

def read (s : DraftSync) : DraftSync := if s.request.isSome then s else { s with request := some (.read none) }

/-- The answer to `read`. -/
def readAnswered (draft : SynchronizedDraft) (s : DraftSync) : DraftSync :=
  let first := s.versionRef.isNone
  let s := { s with request := none, failed := false }
  if some draft.version ≠ s.versionRef ∨ first then
    if (s.dirty ∨ first ∧ s.body ≠ "") ∧ s.body ≠ draft.body ∧ (¬ first ∨ 0 < draft.version ∨ draft.body ≠ "") then
      { s with conflict := true, remote := some draft, status := .conflict }
    else if ¬ s.dirty ∧ (¬ first ∨ s.body = "") then
      setBody draft.body { s with versionRef := some draft.version, status := .synced }
    else if s.body ≠ draft.body then
      { s with versionRef := some draft.version, dirty := true, status := .unsaved, timeouts := s.timeouts ++ [0] }
    else { s with versionRef := some draft.version, dirty := false, status := .synced }
  else if ¬ s.conflict then { s with status := if s.dirty then .unsaved else .synced }
  else s

def readFailed (s : DraftSync) : DraftSync := { s with request := none, failed := true, status := .unavailable }

/-! ### Writing -/

def write (s : DraftSync) : DraftSync :=
  match s.versionRef with
  | none => s
  | some expected =>
    if s.request.isSome ∨ s.conflict ∨ ¬ s.dirty then s
    else { s with request := some (.write s.body expected none), status := .syncing }

/-- `[1_000, 3_000, 10_000, 30_000][Math.min(retry.current, 3)]` -/
def retryDelay (retry : Nat) : Nat := [1000, 3000, 10000, 30000].getD (min retry 3) 30000

/-- The `finally` of `write`. -/
def writeDone (s : DraftSync) : DraftSync :=
  { s with
    request := none
    timeouts := if s.dirty ∧ ¬ s.conflict then s.timeouts ++ [retryDelay s.retry] else s.timeouts }

def writeSaved (snapshot : String) (version : Nat) (s : DraftSync) : DraftSync :=
  let dirty := decide (s.body ≠ snapshot)
  writeDone
    { s with
      versionRef := some version
      retry := 0
      dirty := dirty
      status := if dirty then .unsaved else .synced
      failed := false }

/-- A stale write reads the draft again before it is done. -/
def writeStale (s : DraftSync) : DraftSync := { s with request := some (.reread none) }

def rereadAnswered (draft : SynchronizedDraft) (s : DraftSync) : DraftSync :=
  writeDone
    { s with conflict := true, remote := some draft, status := .conflict, retry := s.retry + 1, failed := false }

/-- The write, or the read after a stale write, has failed. -/
def writeFailed (s : DraftSync) : DraftSync :=
  writeDone { s with status := .unavailable, retry := s.retry + 1, failed := true }

/-! ### The choices in a conflict -/

def useRemote (s : DraftSync) : DraftSync :=
  match s.remote with
  | none => s
  | some remote =>
    setBody remote.body
      { s with
        versionRef := some remote.version
        dirty := false
        conflict := false
        remote := none
        status := .synced }

def keepLocal (s : DraftSync) : DraftSync :=
  match s.remote with
  | none => s
  | some remote =>
    bodyEffect
      { s with
        versionRef := some remote.version
        dirty := true
        conflict := false
        remote := none
        status := .unsaved }

/-- The hook when it has just called `read` for the first time. -/
def mounted (body : String) : DraftSync where
  body := body
  versionRef := none
  dirty := false
  conflict := false
  status := .unsaved
  remote := none
  retry := 0
  debounce := false
  timeouts := []
  request := some (.read none)
  failed := false

end DraftSync

/-! ### The editor and the server -/

/-- The editor, and the bodies that the server has stored, from version 0 on. -/
structure DraftSystem where
  draft : DraftSync
  stored : List String
  deriving DecidableEq, Repr

inductive DraftEvent
  | edited (body : String)
  | debounced
  | timeout (index : Nat)
  | read
  | handled
  | answered
  | failed
  | written (body : String)
  | useRemote
  | keepLocal
  deriving DecidableEq, Repr

namespace DraftSystem

/-- The draft of the server: no row is version 0 with an empty body. -/
def current (s : DraftSystem) : SynchronizedDraft := ⟨s.stored.getLast?.getD "", s.stored.length - 1⟩

/-- The server handles the request in flight. -/
def handled (s : DraftSystem) : DraftSystem :=
  match s.draft.request with
  | some (.read none) => { s with draft := { s.draft with request := some (.read (some s.current)) } }
  | some (.reread none) => { s with draft := { s.draft with request := some (.reread (some s.current)) } }
  | some (.write snapshot expected none) =>
    if expected = s.current.version then
      { draft := { s.draft with request := some (.write snapshot expected (some (.saved (s.current.version + 1)))) }
        stored := s.stored ++ [snapshot] }
    else { s with draft := { s.draft with request := some (.write snapshot expected (some .staleDraft)) } }
  | _ => s

/-- The answer arrives. -/
def answered (s : DraftSystem) : DraftSystem :=
  match s.draft.request with
  | some (.read (some draft)) => { s with draft := s.draft.readAnswered draft }
  | some (.reread (some draft)) => { s with draft := s.draft.rereadAnswered draft }
  | some (.write snapshot _ (some (.saved version))) => { s with draft := s.draft.writeSaved snapshot version }
  | some (.write _ _ (some .staleDraft)) => { s with draft := s.draft.writeStale }
  | _ => s

/-- The request fails, before the server has handled it or after. -/
def failed (s : DraftSystem) : DraftSystem :=
  match s.draft.request with
  | none => s
  | some (.read _) => { s with draft := s.draft.readFailed }
  | some _ => { s with draft := s.draft.writeFailed }

def next (s : DraftSystem) : DraftEvent → DraftSystem
  | .edited body => if body = s.draft.body then s else { s with draft := s.draft.edited body }
  | .debounced => if s.draft.debounce then { s with draft := { s.draft with debounce := false }.write } else s
  | .timeout index =>
    if index < s.draft.timeouts.length then
      { s with draft := { s.draft with timeouts := s.draft.timeouts.eraseIdx index }.write }
    else s
  | .read => { s with draft := s.draft.read }
  | .handled => s.handled
  | .answered => s.answered
  | .failed => s.failed
  | .written body => { s with stored := s.stored ++ [body] }
  | .useRemote => { s with draft := s.draft.useRemote }
  | .keepLocal => { s with draft := s.draft.keepLocal }

/-- The server has drafts already when the editor comes up, possibly with a text of its own. -/
def mounted (body : String) (drafts : List String) : DraftSystem := ⟨.mounted body, "" :: drafts⟩

end DraftSystem

end KComms.Drafts
