import KComms.Lib.CommandRuns
import KComms.Rooms.Creation
import KComms.Rooms.Presence

/-!
# An instant room under its commands

The commands on a room in any order, each one transaction.  A room is observed together with the clock, and with the
times at which leases were opened or renewed.
-/

namespace KComms.Rooms

open Attempt KComms.Accounts

inductive RoomCommand
  | join (key : JoinKey) (joiner : Joiner)
  | replayCreation (kind : OwnerKind) (fingerprint sessionId : String) (decrypted : Bool)
  | presence (mode : PresenceMode) (grant : Grant) (leaseId digest : String)
  | close (grant : Grant) (digest : String)
  | reconcile (generation : Nat)
  | expire (generation : Nat)
  | convert (admissionId newSessionId : String)
  deriving DecidableEq, Repr

structure RoomStep where
  facts : RoomFacts
  times : Readings
  command : RoomCommand

variable (settings : RoomSettings)

def execute (step : RoomStep) (scope : RoomScope) : RoomTransaction RoomScope :=
  match step.command with
  | .join key joiner => join step.facts step.times key joiner scope
  | .replayCreation kind fingerprint sessionId decrypted =>
    replayCreation step.facts step.times kind fingerprint sessionId decrypted scope
  | .presence mode grant leaseId digest => upsert settings step.facts step.times mode grant leaseId digest scope
  | .close grant digest => closePresence step.facts step.times grant digest scope
  | .reconcile generation => reconcile step.facts step.times generation scope
  | .expire generation => expire step.facts step.times generation scope
  | .convert admissionId newSessionId => convert settings step.facts step.times admissionId newSessionId scope

/-- The generation that a job carries. -/
def RoomCommand.jobGeneration : RoomCommand → Option Nat
  | .reconcile generation => some generation
  | .expire generation => some generation
  | _ => none

structure ObservedRoom where
  scope : RoomScope
  clock : Int
  accepted : List Int

/-- The time of an accepted open or heartbeat. -/
def RoomStep.presence (step : RoomStep) : List Int :=
  match step.command with
  | .presence _ _ _ _ => [step.times.first]
  | _ => []

def ObservedRoom.next (observed : ObservedRoom) (step : RoomStep) : ObservedRoom :=
  match (execute settings step observed.scope).outcome with
  | .ok scope =>
    { scope := scope, clock := step.times.fourth, accepted := step.presence ++ observed.accepted }
  | .error _ => { observed with clock := step.times.fourth }

/-- The clock does not go back. -/
def ClockOrdered (observed : ObservedRoom) (step : RoomStep) : Prop := observed.clock ≤ step.times.first

instance (observed : ObservedRoom) (step : RoomStep) : Decidable (ClockOrdered observed step) :=
  inferInstanceAs (Decidable (observed.clock ≤ step.times.first))

/-- A room that was just created. -/
def observedFrom (times : Readings) (scope : RoomScope) : ObservedRoom where
  scope := scope
  clock := times.fourth
  accepted := []

variable {settings} {observed : ObservedRoom} {step : RoomStep}

/-- A step commits or leaves the rows as they are. -/
theorem next_cases : (∃ scope, (execute settings step observed.scope).Commits scope ∧
    observed.next settings step =
      { scope := scope, clock := step.times.fourth, accepted := step.presence ++ observed.accepted }) ∨
    observed.next settings step = { observed with clock := step.times.fourth } := by
  unfold ObservedRoom.next
  split
  · rename_i scope h
    exact .inl ⟨scope, h, rfl⟩
  · exact .inr rfl

theorem createRoom_commits {facts : RoomFacts} {quota : Bool} {creator : Creator} {tokenDigest fingerprint : String}
    {maxConversationMembers : Nat} {times : Readings} {scope : RoomScope}
    (h : (createRoom settings facts quota creator tokenDigest fingerprint maxConversationMembers times).Commits scope) :
    scope = createdScope settings creator tokenDigest fingerprint maxConversationMembers times := by
  simp only [createRoom, commits_bind, commits_check, commits_pure] at h
  obtain ⟨-, -, -, -, -, -, -, -, -, -, rfl⟩ := h
  rfl

end KComms.Rooms
