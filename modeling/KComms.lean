import KComms.Lib.OrderedMap
import KComms.Lib.ForestWalk
import KComms.Documents.Rga
import KComms.Documents.RgaEdit
import KComms.Documents.Commands
import KComms.Documents.Lineage
import KComms.Documents.DocumentModel
import KComms.Documents.Agreement
import KComms.Documents.Convergence
import KComms.Documents.UseSharedDocument
import KComms.Documents.PendingEdits
import KComms.Documents.ClientTurn
import KComms.Documents.Clients
import KComms.Lib.LatestWins
import KComms.Whiteboards.Scene
import KComms.Whiteboards.Commands
import KComms.Whiteboards.Library
import KComms.Lib.Consecutive
import KComms.Whiteboards.BoardLog
import KComms.Whiteboards.Changes
import KComms.Whiteboards.Runs
import KComms.Lib.Binary64
import KComms.Whiteboards.SceneModel
import KComms.Whiteboards.Load
import KComms.Whiteboards.Replay
import KComms.Whiteboards.OperationStream
import KComms.Whiteboards.InitialLoad
import KComms.Whiteboards.Persistence
import KComms.Whiteboards.Outbox
import KComms.Whiteboards.Clear
import KComms.Whiteboards.Erasure
import KComms.Lib.FixedWindow
import KComms.RateLimits.PlatformRateLimits
import KComms.RateLimits.Admission
import KComms.Messaging.Message
import KComms.Messaging.MessageCommands
import KComms.Messaging.Sequencing
import KComms.Messaging.GuestHistory
import KComms.Feed.ConversationFeedReducer
import KComms.Feed.ConversationFeedCatchUp
import KComms.Feed.ReconcileLoadedMessages
import KComms.Feed.UseConversationFeed
import KComms.Feed.GapsClosed
import KComms.Feed.LoadedMessages
import KComms.Feed.Removal
import KComms.Lib.LastValue
import KComms.Messaging.DeliveryCursors
import KComms.Feed.Receipts
import KComms.Lib.EffectTransaction
import KComms.Telephony.Call
import KComms.Telephony.IvrStateMachine
import KComms.Telephony.Ivr
import KComms.Telephony.Lifecycle
import KComms.Telephony.CallChange
import KComms.Telephony.IvrCommit
import KComms.Telephony.IvrSystem
import KComms.Telephony.IvrInvariant
import KComms.Telephony.IvrSelection
import KComms.Telephony.IvrEffects
import KComms.Lib.ExclusiveRows
import KComms.Telephony.Routing
import KComms.Telephony.CallSystem
import KComms.Telephony.CallExclusive
import KComms.Telephony.FinishedRooms
import KComms.Telephony.AppPresence
import KComms.Telephony.PresenceOrder
import KComms.Telephony.AppEpoch
import KComms.Telephony.ControlSystem
import KComms.Telephony.ControlChange
import KComms.Telephony.ControlRuns
import KComms.Telephony.ControlResolved
import KComms.Accounts.RefreshTokens
import KComms.Accounts.RefreshRuns
import KComms.Accounts.Identity
import KComms.Accounts.Mfa
import KComms.Accounts.Authentication
import KComms.Accounts.Passwords
import KComms.Accounts.IdentitySystem
import KComms.Accounts.IdentityChange
import KComms.Accounts.IdentityRollback
import KComms.Accounts.IdentityRuns
import KComms.Lib.OneTimeProofs
import KComms.Accounts.ProofRuns
import KComms.Accounts.ChallengeRuns
import KComms.Accounts.SignInRuns
import KComms.Accounts.MfaProofs
import KComms.Accounts.PasswordCutOff
import KComms.Accounts.TenantUsers
import KComms.Accounts.UserLifecycle
import KComms.Accounts.Scim
import KComms.Accounts.GovernanceErasure
import KComms.Accounts.ScimChange
import KComms.Governance.Content
import KComms.Governance.DeletionWorkflow
import KComms.Lib.CommandRuns
import KComms.Governance.LastingOwner
import KComms.Governance.DeletedUsers
import KComms.Governance.LegalHolds
import KComms.Rooms.EphemeralRoom
import KComms.Rooms.Lifecycle
import KComms.Rooms.Presence
import KComms.Rooms.Admission
import KComms.Rooms.Creation
import KComms.Rooms.RoomLifecycle
import KComms.Rooms.Inactivity
import KComms.Rooms.AuthorityDeadline
import KComms.Conversations.Conversation
import KComms.Conversations.GuestLinks
import KComms.Lib.RowLock
import KComms.Conversations.Redemptions
import KComms.Conversations.Memberships
import KComms.Conversations.SharedOwners
import KComms.Conversations.MembershipEvents
import KComms.AudioCalls.MeetingSchedule
import KComms.AudioCalls.Meetings
import KComms.AudioCalls.MeetingCalendar
import KComms.AudioCalls.MeetingRuns
import KComms.AudioCalls.CalendarExport
import KComms.AudioCalls.MeetingReminders
import KComms.Attachments.Attachment
import KComms.Attachments.Uploads
import KComms.Attachments.Abandonment
import KComms.Attachments.MessageClaims
import KComms.Attachments.AttachmentChange
import KComms.Attachments.FinalDeletion
import KComms.AudioCalls.Lifecycle
import KComms.AudioCalls.CallSystem
import KComms.Conversations.ActiveMembers
import KComms.AudioCalls.CallProgress
import KComms.AudioCalls.AdmissionLaw
import KComms.Documents.Stability
import KComms.Documents.LostAcknowledgement
import KComms.Documents.TextChanges
import KComms.Documents.LocalEdits
import KComms.Drafts.UseSynchronizedDraft
import KComms.Drafts.DraftRuns
import KComms.Feed.CatchUpRequests
import KComms.Accounts.ScimPatch
import KComms.Rooms.LeaseLimit
import KComms.Whiteboards.Search
import KComms.Whiteboards.OutboxStore
import KComms.Lib.Json
import KComms.Lib.SizedMap
import KComms.Whiteboards.SceneAccounting
import KComms.Whiteboards.Chunks
import KComms.Whiteboards.Restore
import KComms.Documents.RemoteCursors
import KComms.AudioCalls.CalendarText
import KComms.Lib.LeadingBits
import KComms.Web.TrustedProxy
import KComms.Lib.CodePattern
import KComms.Web.DirectAudioSignal
import KComms.Attachments.ObjectKeys
import KComms.ObjectStorage.VersionListing
import KComms.Lib.TracedSession
import KComms.ObjectStorage.VersionPurger
import KComms.Lib.JavaScriptNumber
import KComms.Lib.Sha256
import KComms.Web.Sha256Core
import KComms.Web.DirectAudioTransport
import KComms.Web.DirectAgreement
import KComms.Integrations.PinnedHttp
