import KComms.Feed.ConversationFeedCatchUp

/-!
# Reconciling the loaded messages (`reconcileLoadedMessages.ts`)

The messages on the page that were read again are replaced, save those that changed while they were read.
-/

namespace KComms.Feed

/-- What a loaded message becomes. -/
def reconciled (snapshot incoming : OrderedMap String Loaded) (loaded : Loaded) : List Loaded :=
  match snapshot.get? loaded.message.id with
  | none => [loaded]
  | some previous =>
    if loaded.ref ≠ previous.ref then [loaded]
    else (incoming.get? loaded.message.id).toList

def changed (snapshot : OrderedMap String Loaded) (loaded : Loaded) : Bool :=
  match snapshot.get? loaded.message.id with
  | none => false
  | some previous => loaded.ref != previous.ref

def mergeReconciledMessages (current snapshot incoming : List Loaded) : List Loaded × Bool :=
  (current.flatMap (reconciled (byId snapshot) (byId incoming)), current.any (changed (byId snapshot)))

end KComms.Feed
