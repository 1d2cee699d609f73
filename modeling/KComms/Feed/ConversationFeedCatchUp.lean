import KComms.Feed.ConversationFeedReducer
import KComms.Lib.Consecutive
import KComms.Lib.KeysetPages

/-!
# Catching up (`conversationFeedCatchUp.ts`)

The page reads what it missed in pages of the history.  Each request finds the conversation as it is by then: messages
come at the end of it, and what there is keeps its place.
-/

namespace KComms.Feed

open Messaging (Content Reader ReadError RetainedSenderLabelView listHistoryPage listHistory_ok listHistory_denied
  listHistory_unscoped scopedHistoryAfterSequence mem_rows)

/-! ### Requests -/

structure CatchUpRequest where
  afterSequence : Int
  beforeSequence : Option Int
  deriving DecidableEq, Repr

def mergeCatchUpRequests (current : Option CatchUpRequest) (incoming : CatchUpRequest) : CatchUpRequest :=
  match current with
  | none => incoming
  | some current =>
    { afterSequence := min current.afterSequence incoming.afterSequence
      beforeSequence :=
        match current.beforeSequence, incoming.beforeSequence with
        | some before, some before' => some (max before before')
        | _, _ => none }

structure MessagePage where
  data : List Message
  senderLabels : List RetainedSenderLabelView
  hasMore : Bool
  nextAfterSequence : Option Nat
  deriving DecidableEq, Repr

/-- `api.messages` and `MessageController.index` -/
def messages (uuid : String → Bool) (content : Content) (conversationId : String) (reader : Reader)
    (afterSequence limit : Int) (beforeSequence : Option Int) : Except ReadError MessagePage := do
  let result ← listHistoryPage uuid content conversationId reader
    ⟨afterSequence, beforeSequence, min (max limit 1) 200, false, true⟩
  .ok ⟨result.messages.map presented, result.senderLabels, result.hasMore, result.nextAfterSequence⟩

/-! ### The loop -/

/-- A turn of the loop: whether the page is current before the request and after the answer, and what is stored when
the request is served. -/
structure Turn where
  current : Bool
  content : Content
  stillCurrent : Bool

/-- How the loop ends; it also returns when the page is no longer current. -/
inductive Outcome
  | returned | stopped | requestFailed (reason : ReadError) | nonAdvancing | limitExceeded
  deriving DecidableEq, Repr

structure CatchUp where
  pages : List MessagePage
  outcome : Outcome
  deriving DecidableEq, Repr

section Loop

variable (uuid : String → Bool) (conversationId : String) (reader : Reader) (beforeSequence : Option Int)
  (turn : Nat → Turn)

/-- The loop with `left` turns to go, after `pages` of them. -/
def catchUpFrom : (left pages : Nat) → (cursor : Int) → CatchUp
  | 0, pages, _ => ⟨[], if (turn pages).current then .limitExceeded else .stopped⟩
  | left + 1, pages, cursor =>
    if !(turn pages).current then ⟨[], .stopped⟩
    else
      match messages uuid (turn pages).content conversationId reader cursor 200 beforeSequence with
      | .error reason => ⟨[], .requestFailed reason⟩
      | .ok page =>
        if !(turn pages).stillCurrent then ⟨[], .stopped⟩
        else if !page.hasMore then ⟨[page], .returned⟩
        else
          match page.nextAfterSequence with
          | none => ⟨[page], .nonAdvancing⟩
          | some next =>
            if (next : Int) ≤ cursor then ⟨[page], .nonAdvancing⟩
            else
              let rest := catchUpFrom left (pages + 1) next
              ⟨page :: rest.pages, rest.outcome⟩

def loadConversationCatchUp (afterSequence : Int) : CatchUp :=
  catchUpFrom uuid conversationId reader beforeSequence turn 500 0 afterSequence

end Loop

/-! ### Places -/

/-- A message by what never changes of it. -/
def Message.place (message : Message) : String × Nat := (message.id, message.conversationSequence)

def storedPlace (message : Messaging.Message) : String × Nat := (message.id, message.conversationSequence)

def sequence (place : String × Nat) : Int := place.2

/-- The messages of a conversation in their order. -/
def log (content : Content) (tenantId conversationId : String) : List Messaging.Message :=
  (content.messages.filter fun message =>
    message.tenantId = tenantId ∧ message.conversationId = conversationId).insertionSort
    fun message message' => message.conversationSequence ≤ message'.conversationSequence

def places (content : Content) (tenantId conversationId : String) : List (String × Nat) :=
  (log content tenantId conversationId).map storedPlace

/-- The places before the end of a range. -/
def window (beforeSequence : Option Int) (places : List (String × Nat)) : List (String × Nat) :=
  places.filter fun place => ∀ before ∈ beforeSequence, sequence place < before

/-- The places of a range. -/
def range (content : Content) (tenantId conversationId : String) (afterSequence : Int) (beforeSequence : Option Int) :
    List (String × Nat) :=
  KeysetPages.after sequence afterSequence (window beforeSequence (places content tenantId conversationId))

/-- What was given to `receiveMessages`. -/
def CatchUp.delivered (result : CatchUp) : List (String × Nat) :=
  (result.pages.flatMap MessagePage.data).map Message.place

instance sequenceTotal : Std.Total fun message message' : Messaging.Message =>
    message.conversationSequence ≤ message'.conversationSequence := ⟨fun _ _ => Nat.le_total _ _⟩

instance sequenceTrans : IsTrans Messaging.Message fun message message' =>
    message.conversationSequence ≤ message'.conversationSequence := ⟨fun _ _ _ => Nat.le_trans⟩

theorem mem_log {content : Content} {tenantId conversationId : String} {message : Messaging.Message} :
    message ∈ log content tenantId conversationId ↔
      message ∈ content.messages ∧ message.tenantId = tenantId ∧ message.conversationId = conversationId := by
  unfold log
  rw [List.mem_insertionSort, List.mem_filter, decide_eq_true_eq]

theorem log_nodup (content : Content) (tenantId conversationId : String) :
    (log content tenantId conversationId).Nodup := by
  unfold log
  rw [(List.perm_insertionSort _ _).nodup_iff]
  exact (content.sequences.of_map _).filter _

theorem log_pairwise (content : Content) (tenantId conversationId : String) :
    (log content tenantId conversationId).Pairwise fun message message' =>
      message.conversationSequence < message'.conversationSequence := by
  have hsorted : (log content tenantId conversationId).Pairwise fun message message' =>
      message.conversationSequence ≤ message'.conversationSequence := List.pairwise_insertionSort _ _
  have hne := List.nodup_iff_pairwise_ne.1 (log_nodup content tenantId conversationId)
  refine (hsorted.and hne).imp_of_mem ?_
  intro message message' hmem hmem' ⟨hle, hdistinct⟩
  refine Nat.lt_of_le_of_ne hle fun heq => hdistinct ?_
  rw [mem_log] at hmem hmem'
  exact List.inj_on_of_nodup_map content.sequences hmem.1 hmem'.1
    (Prod.ext (hmem.2.2.trans hmem'.2.2.symm) heq)

/-- The query of the history selects from the conversation. -/
theorem rows_eq (content : Content) (tenantId conversationId : String) (afterSequence : Int)
    (beforeSequence : Option Int) : content.rows tenantId conversationId afterSequence beforeSequence =
      (log content tenantId conversationId).filter fun message => afterSequence < message.conversationSequence ∧
        ∀ before ∈ beforeSequence, (message.conversationSequence : Int) < before := by
  apply @List.Perm.eq_of_pairwise _ fun message message' : Messaging.Message =>
    message.conversationSequence ≤ message'.conversationSequence
  · intro message message' hmem hmem' hle hle'
    rw [mem_rows] at hmem
    rw [List.mem_filter, mem_log] at hmem'
    exact List.inj_on_of_nodup_map content.sequences hmem.1 hmem'.1.1
      (Prod.ext (hmem.2.2.1.trans hmem'.1.2.2.symm) (Nat.le_antisymm hle hle'))
  · exact List.pairwise_insertionSort _ _
  · exact ((log_pairwise content tenantId conversationId).imp Nat.le_of_lt).filter _
  · have hnodup : content.messages.Nodup := content.sequences.of_map _
    rw [List.perm_ext_iff_of_nodup]
    · intro message
      rw [mem_rows, List.mem_filter, mem_log, decide_eq_true_eq]
      tauto
    · unfold Content.rows
      rw [(List.perm_insertionSort _ _).nodup_iff]
      exact hnodup.filter _
    · exact (log_nodup content tenantId conversationId).filter _

theorem range_eq (content : Content) (tenantId conversationId : String) (afterSequence : Int)
    (beforeSequence : Option Int) : (content.rows tenantId conversationId afterSequence beforeSequence).map storedPlace =
      range content tenantId conversationId afterSequence beforeSequence := by
  rw [rows_eq]
  unfold range window places KeysetPages.after
  rw [List.filter_map, List.filter_map, List.filter_filter]
  congr 1
  apply List.filter_congr
  intro message _
  rw [Bool.eq_iff_iff, Function.comp_apply, Function.comp_apply, Bool.and_eq_true, decide_eq_true_eq,
    decide_eq_true_eq, decide_eq_true_eq]
  rfl

theorem window_ascending (content : Content) (tenantId conversationId : String) (beforeSequence : Option Int) :
    KeysetPages.Ascending sequence (window beforeSequence (places content tenantId conversationId)) := by
  have h : KeysetPages.Ascending sequence (places content tenantId conversationId) := by
    unfold KeysetPages.Ascending places
    rw [List.pairwise_map]
    exact (log_pairwise content tenantId conversationId).imp Int.ofNat_lt.2
  exact h.filter _


/-! ### One page -/

theorem scoped_le {reader : Reader} {cursor after : Int} (h : scopedHistoryAfterSequence reader cursor = .ok after) :
    cursor ≤ after ∧ ∀ cursor', after ≤ cursor' → scopedHistoryAfterSequence reader cursor' = .ok cursor' := by
  unfold scopedHistoryAfterSequence at h ⊢
  split at h
  · rename_i historyFromSequence hguest hfrom
    split at h
    · rename_i hpos
      cases h
      refine ⟨le_max_left _ _, fun cursor' hle => ?_⟩
      rw [if_pos hpos, max_eq_left (le_trans (le_max_right _ _) hle)]
    · cases h
  · cases h
  · cases h
    exact ⟨Int.le_refl _, fun _ _ => rfl⟩

/-- A page has the beginning of the range, and tells whether the range goes on. -/
structure IsPage (range : List (String × Nat)) (page : MessagePage) : Prop where
  data : page.data.map Message.place = range.take 200
  hasMore : page.hasMore = decide (200 < range.length)
  next : page.nextAfterSequence = ((range.take 200).getLast?).map Prod.snd

variable {uuid : String → Bool} {conversationId : String} {reader : Reader} {beforeSequence : Option Int}


/-- What a request reads to answer with a page of 200 messages. -/
def probe (cursor : Int) (beforeSequence : Option Int) : Messaging.Options :=
  ⟨cursor, beforeSequence, 201, false, true⟩

theorem messages_eq (content : Content) (cursor : Int) :
    messages uuid content conversationId reader cursor 200 beforeSequence =
      (Messaging.listHistory content conversationId reader (probe cursor beforeSequence)).map fun views =>
        { data := (views.take 200).map presented
          senderLabels := Messaging.retainedSenderLabels uuid content reader
            ⟨cursor, beforeSequence, 200, false, true⟩ (views.take 200)
          hasMore := decide (200 < views.length)
          nextAfterSequence := (views.take 200).getLast?.map fun view => view.message.conversationSequence } := by
  have hlimit : Messaging.clampLimit (min (max 200 1) 200) Messaging.maximumHistoryPageLimit = 200 := by decide
  unfold messages listHistoryPage
  simp only [hlimit]
  change (Messaging.listHistory content conversationId reader (probe cursor beforeSequence) >>= _) >>= _ = _
  cases Messaging.listHistory content conversationId reader (probe cursor beforeSequence) with
  | error reason => rfl
  | ok views => rfl

theorem messages_ok (uuid : String → Bool) (beforeSequence : Option Int) {content : Content} {cursor after : Int}
    (hauthorize : content.authorizeRead conversationId reader = .ok ())
    (hscoped : scopedHistoryAfterSequence reader cursor = .ok after) :
    ∃ page, messages uuid content conversationId reader cursor 200 beforeSequence = .ok page ∧
      IsPage (range content reader.tenantId conversationId after beforeSequence) page := by
  have hlimit : Messaging.clampLimit (probe cursor beforeSequence).limit
    (if (probe cursor beforeSequence).probeMore then 501 else 500) = 201 := rfl
  have hlist := listHistory_ok hauthorize (probe cursor beforeSequence) hscoped
  rw [hlimit] at hlist
  rw [messages_eq, hlist]
  refine ⟨_, rfl, ?_⟩
  rw [← range_eq]
  have htake : (Messaging.hydrateMessages content ((content.rows reader.tenantId conversationId after
      (probe cursor beforeSequence).beforeSequence).take 201)).take 200 = Messaging.hydrateMessages content
        ((content.rows reader.tenantId conversationId after beforeSequence).take 200) := by
    unfold Messaging.hydrateMessages
    rw [← List.map_take, List.take_take]
    rfl
  constructor
  · dsimp only
    rw [htake, ← List.map_take, Messaging.hydrateMessages, List.map_map, List.map_map]
    rfl
  · dsimp only
    rw [Messaging.hydrateMessages, List.length_map, List.length_take, List.length_map, decide_eq_decide]
    show 200 < min 201 (content.rows reader.tenantId conversationId after beforeSequence).length ↔ _
    omega
  · dsimp only
    rw [htake, Messaging.hydrateMessages, ← List.map_take, List.getLast?_map, List.getLast?_map, Option.map_map,
      Option.map_map]
    rfl

theorem messages_inv {content : Content} {cursor : Int} {page : MessagePage}
    (h : messages uuid content conversationId reader cursor 200 beforeSequence = .ok page) :
    ∃ after, scopedHistoryAfterSequence reader cursor = .ok after ∧
      IsPage (range content reader.tenantId conversationId after beforeSequence) page := by
  cases hauthorize : content.authorizeRead conversationId reader with
  | error reason =>
    rw [messages_eq, listHistory_denied hauthorize] at h
    cases h
  | ok allowed =>
    cases hscoped : scopedHistoryAfterSequence reader cursor with
    | error reason =>
      rw [messages_eq, listHistory_unscoped hauthorize (probe cursor beforeSequence) hscoped] at h
      cases h
    | ok after =>
      obtain ⟨page', hpage', his⟩ := messages_ok uuid beforeSequence hauthorize hscoped
      rw [h] at hpage'
      cases hpage'
      exact ⟨after, rfl, his⟩

/-- The cursor of a page that is not the last one is the greatest sequence of the page. -/
theorem IsPage.exists_next {places : List (String × Nat)} {page : MessagePage} {after : Int}
    (h : IsPage (KeysetPages.after sequence after places) page) (hmore : page.hasMore = true) :
    ∃ place, ((KeysetPages.after sequence after places).take 200).getLast? = some place ∧
      page.nextAfterSequence = some place.2 ∧ after < sequence place := by
  rw [h.hasMore, decide_eq_true_eq] at hmore
  have hne : (KeysetPages.after sequence after places).take 200 ≠ [] := by
    intro hnil
    have := congrArg List.length hnil
    rw [List.length_take, List.length_nil] at this
    omega
  refine ⟨_, List.getLast?_eq_some_getLast hne, ?_, ?_⟩
  · rw [h.next, List.getLast?_eq_some_getLast hne]
    rfl
  · exact (KeysetPages.mem_after.1 (List.mem_of_mem_take (List.getLast_mem hne))).2

/-! ### One turn -/

section Turns

variable (uuid conversationId reader beforeSequence) (turn : Nat → Turn)

/-- The range of a request, by what is stored when it is served. -/
def rangeAt (after : Int) (pages : Nat) : List (String × Nat) :=
  range (turn pages).content reader.tenantId conversationId after beforeSequence

/-- What a turn of the loop can do: the cursor always advances. -/
inductive TurnEnds (left pages : Nat) (cursor : Int) : CatchUp → Prop
  | stopped (hcurrent : (turn pages).current = false ∨ (turn pages).stillCurrent = false) :
    TurnEnds left pages cursor ⟨[], .stopped⟩
  | failed (reason : ReadError)
    (hmessages : messages uuid (turn pages).content conversationId reader cursor 200 beforeSequence = .error reason) :
    TurnEnds left pages cursor ⟨[], .requestFailed reason⟩
  | last (page : MessagePage) (after : Int) (hscoped : scopedHistoryAfterSequence reader cursor = .ok after)
    (hpage : IsPage (rangeAt conversationId reader beforeSequence turn after pages) page)
    (hmore : page.hasMore = false)
    (hmessages : messages uuid (turn pages).content conversationId reader cursor 200 beforeSequence = .ok page) :
    TurnEnds left pages cursor ⟨[page], .returned⟩
  | more (page : MessagePage) (after : Int) (place : String × Nat)
    (hscoped : scopedHistoryAfterSequence reader cursor = .ok after)
    (hpage : IsPage (rangeAt conversationId reader beforeSequence turn after pages) page)
    (hmore : page.hasMore = true)
    (hlast : ((rangeAt conversationId reader beforeSequence turn after pages).take 200).getLast? = some place)
    (hnext : scopedHistoryAfterSequence reader (sequence place) = .ok (sequence place))
    (hmessages : messages uuid (turn pages).content conversationId reader cursor 200 beforeSequence = .ok page) :
    TurnEnds left pages cursor
      ⟨page :: (catchUpFrom uuid conversationId reader beforeSequence turn left (pages + 1) (sequence place)).pages,
        (catchUpFrom uuid conversationId reader beforeSequence turn left (pages + 1) (sequence place)).outcome⟩

theorem catchUpFrom_succ (left pages : Nat) (cursor : Int) :
    TurnEnds uuid conversationId reader beforeSequence turn left pages cursor
      (catchUpFrom uuid conversationId reader beforeSequence turn (left + 1) pages cursor) := by
  unfold catchUpFrom
  split
  · rename_i hcurrent
    rw [Bool.not_eq_true'] at hcurrent
    exact .stopped (.inl hcurrent)
  · split
    · rename_i reason hmessages
      exact .failed reason hmessages
    · rename_i page hmessages
      obtain ⟨after, hscoped, hpage⟩ := messages_inv hmessages
      have hle := scoped_le hscoped
      split
      · rename_i hcurrent
        rw [Bool.not_eq_true'] at hcurrent
        exact .stopped (.inr hcurrent)
      · split
        · rename_i hmore
          rw [Bool.not_eq_true'] at hmore
          exact .last page after hscoped hpage hmore hmessages
        · rename_i hmore
          rw [Bool.not_eq_true', Bool.not_eq_false] at hmore
          obtain ⟨place, hlast, hnext, hlt⟩ := hpage.exists_next hmore
          rw [hnext]
          dsimp only
          have hadvances : ¬ (place.2 : Int) ≤ cursor := by
            unfold sequence at hlt
            omega
          rw [if_neg hadvances]
          exact .more page after place hscoped hpage hmore hlast (hle.2 _ (Int.le_of_lt hlt)) hmessages

/-! ### All turns -/

variable {uuid conversationId reader beforeSequence} {turn : Nat → Turn}

theorem catchUpFrom_advances (left : Nat) : ∀ (pages : Nat) (cursor : Int),
    (catchUpFrom uuid conversationId reader beforeSequence turn left pages cursor).outcome ≠ .nonAdvancing := by
  induction left with
  | zero =>
    intro pages cursor
    unfold catchUpFrom
    dsimp only
    split <;> simp
  | succ left ih =>
    intro pages cursor
    have h := catchUpFrom_succ uuid conversationId reader beforeSequence turn left pages cursor
    generalize catchUpFrom uuid conversationId reader beforeSequence turn (left + 1) pages cursor = result at h ⊢
    cases h with
    | stopped => simp
    | failed => simp
    | last => simp
    | more page after place => exact ih _ _

/-- A page that stays current and may read gets to the end of the range or of the turns. -/
theorem catchUpFrom_ends (left : Nat) : ∀ (pages : Nat) (cursor : Int) {after : Int},
    (∀ k ≤ pages + left, (turn k).current = true ∧ (turn k).stillCurrent = true) →
    (∀ k < pages + left, (turn k).content.authorizeRead conversationId reader = .ok ()) →
    scopedHistoryAfterSequence reader cursor = .ok after →
      (catchUpFrom uuid conversationId reader beforeSequence turn left pages cursor).outcome = .returned ∨
        (catchUpFrom uuid conversationId reader beforeSequence turn left pages cursor).outcome = .limitExceeded := by
  induction left with
  | zero =>
    intro pages cursor after hcurrent _ _
    unfold catchUpFrom
    dsimp only
    rw [if_pos (hcurrent pages (by omega)).1]
    exact .inr rfl
  | succ left ih =>
    intro pages cursor after hcurrent hauthorize hscoped
    have h := catchUpFrom_succ uuid conversationId reader beforeSequence turn left pages cursor
    generalize catchUpFrom uuid conversationId reader beforeSequence turn (left + 1) pages cursor = result at h ⊢
    cases h with
    | stopped hstopped =>
      have := hcurrent pages (by omega)
      rw [this.1, this.2] at hstopped
      simp at hstopped
    | failed reason hmessages =>
      obtain ⟨page, hpage, -⟩ := messages_ok uuid beforeSequence
        (hauthorize pages (by omega)) hscoped
      rw [hmessages] at hpage
      cases hpage
    | last => exact .inl rfl
    | more page after' place _ _ _ _ hnext =>
      exact ih _ _ (fun k hk => hcurrent k (by omega)) (fun k hk => hauthorize k (by omega)) hnext

/-- What was delivered, by the ranges that the requests found. -/
structure Accounts (ranges : Nat → List (String × Nat)) (left pages : Nat) (result : CatchUp) : Prop where
  delivered : ∃ last, pages ≤ last ∧ result.delivered <+: ranges last ∧
    (result.outcome = .returned → result.delivered = ranges last)
  limit : result.outcome = .limitExceeded → result.delivered.length = 200 * left ∧
    (0 < left → 200 * left < (ranges (pages + left - 1)).length)

theorem delivered_nil (outcome : Outcome) : (CatchUp.mk [] outcome).delivered = [] := rfl

theorem delivered_cons (page : MessagePage) (pages : List MessagePage) (outcome : Outcome) :
    (CatchUp.mk (page :: pages) outcome).delivered =
      page.data.map Message.place ++ (CatchUp.mk pages outcome).delivered := by
  unfold CatchUp.delivered
  rw [List.flatMap_cons, List.map_append]

theorem accounts_nil (ranges : Nat → List (String × Nat)) (left pages : Nat) {outcome : Outcome}
    (hreturned : outcome ≠ .returned) (hlimit : outcome ≠ .limitExceeded) :
    Accounts ranges left pages ⟨[], outcome⟩ where
  delivered := ⟨pages, Nat.le_refl _, List.nil_prefix, fun h => absurd h hreturned⟩
  limit h := absurd h hlimit

theorem Accounts.page {ranges ranges' : Nat → List (String × Nat)} {left pages : Nat} {page : MessagePage}
    {rest : CatchUp} (h : Accounts ranges' left (pages + 1) rest)
    (hpage : page.data.map Message.place = (ranges pages).take 200) (hmore : 200 < (ranges pages).length)
    (hsplit : ∀ k, pages ≤ k → ranges k = (ranges pages).take 200 ++ ranges' k) :
    Accounts ranges (left + 1) pages ⟨page :: rest.pages, rest.outcome⟩ := by
  have hlength : ((ranges pages).take 200).length = 200 := by
    rw [List.length_take]
    omega
  constructor
  · obtain ⟨last, hle, hstart, hreturned⟩ := h.delivered
    refine ⟨last, by omega, ?_, ?_⟩
    · rw [delivered_cons, hpage, hsplit last (by omega)]
      exact (List.prefix_append_right_inj _).2 hstart
    · intro houtcome
      rw [delivered_cons, hpage, hsplit last (by omega)]
      exact congrArg _ (hreturned houtcome)
  · intro houtcome
    obtain ⟨hdelivered, hrange⟩ := h.limit houtcome
    constructor
    · rw [delivered_cons, hpage, List.length_append, hlength]
      change 200 + rest.delivered.length = _
      omega
    · intro _
      rcases Nat.eq_zero_or_pos left with hzero | hpos
      · subst hzero
        exact hmore
      · have hlt := hrange hpos
        have hlast : pages + (left + 1) - 1 = pages + 1 + left - 1 := by omega
        rw [hlast, hsplit _ (by omega), List.length_append, hlength]
        omega

/-- The messages of the conversation keep their places while the pages are read. -/
def Keeps (reader : Reader) (conversationId : String) (content content' : Content) : Prop :=
  places content reader.tenantId conversationId <+: places content' reader.tenantId conversationId

theorem keeps_le (hkeeps : ∀ k, Keeps reader conversationId (turn k).content (turn (k + 1)).content) {k k' : Nat}
    (hle : k ≤ k') : Keeps reader conversationId (turn k).content (turn k').content := by
  induction hle with
  | refl => exact List.prefix_refl _
  | step _ ih => exact List.IsPrefix.trans ih (hkeeps _)

theorem catchUpFrom_accounts (hkeeps : ∀ k, Keeps reader conversationId (turn k).content (turn (k + 1)).content)
    (left : Nat) : ∀ (pages : Nat) (cursor : Int) {after : Int}, scopedHistoryAfterSequence reader cursor = .ok after →
      Accounts (rangeAt conversationId reader beforeSequence turn after) left pages
        (catchUpFrom uuid conversationId reader beforeSequence turn left pages cursor) := by
  induction left with
  | zero =>
    intro pages cursor after _
    unfold catchUpFrom
    refine ⟨⟨pages, Nat.le_refl _, List.nil_prefix, ?_⟩, fun _ => ⟨rfl, fun h => absurd h (Nat.lt_irrefl 0)⟩⟩
    dsimp only
    split <;> simp
  | succ left ih =>
    intro pages cursor after hscoped
    have h := catchUpFrom_succ uuid conversationId reader beforeSequence turn left pages cursor
    generalize catchUpFrom uuid conversationId reader beforeSequence turn (left + 1) pages cursor = result at h ⊢
    cases h with
    | stopped => exact accounts_nil _ _ _ (by simp) (by simp)
    | failed => exact accounts_nil _ _ _ (by simp) (by simp)
    | last page after' hscoped' hpage hmore =>
      rw [hscoped] at hscoped'
      cases hscoped'
      rw [hpage.hasMore, decide_eq_false_iff_not] at hmore
      have hall : (CatchUp.mk [page] .returned).delivered =
          rangeAt conversationId reader beforeSequence turn after pages := by
        rw [delivered_cons, delivered_nil, List.append_nil, hpage.data, List.take_of_length_le (by omega)]
      refine ⟨⟨pages, Nat.le_refl _, ?_, fun _ => hall⟩, by simp⟩
      rw [hall]
    | more page after' place hscoped' hpage hmore hlast hnext =>
      rw [hscoped] at hscoped'
      cases hscoped'
      rw [hpage.hasMore, decide_eq_true_eq] at hmore
      refine (ih (pages + 1) (sequence place) hnext).page hpage.data hmore ?_
      intro k hle
      exact KeysetPages.after_grown (window_ascending _ _ _ _) ((keeps_le hkeeps hle).filter _) hlast

end Turns

end KComms.Feed
