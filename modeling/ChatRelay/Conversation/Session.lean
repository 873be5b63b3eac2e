import ChatRelay.Conversation.Item
import ChatRelay.Log

/-!
# Sessions

A session is one conversation: its items so far, the id of its latest reply and the tokens it has
cost. A `SessionStore` holds sessions by their ids, and knows for each recorded reply the session
that it belongs to. Beside each operation stands what the log says of it.

`record` takes in a whole exchange, the input and the output of one reply.
-/

namespace ChatRelay

/-- One conversation. -/
structure Session where
  id : Bytes
  items : List Item := []
  /-- The id of the latest reply; empty before the first. -/
  lastReplyId : Bytes := []
  /-- A 64-bit word. -/
  totalTokens : Int := 0
  deriving DecidableEq

/-- The session with one more item that has cost some tokens. -/
def Session.append (session : Session) (item : Item) (tokens : Int) : Session :=
  { session with
    items := session.items ++ [item]
    totalTokens := Word.toInt64 (session.totalTokens + tokens) }

structure SessionStore where
  /-- The sessions by their ids. -/
  sessions : Table Bytes Session := []
  /-- The session id for each recorded reply id. -/
  owners : Table Bytes Bytes := []
  deriving DecidableEq

namespace SessionStore

/-- The name under which the store writes to the log. -/
def component : Bytes := "session"

/-- How many sessions there are. -/
def size (store : SessionStore) : Nat :=
  store.sessions.length

/-! ## 1. Looking up -/

/-- The session that a reply belongs to. No session belongs to the empty id. -/
def find? (store : SessionStore) (replyId : Bytes) : Option Session :=
  if replyId.isEmpty then none
  else (Table.find? store.owners replyId).bind (Table.find? store.sessions)

/-- The items of the conversation up to now, empty when the reply is not known. -/
def history (store : SessionStore) (replyId : Bytes) : List Item :=
  ((store.find? replyId).map Session.items).getD []

def historyEntries (store : SessionStore) (replyId : Bytes) : List LogEntry :=
  if replyId.isEmpty || Table.contains store.owners replyId then []
  else [.debug component (Bytes.ofString "no session for previous response " ++ replyId)]

/-! ## 2. Changing -/

/-- The session that continues a reply, and the store with it: the one that the reply belongs to, or
    a new one under the fresh id. -/
def resume (store : SessionStore) (replyId freshId : Bytes) : Session × SessionStore :=
  match store.find? replyId with
  | some session => (session, store)
  | none =>
    let session : Session := { id := freshId }
    (session, { store with sessions := Table.insert store.sessions freshId session })

def resumeEntries (store : SessionStore) (replyId freshId : Bytes) : List LogEntry :=
  if (store.find? replyId).isSome then []
  else [.debug component (Bytes.ofString "created session " ++ freshId)]

/-- The store with one more item in a session; nothing happens to a session that is not there. -/
def append (store : SessionStore) (sessionId : Bytes) (item : Item) (tokens : Int) :
    SessionStore :=
  match Table.find? store.sessions sessionId with
  | some session =>
    { store with sessions := Table.insert store.sessions sessionId (session.append item tokens) }
  | none => store

/-- The store with a reply as the latest of a session. -/
def recordReply (store : SessionStore) (sessionId replyId : Bytes) : SessionStore :=
  match Table.find? store.sessions sessionId with
  | some session =>
    { sessions := Table.insert store.sessions sessionId { session with lastReplyId := replyId }
      owners := Table.insert store.owners replyId sessionId }
  | none => store

/-- What the log says when a session that an operation names is not there. -/
def missingEntries (store : SessionStore) (sessionId operation : Bytes) : List LogEntry :=
  if Table.contains store.sessions sessionId then []
  else [.warning component (operation ++ Bytes.ofString " unknown session " ++ sessionId)]

def appendEntries (store : SessionStore) (sessionId : Bytes) : List LogEntry :=
  missingEntries store sessionId "append to"

def recordReplyEntries (store : SessionStore) (sessionId : Bytes) : List LogEntry :=
  missingEntries store sessionId "response recorded for"

/-! ## 3. Exchanges -/

/-- One exchange of a conversation, once the reply is there. -/
structure Exchange where
  input : List Item
  output : List Item
  /-- What the reply has cost. -/
  tokens : Int
  /-- The id of the reply; without one nothing can continue it. -/
  replyId : Bytes

/-- The items of an exchange with the tokens that each is charged with: an input item with none, an
    output item with those of the whole reply. -/
def Exchange.charges (e : Exchange) : List (Item × Int) :=
  e.input.map (·, 0) ++ e.output.map (·, e.tokens)

/-- The store with an exchange at the end of a session. -/
def record (store : SessionStore) (sessionId : Bytes) (e : Exchange) : SessionStore :=
  let store := e.charges.foldl (fun store c => store.append sessionId c.1 c.2) store
  if e.replyId.isEmpty then store else store.recordReply sessionId e.replyId

end SessionStore

end ChatRelay
