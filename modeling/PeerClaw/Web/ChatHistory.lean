import PeerClaw.Agent.Isolation
import PeerClaw.Lib.Recent

/-!
# What of a conversation the model is shown

The turns of a chat session are kept in memory, and some of them in the session store too.  A prompt
begins with the turns that were said last, as many as there is room for: those in memory, and only
if there are none those of the store.

* `ChatPath` — the ways a turn can take; which of them read the store, and which write to it.
* `buildPromptWithHistoryPersistent`, `saveSessionTurnPersistent` — how a prompt is built, and how a
  turn is saved.
* `saved`, `sinceRestart` — what has been said, and what of it since the last restart.
* `Transparent` — the prompt is as if the memory were not there.
* `prompt_shows` — what a prompt shows, and when that is what has been said.
* `restart_hides` — it need not be.
-/

namespace PeerClaw
namespace Web

open Lib

/-- A message of a conversation in a browser. -/
structure ChatMessage where
  role : String
  content : String
  deriving DecidableEq

/-- How a chat request is answered. -/
inductive ChatKind
  | agentic
  | mcp
  | plain
  deriving DecidableEq

/-- Where a turn comes from: `api_chat`, `api_chat_stream` or `api_create_task`. -/
inductive ChatPath
  | chat (kind : ChatKind)
  | stream (kind : ChatKind)
  | task
  deriving DecidableEq

namespace ChatPath

/-- The prompt is built with the store at hand. -/
def consults : ChatPath → Bool
  | .chat _ => true
  | .stream _ => false
  | .task => false

/-- The turn is saved with the store at hand. -/
def persists : ChatPath → Bool
  | .chat .agentic => true
  | .chat .mcp => false
  | .chat .plain => false
  | .stream _ => true
  | .task => false

end ChatPath

/-- `MAX_HISTORY_CHARS` -/
def maxHistoryChars : ℕ := 6000

/-- `MAX_MSGS` -/
def maxMsgs : ℕ := 80

/-- How many turns are loaded from the store. -/
def maxStored : ℕ := 40

/-- The messages of every session that are in memory. -/
abbrev ChatSessions := FiniteMap String (List ChatMessage)

/-! ## Building a prompt -/

namespace ChatMessage

/-- A message in a prompt. -/
def line (m : ChatMessage) : String := s!"{m.role}: {m.content}\n"

/-- What it takes of the budget. -/
def size (m : ChatMessage) : ℕ := m.line.utf8ByteSize

end ChatMessage

/-- The loop over the messages, the last one first: each is put before what is there, until one does
not fit. -/
def historyPrefix : List ChatMessage → String → String
  | [], pre => pre
  | m :: ms, pre =>
      if pre.utf8ByteSize + m.line.utf8ByteSize > maxHistoryChars then pre
      else historyPrefix ms (m.line ++ pre)

/-- The turns of the store, if there is one and it can be read. -/
def loadFromStore (store : Option SessionStore) (readable : Bool) (sessionId : String) :
    List ChatMessage :=
  match store with
  | none => []
  | some store =>
      if readable then
        (store.loadSession sessionId maxStored).map fun t => ⟨t.role, t.content⟩
      else []

/-- The messages that the history is made from. -/
def historyMessages (sessions : ChatSessions) (store : Option SessionStore) (readable : Bool)
    (sessionId : String) : List ChatMessage :=
  match sessions.lookup sessionId with
  | some cached => if cached = [] then loadFromStore store readable sessionId else cached
  | none => loadFromStore store readable sessionId

def buildPromptWithHistoryPersistent (sessions : ChatSessions) (store : Option SessionStore)
    (readable : Bool) (sessionId : Option String) (userMessage : String) : String :=
  match sessionId with
  | none => userMessage
  | some sid =>
      let msgs := historyMessages sessions store readable sid
      if msgs = [] then userMessage
      else
        let pre := historyPrefix msgs.reverse ""
        if pre = "" then userMessage else s!"Previous turns:\n{pre}\nUser: {userMessage}"

/-- It is given no store. -/
def buildPromptWithHistory (sessions : ChatSessions) (sessionId : Option String)
    (userMessage : String) : String :=
  buildPromptWithHistoryPersistent sessions none true sessionId userMessage

/-! ## Saving a turn -/

/-- A turn is put behind the others of its session, and the oldest are dropped. -/
def cacheTurn (sessions : ChatSessions) (sessionId userMessage assistantText : String) :
    ChatSessions :=
  let entry := (sessions.lookup sessionId).getD [] ++
    [⟨"user", userMessage⟩, ⟨"assistant", assistantText⟩]
  sessions.insert sessionId
    (if entry.length > maxMsgs then entry.drop (entry.length - maxMsgs) else entry)

/-- One of its messages is written, at some time or not at all. -/
def persistMessage (store : SessionStore) (sessionId role content : String) :
    Option ℤ → SessionStore
  | some now => store.saveTurn now sessionId role content
  | none => store

def saveSessionTurnPersistent (sessions : ChatSessions) (store : Option SessionStore)
    (sessionId userMessage assistantText : String) (userAt assistantAt : Option ℤ) :
    ChatSessions × Option SessionStore :=
  (cacheTurn sessions sessionId userMessage assistantText,
    store.map fun store =>
      persistMessage (persistMessage store sessionId "user" userMessage userAt) sessionId
        "assistant" assistantText assistantAt)

/-- It is given no store. -/
def saveSessionTurn (sessions : ChatSessions) (sessionId userMessage assistantText : String) :
    ChatSessions :=
  (saveSessionTurnPersistent sessions none sessionId userMessage assistantText none none).1

/-! ## The server -/

/-- The memory, and the store if there is one. -/
structure ChatServer where
  chatSessions : ChatSessions
  sessionStore : Option SessionStore

/-- A turn of a session is saved; of each of its messages is said when it was written, if that went
well.  Or the server is restarted. -/
inductive ChatEvent
  | turn (path : ChatPath) (sessionId userMessage assistantText : String)
      (userAt assistantAt : Option ℤ)
  | restart

namespace ChatServer

/-- The server begins with nothing in memory. -/
def initial (store : Option SessionStore) : ChatServer := ⟨∅, store⟩

def step (st : ChatServer) : ChatEvent → ChatServer
  | .turn path sessionId userMessage assistantText userAt assistantAt =>
      if path.persists then
        let (sessions, store) := saveSessionTurnPersistent st.chatSessions st.sessionStore sessionId
          userMessage assistantText userAt assistantAt
        ⟨sessions, store⟩
      else ⟨saveSessionTurn st.chatSessions sessionId userMessage assistantText, st.sessionStore⟩
  | .restart => ⟨∅, st.sessionStore⟩

/-- The prompt for a message. -/
def prompt (st : ChatServer) (path : ChatPath) (readable : Bool) (sessionId : Option String)
    (userMessage : String) : String :=
  if path.consults then
    buildPromptWithHistoryPersistent st.chatSessions st.sessionStore readable sessionId userMessage
  else buildPromptWithHistory st.chatSessions sessionId userMessage

/-- The server after what has happened. -/
abbrev after (store : Option SessionStore) (events : List ChatEvent) : ChatServer :=
  Machine.run step (initial store) events

end ChatServer

namespace ChatEvent

/-- What is saved for a session. -/
def messages (sid : String) : ChatEvent → List ChatMessage
  | .turn _ sessionId userMessage assistantText _ _ =>
      if sessionId = sid then [⟨"user", userMessage⟩, ⟨"assistant", assistantText⟩] else []
  | .restart => []

def isRestart : ChatEvent → Bool
  | .restart => true
  | .turn .. => false

/-- What is asked of the store. -/
def ops : ChatEvent → List SessionStore.Op
  | .turn path sessionId userMessage assistantText userAt assistantAt =>
      if path.persists then
        (userAt.map fun now => .saveTurn now sessionId "user" userMessage).toList ++
          (assistantAt.map fun now => .saveTurn now sessionId "assistant" assistantText).toList
      else []
  | .restart => []

/-- A turn of the session is written to the store. -/
def Persisted (sid : String) : ChatEvent → Prop
  | .turn path sessionId _ _ userAt assistantAt =>
      sessionId = sid → path.persists = true ∧ userAt.isSome ∧ assistantAt.isSome
  | .restart => True

end ChatEvent

/-! ## What is asked of a prompt -/

/-- What has been saved for a session. -/
def saved (events : List ChatEvent) (sid : String) : List ChatMessage :=
  events.flatMap fun e => e.messages sid

/-- What has happened since the last restart. -/
def sinceRestart (events : List ChatEvent) : List ChatEvent := events.rtakeWhile fun e => !e.isRestart

/-- The lines of messages. -/
def render : List ChatMessage → String
  | [] => ""
  | m :: ms => m.line ++ render ms

/-- A prompt with messages before it. -/
def withHistory (kept : List ChatMessage) (userMessage : String) : String :=
  if kept = [] then userMessage
  else "Previous turns:\n" ++ render kept ++ "\nUser: " ++ userMessage

/-- A prompt shows the longest end of a conversation that fits. -/
def Shows (prompt : String) (conversation : List ChatMessage) (userMessage : String) : Prop :=
  ∃ kept, Recent.Longest ChatMessage.size maxHistoryChars conversation kept ∧
    prompt = withHistory kept userMessage

/-- A prompt shows what has been said, and what the store has of it. -/
structure Transparent (prompt : String) (events : List ChatEvent) (store : Option SessionStore)
    (sid userMessage : String) : Prop where
  said : Shows prompt (saved events sid) userMessage
  stored : Shows prompt (loadFromStore store true sid) userMessage

/-! ## Texts -/

namespace ChatMessage

theorem size_pos (m : ChatMessage) : 0 < m.size := by
  obtain ⟨front, hfront⟩ : ∃ front, m.line = front ++ "\n" := ⟨_, rfl⟩
  have hone : "\n".utf8ByteSize = 1 := rfl
  unfold size
  rw [hfront, String.utf8ByteSize_append, hone]
  exact Nat.succ_pos _

end ChatMessage

theorem render_append (xs ys : List ChatMessage) : render (xs ++ ys) = render xs ++ render ys := by
  induction xs with
  | nil => exact (String.empty_append).symm
  | cons m ms ih => rw [List.cons_append, render, render, ih, String.append_assoc]

theorem utf8ByteSize_render (ms : List ChatMessage) :
    (render ms).utf8ByteSize = Recent.total ChatMessage.size ms := by
  induction ms with
  | nil => rfl
  | cons m ms ih =>
      rw [render, String.utf8ByteSize_append, ih, Recent.total_cons]
      rfl

theorem historyPrefix_eq (ms : List ChatMessage) (pre : String)
    (h : pre.utf8ByteSize ≤ maxHistoryChars) : historyPrefix ms pre =
      render (Recent.collect ChatMessage.size (maxHistoryChars - pre.utf8ByteSize) ms).reverse ++
        pre := by
  induction ms generalizing pre with
  | nil => exact String.empty_append.symm
  | cons m ms ih =>
      unfold historyPrefix Recent.collect
      have hsize : m.size = m.line.utf8ByteSize := rfl
      by_cases hfull : pre.utf8ByteSize + m.line.utf8ByteSize > maxHistoryChars
      · rw [if_pos hfull, if_neg (by omega)]
        exact String.empty_append.symm
      · have hline : (m.line ++ pre).utf8ByteSize = m.line.utf8ByteSize + pre.utf8ByteSize :=
          String.utf8ByteSize_append
        rw [if_neg hfull, if_pos (by omega), ih _ (by omega), List.reverse_cons, render_append,
          hline, hsize]
        have hroom : maxHistoryChars - (m.line.utf8ByteSize + pre.utf8ByteSize) =
            maxHistoryChars - pre.utf8ByteSize - m.line.utf8ByteSize := by omega
        rw [hroom, render, render, String.append_empty, String.append_assoc]

theorem buildPrompt_eq (sessions : ChatSessions) (store : Option SessionStore) (readable : Bool)
    (sid userMessage : String) :
    buildPromptWithHistoryPersistent sessions store readable (some sid) userMessage =
      withHistory (Recent.recent ChatMessage.size maxHistoryChars
        (historyMessages sessions store readable sid)) userMessage := by
  unfold buildPromptWithHistoryPersistent
  dsimp only
  generalize historyMessages sessions store readable sid = msgs
  have hstart : historyPrefix msgs.reverse "" =
      render (Recent.recent ChatMessage.size maxHistoryChars msgs) := by
    rw [historyPrefix_eq _ _ (Nat.zero_le _), String.append_empty]
    rfl
  unfold withHistory
  rw [hstart]
  by_cases hmsgs : msgs = []
  · rw [if_pos hmsgs, hmsgs]
    exact (if_pos rfl).symm
  · rw [if_neg hmsgs]
    cases hkept : Recent.recent ChatMessage.size maxHistoryChars msgs with
    | nil => rfl
    | cons m ms =>
        have hne : render (m :: ms) ≠ "" := by
          intro hempty
          have hsize := utf8ByteSize_render (m :: ms)
          rw [hempty, Recent.total_cons] at hsize
          have hpos := m.size_pos
          have hzero : "".utf8ByteSize = 0 := rfl
          omega
        rw [if_neg hne, if_neg (by simp)]
        rfl

theorem utf8ByteSize_withHistory (kept : List ChatMessage) (userMessage : String) :
    (withHistory kept userMessage).utf8ByteSize =
      (if kept = [] then 0 else 23 + Recent.total ChatMessage.size kept) +
        userMessage.utf8ByteSize := by
  unfold withHistory
  split
  · rw [Nat.zero_add]
  · rw [String.utf8ByteSize_append, String.utf8ByteSize_append, String.utf8ByteSize_append,
      utf8ByteSize_render]
    have hhead : "Previous turns:\n".utf8ByteSize = 16 := by decide
    have hmiddle : "\nUser: ".utf8ByteSize = 7 := by decide
    omega

/-- Of the ends of one conversation, different ones make different prompts. -/
theorem withHistory_inj {conversation xs ys : List ChatMessage} (hxs : xs <:+ conversation)
    (hys : ys <:+ conversation) {userMessage : String}
    (h : withHistory xs userMessage = withHistory ys userMessage) : xs = ys := by
  have hof : ∀ {xs ys : List ChatMessage}, xs <:+ ys →
      withHistory xs userMessage = withHistory ys userMessage → xs = ys := by
    rintro xs ys ⟨front, rfl⟩ h
    have hsize := congrArg String.utf8ByteSize h
    rw [utf8ByteSize_withHistory, utf8ByteSize_withHistory] at hsize
    cases front with
    | nil => rfl
    | cons m front =>
        have hpos := m.size_pos
        rw [if_neg (by simp : ¬ m :: front ++ xs = []), Recent.total_append, Recent.total_cons]
          at hsize
        split at hsize
        · omega
        · omega
  rcases List.suffix_or_suffix_of_suffix hxs hys with hsuffix | hsuffix
  · exact hof hsuffix h
  · exact (hof hsuffix h.symm).symm

/-! ## The memory -/

theorem saved_append (xs ys : List ChatEvent) (sid : String) :
    saved (xs ++ ys) sid = saved xs sid ++ saved ys sid := List.flatMap_append

theorem sinceRestart_turn (events : List ChatEvent) {path : ChatPath} {s u a : String}
    {userAt assistantAt : Option ℤ} :
    sinceRestart (events ++ [.turn path s u a userAt assistantAt]) =
      sinceRestart events ++ [.turn path s u a userAt assistantAt] :=
  List.rtakeWhile_concat_pos _ _ _ rfl

theorem sinceRestart_restart (events : List ChatEvent) :
    sinceRestart (events ++ [.restart]) = [] :=
  List.rtakeWhile_concat_neg _ _ _ (by decide)

theorem saved_sinceRestart_suffix (events : List ChatEvent) (sid : String) :
    saved (sinceRestart events) sid <:+ saved events sid := by
  obtain ⟨before, hbefore⟩ := List.rtakeWhile_suffix (fun e => !ChatEvent.isRestart e) events
  refine ⟨saved before sid, ?_⟩
  rw [← saved_append]
  exact congrArg (saved · sid) hbefore

namespace ChatServer

variable {st : ChatServer}

theorem after_concat (store : Option SessionStore) (events : List ChatEvent) (e : ChatEvent) :
    after store (events ++ [e]) = step (after store events) e := by
  unfold after
  rw [Machine.run_append]
  rfl

theorem step_turn_chatSessions (path : ChatPath) (s u a : String) (userAt assistantAt : Option ℤ) :
    (step st (.turn path s u a userAt assistantAt)).chatSessions =
      cacheTurn st.chatSessions s u a := by
  unfold step
  dsimp only
  split <;> rfl

theorem cacheTurn_eq (sessions : ChatSessions) (s u a : String) :
    cacheTurn sessions s u a = sessions.insert s
      (((sessions.lookup s).getD [] ++
        ([⟨"user", u⟩, ⟨"assistant", a⟩] : List ChatMessage)).rtake maxMsgs) := by
  unfold cacheTurn
  dsimp only
  split
  · rfl
  · rename_i hle
    rw [Recent.rtake_eq_self (Nat.le_of_not_lt hle)]

/-- **The memory holds the last messages that have been saved since the restart.** -/
theorem lookup_after (store : Option SessionStore) (events : List ChatEvent) (sid : String) :
    (after store events).chatSessions.lookup sid =
      if saved (sinceRestart events) sid = [] then none
      else some ((saved (sinceRestart events) sid).rtake maxMsgs) := by
  induction events using List.reverseRecOn with
  | nil => rfl
  | append_singleton events e ih =>
      rw [after_concat]
      cases e with
      | restart =>
          rw [sinceRestart_restart]
          rfl
      | turn path s u a userAt assistantAt =>
          rw [step_turn_chatSessions, cacheTurn_eq, Finmap.lookup_insert_eq, sinceRestart_turn,
            saved_append]
          have hturn : saved [ChatEvent.turn path s u a userAt assistantAt] sid =
              if s = sid then [⟨"user", u⟩, ⟨"assistant", a⟩] else [] := List.append_nil _
          rw [hturn]
          by_cases hs : sid = s
          · subst hs
            rw [if_pos rfl, if_pos rfl, if_neg (by simp), ih]
            split
            · rename_i hnone
              rw [hnone]
              rfl
            · rw [Option.getD_some, Recent.rtake_append_rtake]
          · rw [if_neg hs, if_neg (Ne.symm hs), List.append_nil, ih]

/-! ## The store -/

theorem sessionStore_step (e : ChatEvent) : (step st e).sessionStore =
    st.sessionStore.map fun store => Machine.run SessionStore.step store e.ops := by
  cases e with
  | restart => exact Option.map_id'.symm
  | turn path s u a userAt assistantAt =>
      unfold step ChatEvent.ops
      dsimp only
      split
      · cases userAt with
        | none =>
            cases assistantAt with
            | none => rfl
            | some now => rfl
        | some now =>
            cases assistantAt with
            | none => rfl
            | some later => rfl
      · exact Option.map_id'.symm

theorem sessionStore_after (store : Option SessionStore) (events : List ChatEvent) :
    (after store events).sessionStore = store.map fun store =>
      Machine.run SessionStore.step store (events.flatMap ChatEvent.ops) := by
  induction events using List.reverseRecOn with
  | nil => exact Option.map_id'.symm
  | append_singleton events e ih =>
      rw [after_concat, sessionStore_step, ih, Option.map_map]
      congr 1
      funext store
      rw [List.flatMap_append, Machine.run_append, List.flatMap_singleton]
      rfl

end ChatServer

/-! ## What is written of a session -/

section Written

open SessionStore

/-- The turns of the store as messages. -/
def ofTurns (turns : List SessionTurn) : List ChatMessage := turns.map fun t => ⟨t.role, t.content⟩

variable {sid : String}

theorem ofTurns_rtake (turns : List SessionTurn) (n : ℕ) :
    ofTurns (turns.rtake n) = (ofTurns turns).rtake n := by
  unfold ofTurns List.rtake
  rw [List.map_drop, List.length_map]

theorem ofTurns_record (r : Recorded) (now : ℤ) (s role content : String) :
    ofTurns ((record r (.saveTurn now s role content)).2 sid) =
      ofTurns (r.2 sid) ++ if s = sid then [⟨role, content⟩] else [] := by
  have hturns : (record r (.saveTurn now s role content)).2 sid =
      if sid = s then r.2 s ++ [⟨role, content, now⟩] else r.2 sid := Function.update_apply ..
  rw [hturns]
  by_cases hs : s = sid
  · rw [hs, if_pos rfl, if_pos rfl]
    exact List.map_append
  · rw [if_neg (Ne.symm hs), if_neg hs, List.append_nil]

/-- A turn of the session is written in full, and nothing else is written for it. -/
theorem ofTurns_ops (r : Recorded) {e : ChatEvent} (h : e.Persisted sid) :
    ofTurns ((Machine.run record r e.ops).2 sid) = ofTurns (r.2 sid) ++ e.messages sid := by
  cases e with
  | restart => exact (List.append_nil _).symm
  | turn path s u a userAt assistantAt =>
      unfold ChatEvent.ops ChatEvent.messages
      dsimp only
      by_cases hs : s = sid
      · obtain ⟨hpath, huser, hassistant⟩ := h hs
        obtain ⟨now, rfl⟩ := Option.isSome_iff_exists.1 huser
        obtain ⟨later, rfl⟩ := Option.isSome_iff_exists.1 hassistant
        rw [if_pos hpath, if_pos hs]
        have hwritten : ofTurns ((record (record r (.saveTurn now s "user" u))
            (.saveTurn later s "assistant" a)).2 sid) =
              ofTurns (r.2 sid) ++ [⟨"user", u⟩] ++ [⟨"assistant", a⟩] := by
          rw [ofTurns_record, ofTurns_record, if_pos hs, if_pos hs]
        exact hwritten.trans (List.append_assoc ..)
      · rw [if_neg hs, List.append_nil]
        have hother : ∀ (r : Recorded) (at' : Option ℤ) (role content : String),
            ofTurns ((Machine.run record r
              (at'.map fun now => Op.saveTurn now s role content).toList).2 sid) =
                ofTurns (r.2 sid) := by
          intro r at' role content
          cases at' with
          | none => rfl
          | some now =>
              have hrecord : ofTurns ((record r (.saveTurn now s role content)).2 sid) = _ :=
                ofTurns_record r now s role content
              rw [if_neg hs, List.append_nil] at hrecord
              exact hrecord
        split
        · rw [Machine.run_append, hother, hother]
        · rfl

/-- **If every turn of a session is written, its turns are what has been saved.** -/
theorem ofTurns_run (r : Recorded) {events : List ChatEvent} (h : ∀ e ∈ events, e.Persisted sid) :
    ofTurns ((Machine.run record r (events.flatMap ChatEvent.ops)).2 sid) =
      ofTurns (r.2 sid) ++ saved events sid := by
  induction events generalizing r with
  | nil => exact (List.append_nil _).symm
  | cons e events ih =>
      have hevent : saved (e :: events) sid = e.messages sid ++ saved events sid := rfl
      rw [List.flatMap_cons, Machine.run_append, ih _ fun e' he' => h e' (List.mem_cons_of_mem _ he'),
        ofTurns_ops r (h e List.mem_cons_self), hevent, List.append_assoc]

theorem run_record_fst (r : Recorded) (ops : List Op) :
    (Machine.run record r ops).1 = Machine.run step r.1 ops := by
  induction ops generalizing r with
  | nil => rfl
  | cons op ops ih => exact ih _

/-- As long as sessions keep apart, what is loaded of one that is written in full are the last of its
messages. -/
theorem loadFromStore_after {events : List ChatEvent}
    (hsafe : Machine.Along record Safe (new, fun _ => []) (events.flatMap ChatEvent.ops))
    (h : ∀ e ∈ events, e.Persisted sid) :
    loadFromStore (ChatServer.after (some new) events).sessionStore true sid =
      (saved events sid).rtake maxStored := by
  have hfiled : Filed (Machine.run record (new, fun _ => []) (events.flatMap ChatEvent.ops)) :=
    Machine.run_of_inv (I := Filed)
      (fun r op hr hop => (isolated_step_iff hr op).2 ((isolated_step_iff hr op).1.2 hop))
      filed_new hsafe
  rw [ChatServer.sessionStore_after, Option.map_some, ← run_record_fst (new, fun _ => [])]
  unfold loadFromStore
  dsimp only
  rw [if_pos rfl, hfiled.isolated.loads]
  exact (ofTurns_rtake _ _).trans (congrArg (List.rtake · maxStored) (ofTurns_run _ h))

end Written

/-! ## What a prompt shows -/

section Prompts

open ChatServer

variable {events : List ChatEvent} {sid userMessage : String}

theorem shows_withHistory (conversation : List ChatMessage) (userMessage : String) :
    Shows (withHistory (Recent.recent ChatMessage.size maxHistoryChars conversation) userMessage)
      conversation userMessage :=
  ⟨_, Recent.longest_recent _ _ _, rfl⟩

/-- Of the ends of one conversation, a prompt shows only what it is made with. -/
theorem shows_iff {whole conversation kept : List ChatMessage} (hkept : kept <:+ whole)
    (h : conversation <:+ whole) : Shows (withHistory kept userMessage) conversation userMessage ↔
      kept = Recent.recent ChatMessage.size maxHistoryChars conversation := by
  constructor
  · rintro ⟨kept', hkept', hprompt⟩
    obtain rfl := Recent.longest_iff.1 hkept'
    exact withHistory_inj hkept (hkept'.suffix.trans h) hprompt
  · rintro rfl
    exact shows_withHistory _ _

theorem transparent_iff {store : Option SessionStore} {part : List ChatMessage}
    (h : part <:+ saved events sid)
    (hstored : loadFromStore store true sid = (saved events sid).rtake maxStored) :
    Transparent (withHistory (Recent.recent ChatMessage.size maxHistoryChars part) userMessage)
        events store sid userMessage ↔
      (Recent.recent ChatMessage.size maxHistoryChars (saved events sid)).length ≤ part.length ∧
        (Recent.recent ChatMessage.size maxHistoryChars (saved events sid)).length ≤ maxStored := by
  have hsuffix := Recent.rtake_suffix maxStored (saved events sid)
  have hkept := (Recent.longest_recent ChatMessage.size maxHistoryChars part).suffix
  have hlength := (Recent.longest_recent ChatMessage.size maxHistoryChars
    (saved events sid)).suffix.length_le
  have hsaid : Shows (withHistory (Recent.recent ChatMessage.size maxHistoryChars part) userMessage)
      (saved events sid) userMessage ↔
        (Recent.recent ChatMessage.size maxHistoryChars (saved events sid)).length ≤ part.length :=
    (shows_iff (hkept.trans h) List.suffix_rfl).trans (Recent.recent_eq_iff h)
  have hrtake : Recent.recent ChatMessage.size maxHistoryChars
      ((saved events sid).rtake maxStored) =
        Recent.recent ChatMessage.size maxHistoryChars (saved events sid) ↔ _ :=
    Recent.recent_eq_iff hsuffix
  rw [Recent.length_rtake, Nat.le_min] at hrtake
  constructor
  · rintro ⟨hall, hpart⟩
    have hle := hsaid.1 hall
    rw [hstored, shows_iff (hkept.trans h) hsuffix, (Recent.recent_eq_iff h).2 hle] at hpart
    exact ⟨hle, (hrtake.1 hpart.symm).1⟩
  · rintro ⟨hle, hfew⟩
    refine ⟨hsaid.2 hle, ?_⟩
    rw [hstored, shows_iff (hkept.trans h) hsuffix, (Recent.recent_eq_iff h).2 hle]
    exact (hrtake.2 ⟨hfew, hlength⟩).symm

/-- The messages that are there are those of the memory, if it has any. -/
theorem prompt_eq (store : Option SessionStore) (path : ChatPath) (readable : Bool) :
    (after store events).prompt path readable (some sid) userMessage =
      withHistory (Recent.recent ChatMessage.size maxHistoryChars
        (if saved (sinceRestart events) sid = [] then
          if path.consults then loadFromStore (after store events).sessionStore readable sid else []
        else (saved (sinceRestart events) sid).rtake maxMsgs)) userMessage := by
  have hmessages : ∀ store' readable',
      historyMessages (after store events).chatSessions store' readable' sid =
        if saved (sinceRestart events) sid = [] then loadFromStore store' readable' sid
        else (saved (sinceRestart events) sid).rtake maxMsgs := by
    intro store' readable'
    unfold historyMessages
    rw [lookup_after]
    by_cases hnone : saved (sinceRestart events) sid = []
    · rw [if_pos hnone, if_pos hnone]
    · rw [if_neg hnone, if_neg hnone]
      dsimp only
      rw [if_neg]
      intro hnil
      have hlength := congrArg List.length hnil
      rw [Recent.length_rtake, List.length_nil] at hlength
      have hpos := List.length_pos_iff.2 hnone
      have hroom : 0 < maxMsgs := by decide
      omega
  unfold ChatServer.prompt
  split
  · rw [buildPrompt_eq, hmessages]
  · unfold buildPromptWithHistory
    rw [buildPrompt_eq, hmessages]
    rfl

/-- **What a prompt shows.**  Of a session with turns since the last restart, the longest end that
fits of the last messages of these; of any other, where the store is at hand, that of the last
messages in the store.  If every turn of the session has been written, that is what has been said,
and what the store would have shown, exactly if it is no more than is loaded from the store and, if
anything has been said since the restart, no more than that. -/
theorem prompt_shows (store : Option SessionStore) (events : List ChatEvent) :
    (∀ path readable sid userMessage, saved (sinceRestart events) sid ≠ [] →
      Shows ((after store events).prompt path readable (some sid) userMessage)
        ((saved (sinceRestart events) sid).rtake maxMsgs) userMessage) ∧
    (∀ path sid userMessage, saved (sinceRestart events) sid = [] → path.consults = true →
      Shows ((after store events).prompt path true (some sid) userMessage)
        (loadFromStore (after store events).sessionStore true sid) userMessage) ∧
    (store = some .new →
      Machine.Along SessionStore.record SessionStore.Safe (.new, fun _ => [])
        (events.flatMap ChatEvent.ops) →
      ∀ path sid userMessage, (∀ e ∈ events, e.Persisted sid) →
        (saved (sinceRestart events) sid = [] → path.consults = true) →
        ∃ kept, Recent.Longest ChatMessage.size maxHistoryChars (saved events sid) kept ∧
          (Transparent ((after store events).prompt path true (some sid) userMessage) events
              (after store events).sessionStore sid userMessage ↔
            kept.length ≤ maxStored ∧ (saved (sinceRestart events) sid ≠ [] →
              kept.length ≤ (saved (sinceRestart events) sid).length))) := by
  refine ⟨?_, ?_, ?_⟩
  · intro path readable sid userMessage hsome
    rw [prompt_eq, if_neg hsome]
    exact shows_withHistory _ _
  · intro path sid userMessage hnone hconsults
    rw [prompt_eq, if_pos hnone, if_pos hconsults]
    exact shows_withHistory _ _
  · rintro rfl hsafe path sid userMessage hpersisted hconsults
    refine ⟨_, Recent.longest_recent _ _ _, ?_⟩
    have hstored := loadFromStore_after hsafe hpersisted
    have hlength := (Recent.longest_recent ChatMessage.size maxHistoryChars
      (saved events sid)).suffix.length_le
    have hroom : maxStored ≤ maxMsgs := by decide
    rw [prompt_eq]
    by_cases hnone : saved (sinceRestart events) sid = []
    · rw [if_pos hnone, if_pos (hconsults hnone), hstored,
        transparent_iff (Recent.rtake_suffix _ _) hstored, Recent.length_rtake]
      constructor
      · rintro ⟨-, hfew⟩
        exact ⟨hfew, fun hsome => absurd hnone hsome⟩
      · rintro ⟨hfew, -⟩
        exact ⟨by omega, hfew⟩
    · have hpart : (saved (sinceRestart events) sid).rtake maxMsgs <:+ saved events sid :=
        (Recent.rtake_suffix _ _).trans (saved_sinceRestart_suffix events sid)
      rw [if_neg hnone, transparent_iff hpart hstored, Recent.length_rtake]
      constructor
      · rintro ⟨hle, hfew⟩
        exact ⟨hfew, fun _ => by omega⟩
      · rintro ⟨hfew, hsince⟩
        have hle := hsince hnone
        exact ⟨by omega, hfew⟩

/-- A turn that has been written, and a restart. -/
def written : List ChatEvent :=
  [.turn (.chat .agentic) "s" "hi" "hello" (some 0) (some 0), .restart]

theorem transparent_written : Transparent
    ((after (some .new) written).prompt (.chat .agentic) true (some "s") "well?") written
    (after (some .new) written).sessionStore "s" "well?" := by
  have hapart : ∀ t, ¬ ContinuesId t "s" := fun t => SessionStore.not_continuesId (by decide)
  obtain ⟨kept, hkept, hiff⟩ := (prompt_shows (some .new) written).2.2 rfl
    ⟨⟨by decide, hapart⟩, ⟨by decide, hapart⟩, trivial⟩ (.chat .agentic) "s" "well?"
    (by
      intro e he
      rcases List.mem_cons.1 he with rfl | he
      · exact fun _ => ⟨rfl, rfl, rfl⟩
      · obtain rfl := List.mem_singleton.1 he
        exact trivial) fun _ => rfl
  obtain rfl := Recent.longest_iff.1 hkept
  exact hiff.2 ⟨by decide, fun hsome => absurd rfl hsome⟩

/-- Of two turns that have been written, the server is restarted between them. -/
def restarted : List ChatEvent :=
  [.turn (.chat .agentic) "s" "hi" "hello" (some 0) (some 0), .restart,
    .turn (.chat .agentic) "s" "so" "yes" (some 1) (some 1)]

/-- **What was said before a restart is not shown after the first turn.** -/
theorem restart_hides : ¬ Transparent
    ((after (some .new) restarted).prompt (.chat .agentic) true (some "s") "well?") restarted
    (after (some .new) restarted).sessionStore "s" "well?" := by
  intro h
  obtain ⟨kept, hkept, hprompt⟩ := h.said
  obtain rfl := Recent.longest_iff.1 hkept
  exact absurd hprompt (by decide)

end Prompts

end Web
end PeerClaw
