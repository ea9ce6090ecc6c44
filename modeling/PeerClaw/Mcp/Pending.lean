import PeerClaw.Lib.FiniteMap
import PeerClaw.Lib.Machine
import PeerClaw.Value

/-!
# What is pending

When nobody can go on by itself, the map should hold the numbers of the requests that still wait,
and no other; after the end of the output of the server nobody should wait.  A request that gives
up leaves its sender in the map, and the reader leaves the senders there when it ends.

* `Exact` — the senders in the map are those of the requests to which nothing has come.
* `settled_of_calm` — in every run in which no request gives up and the reader ends while nobody
  waits, the map holds what it should, and each answer has the number of its request.
* `left_behind` — a request that has timed out, and one that waits after the end.
-/

/-!
## The client of an MCP server

Requests share a map of pending requests with the task that reads the answers of the server.  A
request takes a number, puts the sender of a channel into the map under it, hands its message to
the writer, and waits for the channel for 30 seconds; the reader takes a sender out of the map when
an answer with its number comes.

* `McpConnection.step` — the next thing that a request, the reader or the writer does.
-/

namespace PeerClaw

open Lib

/-- `McpError`, without its data. -/
structure McpError where
  code : Int32
  message : String
  deriving DecidableEq

/-- `McpResponse`. -/
structure McpResponse where
  id : UInt64
  result : Option Value
  error : Option McpError

/-- What is in the channel of a request. -/
inductive Mail
  | empty
  | response (r : McpResponse)
  /-- The sender is gone. -/
  | closed

/-- Where a request stands. -/
inductive Caller
  | begun
  /-- It has its number. -/
  | numbered (id : UInt64)
  /-- Its sender is in the map. -/
  | inserted (id : UInt64) (mail : Mail)
  /-- Its message is with the writer. -/
  | waiting (id : UInt64) (mail : Mail)
  | done (id : UInt64) (result : Except String McpResponse)

/-- Something arrives in a channel, unless nobody holds its other end. -/
def Caller.receive (mail : Mail) : Caller → Caller
  | .inserted id _ => .inserted id mail
  | .waiting id _ => .waiting id mail
  | c => c

/-- Where the task that reads is in its loop. -/
inductive Reader
  /-- Before it looks whether the client still runs. -/
  | looking
  | reading
  | ended
  deriving DecidableEq

/-- `McpClientInner`, with the requests, whether the task that writes still runs, and where the
task that reads is. -/
structure McpConnection where
  requestId : UInt64
  /-- The channel of each pending request, by the place of the request. -/
  pending : FiniteMap UInt64 ℕ
  running : Bool
  callers : List Caller
  writer : Bool
  reader : Reader

namespace McpConnection

/-- Right after the two tasks have been spawned. -/
def start : McpConnection := ⟨1, ∅, true, [], true, .looking⟩

/-- What a request makes of the answer that it gets. -/
def answered (r : McpResponse) : Except String McpResponse :=
  match r.error with
  | some e => .error ("MCP error " ++ toString e.code.toInt ++ ": " ++ e.message)
  | none => .ok r

/-- Something arrives in the channel of a request. -/
def post (callers : List Caller) (k : ℕ) (mail : Mail) : List Caller :=
  match callers[k]? with
  | some c => callers.set k (Caller.receive mail c)
  | none => callers

/-- The sender of a request is put into the map; a sender that was there is dropped. -/
def insert (s : McpConnection) (k : ℕ) (id : UInt64) : McpConnection :=
  let callers :=
    match s.pending.lookup id with
    | some old => post s.callers old .closed
    | none => s.callers
  { s with pending := s.pending.insert id k, callers := callers.set k (.inserted id .empty) }

/-- The reader looks whether the client still runs. -/
def look (s : McpConnection) : McpConnection :=
  if s.running then { s with reader := .reading } else { s with reader := .ended }

/-- The reader has read a line: an answer whose number is pending goes to its request. -/
def readLine (s : McpConnection) (line : Option McpResponse) : McpConnection :=
  match line with
  | none => { s with reader := .looking }
  | some r =>
      match s.pending.lookup r.id with
      | none => { s with reader := .looking }
      | some k =>
          { s with
            pending := s.pending.erase r.id
            callers := post s.callers k (.response r)
            reader := .looking }

/-- A request goes on: it takes a number, inserts its sender, sends its message — for which there
may be no room yet —, or looks into its channel. -/
def proceed (s : McpConnection) (k : ℕ) (room : Bool) : McpConnection :=
  match s.callers[k]? with
  | some .begun =>
      { s with
        requestId := s.requestId + 1
        callers := s.callers.set k (.numbered s.requestId) }
  | some (.numbered id) => s.insert k id
  | some (.inserted id mail) =>
      if !s.writer then
        { s with callers := s.callers.set k (.done id (.error "channel closed")) }
      else if room then { s with callers := s.callers.set k (.waiting id mail) }
      else s
  | some (.waiting id mail) =>
      match mail with
      | .empty => s
      | .response r => { s with callers := s.callers.set k (.done id (answered r)) }
      | .closed =>
          { s with callers := s.callers.set k (.done id (.error "Response channel closed")) }
  | some (.done _ _) | none => s

/-- The 30 seconds of a request are over; an answer that has come is taken all the same. -/
def expire (s : McpConnection) (k : ℕ) : McpConnection :=
  match s.callers[k]? with
  | some (.waiting id .empty) =>
      { s with callers := s.callers.set k (.done id (.error "Request timeout")) }
  | some (.waiting _ _) => s.proceed k true
  | _ => s

/-- What can happen. -/
inductive Event
  | request
  | proceed (k : ℕ) (room : Bool)
  | expire (k : ℕ)
  | look
  /-- A line, and the response that it is, if it is one. -/
  | line (response : Option McpResponse)
  /-- The end of the output of the server, or an error. -/
  | eof
  /-- The writer cannot write. -/
  | writeFails
  /-- `McpClient::disconnect`. -/
  | disconnect

/-- The connection after something has happened. -/
def step (s : McpConnection) : Event → McpConnection
  | .request => { s with callers := s.callers ++ [.begun] }
  | .proceed k room => s.proceed k room
  | .expire k => s.expire k
  | .look => if s.reader = .looking then s.look else s
  | .line response => if s.reader = .reading then s.readLine response else s
  | .eof => if s.reader = .reading then { s with reader := .ended, running := false } else s
  | .writeFails => { s with writer := false, running := false }
  | .disconnect => { s with running := false }

end McpConnection
end PeerClaw

namespace PeerClaw

open Lib Lib.Machine

/-! ## What should hold -/

/-- It has put its sender into the map under this number, and has not returned. -/
def Caller.Waits (id : UInt64) : Caller → Prop
  | .inserted i _ | .waiting i _ => i = id
  | .begun | .numbered _ | .done _ _ => False

/-- It has sent its message, and nothing has come. -/
def Caller.Listens : Caller → Prop
  | .waiting _ .empty => True
  | _ => False

/-- Its sender is in the map, and nothing has come. -/
def Caller.Open (id : UInt64) : Caller → Prop
  | .inserted i .empty | .waiting i .empty => i = id
  | _ => False

/-- It has returned, or waits for somebody else. -/
def Caller.Rests : Caller → Prop
  | .inserted _ .empty | .waiting _ .empty | .done _ _ => True
  | _ => False

/-- An answer that it has got has its number. -/
def Caller.Own : Caller → Prop
  | .inserted id (.response r) | .waiting id (.response r) | .done id (.ok r) => r.id = id
  | _ => True

theorem Caller.Open.listed {c : Caller} {id : UInt64} (h : c.Open id) : c = .inserted id .empty ∨ c = .waiting id .empty := by
  match c, h with
  | .inserted _ .empty, h => exact .inl (by rw [show _ = id from h])
  | .waiting _ .empty, h => exact .inr (by rw [show _ = id from h])

theorem Caller.Open.unique {c : Caller} {id id' : UInt64} (h : c.Open id) (h' : c.Open id') : id = id' := by
  rcases h.listed with rfl | rfl
  · exact h'
  · exact h'

namespace McpConnection

/-- A point at which every request rests. -/
def Quiet (s : McpConnection) : Prop := ∀ c ∈ s.callers, c.Rests

/-- What should hold of a connection. -/
structure Settled (s : McpConnection) : Prop where
  own : ∀ id r, .done id (.ok r) ∈ s.callers → r.id = id
  pending : s.Quiet → ∀ id, id ∈ s.pending ↔ ∃ c ∈ s.callers, c.Waits id
  ended : s.Quiet → s.reader = .ended → ∀ c ∈ s.callers, ¬ c.Listens

/-- The events after which all is well: no request gives up — because its time is over, or because
the writer is gone —, none starts to wait for a reader that has ended, and the reader does not end
while somebody waits. -/
def Calm (s : McpConnection) : Event → Prop
  | .proceed k room => ∀ id, s.callers[k]? = some (.inserted id .empty) →
      s.writer = true ∧ (room = true → s.reader ≠ .ended)
  | .expire k => ∀ id, s.callers[k]? ≠ some (.waiting id .empty)
  | .look => s.reader = .looking → s.running = false → ∀ c ∈ s.callers, ¬ c.Listens
  | .eof => s.reader = .reading → ∀ c ∈ s.callers, ¬ c.Listens
  | .request | .line _ | .writeFails | .disconnect => True

/-! ## The senders in the map -/

/-- The senders in the map are those of the requests to which nothing has come. -/
def Exact (pending : FiniteMap UInt64 ℕ) (callers : List Caller) : Prop :=
  ∀ id k, pending.lookup id = some k ↔ ∃ c, callers[k]? = some c ∧ c.Open id

/-- What every calm event keeps. -/
structure Kept (s : McpConnection) : Prop where
  exact : Exact s.pending s.callers
  own : ∀ c ∈ s.callers, c.Own
  ended : s.reader = .ended → ∀ c ∈ s.callers, ¬ c.Listens

section Senders

variable {pending : FiniteMap UInt64 ℕ} {callers : List Caller} {k : ℕ} {c c' : Caller}
  {id : UInt64} {mail : Mail}

theorem exists_set (hc : callers[k]? = some c) (P : Caller → Prop) (j : ℕ) :
    (∃ x, (callers.set k c')[j]? = some x ∧ P x) ↔
      if j = k then P c' else ∃ x, callers[j]? = some x ∧ P x := by
  obtain ⟨hk, -⟩ := List.getElem?_eq_some_iff.1 hc
  by_cases hj : j = k
  · subst hj
    rw [if_pos rfl, List.getElem?_set_self hk]
    simp
  · rw [if_neg hj, List.getElem?_set_ne (Ne.symm hj)]

theorem Exact.set (h : Exact pending callers) (hc : callers[k]? = some c)
    (hopen : ∀ id, c'.Open id ↔ c.Open id) : Exact pending (callers.set k c') := by
  intro id j
  rw [exists_set hc, h id j]
  by_cases hj : j = k
  · subst hj
    rw [if_pos rfl, hopen id]
    simp [hc]
  · rw [if_neg hj]

theorem Exact.close (h : Exact pending callers) (hc : callers[k]? = some c) (hopen : c.Open id)
    (hclosed : ∀ id, ¬ c'.Open id) : Exact (pending.erase id) (callers.set k c') := by
  have hk : pending.lookup id = some k := (h id k).2 ⟨c, hc, hopen⟩
  intro i j
  rw [exists_set hc, Finmap.lookup_erase_eq]
  by_cases hj : j = k
  · subst hj
    rw [if_pos rfl]
    refine iff_of_false ?_ (hclosed i)
    intro hi
    by_cases hid : i = id
    · rw [if_pos hid] at hi
      cases hi
    · rw [if_neg hid] at hi
      obtain ⟨x, hx, hix⟩ := (h i j).1 hi
      cases hc.symm.trans hx
      exact hid (hix.unique hopen)
  · rw [if_neg hj]
    by_cases hid : i = id
    · subst hid
      rw [if_pos rfl, ← h i j, hk]
      exact iff_of_false (fun hi => nomatch hi) fun hi => hj (Option.some.inj hi).symm
    · rw [if_neg hid]
      exact h i j

theorem Exact.open (h : Exact pending callers) (hc : callers[k]? = some c)
    (hclosed : ∀ id, ¬ c.Open id) (hfree : pending.lookup id = none) :
    Exact (pending.insert id k) (callers.set k (.inserted id .empty)) := by
  intro i j
  rw [exists_set hc, Finmap.lookup_insert_eq]
  by_cases hid : i = id
  · subst hid
    rw [if_pos rfl]
    by_cases hj : j = k
    · subst hj
      rw [if_pos rfl]
      exact iff_of_true rfl rfl
    · rw [if_neg hj, ← h i j, hfree]
      exact iff_of_false (fun hi => hj (Option.some.inj hi).symm) fun hi => nomatch hi
  · rw [if_neg hid]
    by_cases hj : j = k
    · subst hj
      rw [if_pos rfl, h i j]
      refine iff_of_false ?_ fun hi : id = i => hid hi.symm
      rintro ⟨x, hx, hix⟩
      cases hc.symm.trans hx
      exact hclosed i hix
    · rw [if_neg hj]
      exact h i j

theorem Exact.post (h : Exact pending callers) (hk : pending.lookup id = some k)
    (hmail : mail ≠ .empty) : Exact (pending.erase id) (post callers k mail) := by
  obtain ⟨c, hc, hopen⟩ := (h id k).1 hk
  have hpost : McpConnection.post callers k mail = callers.set k (c.receive mail) := by
    simp only [McpConnection.post, hc]
  rw [hpost]
  refine h.close hc hopen fun i hi => ?_
  rcases hopen.listed with rfl | rfl <;> rcases hi.listed with heq | heq <;> cases heq <;>
    exact hmail rfl

theorem forall_post {P : Caller → Prop} (h : Exact pending callers)
    (hk : pending.lookup id = some k) (hall : ∀ c ∈ callers, P c)
    (hnew : P (.inserted id mail) ∧ P (.waiting id mail)) : ∀ c ∈ post callers k mail, P c := by
  obtain ⟨c, hc, hopen⟩ := (h id k).1 hk
  simp only [McpConnection.post, hc]
  intro x hx
  rcases List.mem_or_eq_of_mem_set hx with hx | rfl
  · exact hall x hx
  · rcases hopen.listed with rfl | rfl
    · exact hnew.1
    · exact hnew.2

end Senders

/-! ## What one event keeps -/

section Steps

variable {s : McpConnection} {k : ℕ} {c c' : Caller} {id : UInt64}

theorem Kept.set (h : s.Kept) (hc : s.callers[k]? = some c) (hopen : ∀ id, c'.Open id ↔ c.Open id)
    (hown : c'.Own) (hlistens : s.reader = .ended → ¬ c'.Listens) :
    Kept { s with callers := s.callers.set k c' } := by
  refine ⟨h.exact.set hc hopen, fun x hx => ?_, fun hended x hx => ?_⟩
  · rcases List.mem_or_eq_of_mem_set hx with hx | rfl
    · exact h.own x hx
    · exact hown
  · rcases List.mem_or_eq_of_mem_set hx with hx | rfl
    · exact h.ended hended x hx
    · exact hlistens hended

theorem kept_insert (h : s.Kept) (hc : s.callers[k]? = some (.numbered id)) :
    (s.insert k id).Kept := by
  -- where the request stands once the channel of an older one with the same number is closed
  have hinsert : ∀ {pending : FiniteMap UInt64 ℕ} {callers : List Caller} {c : Caller},
      Exact pending callers → pending.lookup id = none → s.pending.insert id k = pending.insert id k →
      callers[k]? = some c → (∀ id, ¬ c.Open id) → (∀ x ∈ callers, x.Own) →
      (s.reader = .ended → ∀ x ∈ callers, ¬ x.Listens) →
      Kept { s with
        pending := s.pending.insert id k, callers := callers.set k (.inserted id .empty) } := by
    intro pending callers c hexact hfree heq hc hclosed hown hended
    refine ⟨?_, fun x hx => ?_, fun hreader x hx => ?_⟩
    · show Exact (s.pending.insert id k) _
      rw [heq]
      exact hexact.open hc hclosed hfree
    · rcases List.mem_or_eq_of_mem_set hx with hx | rfl
      · exact hown x hx
      · trivial
    · rcases List.mem_or_eq_of_mem_set hx with hx | rfl
      · exact hended hreader x hx
      · exact not_false
  unfold insert
  cases hold : s.pending.lookup id with
  | none => exact hinsert h.exact hold rfl hc (fun _ => not_false) h.own h.ended
  | some old =>
      obtain ⟨c, hcold, hopen⟩ := (h.exact id old).1 hold
      have hne : old ≠ k := by
        rintro rfl
        cases hc.symm.trans hcold
        exact hopen
      have hstands : (post s.callers old .closed)[k]? = some (.numbered id) := by
        simp only [post, hcold]
        rw [List.getElem?_set_ne hne, hc]
      have hmap : s.pending.insert id k = (s.pending.erase id).insert id k := by
        refine Finmap.ext_lookup fun j => ?_
        rw [Finmap.lookup_insert_eq, Finmap.lookup_insert_eq, Finmap.lookup_erase_eq]
        by_cases hj : j = id <;> simp [hj]
      refine hinsert (h.exact.post hold (fun heq => nomatch heq)) (Finmap.lookup_erase _ _) hmap
        hstands (fun _ => not_false) (forall_post h.exact hold h.own ⟨trivial, trivial⟩) ?_
      exact fun hreader => forall_post h.exact hold (h.ended hreader) ⟨not_false, not_false⟩

theorem kept_readLine (h : s.Kept) (line : Option McpResponse) : (s.readLine line).Kept := by
  have hlooking : Kept { s with reader := .looking } :=
    ⟨h.exact, h.own, fun heq => nomatch heq⟩
  cases line with
  | none => exact hlooking
  | some r =>
      unfold readLine
      cases hk : s.pending.lookup r.id with
      | none => simpa only [hk] using hlooking
      | some k =>
          simp only [hk]
          exact ⟨h.exact.post hk (fun heq => nomatch heq), forall_post h.exact hk h.own ⟨rfl, rfl⟩,
            fun heq => nomatch heq⟩

theorem own_answered {r : McpResponse} (h : r.id = id) : (Caller.done id (answered r)).Own := by
  unfold answered
  cases r.error with
  | none => exact h
  | some e => trivial

theorem kept_proceed (h : s.Kept) {room : Bool} (hcalm : s.Calm (.proceed k room)) :
    (s.proceed k room).Kept := by
  unfold proceed
  cases hc : s.callers[k]? with
  | none => exact h
  | some c =>
      have hown : c.Own := h.own c (List.mem_of_getElem? hc)
      cases c with
      | begun =>
          have hset : Kept { s with callers := s.callers.set k (.numbered s.requestId) } :=
            h.set hc (fun _ => Iff.rfl) trivial fun _ => not_false
          exact ⟨hset.exact, hset.own, hset.ended⟩
      | numbered id => exact kept_insert h hc
      | inserted id mail =>
          -- a request that gives up must not be open
          have hgives : s.writer = true ∨ ∀ i, ¬ (Caller.inserted id mail).Open i := by
            cases mail with
            | empty => exact .inl (hcalm id hc).1
            | response r => exact .inr fun _ => not_false
            | closed => exact .inr fun _ => not_false
          have hsends : room = true → s.reader = .ended → ¬ (Caller.waiting id mail).Listens := by
            intro hroom hended
            cases mail with
            | empty => exact absurd hended ((hcalm id hc).2 hroom)
            | response r => exact not_false
            | closed => exact not_false
          simp only
          by_cases hwriter : s.writer = true
          · rw [if_neg (by simp [hwriter])]
            by_cases hroom : room = true
            · rw [if_pos hroom]
              refine h.set hc (fun i => ?_) ?_ (hsends hroom)
              · cases mail <;> rfl
              · cases mail with
                | empty => trivial
                | response r => exact hown
                | closed => trivial
            · rw [if_neg hroom]
              exact h
          · rw [if_pos (by simp [hwriter])]
            have hopen : ∀ i, (Caller.done id (.error "channel closed")).Open i ↔
                (Caller.inserted id mail).Open i :=
              fun i => iff_of_false not_false (hgives.resolve_left hwriter i)
            exact h.set hc hopen trivial fun _ => not_false
      | waiting id mail =>
          cases mail with
          | empty => exact h
          | response r =>
              exact h.set hc (fun _ => Iff.rfl) (own_answered hown) fun _ => not_false
          | closed => exact h.set hc (fun _ => Iff.rfl) trivial fun _ => not_false
      | done id result => exact h

theorem kept_expire (h : s.Kept) (hcalm : s.Calm (.expire k)) : (s.expire k).Kept := by
  unfold expire
  cases hc : s.callers[k]? with
  | none => exact h
  | some c =>
      have hproceed : ∀ id mail, c = .waiting id mail → (s.proceed k true).Kept := by
        rintro id mail rfl
        refine kept_proceed h fun id' hid' => ?_
        cases hc.symm.trans hid'
      cases c with
      | waiting id mail =>
          cases mail with
          | empty => exact absurd hc (hcalm id)
          | response r => exact hproceed id _ rfl
          | closed => exact hproceed id _ rfl
      | begun => exact h
      | numbered id => exact h
      | inserted id mail => exact h
      | done id result => exact h

/-- **What a calm event keeps.** -/
theorem kept_step (s : McpConnection) (e : Event) (h : s.Kept) (hcalm : s.Calm e) :
    (s.step e).Kept := by
  cases e with
  | request =>
      refine ⟨fun id k => ?_, fun c hc => ?_, fun hended c hc => ?_⟩
      · rw [step, h.exact id k]
        constructor
        · rintro ⟨c, hc, hopen⟩
          obtain ⟨hk, -⟩ := List.getElem?_eq_some_iff.1 hc
          exact ⟨c, by rw [List.getElem?_append_left hk, hc], hopen⟩
        · rintro ⟨c, hc, hopen⟩
          by_cases hk : k < s.callers.length
          · rw [List.getElem?_append_left hk] at hc
            exact ⟨c, hc, hopen⟩
          · rw [List.getElem?_append_right (not_lt.1 hk)] at hc
            cases List.mem_singleton.1 (List.mem_of_getElem? hc)
            exact hopen.elim
      · rcases List.mem_append.1 hc with hc | hc
        · exact h.own c hc
        · cases List.mem_singleton.1 hc
          trivial
      · rcases List.mem_append.1 hc with hc | hc
        · exact h.ended hended c hc
        · cases List.mem_singleton.1 hc
          exact not_false
  | proceed k room => exact kept_proceed h hcalm
  | expire k => exact kept_expire h hcalm
  | look =>
      rw [step]
      split
      · next hlooking =>
          unfold look
          split
          · exact ⟨h.exact, h.own, fun heq => nomatch heq⟩
          · next hrunning =>
              exact ⟨h.exact, h.own, fun _ => hcalm hlooking (Bool.not_eq_true _ ▸ hrunning)⟩
      · exact h
  | line response =>
      rw [step]
      split
      · exact kept_readLine h response
      · exact h
  | eof =>
      rw [step]
      split
      · next hreading => exact ⟨h.exact, h.own, fun _ => hcalm hreading⟩
      · exact h
  | writeFails => exact ⟨h.exact, h.own, h.ended⟩
  | disconnect => exact ⟨h.exact, h.own, h.ended⟩

end Steps

/-! ## Every run -/

theorem kept_start : start.Kept where
  exact _ _ := iff_of_false (fun h => nomatch h) fun ⟨_, hc, _⟩ => nomatch hc
  own _ hc := nomatch hc
  ended _ _ hc := nomatch hc

theorem open_iff_of_rests {c : Caller} {id : UInt64} (h : c.Rests) : c.Open id ↔ c.Waits id := by
  match c, h with
  | .inserted _ .empty, _ => rfl
  | .waiting _ .empty, _ => rfl
  | .done _ _, _ => rfl

theorem Kept.settled {s : McpConnection} (h : s.Kept) : s.Settled where
  own id r hdone := h.own _ hdone
  pending hquiet id := by
    rw [← Finmap.lookup_isSome, Option.isSome_iff_exists]
    constructor
    · rintro ⟨k, hk⟩
      obtain ⟨c, hc, hopen⟩ := (h.exact id k).1 hk
      have hmem : c ∈ s.callers := List.mem_of_getElem? hc
      exact ⟨c, hmem, (open_iff_of_rests (hquiet c hmem)).1 hopen⟩
    · rintro ⟨c, hmem, hwaits⟩
      obtain ⟨k, hk⟩ := List.getElem?_of_mem hmem
      exact ⟨k, (h.exact id k).2 ⟨c, hk, (open_iff_of_rests (hquiet c hmem)).2 hwaits⟩⟩
  ended _ hreader := h.ended hreader

/-- **What the map of pending requests holds.**  In every run of requests, answers, failures and
ends that are calm, each answer goes to the request with its number; whenever every request rests
the numbers in the map are those of the requests that wait, and nobody waits for an answer once the
reader has ended. -/
theorem settled_of_calm (events : List Event) (h : Along step Calm start events) :
    Always step Settled start events := by
  have hkept : Always step Kept start events := always_of_inv kept_step kept_start h
  exact fun before after heq => (hkept before after heq).settled

/-- A request that is answered. -/
theorem settled_answered :
    Always step Settled start [.request, .proceed 0 true, .proceed 0 true, .proceed 0 true, .look,
      .line (some ⟨1, some .null, none⟩), .proceed 0 true] := by
  refine settled_of_calm _ ?_
  simp [step, start, Calm, proceed, insert, look, readLine, post, Caller.receive]

/-- The time of the first request is over; and the output ends while it waits. -/
theorem left_behind :
    ¬ Always step Settled start
      [.request, .proceed 0 true, .proceed 0 true, .proceed 0 true, .expire 0] ∧
    ¬ Always step Settled start
      [.request, .proceed 0 true, .proceed 0 true, .proceed 0 true, .look, .eof] := by
  constructor
  · intro h
    have hpending := h.last.pending
    simp [step, start, proceed, insert, expire, Quiet, Caller.Rests, Caller.Waits] at hpending
    exact (hpending 1).1 rfl
  · intro h
    have hended := h.last.ended
    simp [step, start, proceed, insert, look, Quiet, Caller.Rests, Caller.Listens] at hended

end McpConnection
end PeerClaw
