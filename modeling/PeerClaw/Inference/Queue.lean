import PeerClaw.Inference.Batch
import PeerClaw.Lib.Machine

/-!
# The batch queue

`BatchAggregator` and `BatchProcessor` in `inference/batch.rs`: callers submit
requests over a bounded channel, a processor takes them off it in batches, and
each caller waits on a reply channel of its own.  A call of `submit` is cut where
it checks the shutdown flag, sends, counts the request on `queue_depth` and waits;
the processor is cut at each message it receives and each group it processes.

* `BatchQueue.step` — the machine; its moves are the calls and what the scheduler,
  the clock and the inference function do.
* `Placed`, `placed_run` — no request is lost: its reply has been sent, or it is
  in the channel, or the processor has it.
-/

namespace PeerClaw
namespace Inference

open Lib Lib.Machine

/-- Configuration for batch aggregation. -/
structure BatchConfig where
  /-- Maximum requests per batch. -/
  maxBatchSize : ℕ := 8
  /-- Minimum requests to trigger immediate processing. -/
  minBatchSize : ℕ := 4
  /-- Capacity of the channel. -/
  maxQueueDepth : ℕ := 100

/-- The arguments of `submit`. -/
structure Submission where
  source : String
  model : String
  prompt : String
  maxTokens : UInt32
  temperature : Float32

/-- Where a call of `submit` stands. -/
inductive SubmitState
  /-- It is about to check the shutdown flag. -/
  | check (args : Submission)
  /-- It has a request to send. -/
  | send (req : BatchRequest)
  /-- It is about to count the request on `queue_depth`. -/
  | count
  /-- It waits on its reply channel. -/
  | wait
  | done (result : Reply)

/-- Where the processor stands. -/
inductive Phase
  /-- It is about to check the shutdown flag. -/
  | top
  /-- It drains the channel. -/
  | drain
  /-- It waits for the first request of a batch. -/
  | receive
  /-- It collects more within the batch window. -/
  | collect (batch : List BatchRequest)
  /-- It has these groups left to process. -/
  | process (W : World) (groups : List (String × List BatchRequest))
  | exited

/-- The aggregator and its processor. -/
structure BatchQueue where
  shutdown : Bool
  /-- The aggregator, and with it every sender, has been dropped. -/
  closed : Bool
  /-- The processor, and with it the receiver, has been dropped. -/
  gone : Bool
  /-- The requests in the channel. -/
  channel : List BatchRequest
  /-- The statistic: requests currently in queue. -/
  queueDepth : ℕ
  /-- The calls of `submit`, by number. -/
  submits : List SubmitState
  /-- What has been sent on the reply channels. -/
  replies : List (ReplyTo × Reply)
  phase : Phase

/-- What a step of the processor draws. -/
structure Draw where
  /-- The timeout it waits with has expired. -/
  expired : Bool
  /-- The inference function and its times, for the batch that begins here if one does. -/
  world : World

inductive Move
  /-- A new call of `submit`. -/
  | submit (args : Submission)
  /-- A call of `submit` goes on. -/
  | resume (n : ReplyTo) (now : ℕ)
  /-- A call of `shutdown`. -/
  | shutdown
  /-- The aggregator is dropped, which its callers prevent as long as they wait. -/
  | close
  /-- The processor goes on. -/
  | processor (d : Draw)
  /-- The processor is dropped, which its loop prevents as long as it runs. -/
  | drop

namespace SubmitState

/-- Past the shutdown check, and not yet counted. -/
def Between : SubmitState → Prop
  | .send _ | .count => True
  | _ => False

/-- Past the shutdown check, and not yet returned. -/
def InFlight : SubmitState → Prop
  | .send _ | .count | .wait => True
  | _ => False

/-- Its request is in the channel or has been taken off it. -/
def Sent : SubmitState → Prop
  | .count | .wait => True
  | _ => False

def Returned : SubmitState → Prop
  | .done _ => True
  | _ => False

/-- It still has to count its request. -/
def counts : SubmitState → Bool
  | .count => true
  | _ => false

instance : DecidablePred Returned
  | .done _ => isTrue trivial
  | .check _ | .send _ | .count | .wait => isFalse id

end SubmitState

/-- The requests the processor has. -/
def Phase.held : Phase → List BatchRequest
  | .collect batch => batch
  | .process _ groups => groups.flatMap Prod.snd
  | _ => []

namespace BatchQueue

def new : BatchQueue where
  shutdown := false
  closed := false
  gone := false
  channel := []
  queueDepth := 0
  submits := []
  replies := []
  phase := .top

/-! ## The calls of `submit` -/

section Steps

variable (cfg : BatchConfig) (newV4 : ℕ → Uuid)

/-- The request that a call of `submit` makes. -/
def request (n : ReplyTo) (now : ℕ) (args : Submission) : BatchRequest where
  id := newV4 n
  source := args.source
  model := args.model
  prompt := args.prompt
  maxTokens := args.maxTokens
  temperature := args.temperature
  submittedAt := now
  resultTx := n

/-- A call of `submit` goes to its next state. -/
def setSubmit (s : BatchQueue) (n : ReplyTo) (st : SubmitState) : BatchQueue :=
  { s with submits := s.submits.set n st }

/-- The next section of a call of `submit`. -/
def resume (s : BatchQueue) (n : ReplyTo) (now : ℕ) : BatchQueue :=
  match s.submits[n]? with
  | some (.check args) =>
      if s.shutdown then s.setSubmit n (.done (.error .shutdown))
      else s.setSubmit n (.send (request newV4 n now args))
  | some (.send req) =>
      if s.gone then s.setSubmit n (.done (.error .queueFull))
      else if s.channel.length < cfg.maxQueueDepth then
        { s.setSubmit n .count with channel := s.channel ++ [req] }
      else s
  | some .count => { s.setSubmit n .wait with queueDepth := s.queueDepth + 1 }
  | some .wait =>
      match s.replies.lookup n with
      | some reply => s.setSubmit n (.done reply)
      | none => s
  | _ => s

/-! ## The processor -/

/-- Begin to process a batch: count it off, and group it by model. -/
def begin (s : BatchQueue) (W : World) (batch : List BatchRequest) : BatchQueue :=
  { s with
    queueDepth := s.queueDepth - batch.length
    phase := .process W (byModel W batch) }

/-- The batch is not full, and its window is open. -/
def Collecting (d : Draw) (batch : List BatchRequest) : Prop :=
  batch.length < cfg.maxBatchSize ∧ d.expired = false ∧ batch.length < cfg.minBatchSize

instance (d : Draw) (batch : List BatchRequest) : Decidable (Collecting cfg d batch) :=
  inferInstanceAs (Decidable (_ ∧ _ ∧ _))

/-- The error for a request that is dropped. -/
def refused (req : BatchRequest) : ReplyTo × Reply := (req.resultTx, .error .shutdown)

/-- The next section of the processor's loop. -/
def processor (s : BatchQueue) (d : Draw) : BatchQueue :=
  match s.phase with
  | .top => { s with phase := if s.shutdown then .drain else .receive }
  | .drain =>
      match s.channel with
      | req :: rest => { s with channel := rest, replies := s.replies ++ [refused req] }
      | [] => { s with phase := .exited }
  | .receive =>
      if d.expired then { s with phase := .top }
      else
        match s.channel with
        | req :: rest => { s with channel := rest, phase := .collect [req] }
        | [] => if s.closed then { s with phase := .exited } else s
  | .collect batch =>
      if Collecting cfg d batch then
        match s.channel with
        | req :: rest => { s with channel := rest, phase := .collect (batch ++ [req]) }
        | [] => if s.closed then s.begin d.world batch else s
      else s.begin d.world batch
  | .process _ [] => { s with phase := .top }
  | .process W ((model, requests) :: groups) =>
      { s with
        replies := s.replies ++ processGroup W model requests
        phase := .process W groups }
  | .exited => s

/-- The processor is dropped, and what is in the channel with it: whoever waits for it sees
their reply channel closed. -/
def dropProcessor (s : BatchQueue) : BatchQueue :=
  match s.phase with
  | .exited => { s with gone := true, channel := [], replies := s.replies ++ s.channel.map refused }
  | _ => s

/-- The queue after a move. -/
def step (s : BatchQueue) : Move → BatchQueue
  | .submit args => if s.closed then s else { s with submits := s.submits ++ [.check args] }
  | .resume n now => s.resume cfg newV4 n now
  | .shutdown => if s.closed then s else { s with shutdown := true }
  | .close => if ∀ st ∈ s.submits, st.Returned then { s with closed := true } else s
  | .processor d => s.processor cfg d
  | .drop => s.dropProcessor

end Steps

/-! ## What a section can do -/

/-- What the next section of a call of `submit` can do. -/
inductive Resumed (cfg : BatchConfig) (newV4 : ℕ → Uuid) (s : BatchQueue) (n : ReplyTo) (now : ℕ) :
    BatchQueue → Prop
  | refused (args : Submission) (hold : s.submits[n]? = some (.check args))
      (hdown : s.shutdown = true) : Resumed cfg newV4 s n now (s.setSubmit n (.done (.error .shutdown)))
  | passed (args : Submission) (hold : s.submits[n]? = some (.check args))
      (hup : s.shutdown = false) :
      Resumed cfg newV4 s n now (s.setSubmit n (.send (request newV4 n now args)))
  | late (req : BatchRequest) (hold : s.submits[n]? = some (.send req)) (hgone : s.gone = true) :
      Resumed cfg newV4 s n now (s.setSubmit n (.done (.error .queueFull)))
  | sent (req : BatchRequest) (hold : s.submits[n]? = some (.send req)) :
      Resumed cfg newV4 s n now { s.setSubmit n .count with channel := s.channel ++ [req] }
  | counted (hold : s.submits[n]? = some .count) :
      Resumed cfg newV4 s n now { s.setSubmit n .wait with queueDepth := s.queueDepth + 1 }
  | answered (reply : Reply) (hold : s.submits[n]? = some .wait)
      (hreply : s.replies.lookup n = some reply) :
      Resumed cfg newV4 s n now (s.setSubmit n (.done reply))
  | idle : Resumed cfg newV4 s n now s

theorem resumed (cfg : BatchConfig) (newV4 : ℕ → Uuid) (s : BatchQueue) (n : ReplyTo) (now : ℕ) :
    Resumed cfg newV4 s n now (s.resume cfg newV4 n now) := by
  unfold BatchQueue.resume
  split
  · rename_i args hold
    cases hdown : s.shutdown with
    | true => exact .refused args hold hdown
    | false => exact .passed args hold hdown
  · rename_i req hold
    split
    · rename_i hgone
      exact .late req hold hgone
    · split
      · exact .sent req hold
      · exact .idle
  · rename_i hold
    exact .counted hold
  · rename_i hold
    split
    · rename_i reply hreply
      exact .answered reply hold hreply
    · exact .idle
  · exact .idle

/-- A batch is complete when it is full, its window has closed, or nobody is left to add to it. -/
def Complete (cfg : BatchConfig) (s : BatchQueue) (d : Draw) (batch : List BatchRequest) : Prop :=
  ¬ Collecting cfg d batch ∨ (s.channel = [] ∧ s.closed = true)

/-- What the next section of the processor can do. -/
inductive Processed (cfg : BatchConfig) (s : BatchQueue) (d : Draw) : BatchQueue → Prop
  | checked (hphase : s.phase = .top) :
      Processed cfg s d { s with phase := if s.shutdown then .drain else .receive }
  | drained (req : BatchRequest) (rest : List BatchRequest) (hphase : s.phase = .drain)
      (hchan : s.channel = req :: rest) :
      Processed cfg s d { s with channel := rest, replies := s.replies ++ [refused req] }
  | stopped (hphase : s.phase = .drain) (hchan : s.channel = []) :
      Processed cfg s d { s with phase := .exited }
  | expired (hphase : s.phase = .receive) : Processed cfg s d { s with phase := .top }
  | first (req : BatchRequest) (rest : List BatchRequest) (hphase : s.phase = .receive)
      (hchan : s.channel = req :: rest) :
      Processed cfg s d { s with channel := rest, phase := .collect [req] }
  | abandoned (hphase : s.phase = .receive) (hchan : s.channel = []) (hclosed : s.closed = true) :
      Processed cfg s d { s with phase := .exited }
  | more (batch : List BatchRequest) (req : BatchRequest) (rest : List BatchRequest)
      (hphase : s.phase = .collect batch) (hchan : s.channel = req :: rest) :
      Processed cfg s d { s with channel := rest, phase := .collect (batch ++ [req]) }
  | began (batch : List BatchRequest) (hphase : s.phase = .collect batch)
      (hcomplete : Complete cfg s d batch) : Processed cfg s d (s.begin d.world batch)
  | through (W : World) (hphase : s.phase = .process W []) :
      Processed cfg s d { s with phase := .top }
  | group (W : World) (model : String) (requests : List BatchRequest)
      (groups : List (String × List BatchRequest))
      (hphase : s.phase = .process W ((model, requests) :: groups)) :
      Processed cfg s d { s with
        replies := s.replies ++ processGroup W model requests
        phase := .process W groups }
  | idle : Processed cfg s d s

theorem processed (cfg : BatchConfig) (s : BatchQueue) (d : Draw) :
    Processed cfg s d (s.processor cfg d) := by
  unfold BatchQueue.processor
  split
  · rename_i hphase
    exact .checked hphase
  · rename_i hphase
    split
    · rename_i req rest hchan
      exact .drained req rest hphase hchan
    · rename_i hchan
      exact .stopped hphase hchan
  · rename_i hphase
    split
    · exact .expired hphase
    · split
      · rename_i req rest hchan
        exact .first req rest hphase hchan
      · rename_i hchan
        split
        · rename_i hclosed
          exact .abandoned hphase hchan hclosed
        · exact .idle
  · rename_i batch hphase
    split
    · split
      · rename_i req rest hchan
        exact .more batch req rest hphase hchan
      · rename_i hchan
        split
        · rename_i hclosed
          exact .began batch hphase (.inr ⟨hchan, hclosed⟩)
        · exact .idle
    · rename_i hfull
      exact .began batch hphase (.inl hfull)
  · rename_i W hphase
    exact .through W hphase
  · rename_i W model requests groups hphase
    exact .group W model requests groups hphase
  · exact .idle

/-! ## No request is lost -/

/-- The requests that have been sent and not been replied to. -/
def held (s : BatchQueue) : List BatchRequest := s.channel ++ s.phase.held

/-- The calls whose request has been replied to or is on its way to a reply. -/
def tracked (s : BatchQueue) : List ReplyTo :=
  s.replies.map Prod.fst ++ s.held.map BatchRequest.resultTx

/-- The ids drawn by the first so many calls differ. -/
def DistinctIds (newV4 : ℕ → Uuid) (n : ℕ) : Prop :=
  ∀ i j, i < n → j < n → newV4 i = newV4 j → i = j

/-- **Where requests are.**  A request that has been sent is in one place, until its call has
been replied to, once. -/
structure Placed (newV4 : ℕ → Uuid) (s : BatchQueue) : Prop where
  once : s.tracked.Nodup
  /-- Only calls that have sent their request are tracked, -/
  sent : ∀ n ∈ s.tracked, ∃ st, s.submits[n]? = some st ∧ (st.Sent ∨ st.Returned)
  /-- and all that wait are. -/
  owed : ∀ n st, s.submits[n]? = some st → st.Sent → n ∈ s.tracked
  own : ∀ req ∈ s.held, req.id = newV4 req.resultTx
  ready : ∀ n req, s.submits[n]? = some (.send req) → req.resultTx = n ∧ req.id = newV4 n

section Placed

variable {cfg : BatchConfig} {newV4 : ℕ → Uuid} {s s' : BatchQueue}

theorem placed_new : (new).Placed newV4 where
  once := List.nodup_nil
  sent := by simp [tracked, held, new, Phase.held]
  owed := by simp [new]
  own := by simp [held, new, Phase.held]
  ready := by simp [new]

theorem Placed.moveOn (h : s.Placed newV4) (hsubmits : s'.submits = s.submits)
    (hperm : s'.tracked.Perm s.tracked) (hheld : ∀ req ∈ s'.held, req ∈ s.held) :
    s'.Placed newV4 where
  once := hperm.nodup_iff.2 h.once
  sent := by
    intro n hn
    rw [hsubmits]
    exact h.sent n (hperm.mem_iff.1 hn)
  owed := by
    intro n st hst hsent
    rw [hsubmits] at hst
    exact hperm.mem_iff.2 (h.owed n st hst hsent)
  own := fun req hreq => h.own req (hheld req hreq)
  ready := by
    rw [hsubmits]
    exact h.ready

theorem Placed.nodup_ids (h : s.Placed newV4) (hids : DistinctIds newV4 s.submits.length) :
    (s.held.map BatchRequest.id).Nodup := by
  have htx : (s.held.map BatchRequest.resultTx).Nodup :=
    (List.nodup_append.1 h.once).2.1
  have hlt : ∀ req ∈ s.held, req.resultTx < s.submits.length := by
    intro req hreq
    obtain ⟨st, hst, -⟩ := h.sent req.resultTx
      (List.mem_append_right _ (List.mem_map_of_mem hreq))
    exact (List.getElem?_eq_some_iff.1 hst).1
  rw [List.Nodup, List.pairwise_map] at htx ⊢
  refine htx.imp_of_mem ?_
  intro a b ha hb hne heq
  rw [h.own a ha, h.own b hb] at heq
  exact hne (hids _ _ (hlt a ha) (hlt b hb) heq)

/-- Changing the state of a call that has sent its request, or of one that has not. -/
theorem Placed.setSubmit (h : s.Placed newV4) {n : ReplyTo} {old st : SubmitState}
    (hold : s.submits[n]? = some old)
    (hkeep : old.Sent ∨ old.Returned → st.Sent ∨ st.Returned) (hnew : st.Sent → old.Sent)
    (hready : ∀ req, st = .send req → req.resultTx = n ∧ req.id = newV4 n) :
    (s.setSubmit n st).Placed newV4 := by
  have hlt := (List.getElem?_eq_some_iff.1 hold).1
  have hself : (s.submits.set n st)[n]? = some st := List.getElem?_set_self hlt
  refine ⟨h.once, ?_, ?_, h.own, ?_⟩
  · intro k hk
    obtain ⟨st', hst', hcase⟩ := h.sent k hk
    by_cases hkn : k = n
    · subst hkn
      rw [hold] at hst'
      cases hst'
      exact ⟨st, hself, hkeep hcase⟩
    · exact ⟨st', (List.getElem?_set_ne (Ne.symm hkn)).trans hst', hcase⟩
  · intro k st' hst' hs
    by_cases hkn : k = n
    · subst hkn
      have heq : st = st' := Option.some.inj (hself.symm.trans hst')
      exact h.owed k old hold (hnew (heq ▸ hs))
    · exact h.owed k st' ((List.getElem?_set_ne (Ne.symm hkn)).symm.trans hst') hs
  · intro k req hreq
    by_cases hkn : k = n
    · subst hkn
      exact hready req (Option.some.inj (hself.symm.trans hreq))
    · exact h.ready k req ((List.getElem?_set_ne (Ne.symm hkn)).symm.trans hreq)

theorem Placed.send (h : s.Placed newV4) {n : ReplyTo} {req : BatchRequest}
    (hold : s.submits[n]? = some (.send req)) :
    Placed newV4 { s.setSubmit n .count with channel := s.channel ++ [req] } := by
  obtain ⟨htx, hid⟩ := h.ready n req hold
  have hnew : n ∉ s.tracked := by
    intro hn
    obtain ⟨st, hst, hcase⟩ := h.sent n hn
    rw [hold] at hst
    cases hst
    rcases hcase with hcase | hcase <;> exact hcase
  have hlt := (List.getElem?_eq_some_iff.1 hold).1
  have hself : (s.submits.set n .count)[n]? = some .count := List.getElem?_set_self hlt
  have hperm : (tracked { s.setSubmit n .count with channel := s.channel ++ [req] }).Perm
      (n :: s.tracked) := by
    have hswap : (s.channel ++ [req] ++ s.phase.held).Perm (req :: s.held) := by
      rw [List.append_assoc]
      exact List.perm_middle
    refine ((hswap.map BatchRequest.resultTx).append_left _).trans ?_
    rw [List.map_cons, htx]
    exact List.perm_middle
  refine ⟨hperm.nodup_iff.2 (List.nodup_cons.2 ⟨hnew, h.once⟩), ?_, ?_, ?_, ?_⟩
  · intro k hk
    rcases List.mem_cons.1 (hperm.mem_iff.1 hk) with rfl | hk
    · exact ⟨.count, hself, .inl trivial⟩
    · obtain ⟨st, hst, hcase⟩ := h.sent k hk
      have hne : k ≠ n := fun heq => hnew (heq ▸ hk)
      exact ⟨st, (List.getElem?_set_ne (Ne.symm hne)).trans hst, hcase⟩
  · intro k st hst hsent
    refine hperm.mem_iff.2 ?_
    by_cases hkn : k = n
    · exact hkn ▸ List.mem_cons_self ..
    · exact List.mem_cons_of_mem _
        (h.owed k st ((List.getElem?_set_ne (Ne.symm hkn)).symm.trans hst) hsent)
  · intro r hr
    rcases List.mem_append.1 hr with hr | hr
    · rcases List.mem_append.1 hr with hr | hr
      · exact h.own r (List.mem_append_left _ hr)
      · rw [List.mem_singleton.1 hr, hid, htx]
    · exact h.own r (List.mem_append_right _ hr)
  · intro k r hr
    by_cases hkn : k = n
    · subst hkn
      cases hself.symm.trans hr
    · exact h.ready k r ((List.getElem?_set_ne (Ne.symm hkn)).symm.trans hr)

theorem placed_resume (h : s.Placed newV4) (n : ReplyTo) (now : ℕ) :
    (s.resume cfg newV4 n now).Placed newV4 := by
  have hcase := resumed cfg newV4 s n now
  generalize s.resume cfg newV4 n now = s' at hcase ⊢
  cases hcase with
  | refused args hold =>
      exact h.setSubmit hold (fun h => h.elim False.elim False.elim) False.elim (by rintro req ⟨⟩)
  | passed args hold =>
      refine h.setSubmit hold (fun h => h.elim False.elim False.elim) False.elim ?_
      rintro req ⟨⟩
      exact ⟨rfl, rfl⟩
  | late req hold =>
      exact h.setSubmit hold (fun h => h.elim False.elim False.elim) False.elim (by rintro r ⟨⟩)
  | sent req hold => exact h.send hold
  | counted hold =>
      have hset : (s.setSubmit n .wait).Placed newV4 :=
        h.setSubmit hold (fun _ => .inl trivial) (fun _ => trivial) (by rintro r ⟨⟩)
      exact ⟨hset.once, hset.sent, hset.owed, hset.own, hset.ready⟩
  | answered reply hold =>
      exact h.setSubmit hold (fun _ => .inr trivial) False.elim (by rintro r ⟨⟩)
  | idle => exact h

theorem placed_processor (h : s.Placed newV4) (hids : DistinctIds newV4 s.submits.length)
    (d : Draw) : (s.processor cfg d).Placed newV4 := by
  have hcase := processed cfg s d
  generalize s.processor cfg d = s' at hcase ⊢
  cases hcase with
  | checked hphase =>
      have hheld : held { s with phase := if s.shutdown then .drain else .receive } = s.held := by
        unfold held
        rw [hphase]
        cases s.shutdown <;> rfl
      refine h.moveOn rfl ?_ fun req hreq => hheld ▸ hreq
      unfold tracked
      rw [hheld]
  | drained req rest hphase hchan =>
      refine h.moveOn rfl ?_ ?_
      · simp [tracked, held, hphase, hchan, Phase.held, refused]
      · intro r hr
        simp only [held, hphase, hchan, Phase.held, List.append_nil] at hr ⊢
        exact List.mem_cons_of_mem _ hr
  | stopped hphase hchan =>
      refine h.moveOn rfl ?_ ?_
      · simp [tracked, held, hphase, hchan, Phase.held]
      · simp [held, hchan, Phase.held]
  | expired hphase =>
      refine h.moveOn rfl ?_ ?_
      · simp [tracked, held, hphase, Phase.held]
      · simp [held, hphase, Phase.held]
  | first req rest hphase hchan =>
      have hheld : (rest ++ [req]).Perm s.held := by
        simpa only [held, hphase, hchan, Phase.held, List.append_nil] using
          List.perm_append_singleton req rest
      exact h.moveOn rfl ((hheld.map _).append_left _) fun r hr => hheld.mem_iff.1 hr
  | abandoned hphase hchan hclosed =>
      refine h.moveOn rfl ?_ ?_
      · simp [tracked, held, hphase, hchan, Phase.held]
      · simp [held, hchan, Phase.held]
  | more batch req rest hphase hchan =>
      have hheld : (rest ++ (batch ++ [req])).Perm s.held := by
        simpa only [held, hphase, hchan, Phase.held, List.append_assoc, List.cons_append] using
          List.perm_append_singleton req (rest ++ batch)
      exact h.moveOn rfl ((hheld.map _).append_left _) fun r hr => hheld.mem_iff.1 hr
  | began batch hphase hcomplete =>
      have hgroups : ((byModel d.world batch).flatMap Prod.snd).Perm batch :=
        groups_perm BatchRequest.model d.world.modelOrder batch
      have hheld : (s.begin d.world batch).held.Perm s.held := by
        unfold held
        rw [hphase]
        exact hgroups.append_left s.channel
      exact h.moveOn rfl ((hheld.map _).append_left _) fun req hreq => hheld.mem_iff.1 hreq
  | through W hphase =>
      refine h.moveOn rfl ?_ ?_
      · simp [tracked, held, hphase, Phase.held]
      · simp [held, hphase, Phase.held]
  | group W model requests groups hphase =>
      have hheld : s.held = s.channel ++ (requests ++ groups.flatMap Prod.snd) := by
        unfold held
        rw [hphase]
        rfl
      have hnd : (requests.map BatchRequest.id).Nodup := by
        have hall := h.nodup_ids hids
        rw [hheld, List.map_append, List.map_append] at hall
        exact (List.nodup_append.1 (List.nodup_append.1 hall).2.1).1
      have hsent := processGroup_channels W model hnd
      refine h.moveOn rfl ?_ ?_
      · unfold tracked
        rw [hheld]
        show ((s.replies ++ processGroup W model requests).map Prod.fst ++
          (s.channel ++ groups.flatMap Prod.snd).map BatchRequest.resultTx).Perm _
        rw [List.map_append, List.append_assoc]
        refine List.Perm.append_left _ ?_
        refine (hsent.append_right _).trans ?_
        rw [← List.map_append]
        refine List.Perm.map _ ?_
        rw [← List.append_assoc, ← List.append_assoc]
        exact List.perm_append_comm.append_right _
      · intro req hreq
        rw [hheld]
        rcases List.mem_append.1 hreq with hreq | hreq
        · exact List.mem_append_left _ hreq
        · exact List.mem_append_right _ (List.mem_append_right _ hreq)
  | idle => exact h

theorem submits_processor (s : BatchQueue) (d : Draw) :
    (s.processor cfg d).submits = s.submits := by
  have hcase := processed cfg s d
  generalize s.processor cfg d = s' at hcase ⊢
  cases hcase <;> rfl

theorem placed_drop (h : s.Placed newV4) : s.dropProcessor.Placed newV4 := by
  unfold dropProcessor
  split
  · rename_i hphase
    refine h.moveOn rfl ?_ ?_
    · simp [tracked, held, hphase, Phase.held, refused, Function.comp_def]
    · simp [held, hphase, Phase.held]
  · exact h

/-- An entry of a list with one more is an entry of the list, or the new one. -/
theorem getElem?_concat {α : Type} {l : List α} {a b : α} {n : ℕ}
    (h : (l ++ [a])[n]? = some b) : l[n]? = some b ∨ b = a := by
  rcases Nat.lt_or_ge n l.length with hlt | hge
  · rw [List.getElem?_append_left hlt] at h
    exact .inl h
  · rw [List.getElem?_append_right hge] at h
    exact .inr (List.mem_singleton.1 (List.mem_of_getElem? h))

/-- **No move loses a request.** -/
theorem placed_step (h : s.Placed newV4) (hids : DistinctIds newV4 s.submits.length) (m : Move) :
    (s.step cfg newV4 m).Placed newV4 := by
  cases m with
  | submit args =>
      show Placed newV4 (if s.closed then s else _)
      split
      · exact h
      · refine ⟨h.once, ?_, ?_, h.own, ?_⟩
        · intro n hn
          obtain ⟨st, hst, hcase⟩ := h.sent n hn
          have hlt := (List.getElem?_eq_some_iff.1 hst).1
          exact ⟨st, (List.getElem?_append_left hlt).trans hst, hcase⟩
        · intro n st hst hsent
          rcases getElem?_concat hst with hold | rfl
          · exact h.owed n st hold hsent
          · exact hsent.elim
        · intro n req hreq
          rcases getElem?_concat hreq with hold | hnew
          · exact h.ready n req hold
          · cases hnew
  | resume n now => exact placed_resume h n now
  | shutdown =>
      show Placed newV4 (if s.closed then s else _)
      split
      · exact h
      · exact h.moveOn rfl (List.Perm.refl _) fun req hreq => hreq
  | close =>
      show Placed newV4 (if _ then _ else s)
      split
      · exact h.moveOn rfl (List.Perm.refl _) fun req hreq => hreq
      · exact h
  | processor d => exact placed_processor h hids d
  | drop => exact placed_drop h

theorem length_submits_step (s : BatchQueue) (m : Move) :
    s.submits.length ≤ (s.step cfg newV4 m).submits.length := by
  cases m with
  | submit args =>
      show _ ≤ (if s.closed then s else _).submits.length
      split
      · exact Nat.le_refl _
      · simp
  | resume n now =>
      have hcase := resumed cfg newV4 s n now
      show _ ≤ (s.resume cfg newV4 n now).submits.length
      generalize s.resume cfg newV4 n now = s' at hcase ⊢
      cases hcase <;> simp [BatchQueue.setSubmit]
  | shutdown =>
      show _ ≤ (if s.closed then s else _).submits.length
      split <;> exact Nat.le_refl _
  | close =>
      show _ ≤ (if _ then _ else s).submits.length
      split <;> exact Nat.le_refl _
  | processor d => exact Nat.le_of_eq (congrArg List.length (submits_processor s d)).symm
  | drop =>
      show _ ≤ s.dropProcessor.submits.length
      unfold dropProcessor
      split <;> exact Nat.le_refl _

theorem along_distinct {ms : List Move}
    (hids : DistinctIds newV4 (run (step cfg newV4) s ms).submits.length) :
    Along (step cfg newV4) (fun s _ => DistinctIds newV4 s.submits.length) s ms := by
  have hgrow : ∀ (ms : List Move) (s : BatchQueue),
      s.submits.length ≤ (run (step cfg newV4) s ms).submits.length := by
    intro ms
    induction ms with
    | nil => exact fun s => Nat.le_refl _
    | cons m ms ih => exact fun s => Nat.le_trans (length_submits_step s m) (ih _)
  induction ms generalizing s with
  | nil => trivial
  | cons m ms ih =>
      have hle := hgrow (m :: ms) s
      exact ⟨fun i j hi hj => hids i j (Nat.lt_of_lt_of_le hi hle) (Nat.lt_of_lt_of_le hj hle),
        ih hids⟩

/-- **No run loses a request.** -/
theorem placed_run {ms : List Move}
    (hids : DistinctIds newV4 (run (step cfg newV4) new ms).submits.length) :
    (run (step cfg newV4) new ms).Placed newV4 :=
  run_of_inv (P := fun (s : BatchQueue) _ => DistinctIds newV4 s.submits.length)
    (fun _ m h hids => placed_step h hids m) placed_new (along_distinct hids)

end Placed

end BatchQueue
end Inference
end PeerClaw
