import PeerClaw.Inference.Queue
import Mathlib.Data.String.Basic

/-!
# What the callers of the batch queue are told

* `batch_answered` — in every run, each request of a batch is answered exactly
  once, whatever the inference function returns: with a result under its own id,
  or with an error.
* `queue_settles` — in every run in which no batch is larger than `queue_depth` when
  it is counted off, and the processor finds the channel empty and nobody on the
  way to it when it drains it, once the processor has exited nobody waits without
  an answer and `queue_depth` is 0.
* `drained_request_counted` — a request that is drained stays on `queue_depth`.
* `late_request_waits` — a request sent after the drain is never answered.

`submit` checks the flag, sends and counts in three sections, and the drain sends
an error to each request it takes off the channel without counting it off.
-/

namespace PeerClaw
namespace Inference

open Lib Lib.Machine

namespace BatchQueue

variable {cfg : BatchConfig} {newV4 : ℕ → Uuid} {s : BatchQueue}

/-! ## A batch is answered -/

/-- What the callers of a batch are sent, after what had been sent before. -/
structure AnsweredOnce (before : List (ReplyTo × Reply)) (W : World) (batch : List BatchRequest)
    (sent : List (ReplyTo × Reply)) : Prop where
  /-- Each request gets one reply: from a result under its own id, or an error that there is
  none. -/
  each : ∀ req ∈ batch, ∃ reply,
    (before ++ sent).filter (fun e => e.1 = req.resultTx) = [(req.resultTx, reply)] ∧
    ((∃ k, MadeFrom W batch req reply k) ∨ Unanswered W batch req reply)
  /-- Nobody else gets one. -/
  only : ∀ e ∈ sent, ∃ req ∈ batch, e.1 = req.resultTx
  /-- One result of a call is not given to two requests. -/
  apart : ∀ req ∈ batch, ∀ req' ∈ batch, ∀ reply reply' k, MadeFrom W batch req reply k →
    MadeFrom W batch req' reply' k → req.model = req'.model → req = req'

theorem process_groups {W : World} {groups : List (String × List BatchRequest)}
    (hphase : s.phase = .process W groups) {ds : List Draw} (hlen : ds.length = groups.length) :
    (ds.foldl (processor cfg) s).replies =
      s.replies ++ groups.flatMap fun g => processGroup W g.1 g.2 := by
  induction ds generalizing s groups with
  | nil =>
      obtain rfl : groups = [] := List.length_eq_zero_iff.1 hlen.symm
      simp
  | cons d ds ih =>
      cases groups with
      | nil => cases hlen
      | cons g groups =>
          have hstep : s.processor cfg d = { s with
              replies := s.replies ++ processGroup W g.1 g.2
              phase := .process W groups } := by
            unfold processor
            rw [hphase]
          rw [List.foldl_cons, hstep, ih rfl (Nat.succ.inj hlen)]
          simp

theorem madeFrom_id {W : World} {batch : List BatchRequest} {req : BatchRequest} {reply : Reply}
    {k : ℕ} (h : MadeFrom W batch req reply k) :
    ∃ r, (answersFor W batch req)[k]? = some (req.id, r) := by
  rcases h with ⟨gen, hplace, -⟩ | ⟨e, hplace, -⟩
  · exact ⟨_, hplace⟩
  · exact ⟨_, hplace⟩

/-- **Every request of a batch is answered once.**  In every run, when the processor begins to
process the batch it has collected, the replies it sends until it is through are one for each
request: a result under the request's own id, or an error. -/
theorem batch_answered (cfg : BatchConfig) (newV4 : ℕ → Uuid) (ms : List Move)
    (hids : DistinctIds newV4 (run (step cfg newV4) new ms).submits.length)
    (batch : List BatchRequest) (hphase : (run (step cfg newV4) new ms).phase = .collect batch)
    (W : World) (ds : List Draw) (hlen : ds.length = (byModel W batch).length) :
    ∃ sent, (ds.foldl (processor cfg) ((run (step cfg newV4) new ms).begin W batch)).replies =
        (run (step cfg newV4) new ms).replies ++ sent ∧
      AnsweredOnce (run (step cfg newV4) new ms).replies W batch sent := by
  have hplaced := placed_run hids
  generalize hs : run (step cfg newV4) new ms = s at *
  have hheld : s.held = s.channel ++ batch := by
    unfold held
    rw [hphase]
    rfl
  have hnd : (batch.map BatchRequest.id).Nodup := by
    have hall := hplaced.nodup_ids hids
    rw [hheld, List.map_append] at hall
    exact (List.nodup_append.1 hall).2.1
  have hperm := processBatch_perm (W := W) hnd
  -- a channel of the batch has no reply yet, and is that of one request only
  have honce := hplaced.once
  rw [tracked, hheld, List.map_append, ← List.append_assoc] at honce
  obtain ⟨-, htx, hfresh⟩ := List.nodup_append.1 honce
  refine ⟨processBatch W batch, ?_, ?_, ?_, ?_⟩
  · have hbegun : (s.begin W batch).phase = .process W (byModel W batch) := rfl
    rw [process_groups hbegun hlen]
    rfl
  · intro req hreq
    refine ⟨answer W req.model (groupFor batch req.model) req, ?_, answer_cases hnd hreq⟩
    have hbefore : s.replies.filter (fun e => e.1 = req.resultTx) = [] := by
      refine List.filter_eq_nil_iff.2 fun e he => ?_
      have hne := hfresh e.1 (List.mem_append_left _ (List.mem_map_of_mem he)) req.resultTx
        (List.mem_map_of_mem hreq)
      simpa using hne
    have hone : (batch.map fun req => (req.resultTx,
        answer W req.model (groupFor batch req.model) req)).filter
          (fun e => e.1 = req.resultTx) =
        [(req.resultTx, answer W req.model (groupFor batch req.model) req)] := by
      rw [List.filter_map]
      show ((batch.filter fun r => r.resultTx = req.resultTx).map _) = _
      rw [filter_key_eq BatchRequest.resultTx htx hreq]
      rfl
    rw [List.filter_append, hbefore, List.nil_append]
    exact List.perm_singleton.1 (hone ▸ hperm.filter _)
  · intro e he
    obtain ⟨req, hreq, rfl⟩ := List.mem_map.1 (hperm.mem_iff.1 he)
    exact ⟨req, hreq, rfl⟩
  · intro req hreq req' hreq' reply reply' k hmade hmade' hmodel
    obtain ⟨r, hr⟩ := madeFrom_id hmade
    obtain ⟨r', hr'⟩ := madeFrom_id hmade'
    have hsame : answersFor W batch req = answersFor W batch req' := by
      unfold answersFor
      rw [hmodel]
    rw [hsame, hr'] at hr
    have hid : req'.id = req.id := congrArg Prod.fst (Option.some.inj hr)
    exact List.inj_on_of_nodup_map hnd hreq hreq' hid.symm

/-! A run with one request, and a world that answers nothing. -/

/-- Ids by number. -/
def numberedIds (n : ℕ) : Uuid := BitVec.ofNat 128 n

def silentWorld : World where
  inferenceFn := fun _ _ => []
  times := fun _ => ⟨0, 0, fun _ => 0⟩
  modelOrder := IterOrder.ranked id Function.injective_id
  senderOrder := IterOrder.ranked BitVec.toNat fun _ _ => BitVec.eq_of_toNat_eq
  display := fun id => toString id.toNat

def hello : Submission := ⟨"api", "llama", "Hello", 16, 0.5⟩

/-- One request is submitted, and the processor takes it off the channel. -/
def oneCollected : List Move :=
  [.submit hello, .resume 0 0, .resume 0 0, .resume 0 0, .processor ⟨false, silentWorld⟩,
    .processor ⟨false, silentWorld⟩]

theorem batch_answered_one :
    ∃ sent, ((List.replicate (byModel silentWorld [request numberedIds 0 0 hello]).length
        ⟨false, silentWorld⟩).foldl (processor {}) ((run (step {} numberedIds) new oneCollected).begin
          silentWorld [request numberedIds 0 0 hello])).replies =
        (run (step {} numberedIds) new oneCollected).replies ++ sent ∧
      AnsweredOnce (run (step {} numberedIds) new oneCollected).replies silentWorld
        [request numberedIds 0 0 hello] sent :=
  batch_answered {} numberedIds oneCollected
    (fun i j hi hj _ => by
      have hone : (run (step {} numberedIds) new oneCollected).submits.length = 1 := rfl
      omega)
    [request numberedIds 0 0 hello] rfl silentWorld _ (by simp)

/-! ## After the processor has exited -/

/-- **Nobody waits in vain.**  Once the processor has exited, every call that passed the
shutdown check has been answered or has returned, and `queue_depth` is 0. -/
def Settled (s : BatchQueue) : Prop :=
  s.phase = .exited →
    (∀ n st, s.submits[n]? = some st → st.InFlight → n ∈ s.replies.map Prod.fst) ∧
      s.queueDepth = 0

/-- No call is between its shutdown check and the counting of its request. -/
def NobodyBetween (s : BatchQueue) : Prop := ∀ st ∈ s.submits, ¬ st.Between

/-- The condition on a move: a batch that begins is not larger than `queue_depth`, and the drain
finds nothing, and nobody on the way. -/
def MoveClean (cfg : BatchConfig) (s : BatchQueue) : Move → Prop
  | .processor d =>
      match s.phase with
      | .collect batch => Complete cfg s d batch → batch.length ≤ s.queueDepth
      | .drain => s.channel = [] ∧ s.NobodyBetween
      | _ => True
  | _ => True

/-- The requests of the processor that are still on `queue_depth`. -/
def uncounted : Phase → ℕ
  | .collect batch => batch.length
  | _ => 0

/-- **The invariant.**  Requests are where they should be, and `queue_depth` counts them. -/
structure Sound (newV4 : ℕ → Uuid) (s : BatchQueue) : Prop where
  placed : s.Placed newV4
  /-- What is off the channel's count is on its way to it. -/
  counted : s.queueDepth + s.submits.countP SubmitState.counts =
    s.channel.length + uncounted s.phase
  draining : s.phase = .drain → s.shutdown = true
  exited : s.phase = .exited →
    s.channel = [] ∧ s.NobodyBetween ∧ (s.shutdown = true ∨ s.closed = true)
  closed : s.closed = true → ∀ st ∈ s.submits, st.Returned

theorem sound_new (newV4 : ℕ → Uuid) : new.Sound newV4 where
  placed := placed_new
  counted := rfl
  draining := by rintro ⟨⟩
  exited := by rintro ⟨⟩
  closed := by rintro ⟨⟩

theorem Sound.settled (h : s.Sound newV4) : s.Settled := by
  intro hexit
  obtain ⟨hchan, hbetween, -⟩ := h.exited hexit
  have hcounted := h.counted
  rw [hchan, hexit] at hcounted
  refine ⟨?_, Nat.eq_zero_of_add_eq_zero_right hcounted⟩
  intro n st hst hflight
  have hmem := List.mem_of_getElem? hst
  have hsent : st.Sent := by
    cases st with
    | wait => trivial
    | count => exact absurd trivial (hbetween _ hmem)
    | send req => exact absurd trivial (hbetween _ hmem)
    | check args => exact hflight.elim
    | done result => exact hflight.elim
  have htracked := h.placed.owed n st hst hsent
  unfold tracked held at htracked
  rw [hchan, hexit] at htracked
  simpa [Phase.held] using htracked

section Resume

variable {n : ReplyTo} {old st : SubmitState}

/-- The calls that still have to count, after one has changed its state. -/
theorem countP_set (st : SubmitState) (hold : s.submits[n]? = some old) :
    (s.submits.set n st).countP SubmitState.counts + old.counts.toNat =
      s.submits.countP SubmitState.counts + st.counts.toNat := by
  obtain ⟨hlt, hget⟩ := List.getElem?_eq_some_iff.1 hold
  have hpos : old.counts.toNat ≤ s.submits.countP SubmitState.counts := by
    cases hc : old.counts with
    | false => exact Nat.zero_le _
    | true => exact List.countP_pos_iff.2 ⟨old, List.mem_of_getElem? hold, hc⟩
  rw [List.countP_set hlt, hget]
  generalize old.counts = b at hpos ⊢
  generalize st.counts = b'
  generalize s.submits.countP SubmitState.counts = c at hpos ⊢
  cases b <;> cases b' <;>
    simp only [Bool.toNat_true, Bool.toNat_false, if_true, Bool.false_eq_true, if_false] at hpos ⊢ <;>
    omega

theorem nobodyBetween_set (h : s.NobodyBetween) (hst : ¬ st.Between) :
    ∀ st' ∈ s.submits.set n st, ¬ st'.Between := by
  intro st' hst'
  rcases List.mem_or_eq_of_mem_set hst' with hmem | rfl
  · exact h st' hmem
  · exact hst

/-- Nobody who has not returned is there when the aggregator has been dropped. -/
theorem Sound.open (h : s.Sound newV4) (hold : s.submits[n]? = some old) (hnot : ¬ old.Returned) :
    s.closed = false := by
  cases hc : s.closed with
  | false => rfl
  | true => exact absurd (h.closed hc old (List.mem_of_getElem? hold)) hnot

theorem Sound.closed_absurd (h : s.Sound newV4) (hold : s.submits[n]? = some old)
    (hnot : ¬ old.Returned) {P : Prop} (hclosed : s.closed = true) : P := by
  rw [h.open hold hnot] at hclosed
  cases hclosed

theorem Sound.running (h : s.Sound newV4) (hold : s.submits[n]? = some old) (hbetween : old.Between) :
    s.phase ≠ .exited := fun hexit =>
  (h.exited hexit).2.1 old (List.mem_of_getElem? hold) hbetween

theorem Sound.setSubmit (h : s.Sound newV4) (hold : s.submits[n]? = some old)
    (hplaced : (s.setSubmit n st).Placed newV4) (hcount : old.counts = st.counts)
    (hnot : ¬ old.Returned) (hbetween : st.Between → s.phase ≠ .exited) :
    (s.setSubmit n st).Sound newV4 := by
  refine ⟨hplaced, ?_, h.draining, ?_, h.closed_absurd hold hnot⟩
  · have hsum := countP_set st hold
    rw [hcount] at hsum
    have hsame : (s.submits.set n st).countP SubmitState.counts =
        s.submits.countP SubmitState.counts := Nat.add_right_cancel hsum
    show s.queueDepth + (s.submits.set n st).countP SubmitState.counts = _
    rw [hsame]
    exact h.counted
  · intro hexit
    obtain ⟨hchan, hnobody, hwhy⟩ := h.exited hexit
    exact ⟨hchan, nobodyBetween_set hnobody fun hb => hbetween hb hexit, hwhy⟩

end Resume

theorem sound_resume (h : s.Sound newV4) (n : ReplyTo) (now : ℕ) :
    (s.resume cfg newV4 n now).Sound newV4 := by
  have hplaced : (s.resume cfg newV4 n now).Placed newV4 := placed_resume h.placed n now
  have hcase := resumed cfg newV4 s n now
  have hcounted := h.counted
  generalize s.resume cfg newV4 n now = s' at hcase hplaced ⊢
  cases hcase with
  | refused args hold => exact h.setSubmit hold hplaced rfl id False.elim
  | passed args hold hup =>
      refine h.setSubmit hold hplaced rfl id fun _ hexit => ?_
      -- without the flag the processor exits only when every caller is gone
      rcases (h.exited hexit).2.2 with hdown | hclosed
      · rw [hup] at hdown
        cases hdown
      · exact h.closed hclosed _ (List.mem_of_getElem? hold)
  | late req hold => exact h.setSubmit hold hplaced rfl id False.elim
  | sent req hold =>
      have hsum := countP_set .count hold
      have hone : SubmitState.count.counts.toNat = 1 := rfl
      have hzero : (SubmitState.send req).counts.toNat = 0 := rfl
      refine ⟨hplaced, ?_, h.draining, fun hexit => absurd hexit (h.running hold trivial),
        h.closed_absurd hold id⟩
      show s.queueDepth + (s.submits.set n .count).countP SubmitState.counts =
        (s.channel ++ [req]).length + uncounted s.phase
      rw [List.length_append, List.length_singleton]
      omega
  | counted hold =>
      have hsum := countP_set .wait hold
      have hone : SubmitState.count.counts.toNat = 1 := rfl
      have hzero : SubmitState.wait.counts.toNat = 0 := rfl
      refine ⟨hplaced, ?_, h.draining, fun hexit => absurd hexit (h.running hold trivial),
        h.closed_absurd hold id⟩
      show s.queueDepth + 1 + (s.submits.set n .wait).countP SubmitState.counts =
        s.channel.length + uncounted s.phase
      omega
  | answered reply hold => exact h.setSubmit hold hplaced rfl id False.elim
  | idle => exact h

/-- The processor goes on to a phase in which it does not drain and has not exited. -/
theorem Sound.goOn {s' : BatchQueue} (h : s.Sound newV4) (hplaced : s'.Placed newV4)
    (hsubmits : s'.submits = s.submits) (hclosed : s'.closed = s.closed)
    (hcounted : s'.queueDepth + s.submits.countP SubmitState.counts =
      s'.channel.length + uncounted s'.phase)
    (hdrain : s'.phase ≠ .drain) (hexit : s'.phase ≠ .exited) : s'.Sound newV4 where
  placed := hplaced
  counted := by
    rw [hsubmits]
    exact hcounted
  draining := fun hphase => absurd hphase hdrain
  exited := fun hphase => absurd hphase hexit
  closed := by
    rw [hsubmits, hclosed]
    exact h.closed

theorem sound_processor (h : s.Sound newV4) (hids : DistinctIds newV4 s.submits.length) {d : Draw}
    (hclean : s.MoveClean cfg (.processor d)) : (s.processor cfg d).Sound newV4 := by
  have hplaced : (s.processor cfg d).Placed newV4 := placed_processor h.placed hids d
  have hcase := processed cfg s d
  have hcounted := h.counted
  unfold MoveClean at hclean
  generalize s.processor cfg d = s' at hcase hplaced ⊢
  cases hcase with
  | checked hphase =>
      rw [hphase] at hcounted
      cases hdown : s.shutdown with
      | true =>
          rw [hdown] at hplaced
          exact ⟨hplaced, hcounted, fun _ => rfl, nofun, h.closed⟩
      | false =>
          rw [hdown] at hplaced
          exact h.goOn hplaced rfl rfl hcounted nofun nofun
  | drained req rest hphase hchan =>
      rw [hphase, hchan] at hclean
      cases hclean.1
  | stopped hphase hchan =>
      rw [hphase] at hclean hcounted
      exact ⟨hplaced, hcounted, nofun, fun _ => ⟨hchan, hclean.2, .inl (h.draining hphase)⟩,
        h.closed⟩
  | expired hphase =>
      rw [hphase] at hcounted
      exact h.goOn hplaced rfl rfl hcounted nofun nofun
  | first req rest hphase hchan =>
      rw [hphase, hchan] at hcounted
      exact h.goOn hplaced rfl rfl hcounted nofun nofun
  | abandoned hphase hchan hclosed =>
      rw [hphase] at hcounted
      have hnobody : s.NobodyBetween := by
        intro st hst hbetween
        have hret := h.closed hclosed st hst
        cases st with
        | done result => exact hbetween
        | check args => exact hret
        | send req => exact hret
        | count => exact hret
        | wait => exact hret
      exact ⟨hplaced, hcounted, nofun, fun _ => ⟨hchan, hnobody, .inr hclosed⟩, h.closed⟩
  | more batch req rest hphase hchan =>
      rw [hphase, hchan] at hcounted
      refine h.goOn hplaced rfl rfl ?_ nofun nofun
      show s.queueDepth + _ = rest.length + (batch ++ [req]).length
      rw [hcounted, List.length_append, List.length_singleton]
      show rest.length + 1 + batch.length = _
      omega
  | began batch hphase hcomplete =>
      rw [hphase] at hclean hcounted
      have hle : batch.length ≤ s.queueDepth := hclean hcomplete
      refine h.goOn hplaced rfl rfl ?_ nofun nofun
      show s.queueDepth - batch.length + _ = s.channel.length + 0
      have hpending : uncounted (.collect batch) = batch.length := rfl
      omega
  | through W hphase =>
      rw [hphase] at hcounted
      exact h.goOn hplaced rfl rfl hcounted nofun nofun
  | group W model requests groups hphase =>
      rw [hphase] at hcounted
      exact h.goOn hplaced rfl rfl hcounted nofun nofun
  | idle => exact h

theorem sound_step (h : s.Sound newV4) (hids : DistinctIds newV4 s.submits.length) {m : Move}
    (hclean : s.MoveClean cfg m) : (s.step cfg newV4 m).Sound newV4 := by
  have hplaced : (s.step cfg newV4 m).Placed newV4 := placed_step h.placed hids m
  cases m with
  | submit args =>
      unfold BatchQueue.step at hplaced ⊢
      dsimp only at hplaced ⊢
      split at hplaced
      · rename_i hclosed
        rw [if_pos hclosed]
        exact h
      · rename_i hopen
        rw [if_neg hopen]
        refine ⟨hplaced, ?_, h.draining, ?_, fun hclosed => absurd hclosed hopen⟩
        · show s.queueDepth + (s.submits ++ [SubmitState.check args]).countP SubmitState.counts = _
          rw [List.countP_append]
          exact h.counted
        · intro hexit
          obtain ⟨hchan, hnobody, hwhy⟩ := h.exited hexit
          refine ⟨hchan, ?_, hwhy⟩
          intro st hst
          rcases List.mem_append.1 hst with hmem | hmem
          · exact hnobody st hmem
          · rw [List.mem_singleton.1 hmem]
            exact id
  | resume n now => exact sound_resume h n now
  | shutdown =>
      unfold BatchQueue.step at hplaced ⊢
      dsimp only at hplaced ⊢
      split at hplaced
      · rename_i hclosed
        rw [if_pos hclosed]
        exact h
      · rename_i hopen
        rw [if_neg hopen]
        exact ⟨hplaced, h.counted, fun _ => rfl, fun hexit =>
          ⟨(h.exited hexit).1, (h.exited hexit).2.1, .inl rfl⟩, h.closed⟩
  | close =>
      unfold BatchQueue.step at hplaced ⊢
      dsimp only at hplaced ⊢
      split at hplaced
      · rename_i hall
        rw [if_pos hall]
        exact ⟨hplaced, h.counted, h.draining, fun hexit =>
          ⟨(h.exited hexit).1, (h.exited hexit).2.1, .inr rfl⟩, fun _ => hall⟩
      · rename_i hsome
        rw [if_neg hsome]
        exact h
  | processor d => exact sound_processor h hids hclean
  | drop =>
      unfold BatchQueue.step dropProcessor at hplaced ⊢
      dsimp only at hplaced ⊢
      split at hplaced
      · rename_i hphase
        obtain ⟨hchan, hnobody, hwhy⟩ := h.exited hphase
        have hcounted := h.counted
        simp only [hphase] at hplaced hcounted ⊢
        rw [hchan] at hcounted
        exact ⟨hplaced, hcounted, by rintro ⟨⟩, fun _ => ⟨rfl, hnobody, hwhy⟩, h.closed⟩
      · exact h

/-- **The queue settles.**  In every run whose moves are clean, once the processor has exited
nobody waits in vain and `queue_depth` is 0. -/
theorem queue_settles (cfg : BatchConfig) (newV4 : ℕ → Uuid) (ms : List Move)
    (hids : DistinctIds newV4 (run (step cfg newV4) new ms).submits.length)
    (hclean : Along (step cfg newV4) (MoveClean cfg) new ms) :
    Always (step cfg newV4) Settled new ms := by
  have hboth : Along (step cfg newV4)
      (fun s m => DistinctIds newV4 s.submits.length ∧ MoveClean cfg s m) new ms :=
    along_and.2 ⟨along_distinct hids, hclean⟩
  have hsound : Always (step cfg newV4) (Sound newV4) new ms :=
    always_of_inv (fun s m h hm => sound_step h hm.1 hm.2) (sound_new newV4) hboth
  exact fun pre post hsplit => (hsound pre post hsplit).settled

/-- A call is refused after the shutdown, and the processor finds nothing to drain. -/
theorem queue_settles_refused :
    Always (step {} numberedIds) Settled new
      [.submit hello, .shutdown, .resume 0 0, .processor ⟨false, silentWorld⟩,
        .processor ⟨false, silentWorld⟩] :=
  queue_settles {} numberedIds _
    (fun i j hi hj _ => by
      have hone : (run (step {} numberedIds) new [.submit hello, .shutdown, .resume 0 0,
        .processor ⟨false, silentWorld⟩, .processor ⟨false, silentWorld⟩]).submits.length = 1 := rfl
      omega)
    ⟨trivial, trivial, trivial, trivial,
      ⟨rfl, fun st hst => by
        rw [List.mem_singleton.1 (show st ∈ [SubmitState.done (.error .shutdown)] from hst)]
        exact id⟩, trivial⟩

/-! ## What is drained, and what comes late -/

/-- **A drained request stays on the count.**  A request is submitted and counted, the shutdown
flag is set, and the processor drains the channel and exits: `queue_depth` is 1. -/
theorem drained_request_counted :
    ¬ Always (step {} numberedIds) Settled new
      [.submit hello, .resume 0 0, .resume 0 0, .resume 0 0, .shutdown,
        .processor ⟨false, silentWorld⟩, .processor ⟨false, silentWorld⟩,
        .processor ⟨false, silentWorld⟩] := by
  intro h
  have hdepth := (h.last rfl).2
  cases hdepth

/-- A move other than dropping the processor. -/
def Move.Keeps : Move → Prop
  | .drop => False
  | _ => True

/-- The processor has exited, and a call waits without an answer. -/
structure Stranded (n : ReplyTo) (s : BatchQueue) : Prop where
  exited : s.phase = .exited
  waits : s.submits[n]? = some .wait
  unanswered : s.replies.lookup n = none

theorem stranded_set {n k : ReplyTo} {old st : SubmitState} (h : Stranded n s)
    (hold : s.submits[k]? = some old) (hne : old ≠ .wait) :
    (s.submits.set k st)[n]? = some .wait := by
  have hkn : k ≠ n := by
    rintro rfl
    exact hne (Option.some.inj (hold.symm.trans h.waits))
  rw [List.getElem?_set_ne hkn]
  exact h.waits

theorem stranded_step {n : ReplyTo} (h : Stranded n s) {m : Move} (hm : Move.Keeps m) :
    Stranded n (s.step cfg newV4 m) := by
  cases m with
  | submit args =>
      unfold BatchQueue.step
      dsimp only
      split
      · exact h
      · have hlt := (List.getElem?_eq_some_iff.1 h.waits).1
        exact ⟨h.exited, (List.getElem?_append_left hlt).trans h.waits, h.unanswered⟩
  | resume k now =>
      have hcase := resumed cfg newV4 s k now
      show Stranded n (s.resume cfg newV4 k now)
      generalize s.resume cfg newV4 k now = s' at hcase ⊢
      cases hcase with
      | refused args hold => exact ⟨h.exited, stranded_set h hold nofun, h.unanswered⟩
      | passed args hold => exact ⟨h.exited, stranded_set h hold nofun, h.unanswered⟩
      | late req hold => exact ⟨h.exited, stranded_set h hold nofun, h.unanswered⟩
      | sent req hold => exact ⟨h.exited, stranded_set h hold nofun, h.unanswered⟩
      | counted hold => exact ⟨h.exited, stranded_set h hold nofun, h.unanswered⟩
      | answered reply hold hreply =>
          have hkn : k ≠ n := by
            rintro rfl
            rw [h.unanswered] at hreply
            cases hreply
          exact ⟨h.exited, (List.getElem?_set_ne hkn).trans h.waits, h.unanswered⟩
      | idle => exact h
  | shutdown =>
      unfold BatchQueue.step
      dsimp only
      split
      · exact h
      · exact ⟨h.exited, h.waits, h.unanswered⟩
  | close =>
      unfold BatchQueue.step
      dsimp only
      split
      · exact ⟨h.exited, h.waits, h.unanswered⟩
      · exact h
  | processor d =>
      have hidle : s.processor cfg d = s := by
        unfold BatchQueue.processor
        rw [h.exited]
      show Stranded n (s.processor cfg d)
      rw [hidle]
      exact h
  | drop => exact hm.elim

/-- **A late request waits.**  Once the processor has exited, a call that waits without an answer
goes on to wait, whatever happens, for as long as the processor is not dropped. -/
theorem late_request_waits {n : ReplyTo} {ms : List Move} (hms : ∀ m ∈ ms, Move.Keeps m)
    (h : Stranded n s) : Stranded n (run (step cfg newV4) s ms) :=
  run_of_inv (I := Stranded n) (P := fun _ => Move.Keeps) (fun _ _ h hm => stranded_step h hm) h
    (along_of_forall hms)

/-- A request that passed the check before the shutdown is sent after the drain. -/
theorem hello_waits : Stranded 0 (run (step {} numberedIds)
    (run (step {} numberedIds) new [.submit hello, .resume 0 0, .shutdown,
      .processor ⟨false, silentWorld⟩, .processor ⟨false, silentWorld⟩, .resume 0 0, .resume 0 0])
    [.shutdown, .processor ⟨false, silentWorld⟩, .resume 0 0]) :=
  late_request_waits (by simp [Move.Keeps]) ⟨rfl, rfl, rfl⟩

end BatchQueue
end Inference
end PeerClaw
