import PeerClaw.Channel.Transitions
import PeerClaw.Channel.Closing
import PeerClaw.Lib.Machine

/-!
# Replayed updates

What stands between a manager and the replay of a signed update is the nonce of
the channel it names: an update is accepted only at the next nonce.  But the
name of a channel depends on the two peers alone, and a channel that is opened
again starts over at nonce zero.

* `reopened_channel_replays` — an update accepted before a channel was closed is
  accepted again after it was reopened.
* `accepted_once` — no update is ever accepted twice in a run in which no
  channel is opened over one that has accepted an update, and no nonce wraps.
-/

namespace PeerClaw
namespace Manager

open Lib Lib.Word Lib.Machine

/-- The update a call accepts, if it does. -/
def acceptedBy (env : ManagerEnv) (m : ChannelManager) : Call → List ChannelUpdate
  | .receivePayment now s =>
      if (receivePayment env now s m).outcome.isOk then [s.update] else []
  | _ => []

/-- The call neither opens a channel over one that has accepted an update nor uses a
nonce past the last. -/
structure KeepsNonces (env : ManagerEnv) (m : ChannelManager) (call : Call) : Prop where
  reopens : ∀ draw now remotePeer capacity durationHours c,
    call = .openChannel draw now remotePeer capacity durationHours →
    (openChannel env draw now remotePeer capacity durationHours m).outcome = .ok c →
    ∀ old, m.channels.lookup c.id = some old → old.latestRemoteSignature = none
  counts : ∀ id c, m.channels.lookup id = some c →
    (∀ s, Receives env m id call s → ¬ Exhausted c) ∧
      ∀ amount, Pays id c call amount → ¬ Exhausted c

/-- What an update is told apart by: its channel and its nonce. -/
def key (u : ChannelUpdate) : ChannelId × UInt64 := (u.channelId, u.nonce)

/-- The channel has gone past this nonce, and has accepted an update. -/
def Seen (m : ChannelManager) (k : ChannelId × UInt64) : Prop :=
  ∃ c, m.channels.lookup k.1 = some c ∧ c.latestRemoteSignature ≠ none ∧
    k.2.toNat ≤ c.nonce.toNat

theorem mem_acceptedBy {env : ManagerEnv} {m : ChannelManager} {call : Call} {u : ChannelUpdate}
    (h : u ∈ acceptedBy env m call) : ∃ s, s.update = u ∧ Receives env m u.channelId call s := by
  cases call with
  | receivePayment now s =>
      simp only [acceptedBy] at h
      split at h
      · rename_i hok
        rw [List.mem_singleton.1 h]
        obtain ⟨u, ho⟩ := Outcome.isOk_iff.1 hok
        exact ⟨s, rfl, now, rfl, rfl, (receivePayment_spec env now s m).1.1 ho⟩
      · cases h
  | _ => cases h

theorem not_seen_of_receives {env : ManagerEnv} {m : ChannelManager} {call : Call}
    {s : SignedUpdate} (hkeeps : KeepsNonces env m call)
    (h : Receives env m s.update.channelId call s) : ¬ Seen m (key s.update) := by
  rintro ⟨c, hc, -, hle⟩
  obtain ⟨now, hacc⟩ := accepts_of_receives h hc
  have hleft := ((hkeeps.counts _ c hc).1 s h)
  have hnext := toNat_succ hleft
  have hnonce : s.update.nonce.toNat = (c.nonce + 1).toNat := by rw [hacc.2.1]
  have hle' : s.update.nonce.toNat ≤ c.nonce.toNat := hle
  omega

theorem seen_of_receives {env : ManagerEnv} {m : ChannelManager} {call : Call} {s : SignedUpdate}
    (h : Receives env m s.update.channelId call s) : Seen (step env m call) (key s.update) := by
  obtain ⟨now, rfl, -, hacc⟩ := h
  obtain ⟨hiff, hstate, -⟩ := receivePayment_spec env now s m
  have hstored := hacc
  obtain ⟨c, hc, -⟩ := hstored
  refine ⟨received c s, ?_, Option.some_ne_none _, le_refl _⟩
  rw [step_receivePayment, hstate (hiff.2 hacc) c hc]
  exact Finmap.lookup_insert _

theorem seen_step {env : ManagerEnv} {m : ChannelManager} {call : Call} {k : ChannelId × UInt64}
    (hkeeps : KeepsNonces env m call) (h : Seen m k) : Seen (step env m call) k := by
  obtain ⟨c, hc, hsig, hle⟩ := h
  by_cases hcall : call.KeepsChannels
  · obtain ⟨c', hc', hmoves⟩ := channel_moves hcall hc
    refine ⟨c', hc', ?_⟩
    cases hmoves with
    | paid amount hpay =>
        have hnext := toNat_succ ((hkeeps.counts _ c hc).2 amount hpay)
        refine ⟨hsig, ?_⟩
        show k.2.toNat ≤ (c.nonce + 1).toNat
        omega
    | received s hreceive =>
        obtain ⟨now, hacc⟩ := accepts_of_receives hreceive hc
        have hnext := toNat_succ ((hkeeps.counts _ c hc).1 s hreceive)
        refine ⟨Option.some_ne_none _, ?_⟩
        show k.2.toNat ≤ s.update.nonce.toNat
        rw [hacc.2.1]
        omega
    | restatus status hpay hreceive hclosed => exact ⟨hsig, hle⟩
  · cases call with
    | openChannel draw now remotePeer capacity durationHours =>
        rw [step, exec, Action.map_apply]
        rcases openChannel_cases env m draw now remotePeer capacity durationHours with
          ⟨new, hok, hopened⟩ | ⟨-, w, hstate⟩
        · have hne : k.1 ≠ new.id := by
            intro heq
            rw [heq] at hc
            exact hsig (hkeeps.reopens _ _ _ _ _ new rfl hok c hc)
          refine ⟨c, ?_, hsig, hle⟩
          rw [hopened.leaves]
          exact (Finmap.lookup_insert_of_ne _ hne).trans hc
        · refine ⟨c, ?_, hsig, hle⟩
          rw [hstate]
          exact hc
    | _ => exact absurd trivial hcall

/-- **No replay.**  In a run from any manager in which no channel is opened over one
that has accepted an update and no nonce wraps, the accepted updates differ
pairwise, already in their channel or their nonce. -/
theorem accepted_once (env : ManagerEnv) {m : ChannelManager} {calls : List Call}
    (h : Along (step env) (KeepsNonces env) m calls) :
    (collect (step env) (acceptedBy env) m calls).Nodup ∧
      ((collect (step env) (acceptedBy env) m calls).map key).Nodup := by
  have hfresh : ∀ m call, True → KeepsNonces env m call →
      ((acceptedBy env m call).map key).Nodup ∧
        ∀ k ∈ (acceptedBy env m call).map key, ¬ Seen m k := by
    intro m call _ hkeeps
    constructor
    · unfold acceptedBy
      split
      · split <;> simp
      · simp
    · intro k hk
      obtain ⟨u, hu, rfl⟩ := List.mem_map.1 hk
      obtain ⟨s, rfl, hreceives⟩ := mem_acceptedBy hu
      exact not_seen_of_receives hkeeps hreceives
  have hmark : ∀ m call, True → KeepsNonces env m call →
      ∀ k ∈ (acceptedBy env m call).map key, Seen (step env m call) k := by
    intro m call _ _ k hk
    obtain ⟨u, hu, rfl⟩ := List.mem_map.1 hk
    obtain ⟨s, rfl, hreceives⟩ := mem_acceptedBy hu
    exact seen_of_receives hreceives
  have hkeep : ∀ m call k, True → KeepsNonces env m call → Seen m k → Seen (step env m call) k :=
    fun _ _ _ _ hkeeps hseen => seen_step hkeeps hseen
  have hkeys := collect_nodup Seen (fun _ _ _ _ => trivial) hfresh hmark hkeep trivial h
  rw [collect_map] at hkeys
  exact ⟨List.Nodup.of_map _ hkeys.1, hkeys.1⟩

section Example

open Sample

private def once : List Call :=
  openBob "escrow" :: confirming ++ [.receivePayment .epoch (fromBob 1 0 40)]

private theorem once_keepsNonces : Along (step env) (KeepsNonces env) funded once := by
  refine ⟨⟨?_, ?_⟩, ⟨?_, ?_⟩, ⟨?_, ?_⟩, ⟨?_, ?_⟩, trivial⟩
  · intro draw now remotePeer capacity durationHours c _ _ old hold
    cases hold
  · intro id c hc
    cases hc
  · rintro draw now remotePeer capacity durationHours c ⟨⟩
  · rintro id c -
    exact ⟨by rintro s ⟨_, ⟨⟩, -⟩, by rintro amount ⟨_, _, ⟨⟩, -⟩⟩
  · rintro draw now remotePeer capacity durationHours c ⟨⟩
  · rintro id c -
    exact ⟨by rintro s ⟨_, ⟨⟩, -⟩, by rintro amount ⟨_, _, ⟨⟩, -⟩⟩
  · rintro draw now remotePeer capacity durationHours c ⟨⟩
  · intro id c hc
    refine ⟨?_, by rintro amount ⟨_, _, ⟨⟩, -⟩⟩
    rintro s ⟨now, hcall, hid, -⟩ hmax
    cases hcall
    have hstored : confirmed.channels.lookup id = some c := hc
    rw [← hid] at hstored
    have hsame := Option.some.inj (confirmed_channel.symm.trans hstored)
    rw [← hsame] at hmax
    exact absurd hmax (by unfold Exhausted; decide)

/-- A run that accepts one update. -/
theorem accepted_once_example :
    (collect (step env) (acceptedBy env) funded once).Nodup :=
  (accepted_once env once_keepsNonces).1

/-- Pay bob five, and get back three. -/
private def exchange : List Call :=
  [.pay .epoch .epoch channelId 5, .receivePayment .epoch (fromBob 2 2 38)]

/-- Close the channel on bob's request, open it again and have it confirmed. -/
private def reopening : List Call :=
  [.finalizeClose channelId (.new primitives .epoch channelId 2 38 2 bob), openBob "again",
    .confirmChannel channelId]

private def replaying : List Call :=
  openBob "escrow" :: confirming ++ exchange ++ reopening ++ exchange

/-- **An update is replayed**: what bob signed before the channel was closed is
accepted again, nonce and all, once it has been reopened. -/
theorem reopened_channel_replays :
    collect (step env) (acceptedBy env) funded replaying =
        [(fromBob 2 2 38).update, (fromBob 2 2 38).update] ∧
      ¬ (collect (step env) (acceptedBy env) funded replaying).Nodup := by
  have htwice : collect (step env) (acceptedBy env) funded replaying =
      [(fromBob 2 2 38).update, (fromBob 2 2 38).update] := by
    decide +kernel
  refine ⟨htwice, ?_⟩
  rw [htwice]
  simp

end Example

end Manager
end PeerClaw
