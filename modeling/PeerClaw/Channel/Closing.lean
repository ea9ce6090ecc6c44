import PeerClaw.Channel.Transitions

/-!
# Cooperative close

`finalize_close` verifies the signature on the request and compares the sum of
its balances with the capacity.  It never looks at the request's channel, at
its nonce or at how it splits the capacity.

* `finalizeClose_spec` — when it succeeds, what it leaves, and that a rejection
  leaves everything as it was.
* `finalize_matches_iff` — it succeeds on nothing but a request for the current
  state exactly when the request, should it pass the checks that are made,
  agrees with the channel in the fields that are not looked at.
-/

namespace PeerClaw
namespace Manager

open Lib Lib.Word

/-- The checks of `finalize_close`. -/
def CloseChecks (env : ManagerEnv) (m : ChannelManager) (id : ChannelId)
    (r : ChannelCloseRequest) (c : PaymentChannel) : Prop :=
  m.channels.lookup id = some c ∧ (c.status = .closing ∨ c.status = .open) ∧
    (∃ key, m.peerPublicKeys.lookup c.remotePeer = some key ∧ r.verify env.primitives key) ∧
    r.finalLocalBalance + r.finalRemoteBalance = c.capacity

/-- What the close leaves of a manager. -/
def closedIn (m : ChannelManager) (id : ChannelId) (c : PaymentChannel) : ChannelManager :=
  { m with
    channels := m.channels.insert id { c with status := .closed }
    byPeer := m.byPeer.erase c.remotePeer }

theorem settleRequest_ok_iff {env : ManagerEnv} {m : ChannelManager} {id : ChannelId}
    {r : ChannelCloseRequest} {peer : String} :
    (settleRequest env id r m).outcome = .ok peer ↔
      ∃ c, CloseChecks env m id r c ∧ peer = c.remotePeer := by
  unfold settleRequest
  rw [onChannel_ok_iff]
  constructor
  · rintro ⟨c, c', hc, hf⟩
    obtain ⟨hst, hf⟩ := PaymentChannel.guard_ok_iff.1 hf
    cases hkey : m.peerPublicKeys.lookup c.remotePeer with
    | none => rw [hkey] at hf; cases hf
    | some key =>
        rw [hkey] at hf
        obtain ⟨hv, hf⟩ := PaymentChannel.guard_ok_iff.1 hf
        obtain ⟨hsum, hf⟩ := PaymentChannel.guard_ok_iff.1 hf
        cases hf
        exact ⟨c, ⟨hc, not_not.1 hst, ⟨key, hkey, by simpa using hv⟩, not_not.1 hsum⟩, rfl⟩
  · rintro ⟨c, ⟨hc, hst, ⟨key, hkey, hv⟩, hsum⟩, rfl⟩
    refine ⟨c, { c with status := .closed }, hc, ?_⟩
    rw [PaymentChannel.guard_ok_iff, hkey]
    refine ⟨not_not.2 hst, ?_⟩
    dsimp only
    rw [PaymentChannel.guard_ok_iff, PaymentChannel.guard_ok_iff]
    exact ⟨by simpa using hv, not_not.2 hsum, rfl⟩

theorem settleRequest_state {env : ManagerEnv} {m : ChannelManager} {id : ChannelId}
    {r : ChannelCloseRequest} {c : PaymentChannel} (h : CloseChecks env m id r c) :
    (settleRequest env id r m).state =
      { m with channels := m.channels.insert id { c with status := .closed } } := by
  obtain ⟨hc, hst, ⟨key, hkey, hv⟩, hsum⟩ := h
  unfold settleRequest
  refine congrArg Effect.state (onChannel_state_of_ok (a := c.remotePeer) hc ?_)
  rw [if_neg (not_not.2 hst), hkey]
  simp [hv, hsum]

/-- **When a channel is closed cooperatively**: exactly when the checks pass; it is
then `Closed` and no longer indexed, and otherwise nothing has changed. -/
theorem finalizeClose_spec (env : ManagerEnv) (id : ChannelId) (r : ChannelCloseRequest)
    (m : ChannelManager) :
    ((finalizeClose env id r m).outcome = .ok () ↔ ∃ c, CloseChecks env m id r c) ∧
      (∀ c, CloseChecks env m id r c → (finalizeClose env id r m).state = closedIn m id c) ∧
      ((finalizeClose env id r m).outcome ≠ .ok () → (finalizeClose env id r m).state = m) := by
  by_cases h : ∃ c, CloseChecks env m id r c
  · obtain ⟨c, hc⟩ := h
    have hok := settleRequest_ok_iff.2 ⟨c, hc, rfl⟩
    have hbind : finalizeClose env id r m = ⟨.ok (), closedIn m id c,
        (settleRequest env id r m).arith ++ []⟩ := by
      show (settleRequest env id r >>= unindexPeer) m = _
      rw [Action.bind_of_ok hok, settleRequest_state hc]
      rfl
    rw [hbind]
    refine ⟨⟨fun _ => ⟨c, hc⟩, fun _ => rfl⟩, fun d hd => ?_, fun hne => absurd rfl hne⟩
    have heq : d = c := by
      have hlook := hd.1
      rw [hc.1] at hlook
      exact (Option.some.inj hlook).symm
    rw [heq]
  · have hfalse : (settleRequest env id r m).outcome.isOk = false := by
      rcases (settleRequest env id r m).outcome.ok_or_not with ⟨peer, ho⟩ | ho
      · obtain ⟨c, hc, -⟩ := settleRequest_ok_iff.1 ho
        exact absurd ⟨c, hc⟩ h
      · exact ho
    obtain ⟨hout, hst, -⟩ := Action.bind_of_not_ok (f := unindexPeer) hfalse
    refine ⟨⟨fun hok => ?_, fun hex => absurd hex h⟩, fun c hc => absurd ⟨c, hc⟩ h, fun _ => ?_⟩
    · exact absurd hok (Outcome.ne_ok hout ())
    · show ((settleRequest env id r >>= unindexPeer) m).state = m
      rw [hst]
      exact onChannel_state_of_not_ok hfalse

/-! ## Closing either way -/

/-- The checks of `force_close_expired`. -/
def ExpireChecks (m : ChannelManager) (now : DateTime) (id : ChannelId) (c : PaymentChannel) :
    Prop :=
  m.channels.lookup id = some c ∧ c.isExpired now ∧ c.status ≠ .closed

theorem expireChannel_ok_iff {m : ChannelManager} {now : DateTime} {id : ChannelId}
    {peer : String} : (expireChannel now id m).outcome = .ok peer ↔
      ∃ c, ExpireChecks m now id c ∧ peer = c.remotePeer := by
  unfold expireChannel
  rw [onChannel_ok_iff]
  constructor
  · rintro ⟨c, c', hc, hf⟩
    obtain ⟨hexp, hf⟩ := PaymentChannel.guard_ok_iff.1 hf
    obtain ⟨hst, hf⟩ := PaymentChannel.guard_ok_iff.1 hf
    cases hf
    exact ⟨c, ⟨hc, by simpa using hexp, hst⟩, rfl⟩
  · rintro ⟨c, ⟨hc, hexp, hst⟩, rfl⟩
    refine ⟨c, { c with status := .closed }, hc, ?_⟩
    rw [PaymentChannel.guard_ok_iff, PaymentChannel.guard_ok_iff]
    exact ⟨by simpa using hexp, hst, rfl⟩

theorem expireChannel_state {m : ChannelManager} {now : DateTime} {id : ChannelId}
    {c : PaymentChannel} (h : ExpireChecks m now id c) : (expireChannel now id m).state =
      { m with channels := m.channels.insert id { c with status := .closed } } := by
  obtain ⟨hc, hexp, hst⟩ := h
  unfold expireChannel
  refine congrArg Effect.state (onChannel_state_of_ok (a := c.remotePeer) hc ?_)
  simp [hexp, hst]

/-- The call closes the channel. -/
def Closes (env : ManagerEnv) (m : ChannelManager) (id : ChannelId) (call : Call) : Prop :=
  (∃ r, call = .finalizeClose id r ∧ (finalizeClose env id r m).outcome = .ok ()) ∨
    ∃ now, call = .forceCloseExpired now id ∧ (forceCloseExpired now id m).outcome = .ok ()

/-- A call that closes the channel does that, drops it from the index, and nothing
else. -/
theorem step_of_closes {env : ManagerEnv} {m : ChannelManager} {id : ChannelId} {call : Call}
    (h : Closes env m id call) :
    ∃ c, m.channels.lookup id = some c ∧ step env m call = closedIn m id c := by
  rcases h with ⟨r, rfl, hok⟩ | ⟨now, rfl, hok⟩
  · obtain ⟨hiff, hstate, -⟩ := finalizeClose_spec env id r m
    obtain ⟨c, hc⟩ := hiff.1 hok
    refine ⟨c, hc.1, ?_⟩
    rw [step, exec, Action.map_apply]
    exact hstate c hc
  · rcases (expireChannel now id m).outcome.ok_or_not with ⟨peer, ho⟩ | ho
    · obtain ⟨c, hc, hpeer⟩ := expireChannel_ok_iff.1 ho
      refine ⟨c, hc.1, ?_⟩
      rw [step, exec, Action.map_apply]
      show ((expireChannel now id >>= unindexPeer) m).state = _
      rw [Action.bind_of_ok ho, expireChannel_state hc, hpeer]
      rfl
    · have hout := (Action.bind_of_not_ok (f := unindexPeer) ho).1
      exact absurd hok (Outcome.ne_ok hout ())

/-! ## Requests for the current state -/

/-- The request is one for what the channel is now: it names the channel, carries
its nonce, and its balances are the channel's, seen from the other side. -/
def IsCurrent (id : ChannelId) (c : PaymentChannel) (r : ChannelCloseRequest) : Prop :=
  r.channelId = id ∧ r.nonce = c.nonce ∧ r.finalLocalBalance = c.remoteBalance ∧
    r.finalRemoteBalance = c.localBalance

instance (id : ChannelId) (c : PaymentChannel) (r : ChannelCloseRequest) :
    Decidable (IsCurrent id c r) :=
  inferInstanceAs (Decidable (_ ∧ _ ∧ _ ∧ _))

/-- Closing with this request is safe: it succeeds only on a request for the current
state, and a rejection leaves the channels and the index as they were. -/
def ClosesCurrent (env : ManagerEnv) (m : ChannelManager) (id : ChannelId)
    (r : ChannelCloseRequest) : Prop :=
  ((finalizeClose env id r m).outcome = .ok () →
    ∃ c, m.channels.lookup id = some c ∧ IsCurrent id c r) ∧
  ((finalizeClose env id r m).outcome ≠ .ok () →
    (finalizeClose env id r m).state.channels = m.channels ∧
      (finalizeClose env id r m).state.byPeer = m.byPeer)

/-- **When a close is safe.**  In every state and for every request, exactly when a
request that has the right status, signature and sum is also one for this
channel, at its nonce, splitting the capacity as the channel does. -/
theorem finalize_matches_iff (env : ManagerEnv) (m : ChannelManager) (id : ChannelId)
    (r : ChannelCloseRequest) :
    ClosesCurrent env m id r ↔ ∀ c, CloseChecks env m id r c → IsCurrent id c r := by
  obtain ⟨hiff, -, hkeep⟩ := finalizeClose_spec env id r m
  constructor
  · rintro ⟨hok, -⟩ c hc
    obtain ⟨d, hd, hcurrent⟩ := hok (hiff.2 ⟨c, hc⟩)
    rw [hc.1] at hd
    cases hd
    exact hcurrent
  · intro h
    refine ⟨fun hok => ?_, fun hne => ?_⟩
    · obtain ⟨c, hc⟩ := hiff.1 hok
      exact ⟨c, hc.1, h c hc⟩
    · rw [hkeep hne]
      exact ⟨rfl, rfl⟩

section Example

open Sample

/-- After a payment of five. -/
private def paidFive : ChannelManager := step env confirmed (.pay .epoch .epoch channelId 5)

/-- What bob signed before that payment. -/
private def staleRequest : ChannelCloseRequest :=
  .new primitives .epoch channelId 0 40 0 bob

/-- **A stale request closes the channel**: signed at nonce 0 for a balance of zero and
forty, it is accepted at nonce 1 with five and thirty-five. -/
theorem stale_request_closes :
    (finalizeClose env channelId staleRequest paidFive).outcome = .ok () ∧
      ((paidFive.channels.lookup channelId).map fun c =>
        (c.nonce, c.localBalance, c.remoteBalance)) = some (1, 35, 5) ∧
      ¬ ClosesCurrent env paidFive channelId staleRequest := by
  have hstored : paidFive.channels.lookup channelId = some (confirmedChannel.paid 5) := by decide
  have hchecks : CloseChecks env paidFive channelId staleRequest (confirmedChannel.paid 5) := by
    refine ⟨hstored, by decide, ⟨hexEncode bob.signingKey, rfl, ?_⟩, by decide⟩
    exact ChannelCloseRequest.verify_new bob_key ..
  have hok := (finalizeClose_spec env channelId staleRequest paidFive).1.2 ⟨_, hchecks⟩
  refine ⟨hok, by decide, ?_⟩
  intro hsafe
  obtain ⟨c, hc, hcurrent⟩ := hsafe.1 hok
  rw [hstored] at hc
  cases hc
  exact absurd hcurrent (by decide)

end Example

end Manager
end PeerClaw
