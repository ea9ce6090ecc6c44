import PeerClaw.Time
import PeerClaw.Encoding
import PeerClaw.Lib.Word
import PeerClaw.Lib.Text

/-!
# Channels: identifiers, signed updates and close requests

The types of `channel/state.rs`, with the bytes each of them signs, and the
identifier of a channel.  Hashing and Ed25519 signatures come from libraries the
repository does not contain: they are the fields of `Primitives`, and nothing
is assumed about them here.

* `SignedUpdate.verify_sign` and `ChannelCloseRequest.verify_new` — what an
  identity signs passes its own check, given that its signatures do.
-/

namespace PeerClaw

open Lib.Word

/-- The cryptographic functions of the libraries, on bytes. -/
structure Primitives where
  /-- `blake3::hash`. -/
  blake3 : List UInt8 → List UInt8
  /-- `SigningKey::sign`, from the secret key and the message. -/
  sign : List UInt8 → List UInt8 → List UInt8
  /-- `VerifyingKey::from_bytes` accepts these bytes. -/
  keyValid : List UInt8 → Bool
  /-- `VerifyingKey::verify`, from the key, the message and the signature. -/
  verify : List UInt8 → List UInt8 → List UInt8 → Bool

/-- What a node signs with, and the name it signs under. -/
structure NodeIdentity where
  signingKey : List UInt8
  peerId : String
  deriving DecidableEq

/-- Unique identifier for a payment channel. -/
structure ChannelId where
  val : String
  deriving DecidableEq, Repr

/-- `ChannelId::from_peers`: the same whichever peer comes first. -/
def ChannelId.fromPeers (P : Primitives) (peerA peerB : String) : ChannelId :=
  let (first, second) := if peerA < peerB then (peerA, peerB) else (peerB, peerA)
  let hash := P.blake3 (utf8 (first ++ ":" ++ second))
  ⟨"chan_" ++ String.ofList ((hexChars hash).take 32)⟩

/-- A channel state update: the balances as its author sees them. -/
structure ChannelUpdate where
  channelId : ChannelId
  nonce : UInt64
  localBalance : UInt64
  remoteBalance : UInt64
  timestamp : DateTime
  deriving DecidableEq

/-- `ChannelUpdate::to_signing_bytes`. -/
def ChannelUpdate.toSigningBytes (u : ChannelUpdate) : List UInt8 :=
  utf8 u.channelId.val ++ leBytes u.nonce ++ leBytes u.localBalance ++ leBytes u.remoteBalance ++
    leBytes u.timestamp.unixSecs

/-- A signed channel update. -/
structure SignedUpdate where
  update : ChannelUpdate
  /-- Hex-encoded signature. -/
  signature : String
  /-- Peer ID of the signer. -/
  signer : String
  deriving DecidableEq

/-- `ChannelUpdate::sign`. -/
def ChannelUpdate.sign (P : Primitives) (u : ChannelUpdate) (identity : NodeIdentity) :
    SignedUpdate :=
  ⟨u, hexEncode (P.sign identity.signingKey u.toSigningBytes), identity.peerId⟩

/-- Check a hex-encoded signature over a message against a hex-encoded key, as both
kinds of signed message do. -/
def verifyHex (P : Primitives) (message : List UInt8) (signature hexPublicKey : String) : Bool :=
  match hexDecode hexPublicKey with
  | none => false
  | some key =>
      if key.length = 32 ∧ P.keyValid key then
        match hexDecode signature with
        | none => false
        | some sig => decide (sig.length = 64) && P.verify key message sig
      else false

/-- `SignedUpdate::verify_with_hex_key`. -/
def SignedUpdate.verifyWithHexKey (P : Primitives) (s : SignedUpdate) (hexPublicKey : String) :
    Bool :=
  verifyHex P s.update.toSigningBytes s.signature hexPublicKey

/-- A signed request to close a channel. -/
structure ChannelCloseRequest where
  channelId : ChannelId
  finalLocalBalance : UInt64
  finalRemoteBalance : UInt64
  nonce : UInt64
  /-- Hex-encoded signature. -/
  signature : String
  /-- Peer ID of the requester. -/
  requester : String
  timestamp : DateTime
  deriving DecidableEq

namespace ChannelCloseRequest

/-- `ChannelCloseRequest::signing_bytes`. -/
def signingBytes (r : ChannelCloseRequest) : List UInt8 :=
  utf8 "close:" ++ utf8 r.channelId.val ++ leBytes r.finalLocalBalance ++
    leBytes r.finalRemoteBalance ++ leBytes r.nonce ++ leBytes r.timestamp.unixSecs

/-- `ChannelCloseRequest::new`. -/
def new (P : Primitives) (timestamp : DateTime) (channelId : ChannelId)
    (localBalance remoteBalance nonce : UInt64) (identity : NodeIdentity) : ChannelCloseRequest :=
  let req : ChannelCloseRequest :=
    ⟨channelId, localBalance, remoteBalance, nonce, "", identity.peerId, timestamp⟩
  { req with signature := hexEncode (P.sign identity.signingKey req.signingBytes) }

/-- `ChannelCloseRequest::verify`. -/
def verify (P : Primitives) (r : ChannelCloseRequest) (hexPublicKey : String) : Bool :=
  verifyHex P r.signingBytes r.signature hexPublicKey

end ChannelCloseRequest

/-! ## What is signed verifies -/

section Honest

/-- The public key belongs to the identity: it is a key, and it verifies the
identity's signatures, which have the length of a signature. -/
structure Primitives.BelongsTo (P : Primitives) (key : List UInt8) (identity : NodeIdentity) :
    Prop where
  length : key.length = 32
  valid : P.keyValid key
  sigLength : ∀ message, (P.sign identity.signingKey message).length = 64
  verifies : ∀ message, P.verify key message (P.sign identity.signingKey message)

variable {P : Primitives} {key : List UInt8} {identity : NodeIdentity}

theorem verifyHex_sign (h : P.BelongsTo key identity) (message : List UInt8) :
    verifyHex P message (hexEncode (P.sign identity.signingKey message)) (hexEncode key) := by
  unfold verifyHex
  simp [hexDecode_hexEncode, h.length, h.valid, h.sigLength, h.verifies]

theorem SignedUpdate.verify_sign (h : P.BelongsTo key identity) (u : ChannelUpdate) :
    (u.sign P identity).verifyWithHexKey P (hexEncode key) :=
  verifyHex_sign h _

theorem ChannelCloseRequest.verify_new (h : P.BelongsTo key identity) (timestamp : DateTime)
    (id : ChannelId) (localBalance remoteBalance nonce : UInt64) :
    (ChannelCloseRequest.new P timestamp id localBalance remoteBalance nonce identity).verify P
      (hexEncode key) :=
  verifyHex_sign h _

end Honest

end PeerClaw

/-!
## What an update and a close request sign

Both kinds of message sign the identifier of their channel, of any length, with four words behind
it; a close request has `close:` before it, and the words in another order.

* `signing_bytes_bind` — the bytes tell the identifier and the words, and those of an update are
  those of no close request.
-/

namespace PeerClaw

open Lib Lib.Word

theorem toSigningBytes_eq (u : ChannelUpdate) :
    u.toSigningBytes = framed (utf8 u.channelId.val)
      [u.nonce, u.localBalance, u.remoteBalance, u.timestamp.unixSecs] := by
  simp [ChannelUpdate.toSigningBytes, framed]

theorem signingBytes_eq (r : ChannelCloseRequest) :
    r.signingBytes = framed (utf8 ("close:" ++ r.channelId.val))
      [r.finalLocalBalance, r.finalRemoteBalance, r.nonce, r.timestamp.unixSecs] := by
  have hid : utf8 ("close:" ++ r.channelId.val) = utf8 "close:" ++ utf8 r.channelId.val := by
    rw [utf8_eq_encode_toList, utf8_eq_encode_toList, utf8_eq_encode_toList, String.toList_append,
      Utf8.encode_append]
  simp [ChannelCloseRequest.signingBytes, framed, hid]

theorem utf8_injective : Function.Injective utf8 := by
  intro s t h
  rw [utf8_eq_encode_toList, utf8_eq_encode_toList] at h
  exact String.toList_inj.1 (Utf8.encode_injective h)

/-- The seconds of two instants are the same if they are as words: they are less than 2^63. -/
theorem timestamp_of_unixSecs {s t : DateTime} (h : s.unixSecs = t.unixSecs) :
    s.timestamp = t.timestamp := by
  have hnat : (s.timestamp % 2 ^ 64).toNat = (t.timestamp % 2 ^ 64).toNat := by
    have hfits : ∀ i : Int, (UInt64.ofInt i).toNat = (i % 2 ^ 64).toNat := by
      intro i
      have hlt : (i % 2 ^ 64).toNat < 2 ^ 64 := by omega
      exact UInt64.toNat_ofNat_of_lt' hlt
    rw [← hfits, ← hfits]
    exact congrArg UInt64.toNat h
  have hs := s.inRange
  have ht := t.inRange
  unfold DateTime.timestamp at hnat ⊢
  simp only [minNanos, maxNanos, nanosPerSec] at hs ht hnat ⊢
  omega

theorem ChannelId.eq_of_val {a b : ChannelId} (h : a.val = b.val) : a = b := by
  cases a
  cases b
  exact congrArg ChannelId.mk h

/-- **What the bytes bind.**  Two updates that sign the same bytes are for the same channel and have
the same nonce, balances and seconds, and so do two close requests; and an update and a close
request never sign the same bytes where the update is for a channel that is named as channels are:
what is signed for one is not for the other. -/
theorem signing_bytes_bind (u u' : ChannelUpdate) (r r' : ChannelCloseRequest) :
    (u.toSigningBytes = u'.toSigningBytes →
      u.channelId = u'.channelId ∧ u.nonce = u'.nonce ∧ u.localBalance = u'.localBalance ∧
        u.remoteBalance = u'.remoteBalance ∧ u.timestamp.timestamp = u'.timestamp.timestamp) ∧
    (r.signingBytes = r'.signingBytes →
      r.channelId = r'.channelId ∧ r.nonce = r'.nonce ∧
        r.finalLocalBalance = r'.finalLocalBalance ∧
        r.finalRemoteBalance = r'.finalRemoteBalance ∧
        r.timestamp.timestamp = r'.timestamp.timestamp) ∧
    (Text.startsWith u.channelId.val "chan_" → u.toSigningBytes ≠ r.signingBytes) := by
  refine ⟨fun h => ?_, fun h => ?_, fun hname h => ?_⟩
  · rw [toSigningBytes_eq, toSigningBytes_eq] at h
    obtain ⟨hid, hwords⟩ := framed_inj h rfl
    simp only [List.cons.injEq, and_true] at hwords
    obtain ⟨hnonce, hlocal, hremote, hsecs⟩ := hwords
    exact ⟨ChannelId.eq_of_val (utf8_injective hid), hnonce, hlocal, hremote, timestamp_of_unixSecs hsecs⟩
  · rw [signingBytes_eq, signingBytes_eq] at h
    obtain ⟨hid, hwords⟩ := framed_inj h rfl
    simp only [List.cons.injEq, and_true] at hwords
    obtain ⟨hlocal, hremote, hnonce, hsecs⟩ := hwords
    have hnames := congrArg String.toList (utf8_injective hid)
    rw [String.toList_append, String.toList_append] at hnames
    have hval := String.toList_inj.1 (List.append_cancel_left hnames)
    exact ⟨ChannelId.eq_of_val hval, hnonce, hlocal, hremote, timestamp_of_unixSecs hsecs⟩
  · rw [toSigningBytes_eq, signingBytes_eq] at h
    -- the identifier of the update would begin with that of the close request
    have hid := congrArg String.toList (utf8_injective (framed_inj h rfl).1)
    rw [Text.startsWith, List.isPrefixOf_iff_prefix, hid, String.toList_append] at hname
    obtain ⟨rest, hrest⟩ := hname
    have hsecond : some 'h' = some 'l' := congrArg (fun cs => cs[1]?) hrest
    exact absurd hsecond (by decide)

section Example

private def paid : ChannelUpdate := ⟨⟨"chan_ab"⟩, 1, 90, 10, .epoch⟩

private def closed : ChannelCloseRequest := ⟨⟨"chan_ab"⟩, 90, 10, 1, "", "peer", .epoch⟩

/-- An update, and a request to close the channel at its balances and its nonce. -/
theorem signing_bytes_bind_closed : paid.toSigningBytes ≠ closed.signingBytes :=
  (signing_bytes_bind paid paid closed closed).2.2 (by decide)

end Example

end PeerClaw
