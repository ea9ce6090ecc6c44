import Mathlib.Data.UInt
import PeerClaw.Lib.Text

/-!
# Payment proofs of the proxy

What `proxy/payment.rs` reads from the headers of a request, and when it is satisfied
with it.  A proof names an amount, and nothing of it is compared with the wallet or a
channel.

* `PaymentProof.fromHeaders` — the first of three headers that is there decides.
* `PaymentProof.verify` — the amount, and the parts that must not be empty.
-/

namespace PeerClaw
namespace Proxy

open Lib

/-- Payment method for proxy requests. -/
inductive PaymentMethod
  | direct (proofId : String) (amount : UInt64) (signature : String)
  | channel (channelId : String) (nonce amount : UInt64) (signature : String)
  | prepaid (accountId apiKey : String)
  deriving DecidableEq

/-- The headers of a request that the proxy reads, where they are there and are text. -/
structure ProxyHeaders where
  clientId : Option String
  paymentProof : Option String
  channelPayment : Option String
  authorization : Option String
  deriving DecidableEq

/-- A number in decimal digits, with or without a plus sign, that fits in 64 bits. -/
def parseU64 (s : String) : Option UInt64 :=
  let digits := if s.toList.head? = some '+' then s.toList.tail else s.toList
  if digits ≠ [] ∧ digits.all Char.isDigit then
    let n := digits.foldl (fun n c => 10 * n + (c.toNat - '0'.toNat)) 0
    if n < 2 ^ 64 then some n.toUInt64 else none
  else none

/-- Drop a prefix that is not empty, as often as it is there; each round takes at least one
character. -/
def trimStartMatches (pre : List Char) : ℕ → List Char → List Char
  | 0, cs => cs
  | fuel + 1, cs =>
      if pre.isPrefixOf cs then trimStartMatches pre fuel (cs.drop pre.length) else cs

def splitColon (s : String) : List String := (s.toList.splitOn ':').map String.ofList

namespace PaymentProof

/-- Parse a direct payment proof. -/
def parseProof (proof : String) : Option PaymentMethod :=
  match splitColon proof with
  | kind :: proofId :: amount :: signature :: _ =>
      if kind = "direct" then (parseU64 amount).map fun a => .direct proofId a signature else none
  | _ => none

/-- Parse a channel payment proof. -/
def parseChannelPayment (payment : String) : Option PaymentMethod :=
  match splitColon payment with
  | channelId :: nonce :: amount :: signature :: _ =>
      (parseU64 nonce).bind fun n => (parseU64 amount).map fun a =>
        .channel channelId n a signature
  | _ => none

/-- Extract payment proof from HTTP headers. -/
def fromHeaders (headers : ProxyHeaders) : Option PaymentMethod :=
  match headers.paymentProof, headers.channelPayment, headers.authorization with
  | some proof, _, _ => parseProof proof
  | none, some payment, _ => parseChannelPayment payment
  | none, none, some auth =>
      if Text.startsWith auth "Bearer " then
        -- the account would be looked up later
        some (.prepaid "" (String.ofList
          (trimStartMatches "Bearer ".toList auth.length auth.toList)))
      else none
  | none, none, none => none

/-- Verify the payment proof against the required amount. -/
def verify (method : PaymentMethod) (requiredAmount : UInt64) : Except String Bool :=
  match method with
  | .direct proofId amount signature =>
      if amount < requiredAmount then .ok false
      else if signature = "" then .error "Empty signature"
      else if proofId = "" then .error "Empty proof ID"
      else .ok true
  | .channel channelId _ amount signature =>
      if amount < requiredAmount then .ok false
      else if signature = "" ∨ channelId = "" then .error "Invalid channel payment"
      else .ok true
  | .prepaid _ apiKey => if apiKey = "" then .error "Empty API key" else .ok true

example : fromHeaders ⟨none, some "direct:proof123:1000000:sig456", none, none⟩ =
    some (.direct "proof123" 1000000 "sig456") := by decide

end PaymentProof
end Proxy
end PeerClaw
