import PeerClaw.Lib.Machine
import PeerClaw.Lib.Batching
import PeerClaw.Lib.Text

/-!
# Providers and their manifests

`p2p/provider.rs` and `p2p/provider_tracker.rs`: a provider advertises its models
in manifests, which gossip delivers in any order, and `ProviderTracker` keeps one
manifest for each peer, the one that it stored last.

* `ProviderTracker.updateProvider` — stores a manifest that is not expired, over
  whatever is there.
* `pruneStale` — drops the expired ones; nothing calls it but its caller.
* `findProviders`, `allProviders`, `canRequest` — what is reported; none of them
  looks at the age of a manifest.

The clock is read once in a call, and may show anything.
-/

namespace PeerClaw

open Lib

/-! ## Manifests -/

/-- Backend type for the LLM provider. -/
inductive ProviderBackend
  | ollama
  | gguf
  | openAiCompatible
  deriving DecidableEq

/-- A single model offering from a provider. -/
structure ModelOffering where
  modelName : String
  contextSize : UInt32
  pricePer1kTokens : UInt64
  maxTokensPerRequest : UInt32
  quantization : Option String
  backend : ProviderBackend
  deriving DecidableEq

/-- Rate limits for a provider. -/
structure ProviderRateLimits where
  maxRequestsPerHour : UInt32
  maxTokensPerDay : UInt64
  maxConcurrentRequests : UInt32
  deriving DecidableEq

/-- A provider's advertisement of available models and rate limits. -/
structure ProviderManifest where
  peerId : String
  models : List ModelOffering
  rateLimits : ProviderRateLimits
  timestamp : UInt64
  signature : List UInt8
  deriving DecidableEq

/-- Saturating subtraction on `u64`. -/
def satSub64 (a b : UInt64) : UInt64 := if b ≤ a then a - b else 0

theorem toNat_satSub64 (a b : UInt64) : (satSub64 a b).toNat = a.toNat - b.toNat := by
  unfold satSub64
  split
  · rename_i hle
    exact UInt64.toNat_sub_of_le _ _ hle
  · rename_i hlt
    have hle : a.toNat ≤ b.toNat := le_of_lt (UInt64.lt_iff_toNat_lt.1 (UInt64.not_le.1 hlt))
    rw [Nat.sub_eq_zero_of_le hle]
    rfl

/-- Maximum age of a provider manifest before it's considered stale (10 minutes). -/
def manifestMaxAgeSecs : UInt64 := 600

namespace ProviderManifest

/-- Check if this manifest is expired (older than `maxAgeSecs`). -/
def isExpired (maxAgeSecs now : UInt64) (m : ProviderManifest) : Bool :=
  decide (maxAgeSecs < satSub64 now m.timestamp)

/-- Find an offering for a specific model. -/
def findModel (casing : Text.Casing) (modelName : String) (m : ProviderManifest) :
    Option ModelOffering :=
  let needle := casing.toLowercase modelName
  m.models.find? fun offering =>
    let name := casing.toLowercase offering.modelName
    name == needle || Text.contains name needle || Text.contains needle name

theorem isExpired_iff {maxAgeSecs now : UInt64} {m : ProviderManifest} :
    m.isExpired maxAgeSecs now = true ↔ m.timestamp.toNat + maxAgeSecs.toNat < now.toNat := by
  unfold isExpired
  rw [decide_eq_true_iff, UInt64.lt_iff_toNat_lt, toNat_satSub64]
  omega

end ProviderManifest

/-! ## The tracker -/

/-- Tracks usage for rate limiting. -/
structure UsageCounter where
  requestsThisHour : UInt32
  tokensThisDay : UInt64
  hourStart : UInt64
  dayStart : UInt64

/-- `UsageCounter::default`. -/
def UsageCounter.default : UsageCounter := ⟨0, 0, 0, 0⟩

/-- `UsageCounter::reset_if_needed`; the subtractions wrap, as they do in a release build. -/
def UsageCounter.resetIfNeeded (now : UInt64) (u : UsageCounter) : UsageCounter :=
  let u := if 3600 ≤ now - u.hourStart then { u with requestsThisHour := 0, hourStart := now } else u
  if 86400 ≤ now - u.dayStart then { u with tokensThisDay := 0, dayStart := now } else u

/-- Tracks all known LLM providers on the network. -/
structure ProviderTracker where
  providers : FiniteMap String ProviderManifest
  usageCounts : FiniteMap String UsageCounter

namespace ProviderTracker

/-- `ProviderTracker::new`. -/
def new : ProviderTracker := ⟨∅, ∅⟩

/-- Update or add a provider from a received manifest. -/
def updateProvider (now : UInt64) (manifest : ProviderManifest) (t : ProviderTracker) :
    ProviderTracker :=
  if manifest.isExpired manifestMaxAgeSecs now then t
  else { t with providers := t.providers.insert manifest.peerId manifest }

/-- Remove stale providers. -/
def pruneStale (now : UInt64) (t : ProviderTracker) : ProviderTracker :=
  { t with
    providers := t.providers.retain fun peerId =>
      !((t.providers.lookup peerId).any (·.isExpired manifestMaxAgeSecs now)) }

/-- The manifests, in the order in which the map is iterated over. -/
def manifests (order : IterOrder String ProviderManifest) (t : ProviderTracker) :
    List ProviderManifest := (order.entries t.providers).map Prod.snd

/-- Find providers that offer a specific model, the cheapest first. -/
def findProviders (casing : Text.Casing) (order : IterOrder String ProviderManifest)
    (modelName : String) (t : ProviderTracker) : List (String × ModelOffering) :=
  ((t.manifests order).filterMap fun manifest =>
    (manifest.findModel casing modelName).map fun offering =>
      (manifest.peerId, offering)).mergeSort fun a b =>
        a.2.pricePer1kTokens ≤ b.2.pricePer1kTokens

/-- Get all known providers. -/
def allProviders (order : IterOrder String ProviderManifest) (t : ProviderTracker) :
    List ProviderManifest := t.manifests order

/-- The usage counter of a peer, as it is now. -/
def usage (now : UInt64) (peerId : String) (t : ProviderTracker) : UsageCounter :=
  ((t.usageCounts.lookup peerId).getD .default).resetIfNeeded now

/-- Check if we can make a request to a specific provider. -/
def canRequest (now : UInt64) (peerId : String) (t : ProviderTracker) : ProviderTracker × Bool :=
  match t.providers.lookup peerId with
  | none => (t, false)
  | some manifest =>
      let counter := t.usage now peerId
      ({ t with usageCounts := t.usageCounts.insert peerId counter },
        decide (counter.requestsThisHour < manifest.rateLimits.maxRequestsPerHour) &&
          decide (counter.tokensThisDay < manifest.rateLimits.maxTokensPerDay))

/-- Record a request made to a provider. -/
def recordUsage (now : UInt64) (peerId : String) (tokens : UInt32) (t : ProviderTracker) :
    ProviderTracker :=
  let counter := t.usage now peerId
  { t with
    usageCounts := t.usageCounts.insert peerId
      { counter with
        requestsThisHour := counter.requestsThisHour + 1
        tokensThisDay := counter.tokensThisDay + tokens.toUInt64 } }

end ProviderTracker
end PeerClaw
