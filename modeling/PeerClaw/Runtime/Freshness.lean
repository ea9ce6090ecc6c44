import PeerClaw.Runtime.Providers
import Mathlib.Data.String.Basic

/-!
# Which manifest is kept, and for how long

A manifest replaces the one before it whatever their timestamps say, and what is
stored is reported until something prunes it or replaces it.

* `providers_fresh_iff` — in every sequence of calls, the tracker keeps for every
  provider the manifest of the greatest timestamp among those it has taken, and
  reports a provider only while its manifest is within the limit, exactly when no
  manifest is taken after one with a greater timestamp, and no provider is asked
  for after the last manifest that was taken from it has come of age, unless it was
  pruned.
* `older_replaces_newer` — it need not: an older manifest that arrives later
  replaces the newer one, and an old one is reported.

Whether a manifest from more than the limit in the future is within the limit is
left open (`strict`).
-/

namespace PeerClaw
namespace ProviderTracker

open Lib

/-! ## Calls -/

/-- What is asked of the tracker. -/
inductive Query
  | findProviders (modelName : String)
  | allProviders
  | canRequest (peerId : String)

/-- A call, with the time that the clock shows. -/
inductive Input
  | updateProvider (now : UInt64) (manifest : ProviderManifest)
  | pruneStale (now : UInt64)
  | recordUsage (now : UInt64) (peerId : String) (tokens : UInt32)
  | ask (now : UInt64) (q : Query)

/-- What is fixed for a tracker. -/
structure Setting where
  casing : Text.Casing
  /-- The order in which `providers` is iterated over. -/
  order : IterOrder String ProviderManifest

variable (x : Setting)

/-- The providers that an answer reports. -/
def reported (now : UInt64) (t : ProviderTracker) : Query → List String
  | .findProviders modelName => (t.findProviders x.casing x.order modelName).map Prod.fst
  | .allProviders => (t.allProviders x.order).map (·.peerId)
  | .canRequest peerId => if (t.canRequest now peerId).2 then [peerId] else []

/-- The tracker after a call. -/
def step (t : ProviderTracker) : Input → ProviderTracker
  | .updateProvider now manifest => t.updateProvider now manifest
  | .pruneStale now => t.pruneStale now
  | .recordUsage now peerId tokens => t.recordUsage now peerId tokens
  | .ask now (.canRequest peerId) => (t.canRequest now peerId).1
  | .ask _ _ => t

/-- The manifests that were taken and have not been pruned since, by what was asked for alone. -/
def hear (heard : List ProviderManifest) : Input → List ProviderManifest
  | .updateProvider now manifest =>
      if manifest.isExpired manifestMaxAgeSecs now then heard else heard ++ [manifest]
  | .pruneStale now => heard.filter fun m => !m.isExpired manifestMaxAgeSecs now
  | _ => heard

/-- The last manifest that was taken from a provider. -/
def lastHeard (heard : List ProviderManifest) (peerId : String) : Option ProviderManifest :=
  (heard.filter fun m => m.peerId = peerId).getLast?

/-- A tracker, and the manifests that it was given. -/
abbrev Watched := ProviderTracker × List ProviderManifest

/-- The tracker and what it was given, after a call. -/
def watch (w : Watched) (i : Input) : Watched := (step w.1 i, hear w.2 i)

/-! ## The property and the condition -/

/-- The age of a manifest, negative when it is dated in the future. -/
def age (now : UInt64) (m : ProviderManifest) : ℤ := now.toNat - m.timestamp.toNat

/-- The age of a manifest is within the limit, and, where that is asked for, it is not dated
beyond the limit in the future. -/
def WithinLimit (strict : Bool) (now : UInt64) (m : ProviderManifest) : Prop :=
  age now m ≤ manifestMaxAgeSecs.toNat ∧ (strict = true → -manifestMaxAgeSecs.toNat ≤ age now m)

/-- The manifest of every provider is the one of the greatest timestamp among those that were
taken. -/
structure Newest (w : Watched) : Prop where
  kept : ∀ m ∈ w.2, ∃ m', w.1.providers.lookup m.peerId = some m'
  newest : ∀ p m, w.1.providers.lookup p = some m →
    m ∈ w.2 ∧ m.peerId = p ∧ ∀ m' ∈ w.2, m'.peerId = p → m'.timestamp ≤ m.timestamp

/-- An answer only reports providers whose manifest is within the limit. -/
def ReportsFresh (strict : Bool) (w : Watched) : Input → Prop
  | .ask now q =>
      ∀ p ∈ reported x now w.1 q, ∀ m, w.1.providers.lookup p = some m → WithinLimit strict now m
  | _ => True

/-- Whether a query is about a provider with this manifest. -/
def Concerns (now : UInt64) (t : ProviderTracker) (m : ProviderManifest) : Query → Prop
  | .findProviders modelName => m.findModel x.casing modelName ≠ none
  | .allProviders => True
  | .canRequest peerId =>
      m.peerId = peerId ∧
        (t.usage now peerId).requestsThisHour < m.rateLimits.maxRequestsPerHour ∧
        (t.usage now peerId).tokensThisDay < m.rateLimits.maxTokensPerDay

/-- No manifest is taken after one with a greater timestamp, and no provider is asked for when
the last manifest that was taken from it is beyond the limit. -/
def Timely (strict : Bool) (w : Watched) : Input → Prop
  | .updateProvider now manifest =>
      manifest.isExpired manifestMaxAgeSecs now = false →
        ∀ m ∈ w.2, m.peerId = manifest.peerId → m.timestamp ≤ manifest.timestamp
  | .ask now q =>
      ∀ p m, lastHeard w.2 p = some m → Concerns x now w.1 m q → WithinLimit strict now m
  | _ => True

/-! ## One call -/

/-- **The invariant.**  The manifest of every provider is the one of the greatest timestamp, and
the last that was taken. -/
structure Sound (w : Watched) : Prop where
  newest : Newest w
  last : ∀ p, w.1.providers.lookup p = lastHeard w.2 p

section Step

variable {x} {strict : Bool} {w : Watched} {now : UInt64} {m : ProviderManifest}

theorem lastHeard_append (heard : List ProviderManifest) (m : ProviderManifest) (p : String) :
    lastHeard (heard ++ [m]) p = if m.peerId = p then some m else lastHeard heard p := by
  unfold lastHeard
  rw [List.filter_append]
  by_cases hp : m.peerId = p
  · simp [hp]
  · simp [hp]

theorem canRequest_iff {t : ProviderTracker} {peerId : String} :
    (t.canRequest now peerId).2 = true ↔ ∃ m, t.providers.lookup peerId = some m ∧
      (t.usage now peerId).requestsThisHour < m.rateLimits.maxRequestsPerHour ∧
      (t.usage now peerId).tokensThisDay < m.rateLimits.maxTokensPerDay := by
  unfold canRequest
  cases t.providers.lookup peerId with
  | none => simp
  | some m => simp

/-- Dropping manifests where the last of a provider is only dropped with all the others. -/
theorem lastHeard_filter {heard : List ProviderManifest} {p : String}
    {keep : ProviderManifest → Bool}
    (h : ∀ m, lastHeard heard p = some m → keep m = false →
      ∀ m' ∈ heard, m'.peerId = p → keep m' = false) :
    lastHeard (heard.filter keep) p = (lastHeard heard p).filter keep := by
  have hcomm : (heard.filter keep).filter (fun m => m.peerId = p) =
      (heard.filter fun m => m.peerId = p).filter keep := List.filter_comm _ _ _
  unfold lastHeard at h ⊢
  rw [hcomm]
  cases hlast : (heard.filter fun m => m.peerId = p).getLast? with
  | none =>
      rw [List.getLast?_eq_none_iff.1 hlast]
      rfl
  | some m =>
      cases hkeep : keep m with
      | true =>
          obtain ⟨before, hsplit⟩ := List.getLast?_eq_some_iff.1 hlast
          rw [hsplit, List.filter_append]
          simp [hkeep, Option.filter]
      | false =>
          have hnone : (heard.filter fun m => m.peerId = p).filter keep = [] := by
            refine List.filter_eq_nil_iff.2 ?_
            intro m' hm'
            obtain ⟨hmem, hpeer⟩ := List.mem_filter.1 hm'
            rw [h m hlast hkeep m' hmem (of_decide_eq_true hpeer)]
            exact Bool.false_ne_true
          rw [hnone]
          simp [hkeep, Option.filter]

theorem mem_reported (h : Sound w) {p : String} {q : Query} :
    p ∈ reported x now w.1 q ↔
      ∃ m, w.1.providers.lookup p = some m ∧ Concerns x now w.1 m q := by
  have hmem : ∀ m, m ∈ w.1.manifests x.order ↔ w.1.providers.lookup m.peerId = some m := by
    intro m
    unfold manifests
    rw [List.mem_map]
    constructor
    · rintro ⟨⟨k, m'⟩, hentry, rfl⟩
      have hk := (x.order.mem_entries).1 hentry
      rw [(h.newest.newest k m' hk).2.1]
      exact hk
    · intro hm
      exact ⟨(m.peerId, m), (x.order.mem_entries).2 hm, rfl⟩
  cases q with
  | findProviders modelName =>
      unfold reported findProviders
      rw [((List.mergeSort_perm _ _).map Prod.fst).mem_iff, List.mem_map]
      constructor
      · rintro ⟨⟨p', offering⟩, hfound, rfl⟩
        obtain ⟨m, hm, hsome⟩ := List.mem_filterMap.1 hfound
        obtain ⟨o, ho, heq⟩ := Option.map_eq_some_iff.1 hsome
        have hp : m.peerId = p' := congrArg Prod.fst heq
        refine ⟨m, hp ▸ (hmem m).1 hm, ?_⟩
        show m.findModel x.casing modelName ≠ none
        rw [ho]
        exact Option.some_ne_none o
      · rintro ⟨m, hm, hfind⟩
        obtain ⟨o, ho⟩ := Option.ne_none_iff_exists'.1 hfind
        have hp := (h.newest.newest p m hm).2.1
        refine ⟨(p, o), List.mem_filterMap.2 ⟨m, (hmem m).2 (by rw [hp]; exact hm), ?_⟩, rfl⟩
        rw [ho, hp]
        rfl
  | allProviders =>
      unfold reported allProviders
      rw [List.mem_map]
      constructor
      · rintro ⟨m, hm, rfl⟩
        exact ⟨m, (hmem m).1 hm, trivial⟩
      · rintro ⟨m, hm, -⟩
        have hp := (h.newest.newest p m hm).2.1
        exact ⟨m, (hmem m).2 (by rw [hp]; exact hm), hp⟩
  | canRequest peerId =>
      show p ∈ (if (w.1.canRequest now peerId).2 = true then [peerId] else []) ↔ _
      rw [List.mem_ite_nil_right, List.mem_singleton, canRequest_iff]
      constructor
      · rintro ⟨⟨m, hm, hallowed⟩, rfl⟩
        exact ⟨m, hm, (h.newest.newest p m hm).2.1, hallowed⟩
      · rintro ⟨m, hm, hpeer, hallowed⟩
        obtain rfl : p = peerId := (h.newest.newest p m hm).2.1.symm.trans hpeer
        exact ⟨⟨m, hm, hallowed⟩, rfl⟩

/-- A query reports what is within the limit exactly when what it is about is. -/
theorem reportsFresh_iff (h : Sound w) (now : UInt64) (q : Query) :
    ReportsFresh x strict w (.ask now q) ↔ Timely x strict w (.ask now q) := by
  constructor
  · intro hfresh p m hlast hconcerns
    rw [← h.last p] at hlast
    exact hfresh p ((mem_reported h).2 ⟨m, hlast, hconcerns⟩) m hlast
  · intro htimely p hp m hm
    obtain ⟨m', hm', hconcerns⟩ := (mem_reported h).1 hp
    obtain rfl : m' = m := Option.some.inj (hm'.symm.trans hm)
    rw [h.last p] at hm'
    exact htimely p m' hm' hconcerns

theorem expired_of_le {m m' : ProviderManifest} (hle : m'.timestamp ≤ m.timestamp)
    (h : m.isExpired manifestMaxAgeSecs now = true) :
    m'.isExpired manifestMaxAgeSecs now = true := by
  rw [ProviderManifest.isExpired_iff] at h ⊢
  have hle' := UInt64.le_iff_toNat_le.1 hle
  omega

theorem lookup_updateProvider (hfresh : m.isExpired manifestMaxAgeSecs now = false)
    (t : ProviderTracker) (p : String) :
    (t.updateProvider now m).providers.lookup p =
      if p = m.peerId then some m else t.providers.lookup p := by
  unfold updateProvider
  rw [hfresh]
  exact Finmap.lookup_insert_eq _ _ _ _

theorem lookup_pruneStale (t : ProviderTracker) (p : String) :
    (t.pruneStale now).providers.lookup p =
      (t.providers.lookup p).filter fun m => !m.isExpired manifestMaxAgeSecs now := by
  unfold pruneStale
  rw [Finmap.lookup_retain]
  cases t.providers.lookup p with
  | none => rfl
  | some m =>
      rw [Option.any_some, Option.filter_some]

theorem sound_update (h : Sound w) (hfresh : m.isExpired manifestMaxAgeSecs now = false) :
    (Newest (watch w (.updateProvider now m)) ↔
        ∀ m' ∈ w.2, m'.peerId = m.peerId → m'.timestamp ≤ m.timestamp) ∧
      (Newest (watch w (.updateProvider now m)) → Sound (watch w (.updateProvider now m))) := by
  have hlookup : ∀ p, (watch w (.updateProvider now m)).1.providers.lookup p =
      if p = m.peerId then some m else w.1.providers.lookup p := lookup_updateProvider hfresh w.1
  have hheard : (watch w (.updateProvider now m)).2 = w.2 ++ [m] := by
    show (if m.isExpired manifestMaxAgeSecs now then w.2 else w.2 ++ [m]) = _
    rw [hfresh]
    rfl
  refine ⟨⟨?_, ?_⟩, fun hnewest => ⟨hnewest, ?_⟩⟩
  · intro hnewest m' hm' hpeer
    refine (hnewest.newest m.peerId m (by rw [hlookup, if_pos rfl])).2.2 m' ?_ hpeer
    rw [hheard]
    exact List.mem_append_left _ hm'
  · intro hle
    constructor
    · intro m' hm'
      rw [hheard] at hm'
      rw [hlookup]
      rcases List.mem_append.1 hm' with hold | hnew
      · by_cases hp : m'.peerId = m.peerId
        · exact ⟨m, if_pos hp⟩
        · rw [if_neg hp]
          exact h.newest.kept m' hold
      · rw [List.mem_singleton.1 hnew, if_pos rfl]
        exact ⟨m, rfl⟩
    · intro p m₁ hp
      rw [hlookup] at hp
      rw [hheard]
      split at hp
      · rename_i hpeer
        obtain rfl := Option.some.inj hp
        refine ⟨List.mem_append_right _ (List.mem_singleton_self _), hpeer.symm, ?_⟩
        intro m' hm' hpeer'
        rcases List.mem_append.1 hm' with hold | hnew
        · exact hle m' hold (hpeer'.trans hpeer)
        · rw [List.mem_singleton.1 hnew]
          exact UInt64.le_refl _
      · rename_i hpeer
        obtain ⟨hmem, hname, hmax⟩ := h.newest.newest p m₁ hp
        refine ⟨List.mem_append_left _ hmem, hname, ?_⟩
        intro m' hm' hpeer'
        rcases List.mem_append.1 hm' with hold | hnew
        · exact hmax m' hold hpeer'
        · rw [List.mem_singleton.1 hnew] at hpeer'
          exact absurd hpeer'.symm hpeer
  · intro p
    rw [hlookup, hheard, lastHeard_append, h.last p]
    by_cases hp : p = m.peerId
    · rw [if_pos hp, if_pos hp.symm]
    · rw [if_neg hp, if_neg (Ne.symm hp)]

/-- The expired manifests are pruned: the last of a provider is the newest, so with it go all
the others. -/
theorem sound_prune (h : Sound w) : Sound (watch w (.pruneStale now)) := by
  have hlookup : ∀ p, (watch w (.pruneStale now)).1.providers.lookup p =
      (w.1.providers.lookup p).filter fun m => !m.isExpired manifestMaxAgeSecs now :=
    lookup_pruneStale w.1
  have hheard : ∀ m, m ∈ (watch w (.pruneStale now)).2 ↔
      m ∈ w.2 ∧ m.isExpired manifestMaxAgeSecs now = false := by
    intro m
    show m ∈ w.2.filter _ ↔ _
    rw [List.mem_filter, Bool.not_eq_true']
  -- what is left of a provider
  have hsome : ∀ p m, (watch w (.pruneStale now)).1.providers.lookup p = some m ↔
      w.1.providers.lookup p = some m ∧ m.isExpired manifestMaxAgeSecs now = false := by
    intro p m
    rw [hlookup, Option.filter_eq_some_iff, Bool.not_eq_true']
  have hnewest : Newest (watch w (.pruneStale now)) := by
    constructor
    · intro m hm
      obtain ⟨hmem, hfresh⟩ := (hheard m).1 hm
      obtain ⟨m', hm'⟩ := h.newest.kept m hmem
      refine ⟨m', (hsome _ _).2 ⟨hm', ?_⟩⟩
      by_contra hexpired
      rw [expired_of_le ((h.newest.newest _ m' hm').2.2 m hmem rfl)
        (Bool.not_eq_false _ ▸ hexpired)] at hfresh
      cases hfresh
    · intro p m hp
      obtain ⟨hp, hfresh⟩ := (hsome p m).1 hp
      obtain ⟨hmem, hname, hmax⟩ := h.newest.newest p m hp
      exact ⟨(hheard m).2 ⟨hmem, hfresh⟩, hname, fun m' hm' => hmax m' ((hheard m').1 hm').1⟩
  refine ⟨hnewest, fun p => ?_⟩
  show _ = lastHeard (w.2.filter fun m => !m.isExpired manifestMaxAgeSecs now) p
  rw [hlookup, h.last p, lastHeard_filter]
  intro m hlast hexpired m' hm' hpeer
  rw [← h.last p] at hlast
  rw [Bool.not_eq_false'] at hexpired ⊢
  exact expired_of_le ((h.newest.newest p m hlast).2.2 m' hm' hpeer) hexpired

theorem Sound.same (h : Sound w) {t : ProviderTracker} (ht : t.providers = w.1.providers) :
    Sound (t, w.2) where
  newest := by
    constructor
    · intro m hm
      show ∃ m', t.providers.lookup m.peerId = some m'
      rw [ht]
      exact h.newest.kept m hm
    · intro p m hp
      have hold : t.providers.lookup p = some m := hp
      rw [ht] at hold
      exact h.newest.newest p m hold
  last p := by
    show t.providers.lookup p = lastHeard w.2 p
    rw [ht]
    exact h.last p

theorem providers_canRequest (t : ProviderTracker) (now : UInt64) (peerId : String) :
    (t.canRequest now peerId).1.providers = t.providers := by
  unfold canRequest
  split <;> rfl

theorem step_iff (h : Sound w) (i : Input) :
    (Newest (watch w i) ∧ ReportsFresh x strict w i ↔ Timely x strict w i) ∧
      (Newest (watch w i) → Sound (watch w i)) := by
  cases i with
  | updateProvider now m =>
      cases hexpired : m.isExpired manifestMaxAgeSecs now with
      | true =>
          have hstay : watch w (.updateProvider now m) = w := by
            simp [watch, step, updateProvider, hear, hexpired]
          rw [hstay]
          refine ⟨⟨fun _ hfresh => ?_, fun _ => ⟨h.newest, trivial⟩⟩, fun _ => h⟩
          rw [hexpired] at hfresh
          cases hfresh
      | false =>
          obtain ⟨hiff, hsound⟩ := sound_update h hexpired
          refine ⟨?_, hsound⟩
          rw [hiff]
          exact ⟨fun hle _ => hle.1, fun hle => ⟨hle hexpired, trivial⟩⟩
  | pruneStale now =>
      exact ⟨⟨fun _ => trivial, fun _ => ⟨(sound_prune h).newest, trivial⟩⟩,
        fun _ => sound_prune h⟩
  | recordUsage now peerId tokens =>
      have hsame : Sound (watch w (.recordUsage now peerId tokens)) := h.same rfl
      exact ⟨⟨fun _ => trivial, fun _ => ⟨hsame.newest, trivial⟩⟩, fun _ => hsame⟩
  | ask now q =>
      have hsame : Sound (watch w (.ask now q)) := by
        cases q with
        | canRequest peerId => exact h.same (providers_canRequest w.1 now peerId)
        | _ => exact h
      refine ⟨?_, fun _ => hsame⟩
      rw [← reportsFresh_iff h now q]
      exact and_iff_right hsame.newest

end Step

theorem sound_new : Sound (new, []) where
  newest := ⟨fun _ h => absurd h List.not_mem_nil, fun _ _ h => nomatch h⟩
  last _ := rfl

end ProviderTracker

open ProviderTracker Lib

/-! ## Whole runs -/

/-- **Which manifest is kept, and for how long.**  In every sequence of calls, with whatever the
clock shows, the tracker keeps for every provider the manifest of the greatest timestamp among
those that were taken, in every state, and only reports a provider while its manifest is within
the limit, exactly when every call is timely. -/
theorem providers_fresh_iff (x : Setting) (strict : Bool) (inputs : List Input) :
    Machine.Always watch Newest (new, []) inputs ∧
        Machine.Along watch (ReportsFresh x strict) (new, []) inputs ↔
      Machine.Along watch (Timely x strict) (new, []) inputs := by
  refine Machine.always_and_along_iff (I := Sound) (R := fun _ _ => True) (fun w h => h.newest)
    ?_ ?_ sound_new Machine.along_true
  · intro w i h _
    exact (step_iff h i).1
  · intro w i h _ hnext
    exact (@step_iff x strict w h i).2 hnext

/-- A manifest of a provider. -/
def datedAt (timestamp : UInt64) : ProviderManifest :=
  ⟨"12D3KooWPeer", [], ⟨60, 100000, 2⟩, timestamp, []⟩

/-- Providers are listed by their ids. -/
def byPeerId : Setting := ⟨.ascii, IterOrder.ranked id Function.injective_id⟩

/-- **An older manifest replaces a newer one**, when it arrives later; and a manifest is reported
for ever, if nothing prunes it. -/
theorem older_replaces_newer :
    ¬ Machine.Always watch Newest (new, [])
        [.updateProvider 1000 (datedAt 1000), .updateProvider 1000 (datedAt 900)] ∧
      ∀ strict, ¬ Machine.Along watch (ReportsFresh byPeerId strict) (new, [])
        [.updateProvider 1000 (datedAt 1000), .ask 2000 .allProviders] := by
  constructor
  · intro hrun
    have hkept : (Machine.run watch (new, []) [.updateProvider 1000 (datedAt 1000),
        .updateProvider 1000 (datedAt 900)]).1.providers.lookup "12D3KooWPeer" =
          some (datedAt 900) := rfl
    have hheard : datedAt 1000 ∈ (Machine.run watch (new, [])
        [.updateProvider 1000 (datedAt 1000), .updateProvider 1000 (datedAt 900)]).2 :=
      List.mem_cons_self
    have hle : (1000 : UInt64) ≤ 900 := (hrun.last.newest _ _ hkept).2.2 _ hheard rfl
    exact absurd hle (by decide)
  · rintro strict ⟨-, hfresh, -⟩
    have hsound : Sound (watch (new, []) (.updateProvider 1000 (datedAt 1000))) :=
      (sound_update sound_new (by decide)).2 ((sound_update sound_new (by decide)).1.2
        fun _ h => absurd h List.not_mem_nil)
    have hreported : "12D3KooWPeer" ∈ reported byPeerId 2000
        (watch (new, []) (.updateProvider 1000 (datedAt 1000))).1 .allProviders :=
      (mem_reported hsound).2 ⟨datedAt 1000, rfl, trivial⟩
    have hlimit : (1000 : ℤ) ≤ 600 := (hfresh "12D3KooWPeer" hreported _ rfl).1
    exact absurd hlimit (by decide)

end PeerClaw
