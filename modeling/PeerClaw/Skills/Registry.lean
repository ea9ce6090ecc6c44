import PeerClaw.Encoding
import PeerClaw.Lib.FiniteMap
import PeerClaw.Lib.Machine
import PeerClaw.Lib.Word
import Mathlib.Data.List.Sort

/-!
# Skills that other peers announce

`skills/registry.rs` keeps the skills that other peers announce, under their names, at most one
for each provider, the cheapest first.  They come in batches over gossip; the handler in
`runtime.rs` takes a batch whose claimed sender is the source of the message and whose signature
is as long as one.

* `SkillRegistry.stored_handleAnnouncementBatch` — what is stored after a batch.

With every announcement the batch is kept that it came in, which the program does not do.  Whether
a signature is a peer's, and the digest of the skills, are parameters.
-/

namespace PeerClaw

open Lib

/-! ## Announcements -/

structure SkillAnnouncement where
  name : String
  version : String
  description : String
  hash : String
  price : UInt64
  provider : String
  keywords : List String
  tags : List String
  deriving DecidableEq

structure SkillAnnouncementBatch where
  peerId : String
  skills : List SkillAnnouncement
  timestamp : UInt64
  signature : List UInt8
  deriving DecidableEq

namespace SkillAnnouncementBatch

/-- `signing_bytes`: `digest` is the hash of the skills. -/
def signingBytes (digest : List SkillAnnouncement → List UInt8) (b : SkillAnnouncementBatch) :
    List UInt8 :=
  utf8 b.peerId ++ Word.leBytes b.timestamp ++ digest b.skills

/-- `is_expired`. -/
def isExpired (b : SkillAnnouncementBatch) (maxAgeSecs now : UInt64) : Bool :=
  maxAgeSecs < Word.satSub now b.timestamp

end SkillAnnouncementBatch

/-- An announcement that is stored, and the batch that it came in. -/
structure Registered where
  announcement : SkillAnnouncement
  batch : SkillAnnouncementBatch
  deriving DecidableEq

/-- `network_skills`. -/
abbrev SkillRegistry := FiniteMap String (List Registered)

/-- A batch that gossip delivers. -/
structure Delivery where
  /-- The peer that has published the message. -/
  source : Option String
  batch : SkillAnnouncementBatch
  now : UInt64

namespace SkillRegistry

/-- The announcement of a provider is updated, or added. -/
def updateOrAdd (r : Registered) : List Registered → List Registered
  | [] => [r]
  | e :: es =>
      if e.announcement.provider = r.announcement.provider then r :: es
      else e :: updateOrAdd r es

/-- `register_network_skill`. -/
def registerNetworkSkill (reg : SkillRegistry) (r : Registered) : SkillRegistry :=
  reg.insert r.announcement.name
    ((updateOrAdd r ((reg.lookup r.announcement.name).getD [])).insertionSort
      fun a b => a.announcement.price ≤ b.announcement.price)

/-- The closure of the handler that is to verify the signature. -/
def verifier (source : Option String) (claimedPeerId : String) (sig : List UInt8) : Bool :=
  match source with
  | none => false
  | some src => src = claimedPeerId && sig.length = 64

/-- The batch is taken. -/
def accepts (localPeerId : String) (d : Delivery) : Bool :=
  d.batch.peerId ≠ localPeerId && !d.batch.isExpired 600 d.now &&
    verifier d.source d.batch.peerId d.batch.signature

/-- `handle_announcement_batch`. -/
def handleAnnouncementBatch (localPeerId : String) (reg : SkillRegistry) (d : Delivery) :
    SkillRegistry :=
  if accepts localPeerId d then
    d.batch.skills.foldl (fun reg a => registerNetworkSkill reg ⟨a, d.batch⟩) reg
  else reg

/-! ## What is stored -/

/-- What is stored of a skill for a provider. -/
def stored (reg : SkillRegistry) (name provider : String) : Option Registered :=
  ((reg.lookup name).getD []).find? fun r => r.announcement.provider = provider

/-- A provider has one announcement of a skill. -/
def Distinct (rs : List Registered) : Prop := (rs.map fun r => r.announcement.provider).Nodup

theorem find?_eq_some_iff_of_distinct {rs : List Registered} (h : Distinct rs) {r : Registered}
    {provider : String} :
    rs.find? (fun r => r.announcement.provider = provider) = some r ↔
      r ∈ rs ∧ r.announcement.provider = provider := by
  refine ⟨fun hfind => ⟨List.mem_of_find?_eq_some hfind, by simpa using List.find?_some hfind⟩, ?_⟩
  rintro ⟨hr, rfl⟩
  unfold Distinct at h
  induction rs with
  | nil => cases hr
  | cons e es ih =>
      rw [List.map_cons, List.nodup_cons] at h
      rcases List.mem_cons.1 hr with rfl | hr
      · exact List.find?_cons_of_pos (by simp)
      · have hne : e.announcement.provider ≠ r.announcement.provider := fun heq =>
          h.1 (heq ▸ List.mem_map_of_mem hr)
        rw [List.find?_cons_of_neg (by simpa using hne)]
        exact ih h.2 hr

theorem find?_perm {rs rs' : List Registered} (h : Distinct rs) (hperm : rs.Perm rs')
    (provider : String) :
    rs'.find? (fun r => r.announcement.provider = provider) =
      rs.find? fun r => r.announcement.provider = provider := by
  have h' : Distinct rs' := ((hperm.map _).nodup_iff).1 h
  ext r
  rw [find?_eq_some_iff_of_distinct h, find?_eq_some_iff_of_distinct h', hperm.mem_iff]

theorem providers_updateOrAdd (r : Registered) (rs : List Registered) (provider : String) :
    provider ∈ (updateOrAdd r rs).map (fun r => r.announcement.provider) ↔
      provider = r.announcement.provider ∨ provider ∈ rs.map fun r => r.announcement.provider := by
  induction rs with
  | nil => simp [updateOrAdd]
  | cons e es ih =>
      unfold updateOrAdd
      split
      · rename_i heq
        rw [List.map_cons, List.map_cons, List.mem_cons, List.mem_cons, heq]
        tauto
      · rw [List.map_cons, List.map_cons, List.mem_cons, List.mem_cons, ih]
        tauto

theorem distinct_updateOrAdd {r : Registered} {rs : List Registered} (h : Distinct rs) :
    Distinct (updateOrAdd r rs) := by
  unfold Distinct at h ⊢
  induction rs with
  | nil => exact List.nodup_singleton _
  | cons e es ih =>
      rw [List.map_cons, List.nodup_cons] at h
      unfold updateOrAdd
      split
      · rename_i heq
        rw [List.map_cons, List.nodup_cons, ← heq]
        exact h
      · rename_i hne
        rw [List.map_cons, List.nodup_cons, providers_updateOrAdd]
        exact ⟨not_or.2 ⟨hne, h.1⟩, ih h.2⟩

theorem find?_updateOrAdd (r : Registered) (rs : List Registered) (provider : String) :
    (updateOrAdd r rs).find? (fun r => r.announcement.provider = provider) =
      if r.announcement.provider = provider then some r
      else rs.find? fun r => r.announcement.provider = provider := by
  induction rs with
  | nil =>
      by_cases hr : r.announcement.provider = provider
      · simp [updateOrAdd, hr]
      · simp [updateOrAdd, hr]
  | cons e es ih =>
      unfold updateOrAdd
      split
      · rename_i heq
        by_cases hr : r.announcement.provider = provider
        · simp [hr]
        · simp [hr, heq]
      · rename_i hne
        by_cases he : e.announcement.provider = provider
        · have hr : r.announcement.provider ≠ provider := fun hr => hne (he.trans hr.symm)
          simp [he, hr]
        · simp [he, ih]

/-- Every skill has one announcement of a provider at most. -/
def WellFormed (reg : SkillRegistry) : Prop :=
  ∀ name rs, reg.lookup name = some rs → Distinct rs

theorem WellFormed.getD {reg : SkillRegistry} (h : reg.WellFormed) (name : String) :
    Distinct ((reg.lookup name).getD []) := by
  cases hlookup : reg.lookup name with
  | none => exact List.nodup_nil
  | some rs => exact h name rs hlookup

section Register

variable {reg : SkillRegistry}

theorem wellFormed_register (h : reg.WellFormed) (r : Registered) :
    (registerNetworkSkill reg r).WellFormed := by
  intro name rs hlookup
  unfold registerNetworkSkill at hlookup
  rw [Finmap.lookup_insert_eq] at hlookup
  split at hlookup
  · obtain rfl := Option.some.inj hlookup
    exact (((List.perm_insertionSort _ _).map _).nodup_iff).2 (distinct_updateOrAdd (h.getD _))
  · exact h name rs hlookup

theorem stored_register (h : reg.WellFormed) (r : Registered) (name provider : String) :
    (registerNetworkSkill reg r).stored name provider =
      if r.announcement.name = name ∧ r.announcement.provider = provider then some r
      else reg.stored name provider := by
  unfold stored registerNetworkSkill
  rw [Finmap.lookup_insert_eq]
  by_cases hname : name = r.announcement.name
  · subst hname
    rw [if_pos rfl, Option.getD_some, find?_perm (distinct_updateOrAdd (h.getD _))
      (List.perm_insertionSort _ _).symm, find?_updateOrAdd]
    simp
  · rw [if_neg hname, if_neg fun hand => hname hand.1.symm]

/-- The last announcement of a skill for a provider in a batch. -/
def latest (skills : List SkillAnnouncement) (name provider : String) : Option SkillAnnouncement :=
  skills.reverse.find? fun a => a.name = name ∧ a.provider = provider

theorem registers_spec (b : SkillAnnouncementBatch) (skills : List SkillAnnouncement) :
    ∀ {reg : SkillRegistry}, reg.WellFormed →
      (skills.foldl (fun reg a => registerNetworkSkill reg ⟨a, b⟩) reg).WellFormed ∧
      ∀ name provider, (skills.foldl (fun reg a => registerNetworkSkill reg ⟨a, b⟩) reg).stored
          name provider =
        ((latest skills name provider).map fun a => ⟨a, b⟩).or (reg.stored name provider) := by
  induction skills with
  | nil => exact fun h => ⟨h, fun _ _ => rfl⟩
  | cons a skills ih =>
      intro reg h
      obtain ⟨hwf, hstored⟩ := ih (wellFormed_register h ⟨a, b⟩)
      refine ⟨hwf, fun name provider => ?_⟩
      rw [List.foldl_cons, hstored, stored_register h]
      unfold latest
      rw [List.reverse_cons, List.find?_append, List.find?_singleton]
      cases skills.reverse.find? fun a => a.name = name ∧ a.provider = provider with
      | some a' => rfl
      | none =>
          by_cases ha : a.name = name ∧ a.provider = provider
          · simp [ha]
          · simp [ha]

end Register

section Handle

variable {localPeerId : String} {reg : SkillRegistry} {d : Delivery}

theorem wellFormed_handle (h : reg.WellFormed) :
    (handleAnnouncementBatch localPeerId reg d).WellFormed := by
  unfold handleAnnouncementBatch
  split
  · exact (registers_spec d.batch d.batch.skills h).1
  · exact h

/-- **What is stored after a batch**: the last announcement in it, or what there was. -/
theorem stored_handleAnnouncementBatch (h : reg.WellFormed) (name provider : String) :
    (handleAnnouncementBatch localPeerId reg d).stored name provider =
      if accepts localPeerId d then
        ((latest d.batch.skills name provider).map fun a => ⟨a, d.batch⟩).or
          (reg.stored name provider)
      else reg.stored name provider := by
  unfold handleAnnouncementBatch
  split
  · exact (registers_spec d.batch d.batch.skills h).2 name provider
  · rfl

end Handle

end SkillRegistry

end PeerClaw
