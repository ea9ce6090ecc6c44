import PeerClaw.Skills.Registry

/-!
# Whose announcements are stored

An announcement names its provider, and so does the batch it comes in.  The handler compares the
peer that the batch names with the source of the message, and neither compares the two providers
nor verifies the signature.

* `announcements_authentic_iff` — in every run, what is stored for a provider came in batches that
  the provider has signed, and a batch changes the announcements of no other provider, exactly
  when every batch that is taken is signed by every provider it names, and says of the others
  what is stored already.
* `stranger_takes_over` — a peer replaces the announcement of another.
-/

namespace PeerClaw
namespace SkillRegistry

open Lib Lib.Machine

section Authenticity

variable (verifies : String → List UInt8 → List UInt8 → Prop)
  (digest : List SkillAnnouncement → List UInt8) (localPeerId : String)

/-- The batch has the signature of a peer. -/
def SignedBy (peer : String) (b : SkillAnnouncementBatch) : Prop :=
  verifies peer (b.signingBytes digest) b.signature

/-- Everything that is stored came in a batch that its provider has signed. -/
def Authentic (reg : SkillRegistry) : Prop :=
  ∀ name rs, reg.lookup name = some rs →
    ∀ r ∈ rs, SignedBy verifies digest r.announcement.provider r.batch

/-- The announcements of every peer but the sender are what they were. -/
def OthersKept (reg : SkillRegistry) (d : Delivery) : Prop :=
  ∀ name provider, provider ≠ d.batch.peerId →
    ((handleAnnouncementBatch localPeerId reg d).stored name provider).map Registered.announcement =
      (reg.stored name provider).map Registered.announcement

/-- A batch that is taken is signed by every provider that it names, and says of the other
providers what is stored already. -/
def Honest (reg : SkillRegistry) (d : Delivery) : Prop :=
  accepts localPeerId d →
    (∀ a ∈ d.batch.skills, SignedBy verifies digest a.provider d.batch) ∧
    ∀ name provider a, provider ≠ d.batch.peerId → latest d.batch.skills name provider = some a →
      (reg.stored name provider).map Registered.announcement = some a

variable {verifies digest localPeerId} {reg : SkillRegistry} {d : Delivery}

theorem authentic_iff (h : reg.WellFormed) :
    Authentic verifies digest reg ↔ ∀ name provider r, reg.stored name provider = some r →
      SignedBy verifies digest provider r.batch := by
  constructor
  · intro hauth name provider r hstored
    cases hlookup : reg.lookup name with
    | none =>
        unfold stored at hstored
        rw [hlookup] at hstored
        cases hstored
    | some rs =>
        unfold stored at hstored
        rw [hlookup] at hstored
        obtain ⟨hr, rfl⟩ := (find?_eq_some_iff_of_distinct (h name rs hlookup)).1 hstored
        exact hauth name rs hlookup r hr
  · intro hauth name rs hlookup r hr
    refine hauth name r.announcement.provider r ?_
    unfold stored
    rw [hlookup]
    exact (find?_eq_some_iff_of_distinct (h name rs hlookup)).2 ⟨hr, rfl⟩

theorem latest_eq_some {skills : List SkillAnnouncement} {name provider : String}
    {a : SkillAnnouncement} (h : latest skills name provider = some a) :
    a ∈ skills ∧ a.name = name ∧ a.provider = provider :=
  ⟨List.mem_reverse.1 (List.mem_of_find?_eq_some h), by simpa using List.find?_some h⟩

theorem latest_isSome {skills : List SkillAnnouncement} {a : SkillAnnouncement} (h : a ∈ skills) :
    ∃ a', latest skills a.name a.provider = some a' := by
  rw [← Option.isSome_iff_exists]
  exact List.find?_isSome.2 ⟨a, List.mem_reverse.2 h, by simp⟩

/-- What is stored is authentic after a batch if its providers have signed it. -/
theorem authentic_handle_iff (h : reg.WellFormed) (hauth : Authentic verifies digest reg) :
    Authentic verifies digest (handleAnnouncementBatch localPeerId reg d) ↔
      (accepts localPeerId d → ∀ a ∈ d.batch.skills, SignedBy verifies digest a.provider d.batch) := by
  rw [authentic_iff (wellFormed_handle h)]
  rw [authentic_iff h] at hauth
  simp only [stored_handleAnnouncementBatch h]
  by_cases haccepts : accepts localPeerId d = true
  · simp only [haccepts, if_true, forall_true_left]
    constructor
    · intro hall a ha
      obtain ⟨a', ha'⟩ := latest_isSome ha
      refine hall a.name a.provider ⟨a', d.batch⟩ ?_
      rw [ha', Option.map_some, Option.some_or]
    · intro hsigned name provider r hr
      cases hlatest : latest d.batch.skills name provider with
      | none =>
          rw [hlatest, Option.map_none, Option.none_or] at hr
          exact hauth name provider r hr
      | some a =>
          rw [hlatest, Option.map_some, Option.some_or] at hr
          obtain rfl := Option.some.inj hr
          obtain ⟨ha, -, rfl⟩ := latest_eq_some hlatest
          exact hsigned a ha
  · simp only [haccepts, if_false, Bool.false_eq_true, IsEmpty.forall_iff, iff_true]
    exact hauth

/-- The other providers keep their announcements if the batch says nothing new of them. -/
theorem othersKept_iff (h : reg.WellFormed) :
    OthersKept localPeerId reg d ↔ (accepts localPeerId d → ∀ name provider a,
      provider ≠ d.batch.peerId → latest d.batch.skills name provider = some a →
        (reg.stored name provider).map Registered.announcement = some a) := by
  unfold OthersKept
  simp only [stored_handleAnnouncementBatch h]
  by_cases haccepts : accepts localPeerId d = true
  · simp only [haccepts, if_true, forall_true_left]
    constructor
    · intro hkept name provider a hne hlatest
      have hsame := hkept name provider hne
      rwa [hlatest, Option.map_some, Option.some_or, Option.map_some, eq_comm] at hsame
    · intro hsay name provider hne
      cases hlatest : latest d.batch.skills name provider with
      | none => rw [Option.map_none, Option.none_or]
      | some a =>
          rw [Option.map_some, Option.some_or, Option.map_some,
            hsay name provider a hne hlatest]
  · simp [haccepts]

/-- **Whose announcements are stored.** -/
theorem announcements_authentic_iff (verifies : String → List UInt8 → List UInt8 → Prop)
    (digest : List SkillAnnouncement → List UInt8) (localPeerId : String) (ds : List Delivery) :
    Always (handleAnnouncementBatch localPeerId) (Authentic verifies digest) ∅ ds ∧
        Along (handleAnnouncementBatch localPeerId) (OthersKept localPeerId) ∅ ds ↔
      Along (handleAnnouncementBatch localPeerId) (Honest verifies digest localPeerId) ∅ ds := by
  refine always_and_along_iff
    (I := fun reg => reg.WellFormed ∧ Authentic verifies digest reg) (R := fun _ _ => True)
    (fun reg h => h.2) (fun reg d h _ => ?_) (fun reg d h _ hauth => ⟨wellFormed_handle h.1, hauth⟩)
    ⟨fun _ _ h => (by cases h), fun _ _ h => (by cases h)⟩ along_true
  rw [authentic_handle_iff h.1 h.2, othersKept_iff h.1]
  exact ⟨fun hboth haccepts => ⟨hboth.1 haccepts, hboth.2 haccepts⟩,
    fun hhonest => ⟨fun haccepts => (hhonest haccepts).1, fun haccepts => (hhonest haccepts).2⟩⟩

end Authenticity

section Example

/-- A signature of 64 bytes, the first of which are the name of the peer. -/
private def signatureOf (peer : String) : List UInt8 := (utf8 peer ++ List.replicate 64 0).take 64

private def announced (provider : String) (price : UInt64) : SkillAnnouncement :=
  ⟨"summarize", "1.0.0", "Summarizes texts", "ab", price, provider, [], []⟩

private def sentBy (peer : String) (a : SkillAnnouncement) : Delivery :=
  ⟨some peer, ⟨peer, [a], 1000, signatureOf peer⟩, 1000⟩

/-- **A stranger takes over**: a peer announces the skill of another at another price, in a batch
that it has signed itself, and the announcement of the other is gone. -/
theorem stranger_takes_over :
    ¬ (Always (handleAnnouncementBatch "me")
        (Authentic (fun peer _ sig => sig = signatureOf peer) fun _ => []) ∅
        [sentBy "alice" (announced "alice" 5), sentBy "mallory" (announced "alice" 500)] ∧
      Along (handleAnnouncementBatch "me") (OthersKept "me") ∅
        [sentBy "alice" (announced "alice" 5), sentBy "mallory" (announced "alice" 500)]) := by
  rintro ⟨-, -, hkept, -⟩
  have hsame := hkept "summarize" "alice" (by decide)
  revert hsame
  decide

end Example

end SkillRegistry
end PeerClaw
