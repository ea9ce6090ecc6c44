import PeerClaw.Safety.Ssrf

/-!
# Addresses in addresses

An address of version 6 can stand for one of version 4 in several ways, and a request to
it ends at that one.  `check_ipv6` in `safety/ssrf.rs` looks into one of them.

* `Embedding` — where the address of version 4 is.
* `accepted_judged_iff` — what a check accepts is judged also by the address it stands for,
  exactly when it does not stand for an internal one in one of the other ways.
-/

namespace PeerClaw
namespace Safety

open Lib Lib.Check

/-- A block of addresses that stand for addresses of version 4, and the number of bits that come
behind these. -/
structure Embedding where
  block : Block
  behind : ℕ

namespace Embedding

/-- The number of the address of version 4. -/
def embedded (e : Embedding) (n : ℕ) : ℕ := n / 2 ^ e.behind % 2 ^ 32

/-- `::ffff:a.b.c.d`. -/
def mapped : Embedding := ⟨mappedV6, 0⟩

/-- `::a.b.c.d`. -/
def compatible : Embedding := ⟨⟨0, 32⟩, 0⟩

/-- `64:ff9b::a.b.c.d`. -/
def nat64 : Embedding := ⟨⟨0x64ff9b * 2 ^ 96, 32⟩, 0⟩

/-- `2002:aabb:ccdd::/48`. -/
def sixToFour : Embedding := ⟨⟨0x2002 * 2 ^ 112, 112⟩, 80⟩

/-- An address of the block that stands for an internal one. -/
def Hides (e : Embedding) (allowLan : Bool) (n : ℕ) : Prop :=
  n ∈ e.block ∧ InternalV4 allowLan (e.embedded n)

end Embedding

/-- All the ways in which an address can stand for another. -/
def embeddings : List Embedding := [.mapped, .compatible, .nat64, .sixToFour]

/-- The ways that are not looked into. -/
def unseen : List Embedding := [.compatible, .nat64, .sixToFour]

/-- Outside every blocked range; an address of version 6 is judged also by the one it stands
for. -/
def Outside (allowLan : Bool) : IpAddr → Prop
  | .v4 ip => ¬ InternalV4 allowLan ip.toNat
  | .v6 ip =>
      ¬ ((∃ b ∈ reservedV6, ip.toNat ∈ b) ∨ (allowLan = false ∧ ∃ b ∈ lanV6, ip.toNat ∈ b)) ∧
        ∀ e ∈ embeddings, ¬ e.Hides allowLan ip.toNat

/-- The address stands for no internal one in a way that is not looked into; `::` and `::1`, which
are blocked themselves, aside. -/
def NoneHidden (allowLan : Bool) : IpAddr → Prop
  | .v4 _ => True
  | .v6 ip => ∀ e ∈ unseen, e.Hides allowLan ip.toNat → ip = .unspecified ∨ ip = .localhost

/-! ## The ways apart -/

section Apart

variable {allowLan : Bool} {n : ℕ}

theorem embedded_mapped : Embedding.mapped.embedded n = n % 2 ^ 32 := by
  simp [Embedding.embedded, Embedding.mapped]

theorem hides_mapped_iff :
    Embedding.mapped.Hides allowLan n ↔ n ∈ mappedV6 ∧ InternalV4 allowLan (n % 2 ^ 32) := by
  rw [Embedding.Hides, embedded_mapped]
  rfl

/-- The blocks of local addresses, and that of mapped ones, are apart from those that are not looked
into. -/
theorem not_mem_unseen {b : Block} (hb : b = mappedV6 ∨ b = ⟨0xfe80 * 2 ^ 112, 118⟩ ∨ b ∈ lanV6)
    (h : n ∈ b) {e : Embedding} (he : e ∈ unseen) : n ∉ e.block := by
  intro hin
  have hn : (0xffff * 2 ^ 32 ≤ n ∧ n < 2 ^ 48) ∨ 0xfc00 * 2 ^ 112 ≤ n := by
    rcases hb with rfl | rfl | hb
    · have hmapped := (Block.mem_iff (b := mappedV6) ⟨0xffff, rfl⟩).1 h
      exact .inl ⟨hmapped.1, hmapped.2⟩
    · exact .inr (le_trans (by decide) ((Block.mem_iff ⟨1018, rfl⟩).1 h).1)
    · obtain rfl := List.mem_singleton.1 hb
      exact .inr ((Block.mem_iff ⟨126, rfl⟩).1 h).1
  simp only [unseen, List.mem_cons, List.not_mem_nil, or_false] at he
  rcases he with rfl | rfl | rfl
  · have hlt := ((Block.mem_iff (b := Embedding.compatible.block) ⟨0, rfl⟩).1 hin).2
    simp only [Embedding.compatible] at hlt
    omega
  · have hbounds := (Block.mem_iff (b := Embedding.nat64.block) ⟨0x64ff9b * 2 ^ 64, rfl⟩).1 hin
    simp only [Embedding.nat64] at hbounds
    omega
  · have hbounds := (Block.mem_iff (b := Embedding.sixToFour.block) ⟨0x2002, rfl⟩).1 hin
    simp only [Embedding.sixToFour] at hbounds
    omega

end Apart

/-! ## What a check accepts -/

section Accepted

variable (ip : Ipv6Addr) (allowLan : Bool)

/-- What a check of version 6 accepts, with what it does not look into said apart. -/
theorem outside_iff_checkIpv6 :
    Outside allowLan (.v6 ip) ↔
      checkIpv6 ip allowLan = .ok () ∧ ∀ e ∈ unseen, ¬ e.Hides allowLan ip.toNat := by
  have hways : (∀ e ∈ embeddings, ¬ e.Hides allowLan ip.toNat) ↔
      ¬ Embedding.mapped.Hides allowLan ip.toNat ∧ ∀ e ∈ unseen, ¬ e.Hides allowLan ip.toNat :=
    List.forall_mem_cons
  rw [checkIpv6_ok_iff, Outside, InternalV6, ← hides_mapped_iff, hways]
  simp only [not_or, and_assoc]

theorem checkIpv6_ok_ne (h : checkIpv6 ip allowLan = .ok ()) :
    ¬ (ip = .unspecified ∨ ip = .localhost) := by
  simp only [checkIpv6, ite_error_ok_iff] at h
  tauto

/-- An address that is blocked itself stands for no other in a way that is not looked into, but for
`::` and `::1`. -/
theorem eq_of_hides {e : Embedding} (he : e ∈ unseen) (hides : e.Hides allowLan ip.toNat)
    (h : checkIpv6 ip allowLan ≠ .ok ()) : ip = .unspecified ∨ ip = .localhost := by
  rw [ne_eq, checkIpv6_ok_iff, not_not] at h
  rcases h with hreserved | ⟨-, b, hb, hmem⟩ | ⟨hmapped, -⟩
  · rcases (reservedV6_iff ip).1 hreserved with heq | heq | hlink
    · exact .inr heq
    · exact .inl heq
    · have hmem := (mem_segment_iff ip 0xfe80 0xffc0 6 rfl ⟨1018, rfl⟩).2 hlink
      exact absurd hides.1 (not_mem_unseen (.inr (.inl rfl)) hmem he)
  · exact absurd hides.1 (not_mem_unseen (.inr (.inr hb)) hmem he)
  · exact absurd hides.1 (not_mem_unseen (.inl rfl) hmapped he)

/-- **What the check judges an address by.**  What it accepts is outside every blocked range, the
address that it stands for included, and what it accepts where local networks are not allowed it
accepts where they are: exactly when the address stands for no internal one in a way that the
check does not look into. -/
theorem accepted_judged_iff (ip : IpAddr) (allowLan : Bool) :
    ((checkIp ip allowLan = .ok () → Outside allowLan ip) ∧
      (checkIp ip false = .ok () → checkIp ip true = .ok ())) ↔ NoneHidden allowLan ip := by
  have hmono : checkIp ip false = .ok () → checkIp ip true = .ok () := by
    simp only [checkIp_ok_iff]
    exact fun h hin => h hin.mono
  rw [and_iff_left hmono]
  cases ip with
  | v4 ip => exact iff_of_true (fun h => (checkIp_ok_iff (.v4 ip) allowLan).1 h) trivial
  | v6 ip =>
      have houtside := outside_iff_checkIpv6 ip allowLan
      constructor
      · intro h e he hides
        apply eq_of_hides ip allowLan he hides
        intro hok
        exact (houtside.1 (h hok)).2 e he hides
      · intro h hok
        refine houtside.2 ⟨hok, fun e he hides => ?_⟩
        exact checkIpv6_ok_ne ip allowLan hok (h e he hides)

end Accepted

/-- `64:ff9b::127.0.0.1`. -/
def translatedLoopback : Ipv6Addr := ⟨0x64, 0xff9b, 0, 0, 0, 0, 0x7f00, 1⟩

/-- The loopback address gets through behind a translator. -/
theorem accepted_not_judged :
    ¬ ((checkIp (.v6 translatedLoopback) false = .ok () → Outside false (.v6 translatedLoopback)) ∧
      (checkIp (.v6 translatedLoopback) false = .ok () →
        checkIp (.v6 translatedLoopback) true = .ok ())) := by
  intro h
  have hmem : Embedding.nat64 ∈ embeddings := by simp [embeddings]
  apply (h.1 (by decide)).2 .nat64 hmem
  exact ⟨by decide, .inl ⟨_, List.mem_cons_self, by decide⟩⟩

end Safety
end PeerClaw
