import PeerClaw.Lib.Word
import PeerClaw.Lib.Check
import PeerClaw.Url
import Mathlib.Tactic.Ring

/-!
# Server-side request forgery

`safety/ssrf.rs` validates a URL before a tool requests it: the scheme is that of the
web, the host is not one of the names of a metadata service, and every address the
host has is outside the blocks of internal addresses.  The host is looked up at that
moment, in a resolver whose answers are its own affair.

* `checkIp_ok_iff` — the octets and masks of the code against blocks of addresses: a check
  passes exactly when the address is in no block that is internal.
* `validateUrlInner_ok_iff` — what is known of a URL that is valid.
* `validateUrlRelaxed_of_validateUrl` — strict is stricter.
-/

namespace PeerClaw
namespace Safety

open Lib Lib.Check

/-- Errors returned by SSRF validation. -/
inductive SsrfError
  | invalidUrl (reason : String)
  | blockedScheme (scheme : String)
  | blockedHost (host reason : String)
  | blockedIp (ip reason : String)
  | dnsResolutionFailed (host reason : String)
  deriving DecidableEq

def SsrfError.display : SsrfError → String
  | .invalidUrl reason => "Invalid URL: " ++ reason
  | .blockedScheme scheme => "Blocked scheme: " ++ scheme ++ " (only http/https allowed)"
  | .blockedHost host reason => "Blocked host: " ++ host ++ " (" ++ reason ++ ")"
  | .blockedIp ip reason => "Blocked IP: " ++ ip ++ " (" ++ reason ++ ")"
  | .dnsResolutionFailed host reason => "DNS resolution failed for " ++ host ++ ": " ++ reason

/-- Cloud metadata endpoints that must always be blocked. -/
def blockedHostnames : List String :=
  ["metadata.google.internal", "metadata.google", "metadata", "instance-data"]

/-- Cloud metadata IP. -/
def metadataIpv4 : Ipv4Addr := ⟨169, 254, 169, 254⟩

/-! ## Checking an address -/

def checkIpv4 (ip : Ipv4Addr) (allowLan : Bool) : Except SsrfError Unit :=
  if ip.a = 127 then
    .error (.blockedIp ip.display "loopback address (127.0.0.0/8)")
  else if ip.a = 169 ∧ ip.b = 254 then
    .error (.blockedIp ip.display "link-local address (169.254.0.0/16)")
  else if ip.a = 0 then
    .error (.blockedIp ip.display "unspecified address (0.0.0.0/8)")
  else if ip = metadataIpv4 then
    .error (.blockedIp ip.display "cloud metadata endpoint")
  else if allowLan = false ∧ ip.a = 10 then
    .error (.blockedIp ip.display "private address (10.0.0.0/8)")
  else if allowLan = false ∧ ip.a = 172 ∧ 16 ≤ ip.b ∧ ip.b ≤ 31 then
    .error (.blockedIp ip.display "private address (172.16.0.0/12)")
  else if allowLan = false ∧ ip.a = 192 ∧ ip.b = 168 then
    .error (.blockedIp ip.display "private address (192.168.0.0/16)")
  else .ok ()

def checkIpv6 (ip : Ipv6Addr) (allowLan : Bool) : Except SsrfError Unit :=
  if ip = .localhost then
    .error (.blockedIp ip.display "IPv6 loopback (::1)")
  else if ip = .unspecified then
    .error (.blockedIp ip.display "IPv6 unspecified (::)")
  else if ip.s0 &&& 0xffc0 = 0xfe80 then
    .error (.blockedIp ip.display "IPv6 link-local (fe80::/10)")
  else if allowLan = false ∧ ip.s0 &&& 0xfe00 = 0xfc00 then
    .error (.blockedIp ip.display "IPv6 unique local (fc00::/7)")
  else
    match ip.toIpv4Mapped with
    | some v4 => checkIpv4 v4 allowLan
    | none => .ok ()

/-- Check whether a single IP address should be blocked. -/
def checkIp (ip : IpAddr) (allowLan : Bool) : Except SsrfError Unit :=
  match ip with
  | .v4 ip => checkIpv4 ip allowLan
  | .v6 ip => checkIpv6 ip allowLan

/-! ## Validating a URL -/

/-- One lookup of a name and a port. -/
abbrev Resolver := String → UInt16 → Except String (List IpAddr)

/-- What validation calls: the parser of URLs, the case mappings, and the lookup it makes. -/
structure UrlEnv where
  parse : String → Except String Url
  casing : Text.Casing
  resolve : Resolver

/-- The addresses of the host that are to be checked: its own, if it is one, and otherwise all
that the lookup answers.  An address of version 6 is in brackets, which the lookup takes off. -/
def UrlEnv.addressesOf (env : UrlEnv) (u : Url) : Except SsrfError (List IpAddr) :=
  match u.host with
  | none => .error (.invalidUrl "URL has no host")
  | some host =>
      if env.casing.toLowercase host.text ∈ blockedHostnames then
        .error (.blockedHost host.text "cloud metadata endpoint")
      else
        match host with
        | .address ip => .ok [ip]
        | .domain name =>
            match env.resolve name (u.portOrKnownDefault.getD 80) with
            | .error reason => .error (.dnsResolutionFailed name reason)
            | .ok [] => .error (.dnsResolutionFailed name "no addresses returned")
            | .ok (ip :: ips) => .ok (ip :: ips)

/-- The parsed URL, once it is known to be one of the web. -/
def UrlEnv.parseWeb (env : UrlEnv) (rawUrl : String) : Except SsrfError Url :=
  match env.parse rawUrl with
  | .error e => .error (.invalidUrl e)
  | .ok parsed =>
      if parsed.scheme = "http" ∨ parsed.scheme = "https" then .ok parsed
      else .error (.blockedScheme parsed.scheme)

def validateUrlInner (env : UrlEnv) (rawUrl : String) (allowLan : Bool) : Except SsrfError Unit := do
  let parsed ← env.parseWeb rawUrl
  let addrs ← env.addressesOf parsed
  addrs.forM fun ip => checkIp ip allowLan

/-- Validate a URL with strict rules. -/
def validateUrl (env : UrlEnv) (url : String) : Except SsrfError Unit :=
  validateUrlInner env url false

/-- Validate a URL with relaxed rules, which allow addresses of the local network. -/
def validateUrlRelaxed (env : UrlEnv) (url : String) : Except SsrfError Unit :=
  validateUrlInner env url true

/-! ## Internal addresses -/

/-- Loopback, link-local, and the addresses of nothing: `127.0.0.0/8`, `169.254.0.0/16` and
`0.0.0.0/8`. -/
def reservedV4 : List Block := [⟨127 * 2 ^ 24, 24⟩, ⟨(169 * 2 ^ 8 + 254) * 2 ^ 16, 16⟩, ⟨0, 24⟩]

/-- The addresses of local networks: `10.0.0.0/8`, `172.16.0.0/12` and `192.168.0.0/16`. -/
def lanV4 : List Block :=
  [⟨10 * 2 ^ 24, 24⟩, ⟨(172 * 2 ^ 8 + 16) * 2 ^ 16, 20⟩, ⟨(192 * 2 ^ 8 + 168) * 2 ^ 16, 16⟩]

/-- `::1/128`, `::/128` and `fe80::/10`. -/
def reservedV6 : List Block := [⟨1, 0⟩, ⟨0, 0⟩, ⟨0xfe80 * 2 ^ 112, 118⟩]

/-- `fc00::/7`. -/
def lanV6 : List Block := [⟨0xfc00 * 2 ^ 112, 121⟩]

/-- The addresses that stand for one of version 4: `::ffff:0:0/96`. -/
def mappedV6 : Block := ⟨0xffff * 2 ^ 32, 32⟩

/-- An address of version 4 in a block that is never requested, or, where local networks are not
allowed, in one of theirs. -/
def InternalV4 (allowLan : Bool) (n : ℕ) : Prop :=
  (∃ b ∈ reservedV4, n ∈ b) ∨ (allowLan = false ∧ ∃ b ∈ lanV4, n ∈ b)

/-- The same of version 6; an address that stands for one of version 4 is judged like that one
too. -/
def InternalV6 (allowLan : Bool) (n : ℕ) : Prop :=
  (∃ b ∈ reservedV6, n ∈ b) ∨ (allowLan = false ∧ ∃ b ∈ lanV6, n ∈ b) ∨
    (n ∈ mappedV6 ∧ InternalV4 allowLan (n % 2 ^ 32))

def Internal (allowLan : Bool) : IpAddr → Prop
  | .v4 ip => InternalV4 allowLan ip.toNat
  | .v6 ip => InternalV6 allowLan ip.toNat

/-! ### The octets and the blocks -/

section Blocks

variable (ip : Ipv4Addr)

theorem mem_octet_iff (o : UInt8) :
    ip.toNat ∈ (⟨o.toNat * 2 ^ 24, 24⟩ : Block) ↔ ip.a = o := by
  have hb := ip.b.toNat_lt
  have hc := ip.c.toNat_lt
  have hd := ip.d.toNat_lt
  rw [Block.mem_iff (Dvd.intro_left _ rfl), ← UInt8.toNat_inj, Ipv4Addr.toNat]
  dsimp only
  omega

theorem mem_octets_iff (o p : UInt8) :
    ip.toNat ∈ (⟨(o.toNat * 2 ^ 8 + p.toNat) * 2 ^ 16, 16⟩ : Block) ↔ ip.a = o ∧ ip.b = p := by
  have hb := ip.b.toNat_lt
  have hc := ip.c.toNat_lt
  have hd := ip.d.toNat_lt
  have hp := p.toNat_lt
  rw [Block.mem_iff (Dvd.intro_left _ rfl), ← UInt8.toNat_inj, ← UInt8.toNat_inj, Ipv4Addr.toNat]
  dsimp only
  omega

theorem mem_private_iff :
    ip.toNat ∈ (⟨(172 * 2 ^ 8 + 16) * 2 ^ 16, 20⟩ : Block) ↔ ip.a = 172 ∧ 16 ≤ ip.b ∧ ip.b ≤ 31 := by
  have hb := ip.b.toNat_lt
  have hc := ip.c.toNat_lt
  have hd := ip.d.toNat_lt
  have h172 : (172 : UInt8).toNat = 172 := rfl
  have h16 : (16 : UInt8).toNat = 16 := rfl
  have h31 : (31 : UInt8).toNat = 31 := rfl
  rw [Block.mem_iff ⟨2753, rfl⟩, ← UInt8.toNat_inj, UInt8.le_iff_toNat_le, UInt8.le_iff_toNat_le,
    Ipv4Addr.toNat]
  dsimp only
  omega

theorem reservedV4_iff :
    (∃ b ∈ reservedV4, ip.toNat ∈ b) ↔ ip.a = 127 ∨ (ip.a = 169 ∧ ip.b = 254) ∨ ip.a = 0 := by
  have h127 := mem_octet_iff ip 127
  have h169 := mem_octets_iff ip 169 254
  have h0 := mem_octet_iff ip 0
  simp only [reservedV4, List.exists_mem_cons_iff, List.not_mem_nil, false_and, exists_false,
    or_false]
  exact or_congr h127 (or_congr h169 h0)

theorem lanV4_iff :
    (∃ b ∈ lanV4, ip.toNat ∈ b) ↔
      ip.a = 10 ∨ (ip.a = 172 ∧ 16 ≤ ip.b ∧ ip.b ≤ 31) ∨ (ip.a = 192 ∧ ip.b = 168) := by
  have h10 := mem_octet_iff ip 10
  have h192 := mem_octets_iff ip 192 168
  simp only [lanV4, List.exists_mem_cons_iff, List.not_mem_nil, false_and, exists_false, or_false]
  exact or_congr h10 (or_congr (mem_private_iff ip) h192)

/-- The address of the metadata service is link-local: the check of its own never fires. -/
theorem metadataIpv4_linkLocal (h : ip = metadataIpv4) : ip.a = 169 ∧ ip.b = 254 := by
  subst h
  exact ⟨rfl, rfl⟩

theorem checkIpv4_ok_iff (allowLan : Bool) :
    checkIpv4 ip allowLan = .ok () ↔ ¬ InternalV4 allowLan ip.toNat := by
  have hmeta := metadataIpv4_linkLocal ip
  rw [InternalV4, reservedV4_iff, lanV4_iff]
  simp only [checkIpv4, ite_error_ok_iff]
  tauto

end Blocks

section Segments

variable (ip : Ipv6Addr)

theorem toNat_div_segment : ip.toNat / 2 ^ 112 = ip.s0.toNat := by
  have h1 := ip.s1.toNat_lt
  have h2 := ip.s2.toNat_lt
  have h3 := ip.s3.toNat_lt
  have h4 := ip.s4.toNat_lt
  have h5 := ip.s5.toNat_lt
  have h6 := ip.s6.toNat_lt
  have h7 := ip.s7.toNat_lt
  rw [Ipv6Addr.toNat_eq]
  omega

/-- A mask of the first segment decides a block that leaves at least the other segments free. -/
theorem mem_segment_iff (s mask : UInt16) (free : ℕ) (hmask : mask.toNat = 2 ^ 16 - 2 ^ free)
    (hs : 2 ^ free ∣ s.toNat) :
    ip.toNat ∈ (⟨s.toNat * 2 ^ 112, 112 + free⟩ : Block) ↔ ip.s0 &&& mask = s := by
  rw [Block.mem_shift, toNat_div_segment, Block.mem_iff_mask hs ip.s0.toNat_lt,
    ← UInt16.toNat_inj, UInt16.toNat_and, hmask]

theorem mem_single_iff (ip' : Ipv6Addr) : ip.toNat ∈ (⟨ip'.toNat, 0⟩ : Block) ↔ ip = ip' := by
  rw [Block.mem_def, pow_zero, Nat.div_one, Nat.div_one, Ipv6Addr.toNat_inj]

theorem reservedV6_iff :
    (∃ b ∈ reservedV6, ip.toNat ∈ b) ↔
      ip = .localhost ∨ ip = .unspecified ∨ ip.s0 &&& 0xffc0 = 0xfe80 := by
  have hlink := mem_segment_iff ip 0xfe80 0xffc0 6 rfl ⟨1018, rfl⟩
  simp only [reservedV6, List.exists_mem_cons_iff, List.not_mem_nil, false_and, exists_false,
    or_false]
  exact or_congr (mem_single_iff ip .localhost) (or_congr (mem_single_iff ip .unspecified) hlink)

theorem lanV6_iff : (∃ b ∈ lanV6, ip.toNat ∈ b) ↔ ip.s0 &&& 0xfe00 = 0xfc00 := by
  have hlan := mem_segment_iff ip 0xfc00 0xfe00 9 rfl ⟨126, rfl⟩
  simp only [lanV6, List.exists_mem_cons_iff, List.not_mem_nil, false_and, exists_false, or_false]
  exact hlan

theorem octets_eq {a b c d m n : ℕ} (hm : a * 2 ^ 8 + b = m) (hn : c * 2 ^ 8 + d = n) :
    ((a * 2 ^ 8 + b) * 2 ^ 8 + c) * 2 ^ 8 + d = m * 2 ^ 16 + n := by
  subst hm hn
  ring

theorem halves_toNat (s : UInt16) : (s >>> 8).toUInt8.toNat * 2 ^ 8 + s.toUInt8.toNat = s.toNat := by
  have hs := s.toNat_lt
  have hshift : (s >>> 8).toNat = s.toNat / 2 ^ 8 := by
    rw [UInt16.toNat_shiftRight, Nat.shiftRight_eq_div_pow]
    rfl
  rw [UInt16.toNat_toUInt8, UInt16.toNat_toUInt8, hshift]
  omega

theorem mem_mappedV6_iff :
    ip.toNat ∈ mappedV6 ↔
      ip.s0 = 0 ∧ ip.s1 = 0 ∧ ip.s2 = 0 ∧ ip.s3 = 0 ∧ ip.s4 = 0 ∧ ip.s5 = 0xffff := by
  have h5 := ip.s5.toNat_lt
  have h6 := ip.s6.toNat_lt
  have h7 := ip.s7.toNat_lt
  have hffff : (0xffff : UInt16).toNat = 0xffff := rfl
  have hzero : (0 : UInt16).toNat = 0 := rfl
  rw [mappedV6, Block.mem_iff (Dvd.intro_left _ rfl), Ipv6Addr.toNat_eq]
  simp only [← UInt16.toNat_inj, hffff, hzero]
  omega

theorem toIpv4Mapped_of_not_mem (h : ip.toNat ∉ mappedV6) : ip.toIpv4Mapped = none := by
  rw [mem_mappedV6_iff] at h
  exact if_neg h

theorem toIpv4Mapped_of_mem (h : ip.toNat ∈ mappedV6) :
    ∃ v4, ip.toIpv4Mapped = some v4 ∧ v4.toNat = ip.toNat % 2 ^ 32 := by
  rw [mem_mappedV6_iff] at h
  refine ⟨_, if_pos h, ?_⟩
  have hlast : ∀ n a b : ℕ, a < 2 ^ 16 → b < 2 ^ 16 →
      ((n * 2 ^ 16 + a) * 2 ^ 16 + b) % 2 ^ 32 = a * 2 ^ 16 + b := by
    intro n a b ha hb
    omega
  rw [Ipv6Addr.toNat_eq, hlast _ _ _ ip.s6.toNat_lt ip.s7.toNat_lt]
  exact octets_eq (halves_toNat ip.s6) (halves_toNat ip.s7)

theorem checkMapped_ok_iff (allowLan : Bool) :
    (match ip.toIpv4Mapped with
      | some v4 => checkIpv4 v4 allowLan
      | none => .ok ()) = .ok () ↔
      ¬ (ip.toNat ∈ mappedV6 ∧ InternalV4 allowLan (ip.toNat % 2 ^ 32)) := by
  by_cases hm : ip.toNat ∈ mappedV6
  · obtain ⟨v4, hv4, hn⟩ := toIpv4Mapped_of_mem ip hm
    rw [hv4, ← hn]
    exact (checkIpv4_ok_iff v4 allowLan).trans (not_congr (and_iff_right hm).symm)
  · rw [toIpv4Mapped_of_not_mem ip hm]
    exact ⟨fun _ h => hm h.1, fun _ => rfl⟩

theorem checkIpv6_ok_iff (allowLan : Bool) :
    checkIpv6 ip allowLan = .ok () ↔ ¬ InternalV6 allowLan ip.toNat := by
  rw [InternalV6, reservedV6_iff, lanV6_iff]
  simp only [checkIpv6, ite_error_ok_iff, checkMapped_ok_iff, not_or]
  rw [and_assoc, and_assoc]

/-- **A check passes exactly when the address is not internal.** -/
theorem checkIp_ok_iff (ip : IpAddr) (allowLan : Bool) :
    checkIp ip allowLan = .ok () ↔ ¬ Internal allowLan ip := by
  cases ip with
  | v4 ip => exact checkIpv4_ok_iff ip allowLan
  | v6 ip => exact checkIpv6_ok_iff ip allowLan

end Segments

/-! ## What is known of a valid URL -/

/-- What the local network may not have is internal all the more where it is not allowed. -/
theorem Internal.mono {ip : IpAddr} (h : Internal true ip) : Internal false ip := by
  have hV4 : ∀ n, InternalV4 true n → InternalV4 false n := by
    rintro n (hres | ⟨hlan, -⟩)
    · exact .inl hres
    · cases hlan
  cases ip with
  | v4 ip => exact hV4 _ h
  | v6 ip =>
    rcases h with hres | ⟨hlan, -⟩ | ⟨hmapped, hn⟩
    · exact .inl hres
    · cases hlan
    · exact .inr (.inr ⟨hmapped, hV4 _ hn⟩)

section Validation

variable {env : UrlEnv} {rawUrl : String} {allowLan : Bool} {u : Url} {ips : List IpAddr}

theorem parseWeb_ok_iff :
    env.parseWeb rawUrl = .ok u ↔
      env.parse rawUrl = .ok u ∧ (u.scheme = "http" ∨ u.scheme = "https") := by
  unfold UrlEnv.parseWeb
  cases hparse : env.parse rawUrl with
  | error e => simp
  | ok parsed =>
    dsimp only
    by_cases hweb : parsed.scheme = "http" ∨ parsed.scheme = "https"
    · rw [if_pos hweb]
      constructor
      · intro h
        cases h
        exact ⟨rfl, hweb⟩
      · rintro ⟨h, -⟩
        cases h
        rfl
    · rw [if_neg hweb]
      constructor
      · exact nofun
      · rintro ⟨h, hu⟩
        cases h
        exact absurd hu hweb

/-- A host that is an address is checked as that address, whatever the resolver answers. -/
theorem addressesOf_address {ip : IpAddr} (hhost : u.host = some (.address ip))
    (h : env.addressesOf u = .ok ips) : ips = [ip] := by
  simp only [UrlEnv.addressesOf, hhost, ite_error_ok_iff] at h
  cases h.2
  rfl

theorem addressesOf_domain {name : String} {answers : List IpAddr}
    (hhost : u.host = some (.domain name))
    (hlookup : env.resolve name (u.portOrKnownDefault.getD 80) = .ok answers)
    (h : env.addressesOf u = .ok ips) : ips = answers := by
  simp only [UrlEnv.addressesOf, hhost, hlookup, ite_error_ok_iff] at h
  obtain ⟨-, h⟩ := h
  cases answers with
  | nil => cases h
  | cons ip rest =>
    cases h
    rfl

/-- **What is known of a valid URL**: it is one of the web, its host has addresses, and none of
them is internal. -/
theorem validateUrlInner_ok_iff :
    validateUrlInner env rawUrl allowLan = .ok () ↔
      ∃ u ips, env.parse rawUrl = .ok u ∧ (u.scheme = "http" ∨ u.scheme = "https") ∧
        env.addressesOf u = .ok ips ∧ ∀ ip ∈ ips, ¬ Internal allowLan ip := by
  simp only [validateUrlInner, bind_ok_iff, forM_ok_iff, parseWeb_ok_iff, checkIp_ok_iff]
  constructor
  · rintro ⟨u, ⟨hparse, hweb⟩, ips, haddr, hips⟩
    exact ⟨u, ips, hparse, hweb, haddr, hips⟩
  · rintro ⟨u, ips, hparse, hweb, haddr, hips⟩
    exact ⟨u, ⟨hparse, hweb⟩, ips, haddr, hips⟩

theorem validateUrlRelaxed_of_validateUrl (h : validateUrl env rawUrl = .ok ()) :
    validateUrlRelaxed env rawUrl = .ok () := by
  obtain ⟨u, ips, hparse, hweb, haddr, hips⟩ := validateUrlInner_ok_iff.1 h
  exact validateUrlInner_ok_iff.2
    ⟨u, ips, hparse, hweb, haddr, fun ip hip hin => hips ip hip hin.mono⟩

end Validation

end Safety
end PeerClaw
