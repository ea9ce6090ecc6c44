import PeerClaw.Encoding
import PeerClaw.Lib.Text
import Mathlib.Tactic.Common

/-!
# Addresses and URLs

The addresses of `std::net`, how they are displayed, and what the code reads of a
parsed `url::Url`.  A host that reads as an address is that address; `host_str` writes
an address of version 6 in brackets.
-/

namespace PeerClaw

open Lib

/-! ## Addresses -/

/-- An IPv4 address, by its octets. -/
structure Ipv4Addr where
  a : UInt8
  b : UInt8
  c : UInt8
  d : UInt8
  deriving DecidableEq

/-- An IPv6 address, by its segments. -/
structure Ipv6Addr where
  s0 : UInt16
  s1 : UInt16
  s2 : UInt16
  s3 : UInt16
  s4 : UInt16
  s5 : UInt16
  s6 : UInt16
  s7 : UInt16
  deriving DecidableEq

inductive IpAddr
  | v4 (ip : Ipv4Addr)
  | v6 (ip : Ipv6Addr)
  deriving DecidableEq

namespace Ipv4Addr

def display (ip : Ipv4Addr) : String :=
  Text.join "." ([ip.a, ip.b, ip.c, ip.d].map fun octet => toString octet.toNat)

/-- The address as a number. -/
def toNat (ip : Ipv4Addr) : ℕ :=
  ((ip.a.toNat * 2 ^ 8 + ip.b.toNat) * 2 ^ 8 + ip.c.toNat) * 2 ^ 8 + ip.d.toNat

end Ipv4Addr

/-- A run of zero segments: where it starts and how long it is. -/
structure ZeroRun where
  start : ℕ
  len : ℕ
  deriving DecidableEq

/-- The first of the longest runs of zero segments, and the one that ends at the last segment. -/
def zeroRuns (segments : List UInt16) : ZeroRun × ZeroRun :=
  segments.zipIdx.foldl (fun (longest, current) (segment, i) =>
    if segment = 0 then
      let current : ZeroRun := ⟨if current.len = 0 then i else current.start, current.len + 1⟩
      (if longest.len < current.len then current else longest, current)
    else (longest, ⟨0, 0⟩)) (⟨0, 0⟩, ⟨0, 0⟩)

/-- Segments in hexadecimal, with colons between them. -/
def segmentTexts (segments : List UInt16) : String :=
  Text.join ":" (segments.map fun s => String.ofList (Nat.toDigits 16 s.toNat))

namespace Ipv6Addr

def segments (ip : Ipv6Addr) : List UInt16 :=
  [ip.s0, ip.s1, ip.s2, ip.s3, ip.s4, ip.s5, ip.s6, ip.s7]

/-- The segments, with the longest run of two zeros or more left out. -/
def compressed (ip : Ipv6Addr) : String :=
  let zeros := (zeroRuns ip.segments).1
  if 1 < zeros.len then
    segmentTexts (ip.segments.take zeros.start) ++ "::" ++
      segmentTexts (ip.segments.drop (zeros.start + zeros.len))
  else segmentTexts ip.segments

/-- The IPv4 address that `::ffff:a.b.c.d` stands for. -/
def toIpv4Mapped (ip : Ipv6Addr) : Option Ipv4Addr :=
  if ip.s0 = 0 ∧ ip.s1 = 0 ∧ ip.s2 = 0 ∧ ip.s3 = 0 ∧ ip.s4 = 0 ∧ ip.s5 = 0xffff then
    some ⟨(ip.s6 >>> 8).toUInt8, ip.s6.toUInt8, (ip.s7 >>> 8).toUInt8, ip.s7.toUInt8⟩
  else none

def display (ip : Ipv6Addr) : String :=
  match ip.toIpv4Mapped with
  | some v4 => "::ffff:" ++ v4.display
  | none => ip.compressed

/-- The address as a number. -/
def toNat (ip : Ipv6Addr) : ℕ :=
  ip.segments.foldl (fun n s => n * 2 ^ 16 + s.toNat) 0

/-- The loopback address. -/
def localhost : Ipv6Addr := ⟨0, 0, 0, 0, 0, 0, 0, 1⟩

/-- The address of nothing. -/
def unspecified : Ipv6Addr := ⟨0, 0, 0, 0, 0, 0, 0, 0⟩

end Ipv6Addr

def IpAddr.display : IpAddr → String
  | .v4 ip => ip.display
  | .v6 ip => ip.display

/-! ## URLs -/

/-- The host of a URL. -/
inductive Host
  | domain (name : String)
  | address (ip : IpAddr)
  deriving DecidableEq

/-- What is read of a parsed URL. -/
structure Url where
  scheme : String
  host : Option Host
  /-- The port, where it is not the usual one of the scheme. -/
  port : Option UInt16
  deriving DecidableEq

def Host.text : Host → String
  | .domain name => name
  | .address (.v4 ip) => ip.display
  | .address (.v6 ip) => "[" ++ ip.compressed ++ "]"

namespace Url

def hostStr (u : Url) : Option String := u.host.map Host.text

/-- The port, or the usual one of the scheme. -/
def portOrKnownDefault (u : Url) : Option UInt16 :=
  u.port.or (match u.scheme with
    | "http" | "ws" => some 80
    | "https" | "wss" => some 443
    | "ftp" => some 21
    | _ => none)

end Url

/-! ## The numbers of addresses -/

theorem Ipv4Addr.toNat_inj {ip ip' : Ipv4Addr} : ip.toNat = ip'.toNat ↔ ip = ip' := by
  constructor
  · intro h
    have hb := ip.b.toNat_lt
    have hc := ip.c.toNat_lt
    have hd := ip.d.toNat_lt
    have hb' := ip'.b.toNat_lt
    have hc' := ip'.c.toNat_lt
    have hd' := ip'.d.toNat_lt
    unfold Ipv4Addr.toNat at h
    cases ip with
    | mk a b c d =>
      cases ip' with
      | mk a' b' c' d' =>
        simp only [Ipv4Addr.mk.injEq, ← UInt8.toNat_inj]
        dsimp only at *
        omega
  · rintro rfl
    rfl

theorem Ipv6Addr.toNat_eq (ip : Ipv6Addr) :
    ip.toNat = (((((((ip.s0.toNat * 2 ^ 16 + ip.s1.toNat) * 2 ^ 16 + ip.s2.toNat) * 2 ^ 16 +
      ip.s3.toNat) * 2 ^ 16 + ip.s4.toNat) * 2 ^ 16 + ip.s5.toNat) * 2 ^ 16 + ip.s6.toNat) *
      2 ^ 16 + ip.s7.toNat) := by
  simp only [Ipv6Addr.toNat, Ipv6Addr.segments, List.foldl_cons, List.foldl_nil, Nat.zero_mul,
    Nat.zero_add]

theorem Ipv6Addr.toNat_inj {ip ip' : Ipv6Addr} : ip.toNat = ip'.toNat ↔ ip = ip' := by
  constructor
  · intro h
    have h1 := ip.s1.toNat_lt
    have h2 := ip.s2.toNat_lt
    have h3 := ip.s3.toNat_lt
    have h4 := ip.s4.toNat_lt
    have h5 := ip.s5.toNat_lt
    have h6 := ip.s6.toNat_lt
    have h7 := ip.s7.toNat_lt
    have h1' := ip'.s1.toNat_lt
    have h2' := ip'.s2.toNat_lt
    have h3' := ip'.s3.toNat_lt
    have h4' := ip'.s4.toNat_lt
    have h5' := ip'.s5.toNat_lt
    have h6' := ip'.s6.toNat_lt
    have h7' := ip'.s7.toNat_lt
    rw [Ipv6Addr.toNat_eq, Ipv6Addr.toNat_eq] at h
    cases ip with
    | mk s0 s1 s2 s3 s4 s5 s6 s7 =>
      cases ip' with
      | mk t0 t1 t2 t3 t4 t5 t6 t7 =>
        simp only [Ipv6Addr.mk.injEq, ← UInt16.toNat_inj]
        dsimp only at *
        omega
  · rintro rfl
    rfl

end PeerClaw
