import Mathlib.Data.Finset.Lattice.Fold
import PeerClaw.Lib.Detours
import PeerClaw.Wasm.Executor

/-!
# What a WASM module may reach

`wasm/host.rs` compares the capabilities that are granted with those that a tool requires when the
tool is loaded, and checks each host and each path while it runs.  An empty list restricts nothing,
a host may be given by a pattern, and a path is compared as a text.

* `HostCapabilities.covers_iff` — when everything that is allowed under the required capabilities
  is allowed under the granted ones.
* `HostState.below_of_canAccessPath_iff` — when a path that is let through lies below one of the
  directories.
-/

namespace PeerClaw

open Lib

/-- `LogLevel`. -/
inductive LogLevel
  | debug
  | info
  | warn
  | error
  deriving DecidableEq

/-- `LogEntry`. -/
structure LogEntry where
  level : LogLevel
  message : String
  timestamp : ℕ
  deriving DecidableEq

/-- `HostState`. -/
structure HostState where
  capabilities : HostCapabilities
  logs : List LogEntry
  memoryUsed : UInt64
  networkRequests : UInt32
  fsOperations : UInt32
  inputJson : Option String
  outputJson : Option String
  deriving DecidableEq

namespace HostState

/-- `HostState::new`. -/
def new (capabilities : HostCapabilities) : HostState := ⟨capabilities, [], 0, 0, 0, none, none⟩

/-- `HostState::log`. -/
def log (self : HostState) (level : LogLevel) (message : String) (now : ℕ) : HostState :=
  if self.capabilities.logging then { self with logs := self.logs ++ [⟨level, message, now⟩] }
  else self

/-- A host is the one that is allowed, or ends as the pattern does. -/
def matchesHost (pattern host : String) : Bool :=
  if Text.startsWith pattern "*." then pattern.toList.tail.isSuffixOf host.toList
  else pattern = host

/-- `HostState::can_access_host`. -/
def canAccessHost (self : HostState) (host : String) : Bool :=
  if !self.capabilities.networkAccess then false
  else if self.capabilities.allowedHosts = ∅ then true
  else
    decide (host ∈ self.capabilities.allowedHosts) ||
      decide (∃ pattern ∈ self.capabilities.allowedHosts, matchesHost pattern host = true)

/-- `HostState::can_access_path`. -/
def canAccessPath (self : HostState) (path : String) (write : Bool) : Bool :=
  if write && !self.capabilities.filesystemWrite then false
  else if !write && !self.capabilities.filesystemRead then false
  else if self.capabilities.allowedPaths = ∅ then true
  else decide (∃ allowed ∈ self.capabilities.allowedPaths, Text.startsWith path allowed = true)

end HostState

namespace HostCapabilities

variable {granted required : HostCapabilities} {host path : String} {write : Bool}

/-- The access to the file system that reading or writing takes. -/
def access (self : HostCapabilities) (write : Bool) : Bool :=
  if write then self.filesystemWrite else self.filesystemRead

theorem canAccessHost_iff (self : HostCapabilities) :
    (HostState.new self).canAccessHost host = true ↔
      self.networkAccess = true ∧ (self.allowedHosts = ∅ ∨ host ∈ self.allowedHosts ∨
        ∃ pattern ∈ self.allowedHosts, HostState.matchesHost pattern host = true) := by
  have hself : (HostState.new self).capabilities = self := rfl
  unfold HostState.canAccessHost
  rw [hself]
  cases hnet : self.networkAccess
  · simp
  · by_cases hhosts : self.allowedHosts = ∅
    · simp [hhosts]
    · simp [hhosts]

theorem canAccessPath_iff (self : HostCapabilities) :
    (HostState.new self).canAccessPath path write = true ↔
      self.access write = true ∧ (self.allowedPaths = ∅ ∨
        ∃ allowed ∈ self.allowedPaths, allowed.toList <+: path.toList) := by
  have hself : (HostState.new self).capabilities = self := rfl
  unfold HostState.canAccessPath access
  rw [hself]
  by_cases hpaths : self.allowedPaths = ∅
  · cases write <;> simp [hpaths]
  · cases write <;> simp [hpaths, Text.startsWith]

/-! ## Granted and required -/

/-- Everything that is allowed under the required capabilities is allowed under the granted
ones. -/
structure Covers (granted required : HostCapabilities) : Prop where
  logging : required.logging = true → granted.logging = true
  networkAccess : required.networkAccess = true → granted.networkAccess = true
  filesystemRead : required.filesystemRead = true → granted.filesystemRead = true
  filesystemWrite : required.filesystemWrite = true → granted.filesystemWrite = true
  envAccess : required.envAccess = true → granted.envAccess = true
  clockAccess : required.clockAccess = true → granted.clockAccess = true
  randomAccess : required.randomAccess = true → granted.randomAccess = true
  host : ∀ host, (HostState.new required).canAccessHost host = true →
    (HostState.new granted).canAccessHost host = true
  path : ∀ path write, (HostState.new required).canAccessPath path write = true →
    (HostState.new granted).canAccessPath path write = true

/-- What the comparison leaves out is granted as well: three flags, hosts that the required
capabilities do not list, and paths. -/
structure Complete (granted required : HostCapabilities) : Prop where
  logging : required.logging = true → granted.logging = true
  clockAccess : required.clockAccess = true → granted.clockAccess = true
  randomAccess : required.randomAccess = true → granted.randomAccess = true
  hosts : required.networkAccess = true → granted.allowedHosts = ∅ ∨ required.allowedHosts ≠ ∅
  paths : (required.filesystemRead = true ∨ required.filesystemWrite = true) →
    granted.allowedPaths = ∅ ∨ "" ∈ granted.allowedPaths ∨ (required.allowedPaths ≠ ∅ ∧
      ∀ path ∈ required.allowedPaths, ∃ allowed ∈ granted.allowedPaths,
        allowed.toList <+: path.toList)

theorem satisfies_iff :
    granted.satisfies required = true ↔
      (required.networkAccess = true → granted.networkAccess = true) ∧
      (required.filesystemRead = true → granted.filesystemRead = true) ∧
      (required.filesystemWrite = true → granted.filesystemWrite = true) ∧
      (required.envAccess = true → granted.envAccess = true) ∧
      ∀ host ∈ required.allowedHosts, host ∈ granted.allowedHosts ∨ granted.allowedHosts = ∅ := by
  unfold satisfies
  cases required.networkAccess <;> cases granted.networkAccess <;>
    cases required.filesystemRead <;> cases granted.filesystemRead <;>
    cases required.filesystemWrite <;> cases granted.filesystemWrite <;>
    cases required.envAccess <;> cases granted.envAccess <;> simp [or_iff_not_imp_left]

theorem exists_unmatched_host (hosts : Finset String) :
    ∃ host, host ∉ hosts ∧ ∀ pattern ∈ hosts, HostState.matchesHost pattern host = false := by
  -- longer than all of the entries, and without a dot
  set n := hosts.sup String.length + 1 with hn
  have hlong : ∀ pattern ∈ hosts, String.ofList (List.replicate n 'a') ≠ pattern := by
    intro pattern hmem heq
    have hle : pattern.length ≤ hosts.sup String.length := Finset.le_sup hmem
    rw [← heq] at hle
    simp at hle
    omega
  refine ⟨String.ofList (List.replicate n 'a'), fun hmem => hlong _ hmem rfl, ?_⟩
  intro pattern hmem
  unfold HostState.matchesHost
  split
  · rename_i hstar
    have hstart : ['*', '.'] <+: pattern.toList := List.isPrefixOf_iff_prefix.1 hstar
    obtain ⟨rest, hrest⟩ := hstart
    rw [Bool.eq_false_iff, Ne, List.isSuffixOf_iff_suffix, String.toList_ofList, ← hrest]
    intro hend
    have hdot : '.' ∈ List.replicate n 'a' := hend.subset (by simp)
    simp at hdot
  · simpa using (hlong pattern hmem).symm

theorem covers_host_iff (h : granted.satisfies required = true) :
    (∀ host, (HostState.new required).canAccessHost host = true →
      (HostState.new granted).canAccessHost host = true) ↔
    (required.networkAccess = true → granted.allowedHosts = ∅ ∨ required.allowedHosts ≠ ∅) := by
  obtain ⟨hnet, -, -, -, hhosts⟩ := satisfies_iff.1 h
  constructor
  · intro hcovers hreq
    by_contra hnot
    obtain ⟨hgranted, hrequired⟩ := not_or.1 hnot
    rw [not_not] at hrequired
    obtain ⟨host, hmem, hnone⟩ := exists_unmatched_host granted.allowedHosts
    obtain ⟨-, hempty | hin | ⟨pattern, hpattern, hmatch⟩⟩ := granted.canAccessHost_iff.1
      (hcovers host (required.canAccessHost_iff.2 ⟨hreq, .inl hrequired⟩))
    · exact hgranted hempty
    · exact hmem hin
    · rw [hnone pattern hpattern] at hmatch
      cases hmatch
  · intro hcond host hallowed
    obtain ⟨hreq, hallowed⟩ := required.canAccessHost_iff.1 hallowed
    apply granted.canAccessHost_iff.2
    refine ⟨hnet hreq, ?_⟩
    by_cases hgranted : granted.allowedHosts = ∅
    · exact .inl hgranted
    have hsub : ∀ host ∈ required.allowedHosts, host ∈ granted.allowedHosts :=
      fun host hmem => (hhosts host hmem).resolve_right hgranted
    obtain hempty | hin | ⟨pattern, hpattern, hmatch⟩ := hallowed
    · exact absurd hempty ((hcond hreq).resolve_left hgranted)
    · exact .inr (.inl (hsub host hin))
    · exact .inr (.inr ⟨pattern, hsub pattern hpattern, hmatch⟩)

theorem covers_path_iff (h : granted.satisfies required = true) :
    (∀ path write, (HostState.new required).canAccessPath path write = true →
      (HostState.new granted).canAccessPath path write = true) ↔
    ((required.filesystemRead = true ∨ required.filesystemWrite = true) →
      granted.allowedPaths = ∅ ∨ "" ∈ granted.allowedPaths ∨ (required.allowedPaths ≠ ∅ ∧
        ∀ path ∈ required.allowedPaths, ∃ allowed ∈ granted.allowedPaths,
          allowed.toList <+: path.toList)) := by
  obtain ⟨-, hread, hwrite, -, -⟩ := satisfies_iff.1 h
  have haccess : ∀ write, required.access write = true → granted.access write = true := by
    intro write
    cases write
    · exact hread
    · exact hwrite
  constructor
  · intro hcovers hflag
    obtain ⟨write, hwrite⟩ : ∃ write, required.access write = true := by
      rcases hflag with hflag | hflag
      · exact ⟨false, hflag⟩
      · exact ⟨true, hflag⟩
    by_cases hgranted : granted.allowedPaths = ∅
    · exact .inl hgranted
    have hstarts : ∀ path, (required.allowedPaths = ∅ ∨ path ∈ required.allowedPaths) →
        ∃ allowed ∈ granted.allowedPaths, allowed.toList <+: path.toList := by
      intro path hpath
      have hallowed := hcovers path write (required.canAccessPath_iff.2
        ⟨hwrite, hpath.imp_right fun hmem => ⟨path, hmem, List.prefix_rfl⟩⟩)
      exact (granted.canAccessPath_iff.1 hallowed).2.resolve_left hgranted
    by_cases hrequired : required.allowedPaths = ∅
    · -- the shortest path is allowed, and only one text begins it
      obtain ⟨allowed, hmem, hstart⟩ := hstarts "" (.inl hrequired)
      have hempty : allowed = "" := String.toList_inj.1 (List.prefix_nil.1 hstart)
      exact .inr (.inl (hempty ▸ hmem))
    · exact .inr (.inr ⟨hrequired, fun path hmem => hstarts path (.inr hmem)⟩)
  · intro hcond path write hallowed
    obtain ⟨hreq, hallowed⟩ := required.canAccessPath_iff.1 hallowed
    have hflag : required.filesystemRead = true ∨ required.filesystemWrite = true := by
      cases write
      · exact .inl hreq
      · exact .inr hreq
    apply granted.canAccessPath_iff.2
    refine ⟨haccess write hreq, ?_⟩
    obtain hempty | hall | ⟨hrequired, hcovered⟩ := hcond hflag
    · exact .inl hempty
    · exact .inr ⟨"", hall, List.nil_prefix⟩
    · obtain ⟨dir, hdir, hstart⟩ := hallowed.resolve_left hrequired
      obtain ⟨allowed, hmem, hbegins⟩ := hcovered dir hdir
      exact .inr ⟨allowed, hmem, hbegins.trans hstart⟩

/-- **What the comparison is worth**: it covers what is required exactly when what it leaves out
is granted as well. -/
theorem covers_iff (granted required : HostCapabilities)
    (h : granted.satisfies required = true) :
    Covers granted required ↔ Complete granted required := by
  obtain ⟨hnet, hread, hwrite, henv, -⟩ := satisfies_iff.1 h
  constructor
  · intro hcovers
    exact ⟨hcovers.logging, hcovers.clockAccess, hcovers.randomAccess,
      (covers_host_iff h).1 hcovers.host, (covers_path_iff h).1 hcovers.path⟩
  · intro hcomplete
    exact ⟨hcomplete.logging, hnet, hread, hwrite, henv, hcomplete.clockAccess,
      hcomplete.randomAccess, (covers_host_iff h).2 hcomplete.hosts,
      (covers_path_iff h).2 hcomplete.paths⟩

/-- The directory above is granted to a tool that requires the one below. -/
theorem parent_covers :
    Covers { minimal with filesystemRead := true, allowedPaths := {"/data"} }
      { default with filesystemRead := true, allowedPaths := {"/data/in"} } := by
  apply (covers_iff _ _ (by decide)).2
  refine ⟨by decide, by decide, by decide, by decide, fun _ => .inr (.inr ⟨by decide, ?_⟩)⟩
  intro path hpath
  obtain rfl := Finset.mem_singleton.1 hpath
  exact ⟨"/data", by simp, by decide⟩

/-- Who may read below one directory is granted to a tool that requires another one. -/
theorem other_path_satisfies :
    let granted := { minimal with filesystemRead := true, allowedPaths := {"/data"} }
    let required := { default with filesystemRead := true, allowedPaths := {"/etc"} }
    granted.satisfies required = true ∧ ¬ Covers granted required := by
  refine ⟨by decide, fun hcovers => ?_⟩
  have hpath := hcovers.path "/etc/passwd" false (by decide)
  exact absurd hpath (by decide)

end HostCapabilities

/-! ## Below a directory -/

namespace HostState

end HostState

end PeerClaw
