import Mathlib.Data.Finset.Basic
import PeerClaw.Lib.Action
import PeerClaw.Lib.FiniteMap
import PeerClaw.Lib.Paths
import PeerClaw.Lib.Text
import PeerClaw.Encoding
import PeerClaw.Value

/-!
# The executor of WASM tools

A tool is known by the hash of its bytes.  The registry keeps three things under three different
names: what it knows of a tool under the whole hash, the bytes in a file that is named after the
first 16 characters, and the compiled module under the string that the caller sent.

* `WasmExecutor.step` — a tool is registered, a call is executed, the process is started again.
* `WasmExecutor.execute_ok_iff` — what has to hold for a module to be run.
-/

namespace PeerClaw

open Lib

/-- `HostCapabilities`. -/
structure HostCapabilities where
  logging : Bool
  networkAccess : Bool
  filesystemRead : Bool
  filesystemWrite : Bool
  envAccess : Bool
  clockAccess : Bool
  randomAccess : Bool
  allowedHosts : Finset String
  allowedPaths : Finset String
  deriving DecidableEq

namespace HostCapabilities

/-- `HostCapabilities::default`. -/
def default : HostCapabilities := ⟨false, false, false, false, false, false, false, ∅, ∅⟩

/-- `HostCapabilities::all`. -/
def all : HostCapabilities := ⟨true, true, true, true, true, true, true, ∅, ∅⟩

/-- `HostCapabilities::minimal`. -/
def minimal : HostCapabilities :=
  { default with logging := true, clockAccess := true, randomAccess := true }

/-- `HostCapabilities::satisfies`. -/
def satisfies (self required : HostCapabilities) : Bool :=
  if required.networkAccess && !self.networkAccess then false
  else if required.filesystemRead && !self.filesystemRead then false
  else if required.filesystemWrite && !self.filesystemWrite then false
  else if required.envAccess && !self.envAccess then false
  -- an empty list of its own does not restrict the hosts
  else if ∃ host ∈ required.allowedHosts, host ∉ self.allowedHosts ∧ self.allowedHosts ≠ ∅ then
    false
  else true

theorem satisfies_default (self : HostCapabilities) : self.satisfies default = true := by
  simp [satisfies, default]

end HostCapabilities

/-- `WasmError`, as far as the registry and the executor return it. -/
inductive WasmError
  | compilationFailed (message : String)
  | toolNotFound (hash : String)
  | capabilityDenied (message : String)
  | ioError
  deriving DecidableEq

/-- What the executor asks of `WasmSandbox::compile`: which bytes make a module. -/
structure WasmSandbox where
  Module : Type
  compile : List UInt8 → Except String Module

/-- `CompiledModule`, with the bytes that it was compiled from. -/
structure CompiledModule (S : WasmSandbox) where
  bytes : List UInt8
  module : S.Module
  compiled : S.compile bytes = .ok module

/-- A BLAKE3 hash. -/
abbrev Blake3Hash := { bytes : List UInt8 // bytes.length = 32 }

/-- `ToolInfo`. -/
structure ToolInfo where
  hash : String
  name : String
  description : String
  version : String
  requiredCapabilities : HostCapabilities
  sizeBytes : UInt64
  deriving DecidableEq

/-- What is found under a path. -/
inductive Entry
  | file (bytes : List UInt8)
  | directory
  deriving DecidableEq

/-- The file system. -/
abbrev Disk := FiniteMap Path Entry

/-- `ToolRegistry`. -/
structure ToolRegistry (S : WasmSandbox) where
  toolsDir : Path
  tools : FiniteMap String ToolInfo
  compiled : FiniteMap String (CompiledModule S)

/-- The registry of the executor, and the disk it keeps the tools on. -/
structure WasmExecutor (S : WasmSandbox) where
  registry : ToolRegistry S
  disk : Disk

/-- `ToolRegistry::new`, on a disk that may have anything on it. -/
def WasmExecutor.new (S : WasmSandbox) (toolsDir : Path) (disk : Disk) : WasmExecutor S :=
  ⟨⟨toolsDir, ∅, ∅⟩, disk⟩

/-- The path of a tool.  A string is cut after 16 bytes, which panics inside a character. -/
def toolPath (toolsDir : Path) (hash : String) : Option Path :=
  (Text.takeBytes (min 16 (Text.byteLen hash.toList)) hash.toList).map fun head =>
    toolsDir.join (String.ofList head ++ ".wasm")

namespace WasmExecutor

variable {S : WasmSandbox} (blake3 : List UInt8 → Blake3Hash)

/-- `blake3::hash(bytes).to_hex()`. -/
def toolHash (bytes : List UInt8) : String := hexEncode (blake3 bytes).1

/-- `std::fs::write`: the file may not be opened, and less than all bytes may be written. -/
def write (disk : Disk) (path : Path) (bytes : List UInt8) (written : Option ℕ) : Disk × Bool :=
  match disk.lookup path, written with
  | some .directory, _ => (disk, false)
  | _, none => (disk, false)
  | _, some k => (disk.insert path (.file (bytes.take k)), decide (bytes.length ≤ k))

/-- What `ToolRegistry::register` knows of a tool. -/
def infoOf (name : String) (bytes : List UInt8) : ToolInfo where
  hash := toolHash blake3 bytes
  name := name
  description := ""
  version := "0.1.0"
  requiredCapabilities := .default
  sizeBytes := UInt64.ofNat bytes.length

/-- `WasmExecutor::register_tool`. -/
def registerTool (w : WasmExecutor S) (name : String) (bytes : List UInt8) (written : Option ℕ) :
    Outcome WasmError String × WasmExecutor S :=
  let hash := toolHash blake3 bytes
  match toolPath w.registry.toolsDir hash with
  | none => (.panic, w)
  | some path =>
      match write w.disk path bytes written with
      | (disk, false) => (.err .ioError, { w with disk := disk })
      | (disk, true) =>
          (.ok hash,
            { disk := disk
              registry := { w.registry with
                tools := w.registry.tools.insert hash (infoOf blake3 name bytes) } })

/-- `WasmSandbox::compile`. -/
def compile (bytes : List UInt8) : Except WasmError (CompiledModule S) :=
  match h : S.compile bytes with
  | .error message => .error (.compilationFailed message)
  | .ok module => .ok ⟨bytes, module, h⟩

/-- What `ToolRegistry::get_compiled` finds on the disk, where reading may fail. -/
def load (w : WasmExecutor S) (hash : String) (readable : Bool) :
    Outcome WasmError (CompiledModule S) :=
  match toolPath w.registry.toolsDir hash with
  | none => .panic
  | some path =>
      match w.disk.lookup path with
      | none => .err (.toolNotFound hash)
      | some .directory => .err .ioError
      | some (.file bytes) =>
          if readable then
            match compile bytes with
            | .error e => .err e
            | .ok compiled => .ok compiled
          else .err .ioError

/-- `ToolRegistry::get_compiled`. -/
def getCompiled (w : WasmExecutor S) (hash : String) (readable : Bool) :
    Outcome WasmError (CompiledModule S) × WasmExecutor S :=
  match w.registry.compiled.lookup hash with
  | some compiled => (.ok compiled, w)
  | none =>
      match w.load hash readable with
      | .ok compiled =>
          (.ok compiled,
            { w with registry := { w.registry with
                compiled := w.registry.compiled.insert hash compiled } })
      | .err e => (.err e, w)
      | .panic => (.panic, w)

/-- A call of `WasmExecutor::execute`.  Whether the file can be read is up to the system. -/
structure Request where
  toolHash : String
  function : String
  params : Value
  capabilities : HostCapabilities
  readable : Bool

/-- What is handed to `WasmSandbox::execute`. -/
structure Execution (S : WasmSandbox) where
  compiled : CompiledModule S
  function : String
  params : Value
  capabilities : HostCapabilities

/-- `WasmExecutor::execute`, up to the module that is run. -/
def execute (w : WasmExecutor S) (r : Request) :
    Outcome WasmError (Execution S) × WasmExecutor S :=
  match w.getCompiled r.toolHash r.readable with
  | (.err e, w) => (.err e, w)
  | (.panic, w) => (.panic, w)
  | (.ok compiled, w) =>
      let run : Execution S := ⟨compiled, r.function, r.params, r.capabilities⟩
      match w.registry.tools.lookup r.toolHash with
      -- what is not registered is run without a check
      | none => (.ok run, w)
      | some info =>
          if r.capabilities.satisfies info.requiredCapabilities then (.ok run, w)
          else (.err (.capabilityDenied "Tool requires capabilities not granted"), w)

/-- What happens to the executor. -/
inductive Event
  | registerTool (name : String) (bytes : List UInt8) (written : Option ℕ)
  | execute (r : Request)
  | restart

/-- The process does one thing. -/
def step (w : WasmExecutor S) : Event → WasmExecutor S
  | .registerTool name bytes written => (w.registerTool blake3 name bytes written).2
  | .execute r => (w.execute r).2
  | .restart => .new S w.registry.toolsDir w.disk

end WasmExecutor
end PeerClaw
