import PeerClaw.Lib.Text
import PeerClaw.Tools.Tool
import PeerClaw.Tools.Truncation

/-!
# The shell

`ShellTool` in `tools/builtin/shell.rs` runs a command in a shell.  Commands with one of
the blocked texts in them are refused first: the command is taken in lower case for that,
and the texts as they are written.

* `ShellTool.execute` — a call, with what it has executed.
* `isBlocked_iff` — what is refused, whatever the case.
* `rejected_iff` — a command with a blocked text is refused exactly when that is not only
  the one that is written with a letter in upper case.
-/

namespace PeerClaw
namespace Tools

open Lib

/-- Maximum output size before truncation. -/
def maxOutputSize : ℕ := 64 * 1024

/-- Commands that are always blocked for safety. -/
def blockedCommands : List String :=
  ["rm -rf /", "rm -rf /*", ":()\x7b :|:& \x7d;:", "dd if=/dev/zero", "mkfs", "chmod -R 777 /",
    "> /dev/sda", "curl | sh", "wget | sh", "curl | bash", "wget | bash"]

/-- Environment variables safe to forward to child processes. -/
def safeEnvVars : List String :=
  ["PATH", "HOME", "USER", "SHELL", "TERM", "LANG", "LC_ALL", "LC_CTYPE", "TZ", "TMPDIR", "TEMP",
    "TMP", "CC", "CXX", "CFLAGS", "LDFLAGS", "CARGO_HOME", "RUSTUP_HOME", "NODE_PATH",
    "NPM_CONFIG_PREFIX", "PYTHONPATH", "VIRTUAL_ENV", "GOPATH", "GOROOT"]

/-- A process, as it is built. -/
structure ProcessRequest where
  program : String
  args : List String
  workingDir : String
  /-- The variables, the later over the earlier. -/
  env : List (String × String)
  deriving DecidableEq

/-- What is left of a process that has ended. -/
structure Finished where
  stdout : List UInt8
  stderr : List UInt8
  /-- There is none where the process could not be waited for, or was ended by a signal. -/
  code : Option Int32

/-- The system that a call runs in. -/
structure ShellEnv where
  windows : Bool
  casing : Text.Casing
  vars : List (String × String)
  spawn : ProcessRequest → Except String Unit
  /-- What comes of a process that gets an input, if it ends within some seconds. -/
  finish : ProcessRequest → Option String → UInt64 → Option Finished
  elapsedMs : UInt64

/-- A process has been started. -/
inductive ShellEvent
  | spawned (request : ProcessRequest)
  deriving DecidableEq

/-- Shell execution tool. -/
structure ShellTool where
  defaultShell : String

/-- An exit code as a number of JSON. -/
def exitCodeValue (code : Int32) : Value :=
  if 0 ≤ code then .number (.posInt code.toInt.toNat.toUInt64) else .number (.negInt code.toInt64)

namespace ShellTool

def isBlocked (casing : Text.Casing) (command : String) : Bool :=
  blockedCommands.any fun blocked => Text.contains (casing.toLowercase command) blocked

/-- The process of a command. -/
def request (tool : ShellTool) (env : ShellEnv) (params : Value) (workingDir command : String) :
    ProcessRequest where
  program := if env.windows then "cmd" else tool.defaultShell
  args := if env.windows then ["/C", command] else ["-c", command]
  workingDir := (optionalStr params "cwd").getD workingDir
  env := (env.vars.filter fun var => var.1 ∈ safeEnvVars) ++
    (((params.get? "env").bind Value.asObject).getD []).filterMap fun (key, v) =>
      v.asStr.map fun s => (key, s)

/-- What is returned of a process that has ended; an output that is cut inside a character
panics. -/
def report (env : ShellEnv) (request : ProcessRequest) (command : String) (f : Finished) :
    Option ToolOutput := do
  let exitCode := f.code.getD (-1)
  let stdout ← truncateOutput f.stdout maxOutputSize
  let stderr ← truncateOutput f.stderr maxOutputSize
  let result : Value := .ofFields
    [("command", .string command), ("cwd", .string request.workingDir),
      ("exit_code", exitCodeValue exitCode), ("stdout", .string (String.ofList stdout)),
      ("stderr", .string (String.ofList stderr)),
      ("stdout_truncated", .bool (maxOutputSize < f.stdout.length)),
      ("stderr_truncated", .bool (maxOutputSize < f.stderr.length)),
      ("elapsed_ms", .nat env.elapsedMs)]
  if exitCode = 0 then some (.ofSuccess result env.elapsedMs)
  else some ((ToolOutput.ofFailure s!"Command exited with code {exitCode.toInt}"
    env.elapsedMs).withWarning s!"Exit code: {exitCode.toInt}")

/-- Execute the tool: the result, which is none if it panics, and what has been executed. -/
def execute (tool : ShellTool) (env : ShellEnv) (params : Value) (workingDir : String) :
    Option (Except ToolError ToolOutput) × List ShellEvent :=
  match requireStr params "command" with
  | .error e => (some (.error e), [])
  | .ok command =>
      if isBlocked env.casing command then
        (some (.error (.notAuthorized s!"Command blocked for safety: {command}")), [])
      else
        let timeout := (optionalI64 params "timeout" 120).toUInt64
        let request := tool.request env params workingDir command
        match env.spawn request with
        | .error e => (some (.error (.executionFailed s!"Failed to spawn: {e}")), [])
        | .ok () =>
            match env.finish request (optionalStr params "stdin") timeout with
            | none => (some (.error (.timeout timeout)), [.spawned request])
            | some f => ((report env request command f).map .ok, [.spawned request])

/-- A call is refused, and nothing has been executed. -/
def Refused (call : Option (Except ToolError ToolOutput) × List ShellEvent) : Prop :=
  ∃ message, call = (some (.error (.notAuthorized message)), [])

end ShellTool

/-! ## What is refused -/

/-- The text that is not written in lower case. -/
def chmodAll : String := "chmod -R 777 /"

section Refusals

variable {casing : Text.Casing} {tool : ShellTool} {env : ShellEnv} {params : Value}
  {workingDir command : String}

theorem blockedCommands_ascii : ∀ blocked ∈ blockedCommands, Text.IsAscii blocked.toList := by
  decide

theorem blockedCommands_lower : ∀ blocked ∈ blockedCommands, blocked ≠ chmodAll →
    blocked.toList.map Char.toLower = blocked.toList := by
  decide

theorem contains_iff_mentions (hcasing : casing.Lawful) {blocked : String}
    (hblocked : blocked ∈ blockedCommands) :
    Text.contains (casing.toLowercase command) blocked = true ↔
      blocked ≠ chmodAll ∧ casing.Mentions command blocked := by
  by_cases hchmod : blocked = chmodAll
  · have hnot := hcasing.not_contains (s := command) (t := blocked) (c := 'R')
      (by subst hchmod; decide) (by decide)
    refine iff_of_false ?_ fun h => h.1 hchmod
    simp [hnot]
  · have hsame := hcasing.toLowercase_eq (blockedCommands_ascii blocked hblocked)
      (blockedCommands_lower blocked hblocked hchmod)
    simp [Text.Casing.Mentions, hsame, hchmod]

/-- **What is refused.**  A command with one of the other texts in it, whatever the case. -/
theorem isBlocked_iff (hcasing : casing.Lawful) :
    ShellTool.isBlocked casing command = true ↔
      ∃ blocked ∈ blockedCommands, blocked ≠ chmodAll ∧ casing.Mentions command blocked := by
  simp only [ShellTool.isBlocked, List.any_eq_true]
  constructor
  · rintro ⟨blocked, hmem, hcontains⟩
    exact ⟨blocked, hmem, (contains_iff_mentions hcasing hmem).1 hcontains⟩
  · rintro ⟨blocked, hmem, hmentions⟩
    exact ⟨blocked, hmem, (contains_iff_mentions hcasing hmem).2 hmentions⟩

theorem refused_iff (hcommand : requireStr params "command" = .ok command) :
    ShellTool.Refused (tool.execute env params workingDir) ↔
      ShellTool.isBlocked env.casing command = true := by
  unfold ShellTool.execute
  rw [hcommand]
  dsimp only
  constructor
  · rintro ⟨message, hcall⟩
    by_contra hblocked
    rw [if_neg hblocked] at hcall
    split at hcall
    · simp at hcall
    · split at hcall <;> simp at hcall
  · intro hblocked
    rw [if_pos hblocked]
    exact ⟨_, rfl⟩

/-- **When a command with a blocked text is refused**, before anything is executed: exactly when
the text with a letter in upper case is not the only one it has. -/
theorem rejected_iff (tool : ShellTool) (env : ShellEnv) (params : Value)
    (workingDir command : String) (hcasing : env.casing.Lawful)
    (hcommand : requireStr params "command" = .ok command) :
    ((∃ blocked ∈ blockedCommands, env.casing.Mentions command blocked) →
        ShellTool.Refused (tool.execute env params workingDir)) ↔
      (env.casing.Mentions command chmodAll →
        ∃ blocked ∈ blockedCommands, blocked ≠ chmodAll ∧ env.casing.Mentions command blocked) := by
  rw [refused_iff hcommand, isBlocked_iff hcasing]
  constructor
  · intro h hchmod
    exact h ⟨chmodAll, by decide, hchmod⟩
  · rintro h ⟨blocked, hmem, hmentions⟩
    by_cases hchmod : blocked = chmodAll
    · exact h (hchmod ▸ hmentions)
    · exact ⟨blocked, hmem, hchmod, hmentions⟩

end Refusals

/-! ## A command that is executed -/

/-- A system in which every process ends at once. -/
def quietEnv : ShellEnv :=
  ⟨false, .ascii, [], fun _ => .ok (), fun _ _ _ => some ⟨[], [], some 0⟩, 0⟩

def chmodParams : Value := .ofFields [("command", .string "chmod -R 777 /")]

def mkfsParams : Value := .ofFields [("command", .string "MKFS /dev/sdb")]

theorem rejected_mkfs :
    (quietEnv.casing.Mentions "MKFS /dev/sdb" chmodAll → ∃ blocked ∈ blockedCommands,
        blocked ≠ chmodAll ∧ quietEnv.casing.Mentions "MKFS /dev/sdb" blocked) ∧
      ((∃ blocked ∈ blockedCommands, quietEnv.casing.Mentions "MKFS /dev/sdb" blocked) →
        ShellTool.Refused ((ShellTool.mk "/bin/sh").execute quietEnv mkfsParams "/")) := by
  have hmkfs : ∃ blocked ∈ blockedCommands,
      blocked ≠ chmodAll ∧ quietEnv.casing.Mentions "MKFS /dev/sdb" blocked :=
    ⟨"mkfs", by decide, by decide, by decide⟩
  exact ⟨fun _ => hmkfs, (rejected_iff ⟨"/bin/sh"⟩ quietEnv mkfsParams "/" "MKFS /dev/sdb"
    Text.Casing.ascii_lawful rfl).2 fun _ => hmkfs⟩

/-- The text itself is not refused. -/
theorem chmod_executed :
    ¬ ((∃ blocked ∈ blockedCommands, quietEnv.casing.Mentions "chmod -R 777 /" blocked) →
      ShellTool.Refused ((ShellTool.mk "/bin/sh").execute quietEnv chmodParams "/")) := by
  intro h
  have hmentions : quietEnv.casing.Mentions "chmod -R 777 /" chmodAll := by decide
  have hrefused := h ⟨chmodAll, by decide, hmentions⟩
  have hcommand : requireStr chmodParams "command" = .ok "chmod -R 777 /" := rfl
  have hblocked := (refused_iff hcommand).1 hrefused
  revert hblocked
  decide

end Tools
end PeerClaw
