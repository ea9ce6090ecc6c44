import PeerClaw.Proxy.Payment
import PeerClaw.Serve.Awaiting
import PeerClaw.Tools.FileRead
import PeerClaw.Tools.Http

/-!
# The check in front of the builtin tools

`precheck_local_params` in `tools/registry.rs` holds the parameters of a call against the
`required` list of the tool's schema, before the tool reads them itself.  Here are the builtin
tools, each up to the point where its parameters can no longer be invalid.

* `Builtin.checkParams` — what a tool says of its parameters.
* `Builtin.Spoils` — the calls that the tool would have taken and the check turns down.
* `precheck_fails_iff` — which calls the check turns down.
* `precheck_transparent_iff` — a call is turned down for its parameters only if the tool would have
  done so, unless it is one of those.
-/

namespace PeerClaw
namespace Tools

open Lib Lib.Path Safety

/-- The tools that the registry has from the start. -/
inductive Builtin
  | echo
  | time
  | json
  | http
  | webFetch
  | fileRead
  | fileWrite
  | fileList
  | shell
  | codeExec
  | webSearch
  | applyPatch
  | pdfRead
  | browser
  | memorySearch
  | memoryWrite
  | jobSubmit
  | jobStatus
  | peerDiscovery
  | walletBalance
  | llmTask
  | agentSpawn
  deriving DecidableEq

namespace Builtin

/-- In the order in which they are registered. -/
def all : List Builtin :=
  [echo, time, json, http, webFetch, fileRead, fileWrite, fileList, shell, codeExec, webSearch,
    applyPatch, pdfRead, browser, memorySearch, memoryWrite, jobSubmit, jobStatus, peerDiscovery,
    walletBalance, llmTask, agentSpawn]

def name : Builtin → String
  | echo => "echo"
  | time => "time"
  | json => "json"
  | http => "http"
  | webFetch => "web_fetch"
  | fileRead => "file_read"
  | fileWrite => "file_write"
  | fileList => "file_list"
  | shell => "shell"
  | codeExec => "code_exec"
  | webSearch => "web_search"
  | applyPatch => "apply_patch"
  | pdfRead => "pdf_read"
  | browser => "browser"
  | memorySearch => "memory_search"
  | memoryWrite => "memory_write"
  | jobSubmit => "job_submit"
  | jobStatus => "job_status"
  | peerDiscovery => "peer_discovery"
  | walletBalance => "wallet_balance"
  | llmTask => "llm_task"
  | agentSpawn => "agent_spawn"

/-- The required parameters of the schema, if it lists any. -/
def required : Builtin → Option (List String)
  | echo => some ["message"]
  | json => some ["action", "input"]
  | http | webFetch | browser => some ["url"]
  | fileRead | pdfRead => some ["path"]
  | fileWrite => some ["path", "content"]
  | shell => some ["command"]
  | codeExec => some ["language", "code"]
  | webSearch | memorySearch => some ["query"]
  | applyPatch => some ["file_path", "old_text", "new_text"]
  | memoryWrite => some ["content"]
  | jobSubmit => some ["type"]
  | jobStatus => some ["job_id"]
  | llmTask => some ["task"]
  | agentSpawn => some ["goal"]
  | time | fileList | peerDiscovery | walletBalance => none

/-- `parameters_schema`, given what it says of each parameter. -/
def schema (properties : Builtin → Value) (tool : Builtin) : Value :=
  let fields := [("type", .string "object"), ("properties", properties tool)]
  .ofFields (match tool.required with
    | some keys => fields ++ [("required", .texts keys)]
    | none => fields)

/-- `register_builtin_tools`. -/
def registry (properties : Builtin → Value) : ToolRegistry where
  builtinTools := all.foldl (fun tools tool => tools.insert tool.name (tool.schema properties)) ∅

/-- The tool of a name. -/
def ofName? (name : String) : Option Builtin := all.find? fun tool => tool.name = name

end Builtin

/-! ## What a tool says of its parameters -/

/-- What the tools meet outside, and what they do once their parameters are read. -/
structure World where
  web : Web
  /-- A URL has a scheme, and is not blank. -/
  parse_blank : ∀ s, Text.trim s = "" → ∃ e, web.parse s = .error e
  workingDir : String
  home : Option String
  /-- Make the directories above a file. -/
  createDirs : String → Except String Unit
  decodeBase64 : String → Except String (List UInt8)
  /-- The size of what is at a path. -/
  metadata : String → Except String ℕ
  /-- What comes of reading some pages of a PDF file. -/
  extract : String → Option UInt32 × Option UInt32 → Except ToolError String
  /-- The call has a way to the node. -/
  nodeRunning : Bool
  finish : Builtin → ToolContext → Value → Except ToolError ToolOutput
  finish_valid : ∀ tool ctx params message,
    finish tool ctx params ≠ .error (.invalidParameters message)

/-- Maximum size of a PDF file. -/
def maxPdfSize : ℕ := 50 * 1024 * 1024

/-- `str::parse::<u32>`. -/
def parseU32 (s : String) : Option UInt32 :=
  (Proxy.parseU64 s).bind fun n => if n.toNat < 2 ^ 32 then some n.toUInt32 else none

/-- `str::split_once` at a dash. -/
def splitDash (s : String) : Option (String × String) :=
  match s.toList.dropWhile (· ≠ '-') with
  | [] => none
  | _ :: rest => some (String.ofList (s.toList.takeWhile (· ≠ '-')), String.ofList rest)

/-- Parse a page range like "1-5" or "3" into the first and the last page, from 1 on. -/
def parsePageRange (pages : Option String) :
    Except ToolError (Option UInt32 × Option UInt32) :=
  match pages with
  | none => .ok (none, none)
  | some pages =>
      let pages := Text.trim pages
      if pages = "" then .ok (none, none)
      else
        match splitDash pages with
        | some (start, last) =>
            match parseU32 (Text.trim start) with
            | none => .error (.invalidParameters s!"Invalid page range start: '{Text.trim start}'")
            | some first =>
                match parseU32 (Text.trim last) with
                | none => .error (.invalidParameters s!"Invalid page range end: '{Text.trim last}'")
                | some last =>
                    if first = 0 ∨ last = 0 then
                      .error (.invalidParameters "Page numbers are 1-based")
                    else if last < first then
                      .error (.invalidParameters
                        s!"Invalid page range: {first.toNat} > {last.toNat}")
                    else .ok (some first, some last)
        | none =>
            match parseU32 pages with
            | none => .error (.invalidParameters s!"Invalid page number: '{pages}'")
            | some page =>
                if page = 0 then .error (.invalidParameters "Page numbers are 1-based")
                else .ok (some page, some page)

/-- `Path::extension` of a path: that of its last component. -/
def pathExtension (path : String) : Option String :=
  ((parts path).filter fun part => part ≠ "" ∧ part ≠ ".").getLast?.bind Path.extension

namespace World

variable (w : World) (ctx : ToolContext) (params : Value)

/-- The interpreter of a language. -/
def interpreterFor (lang : String) : Option String :=
  let lang := w.web.casing.toLowercase lang
  if lang ∈ ["python", "python3", "py"] then some "python3"
  else if lang ∈ ["javascript", "js", "node"] then some "node"
  else if lang ∈ ["bash", "sh", "shell"] then some "bash"
  else if lang ∈ ["ruby", "rb"] then some "ruby"
  else none

/-- The json tool takes its input under either of two names, and is not particular about it. -/
def jsonToolInputRaw : Except ToolError String :=
  match (params.get? "input").or (params.get? "json") with
  | some (.string s) => .ok s
  | some v => .ok v.render
  | none => .error (.invalidParameters ("missing or empty required parameter `action` for `json`. " ++
      "Required: `action` (one of parse|format|query|validate), `input` (JSON to process: a JSON " ++
      "string, or an object/array (accepted as structured input). Markdown ```json … ``` fences " ++
      "are stripped automatically.)"))

/-- The action of the json tool, which is to format where there is none. -/
def jsonAction : String :=
  match optionalStr params "action" with
  | some a => if a ≠ "" then a else "format"
  | none => "format"

def checkJson : Except ToolError Unit := do
  let _ ← jsonToolInputRaw params
  if jsonAction params ∈ ["parse", "validate", "format"] then .ok ()
  else if jsonAction params = "query" then
    match optionalStr params "query" with
    | some _ => .ok ()
    | none => .error (.invalidParameters "query required for query action")
  else .error (.invalidParameters s!"Unknown action: {jsonAction params}")

def checkHttp : Except ToolError Unit := do
  let (url, _) ← w.web.checkedUrl params
  let _ ← HttpTool.request w.web.casing url params
  .ok ()

def checkBrowser : Except ToolError Unit := do
  let url ← requireStr params "url"
  match w.web.parse url with
  | .error e => .error (.invalidParameters s!"Invalid URL: {e}")
  | .ok parsed =>
      if parsed.scheme ∉ ["http", "https"] then
        .error (.invalidParameters
          s!"Unsupported scheme '{parsed.scheme}'. Only http and https are allowed.")
      else
        match validateUrl w.web.validation url with
        | .error e => .error (.notAuthorized e.display)
        | .ok () =>
            let action := (optionalStr params "action").getD "snapshot"
            if action ∈ ["snapshot", "screenshot"] then .ok ()
            else .error (.invalidParameters
              s!"Unknown action '{action}'. Use 'snapshot' or 'screenshot'.")

/-- The path may be given under either of two names. -/
def checkFileWrite : Except ToolError Unit := do
  let pathStr ← FileReadTool.pathParam params
  let content ← requireStr params "content"
  if File.isProtectedPath w.web.casing pathStr then
    .error (.notAuthorized s!"Access to {pathStr} is not allowed")
  else
    let made :=
      if optionalBool params "create_dirs" true then
        w.createDirs (resolvePath w.home pathStr w.workingDir)
      else .ok ()
    match made with
    | .error e => .error (.executionFailed s!"Cannot create directory: {e}")
    | .ok () =>
        if (optionalStr params "encoding").getD "utf8" = "base64" then
          match w.decodeBase64 content with
          | .error e => .error (.invalidParameters s!"Invalid base64: {e}")
          | .ok _ => .ok ()
        else .ok ()

def checkCodeExec : Except ToolError Unit := do
  let lang ← requireStr params "language"
  let _ ← requireStr params "code"
  match w.interpreterFor lang with
  | some _ => .ok ()
  | none => .error (.invalidParameters
      s!"Unsupported language '{lang}'. Use: python, javascript, bash, ruby")

def checkPatch : Except ToolError Unit := do
  let _ ← requireStr params "file_path"
  let _ ← requireStr params "old_text"
  let _ ← requireStr params "new_text"
  .ok ()

/-- The path of a PDF file, from the working directory. -/
def pdfPath (pathStr : String) : String :=
  if IsRooted pathStr then pathStr else joinText w.workingDir pathStr

/-- What is done with the file at a path. -/
def readPdf (path : String) : Except ToolError Unit :=
  match w.metadata path with
  | .error e => .error (.invalidParameters s!"Cannot access file '{path}': {e}")
  | .ok size =>
      if maxPdfSize < size then
        .error (.invalidParameters
          s!"PDF file too large: {size} bytes (max {maxPdfSize} bytes)")
      else if (pathExtension path).map Text.toAsciiLowercase ≠ some "pdf" then
        .error (.invalidParameters "File does not have a .pdf extension")
      else
        match parsePageRange (optionalStr params "pages") with
        | .error e => .error e
        | .ok range => (w.extract path range).map fun _ => ()

def checkPdf : Except ToolError Unit := do
  let pathStr ← requireStr params "path"
  w.readPdf params (w.pdfPath pathStr)

def checkMemoryWrite : Except ToolError Unit := do
  let content ← requireStr params "content"
  if Text.trim content = "" then .error (.invalidParameters "Content cannot be empty")
  else if 100000 < content.utf8ByteSize then
    .error (.invalidParameters "Content too large (max 100KB)")
  else .ok ()

/-- What `job_submit` says where there is no payload. -/
def payloadMissing (jobType : String) : String :=
  match jobType with
  | "inference" => "job_submit: type \"inference\" needs top-level \"prompt\" or \"payload\""
  | "web_fetch" => "job_submit: type \"web_fetch\" needs top-level \"url\" or \"payload\" (this is " ++
      "the P2P job tool; for local fetch use the web_fetch tool with \x7b\"url\": \"...\"\x7d)"
  | "wasm" => "job_submit: type \"wasm\" needs top-level \"tool_name\" or \"payload\""
  | "compute" | "storage" => "job_submit: type \"" ++ jobType ++ "\" needs top-level \"payload\""
  | _ => "Unknown job type: " ++ jobType ++ " (use inference, web_fetch, wasm, compute, storage)"

def checkJobSubmit : Except ToolError Unit :=
  if w.nodeRunning then do
    let jobType ← requireStr params "type"
    match jobPayload params jobType with
    | some _ => .ok ()
    | none => .error (.invalidParameters (payloadMissing jobType))
  else .error (.executionFailed
    "job_submit requires a running `peerclaw serve` node with the P2P runtime.")

def checkJobStatus : Except ToolError Unit :=
  if w.nodeRunning then do
    let _ ← requireStr params "job_id"
    .ok ()
  else .error (.executionFailed "job_status requires a running `peerclaw serve` node.")

def checkAgentSpawn : Except ToolError Unit :=
  if maxAgentDepth ≤ ctx.agentDepth then
    .error (.executionFailed (s!"Maximum sub-agent depth ({maxAgentDepth.toNat}) reached. " ++
      "Cannot spawn deeper sub-agents."))
  else do
    let _ ← requireStr params "goal"
    if budgetPositive params then .ok ()
    else .error (.invalidParameters "budget must be positive")

/-- A text that has to be there, and nothing else of the parameters that could be invalid. -/
def checkText (key : String) : Except ToolError Unit := do
  let _ ← requireStr params key
  .ok ()

/-- A tool, up to where its parameters can no longer be invalid. -/
def checkParams : Builtin → Except ToolError Unit
  | .echo => checkText params "message"
  | .json => checkJson params
  | .http => w.checkHttp params
  | .webFetch => (w.web.checkedUrl params).map fun _ => ()
  | .fileRead => (FileReadTool.pathParam params).map fun _ => ()
  | .fileWrite => w.checkFileWrite params
  | .shell => checkText params "command"
  | .codeExec => w.checkCodeExec params
  | .webSearch => checkText params "query"
  | .applyPatch => checkPatch params
  | .pdfRead => w.checkPdf params
  | .browser => w.checkBrowser params
  | .memorySearch => checkText params "query"
  | .memoryWrite => checkMemoryWrite params
  | .jobSubmit => w.checkJobSubmit params
  | .jobStatus => w.checkJobStatus params
  | .llmTask => checkText params "task"
  | .agentSpawn => checkAgentSpawn ctx params
  | .time | .fileList | .peerDiscovery | .walletBalance => .ok ()

/-- A call of a tool. -/
def execute (tool : Builtin) : Except ToolError ToolOutput := do
  w.checkParams ctx params tool
  w.finish tool ctx params

/-- A call by name. -/
def executeNamed (name : String) : Except ToolError ToolOutput :=
  match Builtin.ofName? name with
  | some tool => w.execute ctx params tool
  | none => .error (.notFound name)

end World

/-! ## Calls that are spoiled -/

/-- The call fails because of its parameters. -/
def Invalid {α : Type} (result : Except ToolError α) : Prop :=
  ∃ message, result = .error (.invalidParameters message)

/-- What the check calls missing. -/
def Missing (params : Value) (key : String) : Prop :=
  requiredJsonValueMissing (params.get? key) = true

/-- The parameter is a text. -/
def IsText (params : Value) (key : String) : Prop := (optionalStr params key).isSome = true

/-- The parameter is a text with nothing to be seen in it. -/
def Blank (params : Value) (key : String) : Prop :=
  ∃ s, optionalStr params key = some s ∧ Text.trim s = ""

/-- The calls that the check turns down although the tool would have taken their parameters. -/
def Builtin.Spoils (w : World) (ctx : ToolContext) (params : Value) : Builtin → Prop
  | .echo => Blank params "message"
  | .shell => Blank params "command"
  | .webSearch | .memorySearch => Blank params "query"
  | .llmTask => Blank params "task"
  | .json =>
      ((params.get? "input").isSome ∨ (params.get? "json").isSome) ∧
        (World.jsonAction params ∈ ["parse", "validate", "format"] ∨
          World.jsonAction params = "query" ∧ IsText params "query") ∧
        (Missing params "action" ∨ Missing params "input" ∨
          optionalStr params "action" = some "query" ∧ Missing params "query")
  | .fileRead => Missing params "path" ∧ (IsText params "path" ∨ IsText params "file_path")
  | .fileWrite =>
      (Missing params "path" ∨ Missing params "content") ∧
        ∃ pathStr content, FileReadTool.pathParam params = .ok pathStr ∧
          optionalStr params "content" = some content ∧
          (File.isProtectedPath w.web.casing pathStr ∨
            (optionalBool params "create_dirs" true ∧
              ∃ e, w.createDirs (resolvePath w.home pathStr w.workingDir) = .error e) ∨
            (optionalStr params "encoding").getD "utf8" ≠ "base64" ∨
            ∃ bytes, w.decodeBase64 content = .ok bytes)
  | .codeExec =>
      (∃ lang, optionalStr params "language" = some lang ∧ (w.interpreterFor lang).isSome) ∧
        IsText params "code" ∧ (Blank params "language" ∨ Blank params "code")
  | .applyPatch =>
      IsText params "file_path" ∧ IsText params "old_text" ∧ IsText params "new_text" ∧
        (Blank params "file_path" ∨ Blank params "old_text" ∨ Blank params "new_text")
  | .pdfRead =>
      ∃ pathStr size range, optionalStr params "path" = some pathStr ∧ Text.trim pathStr = "" ∧
        w.metadata (w.pdfPath pathStr) = .ok size ∧ size ≤ maxPdfSize ∧
        (pathExtension (w.pdfPath pathStr)).map Text.toAsciiLowercase = some "pdf" ∧
        parsePageRange (optionalStr params "pages") = .ok range ∧
        ¬ Invalid (w.extract (w.pdfPath pathStr) range)
  | .jobSubmit => w.nodeRunning = false ∧ Missing params "type"
  | .jobStatus => if w.nodeRunning then Blank params "job_id" else Missing params "job_id"
  | .agentSpawn =>
      if maxAgentDepth ≤ ctx.agentDepth then Missing params "goal"
      else Blank params "goal" ∧ budgetPositive params
  | .time | .http | .webFetch | .fileList | .browser | .memoryWrite | .peerDiscovery
  | .walletBalance => False

section Check

variable {properties : Builtin → Value} {tool : Builtin} {params : Value} {key : String}

theorem lookup_foldl_insert {α V : Type} (name : α → String) (v : α → V) (tools : List α)
    (m : FiniteMap String V) (key : String) (hnodup : (tools.map name).Nodup) :
    (tools.foldl (fun m tool => m.insert (name tool) (v tool)) m).lookup key =
      ((tools.find? fun tool => name tool = key).map v).or (m.lookup key) := by
  induction tools generalizing m with
  | nil => rfl
  | cons tool tools ih =>
      rw [List.map_cons, List.nodup_cons] at hnodup
      rw [List.foldl_cons, ih _ hnodup.2, Finmap.lookup_insert_eq]
      by_cases hname : name tool = key
      · have hnone : (tools.find? fun tool => decide (name tool = key)) = none := by
          rw [List.find?_eq_none]
          intro other hmem hother
          apply hnodup.1
          rw [hname, ← of_decide_eq_true hother]
          exact List.mem_map_of_mem hmem
        rw [hnone, if_pos hname.symm, List.find?_cons_of_pos (by simpa using hname)]
        rfl
      · rw [if_neg (Ne.symm hname), List.find?_cons_of_neg (by simpa using hname)]

theorem ofName?_name (tool : Builtin) : Builtin.ofName? tool.name = some tool := by
  cases tool <;> decide

theorem lookup_registry (properties : Builtin → Value) (tool : Builtin) :
    (Builtin.registry properties).builtinTools.lookup tool.name =
      some (tool.schema properties) := by
  have hfind : (Builtin.all.find? fun other => other.name = tool.name) = some tool :=
    ofName?_name tool
  rw [Builtin.registry, lookup_foldl_insert Builtin.name (Builtin.schema properties) _ _ _
    (by decide), hfind]
  rfl

theorem asArray_required (properties : Builtin → Value) (tool : Builtin) :
    ((tool.schema properties).get? "required").bind Value.asArray =
      tool.required.map fun keys => keys.map .string := by
  unfold Builtin.schema
  cases tool.required with
  | some keys =>
      rw [Value.get?_ofFields_concat]
      rfl
  | none =>
      have hproperties : "required" ≠ "properties" := by decide
      have htype : "required" ≠ "type" := by decide
      simp only [Value.get?, Value.ofFields, Value.asObject, Fields.insertAll, List.foldl_cons,
        List.foldl_nil, Option.bind_some, Fields.get?_insert_of_ne _ hproperties,
        Fields.get?_insert_of_ne _ htype]
      rfl

theorem name_eq_json (tool : Builtin) : tool.name = "json" ↔ tool = .json := by
  cases tool <;> decide

theorem required_ne_nil {keys : List String} (h : tool.required = some keys) : keys ≠ [] := by
  rintro rfl
  cases tool <;> cases h

theorem missing_of_not_object (h : params.asObject = none) (key : String) : Missing params key := by
  rw [Missing, Value.get?, h]
  rfl

/-- **Which calls the check turns down.** -/
theorem precheck_fails_iff (properties : Builtin → Value) (tool : Builtin) (params : Value) :
    (∃ e, (Builtin.registry properties).precheckLocalParams tool.name params = .error e) ↔
      (∃ keys, tool.required = some keys ∧ ∃ key ∈ keys, Missing params key) ∨
        tool = .json ∧ optionalStr params "action" = some "query" ∧ Missing params "query" := by
  have hrequired := asArray_required properties tool
  rw [ToolRegistry.precheckLocalParams, lookup_registry]
  simp only [hrequired]
  cases hkeys : tool.required with
  | none =>
      have hjson : tool ≠ .json := by
        rintro rfl
        cases hkeys
      simp [hjson]
  | some keys =>
      have hlisted : requiredKeys (tool.schema properties) = keys := by
        rw [requiredKeys, hrequired, hkeys, Option.map_some, Option.getD_some, List.filterMap_map]
        exact List.filterMap_some
      rw [hlisted]
      cases hobj : params.asObject with
      | none =>
          obtain ⟨key, rest, rfl⟩ := List.exists_cons_of_ne_nil (required_ne_nil hkeys)
          have hmissing := missing_of_not_object hobj key
          simp [hmissing]
      | some obj =>
          have hget : ∀ key, obj.get? key = params.get? key := by
            intro key
            rw [Value.get?, hobj, Option.bind_some]
          simp only [Option.map_some, hget, name_eq_json]
          cases hfind : keys.find? fun key => requiredJsonValueMissing (params.get? key) with
          | some key =>
              have hmissing : Missing params key := by
                rw [Missing]
                simpa using List.find?_some hfind
              have hmem := List.mem_of_find?_eq_some hfind
              simpa using Or.inl ⟨key, hmem, hmissing⟩
          | none =>
              have hnone : ¬ ∃ key ∈ keys, Missing params key := by
                rintro ⟨key, hmem, hmissing⟩
                exact List.find?_eq_none.1 hfind key hmem hmissing
              by_cases hquery : tool = .json ∧ optionalStr params "action" = some "query" ∧
                  Missing params "query"
              · have hrule := hquery
                unfold optionalStr Missing at hrule
                rw [if_pos hrule]
                simp [hquery]
              · have hrule := hquery
                unfold optionalStr Missing at hrule
                rw [if_neg hrule]
                simp [hnone, hquery]

end Check

/-! ## What each tool would have taken -/

section Valid

variable {w : World} {ctx : ToolContext} {params : Value} {key : String} {α β : Type}

@[simp] theorem not_invalid_ok (a : α) : ¬ Invalid (.ok a : Except ToolError α) := by
  rintro ⟨message, h⟩
  cases h

@[simp] theorem invalid_invalid (message : String) :
    Invalid (.error (.invalidParameters message) : Except ToolError α) := ⟨message, rfl⟩

@[simp] theorem not_invalid_failed (message : String) :
    ¬ Invalid (.error (.executionFailed message) : Except ToolError α) := by
  rintro ⟨message, h⟩
  cases h

@[simp] theorem not_invalid_denied (message : String) :
    ¬ Invalid (.error (.notAuthorized message) : Except ToolError α) := by
  rintro ⟨message, h⟩
  cases h

theorem valid_requireStr (f : String → Except ToolError α) :
    ¬ Invalid (requireStr params key >>= f) ↔
      ∃ s, optionalStr params key = some s ∧ ¬ Invalid (f s) := by
  unfold requireStr
  cases optionalStr params key with
  | none => simp [bind, Except.bind]
  | some s => simp [bind, Except.bind]

theorem valid_checkText : ¬ Invalid (World.checkText params key) ↔ IsText params key := by
  rw [World.checkText, valid_requireStr]
  simp [IsText, Option.isSome_iff_exists]

theorem missing_iff_of_text {s : String} (h : optionalStr params key = some s) :
    Missing params key ↔ Text.trim s = "" := by
  obtain ⟨v, hget, hv⟩ := Option.bind_eq_some_iff.1 h
  cases v with
  | string t =>
      obtain rfl := Option.some.inj hv
      rw [Missing, hget]
      simp [requiredJsonValueMissing]
  | _ => cases hv

theorem blank_iff : Blank params key ↔ IsText params key ∧ Missing params key := by
  constructor
  · rintro ⟨s, hs, hblank⟩
    exact ⟨by rw [IsText, hs]; rfl, (missing_iff_of_text hs).2 hblank⟩
  · rintro ⟨htext, hmissing⟩
    obtain ⟨s, hs⟩ := Option.isSome_iff_exists.1 htext
    exact ⟨s, hs, (missing_iff_of_text hs).1 hmissing⟩

theorem pathParam_cases (params : Value) : (∃ s, FileReadTool.pathParam params = .ok s ∧
      (IsText params "path" ∨ IsText params "file_path")) ∨
    Invalid (FileReadTool.pathParam params) ∧
      ¬ (IsText params "path" ∨ IsText params "file_path") := by
  unfold FileReadTool.pathParam requireStr IsText
  cases optionalStr params "path" with
  | some s => simp
  | none => cases optionalStr params "file_path" <;> simp

theorem valid_pathParam (f : String → Except ToolError α) :
    ¬ Invalid (FileReadTool.pathParam params >>= f) ↔
      ∃ s, FileReadTool.pathParam params = .ok s ∧ ¬ Invalid (f s) := by
  rcases pathParam_cases params with ⟨s, hs, -⟩ | ⟨⟨message, hmessage⟩, -⟩
  · simp [hs, bind, Except.bind]
  · simp [hmessage, bind, Except.bind]

/-- Without a URL that is more than blank, the network tools take nothing. -/
theorem invalid_of_missing_url (hmissing : Missing params "url") :
    Invalid (w.web.checkedUrl params) ∧ Invalid (w.checkBrowser params) := by
  unfold Web.checkedUrl World.checkBrowser requireStr
  cases hurl : optionalStr params "url" with
  | none => simp [bind, Except.bind]
  | some url =>
      obtain ⟨e, he⟩ := w.parse_blank url ((missing_iff_of_text hurl).1 hmissing)
      simp [bind, Except.bind, he]

theorem invalid_bind {x : Except ToolError α} (h : Invalid x) (f : α → Except ToolError β) :
    Invalid (x >>= f) := by
  obtain ⟨message, rfl⟩ := h
  exact ⟨message, rfl⟩

theorem valid_json : ¬ Invalid (World.checkJson params) ↔
    ((params.get? "input").isSome ∨ (params.get? "json").isSome) ∧
      (World.jsonAction params ∈ ["parse", "validate", "format"] ∨
        World.jsonAction params = "query" ∧ IsText params "query") := by
  have haction : ¬ Invalid (if World.jsonAction params ∈ ["parse", "validate", "format"] then .ok ()
      else if World.jsonAction params = "query" then
        match optionalStr params "query" with
        | some _ => .ok ()
        | none => .error (.invalidParameters "query required for query action")
      else .error (.invalidParameters s!"Unknown action: {World.jsonAction params}") :
        Except ToolError Unit) ↔ World.jsonAction params ∈ ["parse", "validate", "format"] ∨
      World.jsonAction params = "query" ∧ IsText params "query" := by
    unfold IsText
    split
    · next h => simp [h]
    · next h =>
        split
        · next hquery => cases optionalStr params "query" <;> simp [hquery]
        · next hquery => simp [h, hquery]
  rw [← haction]
  unfold World.checkJson World.jsonToolInputRaw
  cases hinput : params.get? "input" with
  | some v => cases v <;> simp [bind, Except.bind]
  | none =>
      cases hjson : params.get? "json" with
      | some v => cases v <;> simp [bind, Except.bind]
      | none => simp [bind, Except.bind]

theorem valid_fileRead : ¬ Invalid ((FileReadTool.pathParam params).map fun _ => ()) ↔
    IsText params "path" ∨ IsText params "file_path" := by
  rcases pathParam_cases params with ⟨s, hs, htext⟩ | ⟨⟨message, hmessage⟩, hnot⟩
  · simp [hs, htext, Except.map]
  · simp [hmessage, hnot, Except.map]

theorem valid_fileWrite : ¬ Invalid (w.checkFileWrite params) ↔
    ∃ pathStr content, FileReadTool.pathParam params = .ok pathStr ∧
      optionalStr params "content" = some content ∧
      (File.isProtectedPath w.web.casing pathStr ∨
        (optionalBool params "create_dirs" true ∧
          ∃ e, w.createDirs (resolvePath w.home pathStr w.workingDir) = .error e) ∨
        (optionalStr params "encoding").getD "utf8" ≠ "base64" ∨
        ∃ bytes, w.decodeBase64 content = .ok bytes) := by
  rw [World.checkFileWrite, valid_pathParam]
  simp only [valid_requireStr, exists_and_left]
  refine exists_congr fun pathStr => and_congr_right fun _ =>
    exists_congr fun content => and_congr_right fun _ => ?_
  by_cases hprotected : File.isProtectedPath w.web.casing pathStr = true
  · simp [hprotected]
  · rw [if_neg hprotected]
    have hencoding : ¬ Invalid (if (optionalStr params "encoding").getD "utf8" = "base64" then
        match w.decodeBase64 content with
        | .error e => .error (.invalidParameters s!"Invalid base64: {e}")
        | .ok _ => .ok ()
        else .ok () : Except ToolError Unit) ↔
          (optionalStr params "encoding").getD "utf8" ≠ "base64" ∨
            ∃ bytes, w.decodeBase64 content = .ok bytes := by
      split
      · next h => cases hdecode : w.decodeBase64 content <;> simp [h]
      · next h => simp [h]
    cases hdirs : optionalBool params "create_dirs" true with
    | false => simpa [hprotected] using hencoding
    | true =>
        cases hmade : w.createDirs (resolvePath w.home pathStr w.workingDir) with
        | error e => simp
        | ok made => simpa [hprotected, hmade] using hencoding

theorem valid_codeExec : ¬ Invalid (w.checkCodeExec params) ↔
    (∃ lang, optionalStr params "language" = some lang ∧ (w.interpreterFor lang).isSome) ∧
      IsText params "code" := by
  rw [World.checkCodeExec, valid_requireStr]
  simp only [valid_requireStr, IsText]
  constructor
  · rintro ⟨lang, hlang, code, hcode, hvalid⟩
    cases hfor : w.interpreterFor lang with
    | none => simp [hfor] at hvalid
    | some interpreter => exact ⟨⟨lang, hlang, by simp [hfor]⟩, by simp [hcode]⟩
  · rintro ⟨⟨lang, hlang, hfor⟩, hcode⟩
    obtain ⟨interpreter, hfor⟩ := Option.isSome_iff_exists.1 hfor
    obtain ⟨code, hcode⟩ := Option.isSome_iff_exists.1 hcode
    exact ⟨lang, hlang, code, hcode, by simp [hfor]⟩

theorem valid_patch : ¬ Invalid (World.checkPatch params) ↔
    IsText params "file_path" ∧ IsText params "old_text" ∧ IsText params "new_text" := by
  rw [World.checkPatch, valid_requireStr]
  simp [valid_requireStr, IsText, Option.isSome_iff_exists]

theorem valid_agentSpawn : ¬ Invalid (World.checkAgentSpawn ctx params) ↔
    maxAgentDepth ≤ ctx.agentDepth ∨ IsText params "goal" ∧ budgetPositive params := by
  unfold World.checkAgentSpawn
  by_cases hdepth : maxAgentDepth ≤ ctx.agentDepth
  · simp [hdepth]
  · rw [if_neg hdepth, valid_requireStr]
    cases hbudget : budgetPositive params <;>
      simp [hdepth, IsText, Option.isSome_iff_exists]

theorem invalid_of_missing_content (hmissing : Missing params "content") :
    Invalid (World.checkMemoryWrite params) := by
  unfold World.checkMemoryWrite requireStr
  cases hcontent : optionalStr params "content" with
  | none => simp [bind, Except.bind]
  | some content =>
      simp [bind, Except.bind, (missing_iff_of_text hcontent).1 hmissing]

theorem valid_jobSubmit (hmissing : Missing params "type") :
    ¬ Invalid (w.checkJobSubmit params) ↔ w.nodeRunning = false := by
  unfold World.checkJobSubmit
  cases hnode : w.nodeRunning with
  | false => simp
  | true =>
      rw [if_pos rfl, valid_requireStr]
      simp only [Bool.true_eq_false, iff_false, not_exists, not_and, not_not]
      intro jobType htype
      have hblank := (missing_iff_of_text htype).1 hmissing
      have hnone : jobPayload params jobType = none := by
        unfold jobPayload
        split
        all_goals first | rfl | exact absurd hblank (by decide)
      rw [hnone]
      exact invalid_invalid _

theorem valid_jobStatus : ¬ Invalid (w.checkJobStatus params) ↔
    w.nodeRunning = false ∨ IsText params "job_id" := by
  unfold World.checkJobStatus
  cases hnode : w.nodeRunning with
  | false => simp
  | true =>
      rw [if_pos rfl, valid_requireStr]
      simp [IsText, Option.isSome_iff_exists]

theorem parsePageRange_error {pages : Option String} {e : ToolError}
    (h : parsePageRange pages = .error e) : ∃ message, e = .invalidParameters message := by
  unfold parsePageRange at h
  cases pages with
  | none => cases h
  | some pages =>
      dsimp only at h
      repeat' split at h
      all_goals cases h
      all_goals exact ⟨_, rfl⟩

/-- A PDF file is read if it is there, of a size and a name, and the pages are those of a range. -/
theorem valid_readPdf (path : String) : ¬ Invalid (w.readPdf params path) ↔
    ∃ size range, w.metadata path = .ok size ∧ size ≤ maxPdfSize ∧
      (pathExtension path).map Text.toAsciiLowercase = some "pdf" ∧
      parsePageRange (optionalStr params "pages") = .ok range ∧ ¬ Invalid (w.extract path range) := by
  unfold World.readPdf
  cases w.metadata path with
  | error e => simp
  | ok size =>
      by_cases hsize : maxPdfSize < size
      · simp [hsize, Nat.not_le.2 hsize]
      · by_cases hext : (pathExtension path).map Text.toAsciiLowercase = some "pdf"
        · cases hpages : parsePageRange (optionalStr params "pages") with
          | error e =>
              obtain ⟨message, rfl⟩ := parsePageRange_error hpages
              simp [hsize, hext]
          | ok range =>
              have hmap : Invalid ((w.extract path range).map fun _ => ()) ↔
                  Invalid (w.extract path range) := by
                cases w.extract path range <;> simp [Invalid, Except.map]
              simp [hsize, hext, hmap, Nat.not_lt.1 hsize]
        · simp [hsize, hext]

/-- What a call spoiled is: taken by the tool, and turned down by the check. -/
theorem spoils_iff (tool : Builtin) : tool.Spoils w ctx params ↔
    ¬ Invalid (w.checkParams ctx params tool) ∧
      ((∃ keys, tool.required = some keys ∧ ∃ key ∈ keys, Missing params key) ∨
        tool = .json ∧ optionalStr params "action" = some "query" ∧ Missing params "query") := by
  have htext : ∀ key, (Blank params key ↔ ¬ Invalid (World.checkText params key) ∧
      Missing params key) := by
    intro key
    rw [valid_checkText, blank_iff]
  have hurl : Missing params "url" →
      Invalid (w.web.checkedUrl params) ∧ Invalid (w.checkBrowser params) := invalid_of_missing_url
  cases tool with
  | echo | shell | webSearch | memorySearch | llmTask =>
      simpa [Builtin.Spoils, Builtin.required, World.checkParams] using htext _
  | time | fileList | peerDiscovery | walletBalance => simp [Builtin.Spoils, Builtin.required]
  | json =>
      simp only [Builtin.Spoils, Builtin.required, World.checkParams, valid_json]
      simp [and_assoc, or_assoc]
  | http =>
      simp only [Builtin.Spoils, Builtin.required, World.checkParams, false_iff]
      rintro ⟨hvalid, hmissing⟩
      exact hvalid (invalid_bind (hurl (by simpa using hmissing)).1 _)
  | webFetch =>
      simp only [Builtin.Spoils, Builtin.required, World.checkParams, false_iff]
      rintro ⟨hvalid, hmissing⟩
      obtain ⟨message, h⟩ := (hurl (by simpa using hmissing)).1
      rw [h] at hvalid
      exact hvalid (invalid_invalid message)
  | browser =>
      simp only [Builtin.Spoils, Builtin.required, World.checkParams, false_iff]
      rintro ⟨hvalid, hmissing⟩
      exact hvalid (hurl (by simpa using hmissing)).2
  | memoryWrite =>
      simp only [Builtin.Spoils, Builtin.required, World.checkParams, false_iff]
      rintro ⟨hvalid, hmissing⟩
      exact hvalid (invalid_of_missing_content (by simpa using hmissing))
  | fileRead =>
      simp [Builtin.Spoils, Builtin.required, World.checkParams, valid_fileRead, and_comm]
  | fileWrite =>
      simp [Builtin.Spoils, Builtin.required, World.checkParams, valid_fileWrite, and_comm]
  | codeExec =>
      have hlang : (∃ lang, optionalStr params "language" = some lang ∧
          (w.interpreterFor lang).isSome) → IsText params "language" := by
        rintro ⟨lang, h, -⟩
        rw [IsText, h]
        rfl
      have hkeys : (∃ keys, Builtin.codeExec.required = some keys ∧ ∃ key ∈ keys, Missing params key)
          ↔ Missing params "language" ∨ Missing params "code" := by
        simp [Builtin.required]
      simp only [Builtin.Spoils, World.checkParams, valid_codeExec, blank_iff, hkeys]
      grind
  | applyPatch =>
      have hkeys : (∃ keys, Builtin.applyPatch.required = some keys ∧ ∃ key ∈ keys, Missing params key)
          ↔ Missing params "file_path" ∨ Missing params "old_text" ∨ Missing params "new_text" := by
        simp [Builtin.required]
      simp only [Builtin.Spoils, World.checkParams, valid_patch, blank_iff, hkeys]
      grind
  | pdfRead =>
      simp only [Builtin.Spoils, World.checkParams, World.checkPdf, valid_requireStr, valid_readPdf,
        Builtin.required, Option.some.injEq, exists_eq_left', List.mem_singleton, exists_eq_left,
        reduceCtorEq, false_and, or_false]
      constructor
      · rintro ⟨pathStr, size, range, hpath, hblank, hread⟩
        exact ⟨⟨pathStr, hpath, size, range, hread⟩, (missing_iff_of_text hpath).2 hblank⟩
      · rintro ⟨⟨pathStr, hpath, size, range, hread⟩, hmissing⟩
        exact ⟨pathStr, size, range, hpath, (missing_iff_of_text hpath).1 hmissing, hread⟩
  | jobSubmit =>
      simp only [Builtin.Spoils, World.checkParams, Builtin.required, Option.some.injEq,
        exists_eq_left', List.mem_singleton, exists_eq_left, reduceCtorEq, false_and, or_false]
      exact and_congr_left fun hmissing => (valid_jobSubmit hmissing).symm
  | jobStatus =>
      have hkeys : (∃ keys, Builtin.jobStatus.required = some keys ∧ ∃ key ∈ keys, Missing params key)
          ↔ Missing params "job_id" := by
        simp [Builtin.required]
      simp only [Builtin.Spoils, World.checkParams, valid_jobStatus, blank_iff, hkeys]
      grind
  | agentSpawn =>
      have hkeys : (∃ keys, Builtin.agentSpawn.required = some keys ∧ ∃ key ∈ keys, Missing params key)
          ↔ Missing params "goal" := by
        simp [Builtin.required]
      simp only [Builtin.Spoils, World.checkParams, valid_agentSpawn, blank_iff, hkeys]
      grind

/-- What a tool does once its parameters are read does not turn them down any more. -/
theorem invalid_execute_iff (tool : Builtin) :
    Invalid (w.execute ctx params tool) ↔ Invalid (w.checkParams ctx params tool) := by
  unfold World.execute
  cases w.checkParams ctx params tool with
  | error e => simp [Invalid, bind, Except.bind]
  | ok x =>
      simp only [Invalid, bind, Except.bind, w.finish_valid, reduceCtorEq, exists_false]

theorem checkPolicy_valid (env : EgressEnv) (name : String) :
    ¬ Invalid (ToolRegistry.checkPolicy env ctx name params) := by
  unfold ToolRegistry.checkPolicy
  split
  · split
    · next policy url _ _ =>
        cases policy.checkEgressWithMethod env.parse env.casing url name
          (optionalStr params "method") <;> simp [Except.mapError]
    · exact not_invalid_ok _
  · exact not_invalid_ok _

/-- A call is turned down for its parameters by the check, or else by the tool if the policy lets
it through. -/
theorem invalid_executeLocal_iff (properties : Builtin → Value) (env : EgressEnv)
    (tool : Builtin) :
    Invalid ((Builtin.registry properties).executeLocal env ctx
        (fun name params => w.executeNamed ctx params name) tool.name params) ↔
      (∃ e, (Builtin.registry properties).precheckLocalParams tool.name params = .error e) ∨
        ToolRegistry.checkPolicy env ctx tool.name params = .ok () ∧
          Invalid (w.execute ctx params tool) := by
  have hnamed : w.executeNamed ctx params tool.name = w.execute ctx params tool := by
    rw [World.executeNamed, ofName?_name]
  have hpolicy : ¬ Invalid (ToolRegistry.checkPolicy env ctx tool.name params) :=
    checkPolicy_valid env tool.name
  unfold ToolRegistry.executeLocal ToolRegistry.screen
  beta_reduce
  rw [hnamed, lookup_registry]
  cases (Builtin.registry properties).precheckLocalParams tool.name params with
  | error e => simp [bind, Except.bind, Except.mapError]
  | ok x =>
      cases hcheck : ToolRegistry.checkPolicy env ctx tool.name params with
      | error e =>
          rw [hcheck] at hpolicy
          simpa [bind, Except.bind, Except.mapError, Invalid] using hpolicy
      | ok y => simp [bind, Except.bind, Except.mapError, pure, Except.pure]

/-- **When the check is not seen**: a call of a builtin tool that the tool would not turn down for
its parameters is not turned down for them by the registry either, unless it is spoiled. -/
theorem precheck_transparent_iff (w : World) (properties : Builtin → Value) (env : EgressEnv)
    (ctx : ToolContext) (tool : Builtin) (params : Value) :
    (¬ Invalid (w.execute ctx params tool) →
      ¬ Invalid ((Builtin.registry properties).executeLocal env ctx
        (fun name params => w.executeNamed ctx params name) tool.name params)) ↔
      ¬ tool.Spoils w ctx params := by
  rw [invalid_executeLocal_iff, spoils_iff, ← precheck_fails_iff properties, invalid_execute_iff]
  by_cases hvalid : Invalid (w.checkParams ctx params tool)
  · simp [hvalid]
  · simp [hvalid]

end Valid

/-- A machine without a network and without a node. -/
def offline : World where
  web := { metadataRedirect with parse := fun _ => .error "relative URL without a base" }
  parse_blank _ _ := ⟨_, rfl⟩
  workingDir := "/work"
  home := none
  createDirs _ := .ok ()
  decodeBase64 _ := .error "Invalid byte"
  metadata _ := .error "No such file or directory"
  extract _ _ := .error (.executionFailed "No such file or directory")
  nodeRunning := false
  finish _ _ _ := .ok (.ofSuccess .null 0)
  finish_valid _ _ _ _ h := by cases h

/-- A call of an agent that has no policy. -/
def plainCall : ToolContext := ⟨"session", none, "peer", false, [], none, 0⟩

/-- A patch that deletes a text. -/
def deletion : Value :=
  .ofFields [("file_path", .string "main.rs"), ("old_text", .string "dbg"), ("new_text", .string "")]

/-- The tool takes a patch that deletes a text, and the registry does not. -/
theorem deletion_refused :
    ¬ (¬ Invalid (offline.execute plainCall deletion .applyPatch) →
      ¬ Invalid ((Builtin.registry fun _ => .object []).executeLocal
        ⟨offline.web.parse, .ascii⟩ plainCall
        (fun name params => offline.executeNamed plainCall params name) "apply_patch" deletion)) := by
  intro h
  apply h
  · rw [invalid_execute_iff]
    exact valid_patch.2 ⟨rfl, rfl, rfl⟩
  · exact (invalid_executeLocal_iff _ _ .applyPatch).2
      (.inl ((precheck_fails_iff _ _ _).2 (.inl ⟨_, rfl, "new_text", by simp, rfl⟩)))

end Tools
end PeerClaw
