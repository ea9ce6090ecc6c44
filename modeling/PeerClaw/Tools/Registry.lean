import PeerClaw.Lib.Check
import PeerClaw.Lib.FiniteMap
import PeerClaw.Safety.Egress
import PeerClaw.Tools.Tool

/-!
# The registry of tools

`execute_local` in `tools/registry.rs`: before a builtin tool is executed, its
parameters are held against its schema, and those of the tools that make network
requests against the egress policy, where the context of the call has one.

* `ToolRegistry.screen` — all that comes before the execution.
* `screen_ok_iff` — which calls reach it.
* `screen_respects` — with a policy in the context, no call that reaches execution has a
  URL that the policy denies.
-/

namespace PeerClaw
namespace Tools

open Lib Lib.Check Safety

/-- Execution context for tool calls. -/
structure ToolContext where
  sessionId : String
  jobId : Option String
  peerId : String
  sandboxed : Bool
  /-- Names only. -/
  availableSecrets : List String
  /-- Network egress policy for this agent, if any. -/
  egressPolicy : Option EgressPolicy
  agentDepth : UInt32

/-- The builtin tools, with their schemas. -/
structure ToolRegistry where
  builtinTools : FiniteMap String Value

/-- What the check of a URL calls. -/
structure EgressEnv where
  parse : String → Except String Url
  casing : Text.Casing

/-- A required parameter that is absent or empty. -/
def requiredJsonValueMissing : Option Value → Bool
  | none | some .null => true
  | some (.string s) => Text.trim s = ""
  | some (.array values) => values.isEmpty
  | some _ => false

namespace ToolRegistry

variable (reg : ToolRegistry)

/-- Validate the parameters against the required ones of the schema of the tool. -/
def precheckLocalParams (name : String) (params : Value) : Except String Unit :=
  match reg.builtinTools.lookup name with
  | none => .ok ()
  | some schema =>
      match (schema.get? "required").bind Value.asArray with
      | none => .ok ()
      | some _ =>
          match params.asObject with
          | none =>
              .error ("`" ++ name ++ "` expects a JSON object for `args`, got " ++ params.render ++
                ". Required: " ++ parameterSchemaPromptHint schema)
          | some obj =>
              match (requiredKeys schema).find? fun ks => requiredJsonValueMissing (obj.get? ks) with
              | some ks =>
                  .error ("missing or empty required parameter `" ++ ks ++ "` for `" ++ name ++
                    "`. Required: " ++ parameterSchemaPromptHint schema)
              | none =>
                  if name = "json" ∧ (obj.get? "action").bind Value.asStr = some "query" ∧
                      requiredJsonValueMissing (obj.get? "query") then
                    .error ("missing or empty required parameter `query` for `json` when action " ++
                      "is \"query\". Required: " ++ parameterSchemaPromptHint schema)
                  else .ok ()

/-- The egress check of a call: of the URL of a network tool, where there is a policy. -/
def checkPolicy (env : EgressEnv) (ctx : ToolContext) (name : String) (params : Value) :
    Except ToolError Unit :=
  if isNetworkTool name then
    match ctx.egressPolicy, optionalStr params "url" with
    | some policy, some url =>
        (policy.checkEgressWithMethod env.parse env.casing url name
          (optionalStr params "method")).mapError fun denied => .notAuthorized denied.display
    | _, _ => .ok ()
  else .ok ()

/-- What comes before the execution of a tool. -/
def screen (env : EgressEnv) (ctx : ToolContext) (name : String) (params : Value) :
    Except ToolError Unit := do
  (reg.precheckLocalParams name params).mapError ToolError.invalidParameters
  checkPolicy env ctx name params
  if (reg.builtinTools.lookup name).isNone then throw (.notFound name)

/-- Execute a tool locally. -/
def executeLocal {α : Type} (env : EgressEnv) (ctx : ToolContext)
    (execute : String → Value → Except ToolError α) (name : String) (params : Value) :
    Except ToolError α := do
  reg.screen env ctx name params
  execute name params

end ToolRegistry

/-- The call has a URL that the policy denies. -/
def NamesDenied (env : EgressEnv) (policy : EgressPolicy) (name : String) (params : Value) : Prop :=
  ∃ url, optionalStr params "url" = some url ∧
    policy.checkEgressWithMethod env.parse env.casing url name (optionalStr params "method") ≠ .ok ()

section Admission

variable {reg : ToolRegistry} {env : EgressEnv} {ctx : ToolContext} {name : String} {params : Value}

theorem checkPolicy_of_none (h : ctx.egressPolicy = none) :
    ToolRegistry.checkPolicy env ctx name params = .ok () := by
  unfold ToolRegistry.checkPolicy
  rw [h]
  cases isNetworkTool name with
  | false => rfl
  | true => rfl

/-- The check fails for a network tool exactly when its URL is denied. -/
theorem checkPolicy_ok_iff {policy : EgressPolicy} (h : ctx.egressPolicy = some policy)
    (hname : isNetworkTool name) :
    ToolRegistry.checkPolicy env ctx name params = .ok () ↔ ¬ NamesDenied env policy name params := by
  unfold ToolRegistry.checkPolicy NamesDenied
  rw [h, if_pos hname]
  cases optionalStr params "url" with
  | none => simp
  | some url =>
    cases hcheck : policy.checkEgressWithMethod env.parse env.casing url name
        (optionalStr params "method") with
    | error denied => simp [hcheck, Except.mapError]
    | ok x => simp [hcheck, Except.mapError]

/-- **Which calls reach execution.** -/
theorem screen_ok_iff :
    reg.screen env ctx name params = .ok () ↔
      reg.precheckLocalParams name params = .ok () ∧
        ToolRegistry.checkPolicy env ctx name params = .ok () ∧
        (reg.builtinTools.lookup name).isSome := by
  unfold ToolRegistry.screen
  cases reg.precheckLocalParams name params with
  | error e => simp [Except.mapError, bind, Except.bind]
  | ok x =>
    cases ToolRegistry.checkPolicy env ctx name params with
    | error e => simp [Except.mapError, bind, Except.bind]
    | ok y =>
      cases reg.builtinTools.lookup name with
      | none => simp [Except.mapError, bind, Except.bind, throw, throwThe, MonadExceptOf.throw]
      | some schema => simp [Except.mapError, bind, Except.bind, pure, Except.pure]

/-- **The check itself is sound**: with a policy in the context, no call of a network tool that
reaches execution has a URL that the policy denies. -/
theorem screen_respects {policy : EgressPolicy} (h : ctx.egressPolicy = some policy)
    (hname : isNetworkTool name) (hscreen : reg.screen env ctx name params = .ok ()) :
    ¬ NamesDenied env policy name params :=
  (checkPolicy_ok_iff h hname).1 (screen_ok_iff.1 hscreen).2.1

end Admission

end Tools
end PeerClaw
