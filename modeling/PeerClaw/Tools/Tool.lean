import PeerClaw.Value

/-!
# Tools

What every tool reads of its parameters, what its schema says of them, and how it fails,
from `tools/tool.rs`.
-/

namespace PeerClaw

/-- The number, if it is a signed one of 64 bits. -/
def Value.asI64 : Value → Option Int64
  | .number (.posInt n) => if n.toNat < 2 ^ 63 then some n.toInt64 else none
  | .number (.negInt n) => some n
  | _ => none

/-- The elements of an array. -/
def Value.asArray : Value → Option (List Value)
  | .array values => some values
  | _ => none

/-- The truth value of a boolean. -/
def Value.asBool : Value → Option Bool
  | .bool b => some b
  | _ => none

namespace Tools

open Lib

/-- Error type for tool operations. -/
inductive ToolError
  | invalidParameters (message : String)
  | executionFailed (message : String)
  | timeout (seconds : UInt64)
  | notAuthorized (message : String)
  | rateLimited (seconds : UInt64)
  | externalService (message : String)
  | capabilityDenied (message : String)
  | notFound (name : String)
  | internal (message : String)
  deriving DecidableEq

def ToolError.display : ToolError → String
  | .invalidParameters message => "Invalid parameters: " ++ message
  | .executionFailed message => "Execution failed: " ++ message
  | .timeout seconds => "Timeout after " ++ toString seconds.toNat ++ " seconds"
  | .notAuthorized message => "Not authorized: " ++ message
  | .rateLimited seconds => "Rate limited, retry after " ++ toString seconds.toNat ++ " seconds"
  | .externalService message => "External service error: " ++ message
  | .capabilityDenied message => "Capability denied: " ++ message
  | .notFound name => "Tool not found: " ++ name
  | .internal message => "Internal error: " ++ message

/-- Output from tool execution. -/
structure ToolOutput where
  success : Bool
  data : Value
  message : Option String
  durationMs : UInt64
  warnings : List String

namespace ToolOutput

/-- `ToolOutput::success`: a successful output with data. -/
def ofSuccess (data : Value) (durationMs : UInt64) : ToolOutput := ⟨true, data, none, durationMs, []⟩

/-- `ToolOutput::failure`: the error is the message, and the only field of the data. -/
def ofFailure (error : String) (durationMs : UInt64) : ToolOutput :=
  ⟨false, .ofFields [("error", .string error)], some error, durationMs, []⟩

/-- Add a warning to the output. -/
def withWarning (out : ToolOutput) (warning : String) : ToolOutput :=
  { out with warnings := out.warnings ++ [warning] }

end ToolOutput

/-- Helper to extract an optional string parameter. -/
def optionalStr (params : Value) (key : String) : Option String := (params.get? key).bind Value.asStr

/-- Helper to extract a required string parameter. -/
def requireStr (params : Value) (key : String) : Except ToolError String :=
  match optionalStr params key with
  | some s => .ok s
  | none => .error (.invalidParameters ("Missing required parameter: " ++ key))

/-- Helper to extract an optional integer parameter with default. -/
def optionalI64 (params : Value) (key : String) (fallback : Int64) : Int64 :=
  ((params.get? key).bind Value.asI64).getD fallback

/-- Helper to extract an optional boolean parameter with default. -/
def optionalBool (params : Value) (key : String) (fallback : Bool) : Bool :=
  ((params.get? key).bind Value.asBool).getD fallback

/-- What is said of a required parameter: its choices, if it has up to eight, or its description. -/
def parameterDetail (properties : Option Fields) (key : String) : String :=
  match (properties.bind fun props => props.get? key).bind Value.asObject with
  | none => "required"
  | some prop =>
      let choices := (((prop.get? "enum").bind Value.asArray).getD []).filterMap Value.asStr
      if choices ≠ [] ∧ choices.length ≤ 8 then "one of " ++ Text.join "|" choices
      else
        match (prop.get? "description").bind Value.asStr with
        | some d => if d = "" then "string" else d
        | none => "string"

/-- The names of the required parameters, as a schema lists them. -/
def requiredKeys (schema : Value) : List String :=
  (((schema.get? "required").bind Value.asArray).getD []).filterMap Value.asStr

/-- One-line hint for agent prompts: the required parameters of a schema. -/
def parameterSchemaPromptHint (schema : Value) : String :=
  match schema.asObject with
  | none => ""
  | some fields =>
      let required := requiredKeys schema
      if required = [] then "no required keys (`\x7b\x7d` is OK)"
      else
        Text.join ", " (required.map fun key =>
          "`" ++ key ++ "` (" ++
            parameterDetail ((fields.get? "properties").bind Value.asObject) key ++ ")")

end Tools
end PeerClaw
