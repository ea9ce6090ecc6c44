import PeerClaw.Agent.Config
import PeerClaw.Url

/-!
# Network egress policy enforcement

`safety/egress.rs`: the policy of an agent is a list of rules and a default, and the
first rule that matches a request decides about it.

* `EgressPolicy.checkEgressWithMethod` — the check.
* `matchesHost_iff` — which hosts a pattern stands for.
-/

namespace PeerClaw
namespace Safety

open Lib

/-- The default action when no rule matches. -/
inductive PolicyDefault
  | deny
  | allow
  deriving DecidableEq

/-- Action to take for a matching rule. -/
inductive RuleAction
  | allow
  | deny
  deriving DecidableEq

/-- Compiled egress rule for fast matching. -/
structure EgressRule where
  /-- In lower case; a leading `*.` means any subdomain. -/
  hostPattern : String
  isWildcard : Bool
  port : Option UInt16
  /-- In upper case; none means all methods. -/
  methods : List String
  /-- None means all tools. -/
  tools : List String
  action : RuleAction
  deriving DecidableEq

/-- Compiled egress policy ready for enforcement. -/
structure EgressPolicy where
  default : PolicyDefault
  rules : List EgressRule
  deriving DecidableEq

/-- Error returned when an egress check fails. -/
structure EgressDenied where
  url : String
  toolName : String
  reason : String
  deriving DecidableEq

def EgressDenied.display (e : EgressDenied) : String :=
  "egress denied for tool '" ++ e.toolName ++ "' to '" ++ e.url ++ "': " ++ e.reason

namespace EgressRule

def fromSpecRule (casing : Text.Casing) (r : NetworkPolicyRule) : EgressRule where
  hostPattern := casing.toLowercase r.host
  isWildcard := Text.startsWith (casing.toLowercase r.host) "*."
  port := r.port
  methods := r.methods.map casing.toUppercase
  tools := r.tools
  action := if casing.toLowercase r.action = "deny" then .deny else .allow

/-- Check whether this rule's host pattern matches the given hostname. -/
def matchesHost (rule : EgressRule) (host : String) : Bool :=
  if rule.isWildcard then
    let suffix := rule.hostPattern.toList.drop 1
    suffix.isSuffixOf host.toList || host.toList = suffix.drop 1
  else host = rule.hostPattern

/-- Two names of methods are the same but for the case of ASCII letters. -/
def eqIgnoreAsciiCase (a b : String) : Bool := Text.toAsciiLowercase a = Text.toAsciiLowercase b

/-- The rule is about this request; a port or a method that the request does not name is no
reason against it. -/
def applies (rule : EgressRule) (host : String) (port : Option UInt16) (method : Option String)
    (toolName : String) : Bool :=
  rule.matchesHost host &&
    (match rule.port, port with
      | some rulePort, some urlPort => rulePort = urlPort
      | _, _ => true) &&
    (rule.methods.isEmpty ||
      match method with
      | some m => rule.methods.any fun rm => eqIgnoreAsciiCase rm m
      | none => true) &&
    (rule.tools.isEmpty || rule.tools.any fun t => t = toolName)

end EgressRule

namespace EgressPolicy

/-- Build an egress policy from the network policy of a specification; without one there are no
restrictions. -/
def fromSpec (casing : Text.Casing) (spec : Option NetworkPolicySpec) : Option EgressPolicy :=
  spec.map fun spec =>
    { default := if casing.toLowercase spec.default = "allow" then .allow else .deny
      rules := spec.rules.map (EgressRule.fromSpecRule casing) }

/-- Check whether a URL may be accessed by the given tool, with an HTTP method. -/
def checkEgressWithMethod (policy : EgressPolicy) (parse : String → Except String Url)
    (casing : Text.Casing) (url toolName : String) (method : Option String) :
    Except EgressDenied Unit :=
  match parse url with
  | .error e => .error ⟨url, toolName, "invalid URL: " ++ e⟩
  | .ok parsed =>
      match parsed.hostStr with
      | none => .error ⟨url, toolName, "URL has no host"⟩
      | some hostStr =>
          match policy.rules.find? fun rule =>
            rule.applies (casing.toLowercase hostStr) parsed.portOrKnownDefault method toolName with
          | some rule =>
              match rule.action with
              | .allow => .ok ()
              | .deny =>
                  .error ⟨url, toolName,
                    "denied by rule for host pattern '" ++ rule.hostPattern ++ "'"⟩
          | none =>
              match policy.default with
              | .allow => .ok ()
              | .deny => .error ⟨url, toolName, "no matching allow rule (default deny)"⟩

end EgressPolicy

/-- The builtin tools that make network requests. -/
def networkTools : List String := ["http", "web_fetch", "web_search", "browser"]

/-- Whether the tool is known to make network requests. -/
def isNetworkTool (name : String) : Bool := networkTools.contains name

/-- **Which hosts a wildcard stands for**: the domain after it, and whatever ends with a dot and
that domain. -/
theorem matchesHost_iff {rule : EgressRule} {domain : List Char} {host : String}
    (hwild : rule.isWildcard) (hpattern : rule.hostPattern.toList = '*' :: '.' :: domain) :
    rule.matchesHost host ↔
      host.toList = domain ∨ ∃ sub, host.toList = sub ++ '.' :: domain := by
  simp only [EgressRule.matchesHost, hwild, if_true, hpattern, List.drop_succ_cons, List.drop_zero,
    Bool.or_eq_true, decide_eq_true_eq, List.isSuffixOf_iff_suffix]
  constructor
  · rintro (⟨sub, hsub⟩ | hbase)
    · exact .inr ⟨sub, hsub.symm⟩
    · exact .inl hbase
  · rintro (hbase | ⟨sub, hsub⟩)
    · exact .inr hbase
    · exact .inl ⟨sub, hsub.symm⟩

end Safety
end PeerClaw
