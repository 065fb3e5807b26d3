import SessionKeys.Json
import SessionKeys.Tool.Name

/-!
How tools are described to clients: what each of them does, and the arguments it takes.
-/

namespace SessionKeys

namespace Descriptor

/-- An argument of a simple type. -/
def simple (type description : String) : Json :=
  .object [("type", .string type), ("description", .string description)]

def text (description : String) : Json :=
  simple "string" description

def listOf (items : Json) : Json :=
  .object [("type", .string "array"), ("items", items)]

/-- An argument with named parts, some of which are required. -/
def record (properties : List (String × Json)) (required : List String) : Json :=
  .object [("type", .string "object"), ("properties", .object properties),
    ("required", .array (required.map .string))]

/-- How an unbounded time is given. -/
def time : Json :=
  simple "number" "Unix seconds, 0 = unbounded"

/-- The address of an operator. -/
def operator : Json :=
  text "Operator key address"

/-- What is said about predicates. -/
def predicatesDescription : String :=
  "Predicate forest as JSON instead of allowed_arguments. Nodes: \x7bop:\"ANY\"\x7d, " ++
  "\x7bop:\"EQ\"|\"NE\"|\"GT\"|\"LT\", value:\"0x<abi-encoded>\"\x7d, " ++
  "\x7bop:\"AND\"|\"OR\", children:[...]\x7d"

def session : Json :=
  record
    [("to", text "Contract the operator may call"),
     ("selector", text "4-byte selector, 0x00000000 for a plain value transfer"),
     ("allowed_arguments", text "RLP-encoded predicate forest (hex)"),
     ("predicates", .object
       [("type", .string "array"), ("description", .string predicatesDescription),
        ("items", .object [("type", .string "object")])]),
     ("paymaster", text "Pinned paymaster (omit for any)"),
     ("valid_until", time),
     ("valid_after", time),
     ("times_limit", text "Maximum uses, \"0\" or \"unlimited\" for no limit")]
    ["to", "selector"]

def permission : Json :=
  record
    [("session_root", text "Merkle root from build_session_tree"),
     ("paymaster", text "Pinned paymaster (omit for any)"),
     ("valid_until", time),
     ("valid_after", time),
     ("gas_remaining", text "Fee budget in wei, or \"unlimited\""),
     ("times_remaining", text "Remaining operations, or \"unlimited\"")]
    ["session_root", "gas_remaining", "times_remaining"]

def spendingLimits : Json :=
  listOf <| record
    [("token", text "Token address, zero address for the native token"),
     ("allowance", text "Cap in base units")]
    ["token", "allowance"]

def userOperation : Json :=
  let number := text "Decimal integer"
  let bytes := text "0x-prefixed hex"
  record
    [("sender", text "Wallet address"),
     ("nonce", number),
     ("initCode", bytes),
     ("callData", bytes),
     ("callGasLimit", number),
     ("verificationGasLimit", number),
     ("preVerificationGas", number),
     ("maxFeePerGas", number),
     ("maxPriorityFeePerGas", number),
     ("paymasterAndData", bytes),
     ("signature", bytes)]
    ["sender", "nonce", "callData", "callGasLimit", "verificationGasLimit", "preVerificationGas",
     "maxFeePerGas", "maxPriorityFeePerGas", "signature"]

end Descriptor

namespace Tool

open Descriptor

/-- What a tool does. -/
def description : Tool → String
  | buildSessionTree =>
    "Commit a list of sessions (target + selector + argument predicates) to a Merkle root. " ++
    "Returns the root to install with set_session_root, and for each session its encoded " ++
    "allowed arguments, leaf hash and Merkle proof to present when validating."
  | checkArguments =>
    "Check one call (to, data, value) and its RLP actual arguments against a session. " ++
    "Verifies target, selector, that the actual arguments match the calldata byte for byte, " ++
    "and evaluates the predicate forest. Read-only."
  | setSessionRoot =>
    "Replace an operator's session root. Every session not committed under the new root " ++
    "is revoked; budgets and spending limits are kept."
  | setOperatorPermission =>
    "Overwrite an operator's whole permission: session root, paymaster pin, validity window, " ++
    "gas budget and use count. Optional spending_limits are set (and their spent counters reset)."
  | getOperatorPermission =>
    "Show an operator's session root, paymaster pin, validity window, remaining gas, uses and " ++
    "permit nonce."
  | setSpendingLimit =>
    "Manage a per-token spending limit for an operator. \"set\" caps cumulative spend at " ++
    "allowance (and resets spent), \"reset\" zeroes spent, \"delete\" removes the cap (token " ++
    "unrestricted)."
  | getSpendingLimit =>
    "Show an operator's allowance and spent amount for one or more tokens, plus its remaining " ++
    "gas budget."
  | revokeSignature =>
    "Revoke a signed permit by its message hash. A revoked permit can never be consumed."
  | getPermitHash =>
    "Compute the message hash the wallet owner signs to install a permission for an operator " ++
    "at the operator's current permit nonce. The permit is consumed by the operator's first " ++
    "operation."
  | validateUserOp =>
    "Validate an ERC-4337 (entry point v0.6) user operation against the wallet. The signature " ++
    "starts with the 20-byte validator address. Returns the packed validation data and window. " ++
    "Dry run unless commit is true."

/-- The arguments that a tool takes. -/
def arguments : Tool → Json
  | buildSessionTree => record [("sessions", listOf session)] ["sessions"]
  | checkArguments =>
    record
      [("session", session),
       ("to", text "Call target"),
       ("data", text "Call data, 0x for a value transfer"),
       ("value", text "Native value in wei (default \"0\")"),
       ("actual_arguments", text "RLP list of ABI-encoded actual arguments")]
      ["session", "to", "data", "actual_arguments"]
  | setSessionRoot =>
    record [("operator", operator), ("session_root", text "New 32-byte Merkle root")]
      ["operator", "session_root"]
  | setOperatorPermission | getPermitHash =>
    record
      [("operator", operator), ("permission", permission), ("spending_limits", spendingLimits)]
      ["operator", "permission"]
  | getOperatorPermission => record [("operator", operator)] ["operator"]
  | setSpendingLimit =>
    record
      [("operator", operator),
       ("token", text "Token address (omit for the native token)"),
       ("allowance", text "Cap in base units (required for \"set\")"),
       ("action", .object
         [("type", .string "string"),
          ("enum", .array [.string "set", .string "reset", .string "delete"]),
          ("description", .string "Default \"set\"")])]
      ["operator"]
  | getSpendingLimit =>
    record
      [("operator", operator),
       ("tokens", .object
         [("type", .string "array"), ("items", .object [("type", .string "string")]),
          ("description", .string "Token addresses")])]
      ["operator"]
  | revokeSignature =>
    record [("hash", text "Permit message hash (from get_permit_hash)")] ["hash"]
  | validateUserOp =>
    record
      [("user_op", userOperation),
       ("commit", simple "boolean" "Apply state changes (default false)")]
      ["user_op"]

def descriptor (tool : Tool) : Json :=
  .object [("name", .string tool.name), ("description", .string tool.description),
    ("inputSchema", tool.arguments)]

end Tool

end SessionKeys
