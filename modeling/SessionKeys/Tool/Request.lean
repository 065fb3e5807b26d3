import SessionKeys.Schema.Record
import SessionKeys.Tool.Name

/-!
Requests to tools, and how they are read from the arguments that were handed in.
-/

namespace SessionKeys

/-- What is done with a spending limit. -/
inductive LimitAction where
  | set
  | reset
  | delete
deriving DecidableEq, Repr

namespace LimitAction

def name : LimitAction → String
  | set => "set"
  | reset => "reset"
  | delete => "delete"

def byName : List (String × LimitAction) :=
  [set, reset, delete].map fun a => (a.name, a)

end LimitAction

/-- A request to a tool. -/
inductive ToolRequest where
  | buildSessionTree (sessions : List Session)
  | checkArguments (session : Session) (target : Address) (data : Hex) (value : Int)
    (actualArguments : Hex)
  | setSessionRoot (operator : Address) (sessionRoot : Hex)
  | setOperatorPermission (operator : Address) (permission : OperatorPermission)
    (spendingLimits : Option (List SpendingLimit))
  | getOperatorPermission (operator : Address)
  | setSpendingLimit (operator : Address) (token : Option Address) (allowance : Option Int)
    (action : LimitAction)
  | getSpendingLimit (operator : Address) (tokens : Option (List Address))
  | revokeSignature (hash : Hex)
  | getPermitHash (operator : Address) (permission : OperatorPermission)
    (spendingLimits : List SpendingLimit)
  | validateUserOp (op : UserOperation) (commit : Bool)
deriving DecidableEq, Repr

namespace ToolRequest

/-- The tool that a request is made to. -/
def tool : ToolRequest → Tool
  | buildSessionTree .. => .buildSessionTree
  | checkArguments .. => .checkArguments
  | setSessionRoot .. => .setSessionRoot
  | setOperatorPermission .. => .setOperatorPermission
  | getOperatorPermission .. => .getOperatorPermission
  | setSpendingLimit .. => .setSpendingLimit
  | getSpendingLimit .. => .getSpendingLimit
  | revokeSignature .. => .revokeSignature
  | getPermitHash .. => .getPermitHash
  | validateUserOp .. => .validateUserOp

open Reader in
/-- Reads a request to a tool from the fields of its arguments. -/
def ofFields (tool : Tool) (path : Path) (fields : List (String × Json)) : Reading ToolRequest :=
  match tool with
  | .buildSessionTree => buildSessionTree <$> field (list session 1) "sessions" path fields
  | .checkArguments =>
    checkArguments
      <$> field session "session" path fields
      <*> field address "to" path fields
      <*> field hex "data" path fields
      <*> field (orElse amount 0) "value" path fields
      <*> field hex "actual_arguments" path fields
  | .setSessionRoot =>
    setSessionRoot
      <$> field address "operator" path fields
      <*> field hash "session_root" path fields
  | .setOperatorPermission =>
    setOperatorPermission
      <$> field address "operator" path fields
      <*> field permission "permission" path fields
      <*> field (optional (list spendingLimit 0)) "spending_limits" path fields
  | .getOperatorPermission => getOperatorPermission <$> field address "operator" path fields
  | .setSpendingLimit =>
    setSpendingLimit
      <$> field address "operator" path fields
      <*> field (optional address) "token" path fields
      <*> field (optional amount) "allowance" path fields
      <*> field (orElse (choice LimitAction.byName) .set) "action" path fields
  | .getSpendingLimit =>
    getSpendingLimit
      <$> field address "operator" path fields
      <*> field (optional (list address 0)) "tokens" path fields
  | .revokeSignature => revokeSignature <$> field hash "hash" path fields
  | .getPermitHash =>
    getPermitHash
      <$> field address "operator" path fields
      <*> field permission "permission" path fields
      <*> field (orElse (list spendingLimit 0) []) "spending_limits" path fields
  | .validateUserOp =>
    validateUserOp
      <$> field userOperation "user_op" path fields
      <*> field (orElse bool false) "commit" path fields

/-- Reads a request to a tool. -/
def reader (tool : Tool) : Reader ToolRequest :=
  Reader.fields (ofFields tool)

end ToolRequest

end SessionKeys
