/-!
The tools that a server offers.
-/

namespace SessionKeys

inductive Tool where
  /-- commits sessions, and gives their proofs -/
  | buildSessionTree
  /-- checks a call against a session -/
  | checkArguments
  | setSessionRoot
  | setOperatorPermission
  | getOperatorPermission
  | setSpendingLimit
  | getSpendingLimit
  | revokeSignature
  | getPermitHash
  /-- validates a user operation -/
  | validateUserOp
deriving DecidableEq, Repr

namespace Tool

/-- All tools, in the order in which they are listed. -/
def all : List Tool :=
  [buildSessionTree, checkArguments, setSessionRoot, setOperatorPermission, getOperatorPermission,
   setSpendingLimit, getSpendingLimit, revokeSignature, getPermitHash, validateUserOp]

def name : Tool → String
  | buildSessionTree => "build_session_tree"
  | checkArguments => "check_arguments"
  | setSessionRoot => "set_session_root"
  | setOperatorPermission => "set_operator_permission"
  | getOperatorPermission => "get_operator_permission"
  | setSpendingLimit => "set_spending_limit"
  | getSpendingLimit => "get_spending_limit"
  | revokeSignature => "revoke_signature"
  | getPermitHash => "get_permit_hash"
  | validateUserOp => "validate_user_op"

def ofName? (s : String) : Option Tool :=
  all.find? fun tool => tool.name == s

end Tool

end SessionKeys
