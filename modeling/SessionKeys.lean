import SessionKeys.Bytes
import SessionKeys.Bytes.Lemmas
import SessionKeys.Hex
import SessionKeys.Keccak
import SessionKeys.Secp256k1
import SessionKeys.Address
import SessionKeys.Predicate.Tag
import SessionKeys.Digits
import SessionKeys.Failure
import SessionKeys.Rlp
import SessionKeys.Predicate
import SessionKeys.Predicate.Wire
import SessionKeys.Abi.Type
import SessionKeys.Abi.Encode
import SessionKeys.Abi.Cursor
import SessionKeys.Abi.Decode
import SessionKeys.Abi.Function
import SessionKeys.Budget
import SessionKeys.Session
import SessionKeys.MerkleTree
import SessionKeys.Session.Tree
import SessionKeys.Session.Call
import SessionKeys.ValidityWindow
import SessionKeys.WalletCall
import SessionKeys.Permission
import SessionKeys.UserOperation
import SessionKeys.Signature
import SessionKeys.SessionSignature
import SessionKeys.Table
import SessionKeys.Store
import SessionKeys.Spending
import SessionKeys.Accounting
import SessionKeys.Event
import SessionKeys.Management
import SessionKeys.Registry
import SessionKeys.Validation.Prepared
import SessionKeys.Validation.Permit
import SessionKeys.Validation.Settlement
import SessionKeys.Validation.Transaction
import SessionKeys.Validation.Outcome
import SessionKeys.Config
import SessionKeys.Engine
import SessionKeys.Timeline
import SessionKeys.Calendar
import SessionKeys.Report
import SessionKeys.Json
import SessionKeys.Json.Reading
import SessionKeys.Binary64
import SessionKeys.Binary64.Shortest
import SessionKeys.Schema.Issue
import SessionKeys.Schema.Reading
import SessionKeys.Schema.Value
import SessionKeys.Schema.Record
import SessionKeys.Tool.Name
import SessionKeys.Tool.Descriptor
import SessionKeys.Tool.Request
import SessionKeys.Tool.Run
import SessionKeys.JsonForm
import SessionKeys.JsonForm.Reading
import SessionKeys.JsonForm.Record
import SessionKeys.Log
import SessionKeys.Server
import SessionKeys.Server.Message
import SessionKeys.Main
import SessionKeys.Proofs.Settlement
import SessionKeys.Proofs.Preparation
import SessionKeys.Proofs.Steps
import SessionKeys.Proofs.Atomicity
import SessionKeys.Proofs.PermitUse
import SessionKeys.Proofs.Decoding
import SessionKeys.Proofs.Spending
import SessionKeys.Proofs.Window
import SessionKeys.Proofs.Acceptance
import SessionKeys.Proofs.Alignment
import SessionKeys.Proofs.Confinement
import SessionKeys.Proofs.SessionEncoding
import SessionKeys.Proofs.Membership
import SessionKeys.Proofs.History
import SessionKeys.Proofs.PermitAuthority
import SessionKeys.Proofs.Commits
import SessionKeys.Proofs.Serial
import SessionKeys.Proofs.TokenCaps
import SessionKeys.Proofs.Permissions
import SessionKeys.Proofs.Budgets
import SessionKeys.Proofs.UseLimits
import SessionKeys.Proofs.OwnerControl
import SessionKeys.Proofs.Routing
import SessionKeys.Proofs.Dates
import SessionKeys.Proofs.Times
import SessionKeys.Proofs.Requests
import SessionKeys.Proofs.ServerSteps
import SessionKeys.Proofs.ToolRefusals
import SessionKeys.Proofs.Isolation
import SessionKeys.Proofs.DryRuns
import SessionKeys.Proofs.Amounts
import SessionKeys.Proofs.ServerState
import SessionKeys.Proofs.Layout
import SessionKeys.Proofs.ReadingBack
import SessionKeys.Proofs.SignatureForms
import SessionKeys.Proofs.PackedResults
import SessionKeys.Proofs.WalletCalldata
import SessionKeys.Proofs.WrittenSignatures
import SessionKeys.Proofs.SignatureLengths
import SessionKeys.Proofs.SignatureIndependence
import SessionKeys.Proofs.Batches
import SessionKeys.Proofs.Encodings
import SessionKeys.Proofs.SignedHashes
import SessionKeys.Proofs.EncodableRequests
import SessionKeys.Proofs.TreePaths
import SessionKeys.Proofs.TreeCompleteness
import SessionKeys.Proofs.PermitAgreement
import SessionKeys.Proofs.Refusals
import SessionKeys.Proofs.ReadOperations
import SessionKeys.Proofs.TypedFailures
import SessionKeys.Proofs.Recasing
import SessionKeys.Proofs.LetterCase
import SessionKeys.Proofs.OperatorCharges
import SessionKeys.Proofs.Evaluation
import SessionKeys.Proofs.RlpLimits
import SessionKeys.Proofs.PredicateWire
import SessionKeys.Proofs.PredicateGrammar
import SessionKeys.Proofs.AllowedCalls
import SessionKeys.Proofs.PredicateForms
import SessionKeys.Proofs.Narrowing
import SessionKeys.Proofs.CallSpends
import SessionKeys.Proofs.BatchOrder
import SessionKeys.Proofs.WholeNumbers
import SessionKeys.Proofs.RequestAmounts
import SessionKeys.Proofs.EventLog
import SessionKeys.Proofs.Environments
