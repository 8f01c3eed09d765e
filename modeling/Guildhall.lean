import Guildhall.Access
import Guildhall.Base64
import Guildhall.Channel
import Guildhall.CommandLine.Arguments
import Guildhall.CommandLine.Outcome
import Guildhall.Decimal.Binary64
import Guildhall.Decimal.Reading
import Guildhall.Decimal.Shortest
import Guildhall.Digest.Hmac
import Guildhall.Digest.Sha256
import Guildhall.Fixture
import Guildhall.Hex
import Guildhall.Http.Address
import Guildhall.Http.MediaType
import Guildhall.Http.Message
import Guildhall.Http.Path
import Guildhall.Id
import Guildhall.Json.Codec
import Guildhall.Json.Numeral
import Guildhall.Json.Text
import Guildhall.Json.Tree
import Guildhall.Limits
import Guildhall.Main
import Guildhall.Member
import Guildhall.OverrideList
import Guildhall.Permission
import Guildhall.PermissionSet
import Guildhall.Rank
import Guildhall.Refusal
import Guildhall.Resolution
import Guildhall.Role
import Guildhall.RoleRequest
import Guildhall.Service.Gate
import Guildhall.Service.Plan
import Guildhall.Service.Respond
import Guildhall.Service.Route
import Guildhall.Settings.Basic
import Guildhall.Settings.Environment
import Guildhall.Settings.Path
import Guildhall.Settings.Toml.Lexeme
import Guildhall.Settings.Toml.Text
import Guildhall.Settings.Toml.Tree
import Guildhall.Settings.Value
import Guildhall.Sorting
import Guildhall.Store.Basic
import Guildhall.Store.Table
import Guildhall.Token
import Guildhall.Utf8
import Guildhall.Wire
import Guildhall.Proofs.Resolution
import Guildhall.Proofs.Responses
import Guildhall.Proofs.Standing
import Guildhall.Proofs.Writes
import Guildhall.Proofs.Warrants
import Guildhall.Proofs.Credentials
import Guildhall.Proofs.Escalation
import Guildhall.Proofs.RankConfinement
import Guildhall.Proofs.Mediation
import Guildhall.Proofs.Enforcement
import Guildhall.Proofs.Integrity
import Guildhall.Proofs.ChannelOverrides
import Guildhall.Proofs.Anchors
import Guildhall.Proofs.Atomicity
import Guildhall.Proofs.Isolation
import Guildhall.Proofs.JsonText
import Guildhall.Proofs.Codecs
import Guildhall.Proofs.Resubmission
import Guildhall.Proofs.RoleMoves
import Guildhall.Proofs.Interleaving
import Guildhall.Proofs.DirectMessages
import Guildhall.Proofs.LastWord
import Guildhall.Proofs.RoleLimit
import Guildhall.Proofs.WireRecords
import Guildhall.Proofs.Encodings
import Guildhall.Proofs.Issuance
import Guildhall.Proofs.Decisions
import Guildhall.Proofs.Rearrangement
import Guildhall.Proofs.CanonicalOverrides
import Guildhall.Proofs.Lockout
import Guildhall.Proofs.Cascades
import Guildhall.Proofs.RoleDeletion
import Guildhall.Proofs.PermissionNames
import Guildhall.Proofs.Seeding
import Guildhall.Proofs.Monotonicity
import Guildhall.Proofs.Assignments
import Guildhall.Proofs.Admission
import Guildhall.Proofs.RolePlacement
import Guildhall.Proofs.RoleNaming
import Guildhall.Proofs.RoleOrder
