import Keyring.Fleet
import Keyring.Jws
import Keyring.Manager.Task
import Keyring.Proofs.Fleet.Deeds
import Keyring.Proofs.Store.Evolution
import Keyring.Proofs.Snapshot.Content
import Keyring.Proofs.Fleet.History
import Keyring.Proofs.Fleet.Soundness
import Keyring.Proofs.Fleet.Rotations
import Keyring.Proofs.Fleet.LookUps
import Keyring.Proofs.Fleet.Reloads
import Keyring.Proofs.EcdsaSignature.Codec
import Keyring.Proofs.Manager.Run
import Keyring.Proofs.Snapshot.Order
import Keyring.Proofs.Manager.OneActive
import Keyring.Proofs.Base64.Codec
import Keyring.Proofs.Jws.Token
import Keyring.Proofs.Jws.Verify
import Keyring.Proofs.Json.Reading
import Keyring.Proofs.Json.RoundTrip
import Keyring.Proofs.Json.Record
import Keyring.Proofs.Jws.Header
import Keyring.Proofs.Key.Verify
import Keyring.Proofs.Manager.Remembered
import Keyring.Proofs.Manager.Vouched
import Keyring.Proofs.Jws.Outlast
import Keyring.Proofs.Manager.WellFormed
import Keyring.Proofs.Manager.FailedRotation
import Keyring.Proofs.Manager.Expiry
import Keyring.Proofs.Fleet.Records
import Keyring.Proofs.Store.Rotation
import Keyring.Proofs.Json.Typed
import Keyring.Proofs.Pkcs8.RoundTrip
import Keyring.Proofs.Time.Text
import Keyring.Proofs.Manager.AtRest
import Keyring.Proofs.Jwk.Members
import Keyring.Proofs.Jwk.Canonical
import Keyring.Proofs.Manager.StartUp
import Keyring.Proofs.Manager.Resume
import Keyring.Proofs.Manager.Succession
import Keyring.Proofs.Manager.Command
import Keyring.Proofs.Manager.Audit
import Keyring.Proofs.Snapshot.Alike
import Keyring.Proofs.Manager.Parallel
import Keyring.Proofs.Manager.Secrecy
import Keyring.Proofs.Json.Verbatim
import Keyring.Proofs.Json.Echo
import Keyring.Proofs.Json.Filing
import Keyring.Proofs.Time.Reading
import Keyring.Proofs.Record.Spelling
import Keyring.Proofs.Bytes.Number
import Keyring.Proofs.Der.Strict
import Keyring.Proofs.EcdsaSignature.Access
import Keyring.Proofs.EcdsaSignature.Strict
import Keyring.Proofs.EcdsaSignature.Widths
import Keyring.Proofs.Key.Normalized
import Keyring.Proofs.Manager.Gaps
import Keyring.Proofs.Key.Sign
import Keyring.Proofs.Text.Order
import Keyring.Proofs.Snapshot.Answers
import Keyring.Proofs.Manager.Attempts
import Keyring.Proofs.Manager.Sweeps
import Keyring.Proofs.Manager.InitialKeys
import Keyring.Proofs.Time.Sum
import Keyring.Proofs.Manager.Lifetimes
import Keyring.Proofs.Fleet.Retirement
import Keyring.Proofs.Manager.ReadThrough
import Keyring.Proofs.Manager.Validated
import Keyring.Proofs.Text.Blank
import Keyring.Proofs.Encryptor.Codec
import Keyring.Proofs.Pkcs8.Normal
import Keyring.Proofs.Snapshot.Reports
import Keyring.Proofs.Snapshot.Handles
import Keyring.Proofs.Jws.HeaderText
import Keyring.Proofs.Config.Text
import Keyring.Proofs.Manager.Background
import Keyring.Proofs.Manager.Collision
