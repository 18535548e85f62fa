import SecureShell.Agent.Guarded
import SecureShell.Algorithm.SharedSuite
import SecureShell.Key.Format
import SecureShell.KeyExchange
import SecureShell.Negotiation.Offer
import SecureShell.Packet.ChaCha20Poly1305
import SecureShell.Packet.Mac
import SecureShell.Wire.Message
import SecureShell.Proofs.Bytes
import SecureShell.Proofs.Wire.Emission
import SecureShell.Proofs.Wire.NameList
import SecureShell.Proofs.Wire.Reader
import SecureShell.Proofs.Wire.Inversion
import SecureShell.Proofs.Wire.Canonical
import SecureShell.Proofs.Key.Codec
import SecureShell.Proofs.Negotiation.RoundTrip
import SecureShell.Proofs.Negotiation.Payload
import SecureShell.Proofs.Codec.Shape
import SecureShell.Proofs.Codec.PrefixFree
import SecureShell.Proofs.Algorithm.Registry
import SecureShell.Proofs.Algorithm.Suite
import SecureShell.Proofs.Negotiation.Choice
import SecureShell.Proofs.Negotiation.Agreement
import SecureShell.Proofs.Agent.Keyring
import SecureShell.Proofs.Agent.Serve
import SecureShell.Proofs.Agent.Run
import SecureShell.Proofs.Agent.KeyMap
import SecureShell.Proofs.Agent.Limits
import SecureShell.Proofs.Agent.Answer
import SecureShell.Proofs.Agent.Lock
import SecureShell.Proofs.Agent.Notice
import SecureShell.Proofs.Algorithm.Change
import SecureShell.Proofs.Algorithm.Reachable
import SecureShell.Proofs.Negotiation.WellFormed
import SecureShell.Proofs.Cipher.ChaCha20
import SecureShell.Proofs.Wire.Output
import SecureShell.Proofs.Bytes.Base64
import SecureShell.Proofs.Packet.ChaCha20Poly1305
import SecureShell.Proofs.Text.Blank
import SecureShell.Proofs.Key.Format
import SecureShell.Proofs.Algorithm.Candidates
import SecureShell.Proofs.Algorithm.Discovery
import SecureShell.Proofs.Algorithm.Configured
import SecureShell.Proofs.Algorithm.Supply
import SecureShell.Proofs.Algorithm.SharedSuite
import SecureShell.Proofs.Negotiation.Supply
import SecureShell.Proofs.Agent.Isolation
import SecureShell.Proofs.Agent.Raising
import SecureShell.Proofs.Agent.Ed25519
import SecureShell.Proofs.Algorithm.Course
import SecureShell.Proofs.Key.Ed25519
import SecureShell.Proofs.Curve.Prime
import SecureShell.Proofs.Curve.Field
import SecureShell.Proofs.Curve.Montgomery
import SecureShell.Proofs.Curve.X25519
import SecureShell.Proofs.KeyExchange
import SecureShell.Proofs.Packet.Key
import SecureShell.Proofs.Text.Lines
import SecureShell.Proofs.Packet.Authentic
import SecureShell.Proofs.Packet.Mac
import SecureShell.Proofs.Negotiation.Summary
import SecureShell.Proofs.Negotiation.Preference
import SecureShell.Proofs.Wire.Cursor
