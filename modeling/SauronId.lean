import SauronId.Action.ChainRace
import SauronId.Action.Replay
import SauronId.Action.RingAuthority
import SauronId.Agent.AttestedRegistration
import SauronId.Agent.CallReplay
import SauronId.Agent.ChecksumTrail
import SauronId.Agent.JtiReplay
import SauronId.Agent.LiveRing
import SauronId.Agent.PopChallenge
import SauronId.Aggregation.Private
import SauronId.Anchor.Lookup
import SauronId.Attestation.Depth
import SauronId.Attestation.QuoteVerifier
import SauronId.Audit.Concurrent
import SauronId.Auth.Login
import SauronId.Batch.Checkpoint
import SauronId.Batch.RootBinding
import SauronId.Circuits.Credential
import SauronId.Circuits.NonMembership
import SauronId.Circuits.Smt
import SauronId.Circuits.Stats
import SauronId.Egress.Agreement
import SauronId.Egress.BlockedIp
import SauronId.Egress.Capability
import SauronId.Expression.FailClosed
import SauronId.Expression.Lexer
import SauronId.Expression.Print
import SauronId.He.Concurrent
import SauronId.Kyc.Billing
import SauronId.Kyc.Commitments
import SauronId.Kyc.IssuerRuntime
import SauronId.Middleware.RateLimit
import SauronId.Payment.Budget
import SauronId.Policy.AgentIndex
import SauronId.Policy.Calendar
import SauronId.Policy.Clock
import SauronId.Policy.Limits
import SauronId.Policy.Tightening
import SauronId.Receipt.Signature
import SauronId.Rings.Pseudonym
import SauronId.Risk.Separation
import SauronId.Sdk.Flush
import SauronId.Sdk.Rate
import SauronId.Sdk.Workflow
import SauronId.Spend.Totals
import SauronId.Sql.Conflict
import SauronId.Usage.Monotone
