import CimBroker.Text.Printable
import CimBroker.Text.Quoted
import CimBroker.Text.Blank
import CimBroker.Text.Base64
import CimBroker.Address.Ipv4
import CimBroker.Address.Ipv6
import CimBroker.Address.Hostname
import CimBroker.Address.Error
import CimBroker.Address.Host
import CimBroker.Address.Locator
import CimBroker.Files.Error
import CimBroker.Auth.Error
import CimBroker.Auth.Scheme
import CimBroker.Stream.Bytes
import CimBroker.Stream.Id
import CimBroker.Stream.Error
import CimBroker.Stream.Record
import CimBroker.Stream.Class
import CimBroker.Stream.Instance
import CimBroker.Stream.Arena
import CimBroker.Stream.Tables
import CimBroker.Stream.Wire
import CimBroker.Stream.Encode
import CimBroker.Stream.Decode
import CimBroker.Files.Path
import CimBroker.Files.Store
import CimBroker.Auth.Client
import CimBroker.Auth.Secret
import CimBroker.Auth.Server
import CimBroker.Toml.Datetime
import CimBroker.Toml.Value
import CimBroker.Toml.Lexical
import CimBroker.Toml.Scalar
import CimBroker.Toml.Document
import CimBroker.Server.Config
import CimBroker.Server.Stats
import CimBroker.Server.Http
import CimBroker.Proofs.Address.Ipv4
import CimBroker.Proofs.Address.Ipv6Reader
import CimBroker.Proofs.Address.Ipv6Text
import CimBroker.Proofs.Address.Ipv6Grammar
import CimBroker.Proofs.Address.Ipv6Canonical
import CimBroker.Proofs.Address.Families
import CimBroker.Proofs.Address.Hostname
import CimBroker.Proofs.Stream.Words
import CimBroker.Proofs.Stream.RecordLayout
import CimBroker.Proofs.Stream.Decoding
import CimBroker.Proofs.Stream.Relocation
import CimBroker.Proofs.Stream.DecodeFailure
import CimBroker.Proofs.Stream.Records
import CimBroker.Proofs.Stream.Decoded
import CimBroker.Proofs.Stream.WellFormed
import CimBroker.Proofs.Stream.Walk
import CimBroker.Proofs.Stream.Resolution
import CimBroker.Proofs.Stream.ReadBack
import CimBroker.Proofs.Stream.RoundTrip
import CimBroker.Proofs.Stream.Depth
import CimBroker.Proofs.Stream.Acyclic
import CimBroker.Proofs.Stream.DecodedGraph
import CimBroker.Proofs.Stream.Reencode
import CimBroker.Proofs.Stream.Chain
import CimBroker.Proofs.Stream.PrefixFree
import CimBroker.Proofs.Stream.Appended
import CimBroker.Proofs.Stream.Writes
import CimBroker.Proofs.Stream.Refusal
import CimBroker.Proofs.Stream.SameContent
import CimBroker.Proofs.Stream.Items
import CimBroker.Proofs.Server.Echo
import CimBroker.Proofs.Server.Accounting
import CimBroker.Proofs.Text.Cut
import CimBroker.Proofs.Address.Locator
import CimBroker.Proofs.Server.Bind
import CimBroker.Proofs.Auth.ClientRound
import CimBroker.Proofs.Auth.Credential
import CimBroker.Proofs.Auth.Pending
import CimBroker.Proofs.Auth.SingleUse
import CimBroker.Proofs.Text.Base64
import CimBroker.Proofs.Files.Paths
import CimBroker.Proofs.Files.Root
import CimBroker.Proofs.Auth.Challenge
import CimBroker.Proofs.Auth.Round
import CimBroker.Proofs.Auth.Decision
