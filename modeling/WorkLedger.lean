import WorkLedger.Digest.Sha512
import WorkLedger.Digest.Hex
import WorkLedger.Digest.Basic
import WorkLedger.Text.CharClass
import WorkLedger.Text.Quoted
import WorkLedger.Text.Utf8
import WorkLedger.Decimal.Basic
import WorkLedger.Decimal.Text
import WorkLedger.Decimal.Equality
import WorkLedger.Codec.Canonical
import WorkLedger.Ledger.Error
import WorkLedger.Ledger.Transaction
import WorkLedger.Ledger.Header
import WorkLedger.Ledger.Block
import WorkLedger.Ledger.Merkle
import WorkLedger.Ledger.Json
import WorkLedger.Ledger.Compact
import WorkLedger.Json.Value
import WorkLedger.Json.Float
import WorkLedger.Json.Number
import WorkLedger.Json.Reader
import WorkLedger.Json.Schema
import WorkLedger.Chain.Params
import WorkLedger.Chain.Target
import WorkLedger.Chain.Store
import WorkLedger.Chain.Retarget
import WorkLedger.Chain.Genesis
import WorkLedger.Mining.Solve
import WorkLedger.Mining.Search
import WorkLedger.Chain.Validation
import WorkLedger.Chain.Consensus
import WorkLedger.Network.Uuid
import WorkLedger.Network.Message
import WorkLedger.Network.Frame
import WorkLedger.Toml.Syntax
import WorkLedger.Toml.Value
import WorkLedger.Toml.Grammar
import WorkLedger.Toml.Document
import WorkLedger.Toml.Writer
import WorkLedger.Chain.ParamsFile
import WorkLedger.Node.Pool
import WorkLedger.Node.Basic
import WorkLedger.Node.Service
import WorkLedger.Node.Peers
import WorkLedger.Proofs.AuditPath
import WorkLedger.Proofs.Validation
import WorkLedger.Proofs.Digest
import WorkLedger.Proofs.Mining
import WorkLedger.Proofs.Accept
import WorkLedger.Proofs.Canonical
import WorkLedger.Proofs.DecimalText
import WorkLedger.Proofs.DecimalEquality
import WorkLedger.Proofs.JsonRead
import WorkLedger.Proofs.JsonShape
import WorkLedger.Proofs.Saved
import WorkLedger.Proofs.BlockIdentity
import WorkLedger.Mining.Race
import WorkLedger.Proofs.SearchRace
import WorkLedger.Proofs.CoordinatorRace
import WorkLedger.Proofs.ChainStore
import WorkLedger.Proofs.Framing
import WorkLedger.Proofs.DecimalArithmetic
import WorkLedger.Proofs.Retarget
import WorkLedger.Proofs.Target
import WorkLedger.Proofs.Serving
import WorkLedger.Proofs.Sync
import WorkLedger.Proofs.Lookback
import WorkLedger.Proofs.Pool
import WorkLedger.Proofs.NumberWrap
import WorkLedger.Proofs.Agreement
import WorkLedger.Proofs.SearchOrder
import WorkLedger.Proofs.ClockSkew
import WorkLedger.Proofs.HeaderEquality
import WorkLedger.Proofs.TomlRead
import WorkLedger.Proofs.TomlStrings
import WorkLedger.Proofs.TomlStringForms
import WorkLedger.Proofs.TomlValues
import WorkLedger.Proofs.TomlDocument
import WorkLedger.Proofs.ParamsFile
