import WorkLedger.Ledger.Json

/-!
# Chain parameters

The settings every node of a chain shares: the chain's name and header version, how often and
towards what block time the difficulty is retargeted, the proof-of-work floor (`maxZeroBits`
leading zero bits at difficulty one), the tolerated clock skew, the first block's difficulty
and timestamp, and two waits of the node. `validate` accepts exactly the settings under which
the chain can work: a name, a retarget interval and a block time, room for a target in a
512-bit hash, and a first difficulty of at least one.
-/

namespace WorkLedger

/-- The settings of a chain. -/
structure ChainParams where
  chainName : String
  headerVersion : UInt32
  retargetInterval : UInt64
  targetSecondsPerBlock : UInt64
  maxZeroBits : UInt32
  maxTimestampSkewSecs : UInt64
  initialDifficulty : Decimal
  genesisTimestampMs : Int64
  peerQueryTimeoutSecs : UInt64
  maxPlaceholderWaitSecs : UInt64
  deriving BEq, Inhabited, Repr

namespace ChainParams

/-- The settings of the main chain. -/
def standard : ChainParams :=
  ⟨"tessera-main", 1, 100, 60, 12, 600, Decimal.one, 1704067200000, 5, 120⟩

/-- Small settings for tests: cheap proof of work and a short retarget interval. -/
def testing : ChainParams :=
  { standard with chainName := "tessera-test", retargetInterval := 2, targetSecondsPerBlock := 10,
                  maxZeroBits := 4 }

/-- The number of bits of a digest. -/
def hashBits : Nat := 8 * Digest.width

/-- Accepts settings under which the chain can work, checking in this order: a name, a retarget
interval, a block time, room for a target, a first difficulty of at least one. -/
def validate (p : ChainParams) : Except LedgerError Unit :=
  if p.chainName.isEmpty then .error (.illegalArgument "chain name must not be empty")
  else if p.retargetInterval = 0 then
    .error (.illegalArgument "retarget interval must be at least one block")
  else if p.targetSecondsPerBlock = 0 then
    .error (.illegalArgument "target block time must be positive")
  else if hashBits ≤ p.maxZeroBits.toNat then
    .error (.illegalArgument ("max zero bits " ++ toString p.maxZeroBits ++
      " leaves no room in a " ++ toString hashBits ++ "-bit hash"))
  else if p.initialDifficulty < Decimal.one then
    .error (.illegalArgument ("initial difficulty " ++ p.initialDifficulty.toText ++ " is below 1"))
  else .ok ()

/-- The tolerated clock skew in milliseconds: the seconds read as a signed 64-bit word
(wrapping above its range), times a thousand, held at the ends of that range. -/
def maxTimestampSkewMs (p : ChainParams) : Int :=
  let secs := p.maxTimestampSkewSecs.toInt64.toInt
  max (-Int.pow 2 63) (min (Int.pow 2 63 - 1) (secs * 1000))

/-- The fields as JSON members with their default values, in declaration order. -/
def defaults : List (String × Json) :=
  [("chain_name", .str standard.chainName), ("header_version", .int 1),
   ("retarget_interval", .int 100), ("target_seconds_per_block", .int 60),
   ("max_zero_bits", .int 12), ("max_timestamp_skew_secs", .int 600),
   ("initial_difficulty", .str "1"), ("genesis_timestamp_ms", .int 1704067200000),
   ("peer_query_timeout_secs", .int 5), ("max_placeholder_wait_secs", .int 120)]

def shape : Json.Shape :=
  .record "ChainParams" [("chain_name", .text), ("header_version", .unsigned 32),
    ("retarget_interval", .unsigned 64), ("target_seconds_per_block", .unsigned 64),
    ("max_zero_bits", .unsigned 32), ("max_timestamp_skew_secs", .unsigned 64),
    ("initial_difficulty", decimalShape), ("genesis_timestamp_ms", .signed64),
    ("peer_query_timeout_secs", .unsigned 64), ("max_placeholder_wait_secs", .unsigned 64)]

def ofDatum (d : Json.Datum) : ChainParams :=
  let genesis : Int := match d.field 7 with | .int i => i | _ => 0
  let difficulty : Decimal := match d.field 6 with | .decimal x => x | _ => Decimal.one
  ⟨(d.field 0).textD, (d.field 1).natD.toUInt32, (d.field 2).natD.toUInt64,
    (d.field 3).natD.toUInt64, (d.field 4).natD.toUInt32, (d.field 5).natD.toUInt64, difficulty,
    Int64.ofInt genesis, (d.field 8).natD.toUInt64, (d.field 9).natD.toUInt64⟩

def toJson (p : ChainParams) : Json :=
  .obj [("chain_name", .str p.chainName), ("header_version", .int p.headerVersion.toNat),
    ("retarget_interval", .int p.retargetInterval.toNat),
    ("target_seconds_per_block", .int p.targetSecondsPerBlock.toNat),
    ("max_zero_bits", .int p.maxZeroBits.toNat),
    ("max_timestamp_skew_secs", .int p.maxTimestampSkewSecs.toNat),
    ("initial_difficulty", .str p.initialDifficulty.toText),
    ("genesis_timestamp_ms", .int p.genesisTimestampMs.toInt),
    ("peer_query_timeout_secs", .int p.peerQueryTimeoutSecs.toNat),
    ("max_placeholder_wait_secs", .int p.maxPlaceholderWaitSecs.toNat)]

end ChainParams

end WorkLedger
