import WorkLedger.Chain.Params
import WorkLedger.Toml.Document
import WorkLedger.Toml.Writer

/-!
# Chain parameters as a TOML file

The settings are written one `key = value` line per field, in declaration order, the first
difficulty as a string. TOML integers are signed 64-bit numbers, so a setting above that range
cannot be written.

Reading takes the keys of the document's root that name settings, in the order they stand,
ignores all other keys and tables, and gives every setting that is absent its default. A value
of the wrong type or out of range is reported at the value. The settings read must then pass
`ChainParams.validate`.
-/

namespace WorkLedger

open Toml

/-- How a TOML item is described when a setting cannot take it. -/
def Toml.Item.describe : Item → String
  | .value (.string s) _ => "string " ++ Text.quoteString s
  | .value (.integer i) _ => "integer \x60" ++ toString i ++ "\x60"
  | .value (.float f) _ => "floating point \x60" ++ FloatText.positional f ++ "\x60"
  | .value (.boolean b) _ => "boolean \x60" ++ (if b then "true" else "false") ++ "\x60"
  | .value (.datetime _) _ => "map"
  | .value (.array _) _ => "sequence"
  | .value (.table ..) _ => "map"
  | .table .. => "map"
  | .tables _ => "sequence"

/-- Where an item stands: its own span, or that of its key when it has none. -/
def Toml.Item.spanOr (key : Key) : Item → Span
  | .value _ span => span
  | .table _ _ (some span) _ => span
  | .tables list =>
    match (list.head?.bind (·.1)), (list.getLast?.bind (·.1)) with
    | some first, some last => ⟨first.start, last.stop⟩
    | _, _ => key.span
  | _ => key.span

namespace ChainParams

/-- A string setting. -/
def textOf (item : Item) : Except String String :=
  match item with
  | .value (.string s) _ => .ok s
  | _ => .error (Json.invalidTypeMessage item.describe "a string")

/-- An unsigned setting of `bits` bits. -/
def unsignedOf (bits : Nat) (item : Item) : Except String Nat :=
  match item with
  | .value (.integer i) _ =>
    if 0 ≤ i && i < Int.pow 2 bits then .ok i.toNat
    else .error (Json.invalidValueMessage ("integer \x60" ++ toString i ++ "\x60")
      (Json.unsignedName bits))
  | _ => .error (Json.invalidTypeMessage item.describe (Json.unsignedName bits))

/-- A signed 64-bit setting. -/
def signedOf (item : Item) : Except String Int :=
  match item with
  | .value (.integer i) _ => .ok i
  | _ => .error (Json.invalidTypeMessage item.describe "i64")

/-- A decimal setting, written as a string. -/
def decimalOf (item : Item) : Except String Decimal := do
  let s ← textOf item
  (Decimal.parse s).mapError (·.message)

/-- The settings by their key, each reading its item into a change of the settings. -/
def fieldReaders : List (String × (Item → Except String (ChainParams → ChainParams))) :=
  [("chain_name", fun it => do let v ← textOf it; pure fun p => { p with chainName := v }),
   ("header_version", fun it => do
      let v ← unsignedOf 32 it; pure fun p => { p with headerVersion := v.toUInt32 }),
   ("retarget_interval", fun it => do
      let v ← unsignedOf 64 it; pure fun p => { p with retargetInterval := v.toUInt64 }),
   ("target_seconds_per_block", fun it => do
      let v ← unsignedOf 64 it; pure fun p => { p with targetSecondsPerBlock := v.toUInt64 }),
   ("max_zero_bits", fun it => do
      let v ← unsignedOf 32 it; pure fun p => { p with maxZeroBits := v.toUInt32 }),
   ("max_timestamp_skew_secs", fun it => do
      let v ← unsignedOf 64 it; pure fun p => { p with maxTimestampSkewSecs := v.toUInt64 }),
   ("initial_difficulty", fun it => do
      let v ← decimalOf it; pure fun p => { p with initialDifficulty := v }),
   ("genesis_timestamp_ms", fun it => do
      let v ← signedOf it; pure fun p => { p with genesisTimestampMs := Int64.ofInt v }),
   ("peer_query_timeout_secs", fun it => do
      let v ← unsignedOf 64 it; pure fun p => { p with peerQueryTimeoutSecs := v.toUInt64 }),
   ("max_placeholder_wait_secs", fun it => do
      let v ← unsignedOf 64 it; pure fun p => { p with maxPlaceholderWaitSecs := v.toUInt64 })]

/-- The settings named by the root entries of a document, the rest at their defaults. -/
def ofEntries (entries : List (Key × Item)) : Except Toml.Error ChainParams :=
  entries.foldlM (fun p (k, item) =>
    match fieldReaders.lookup k.name with
    | none => .ok p
    | some read =>
      match read item with
      | .ok change => .ok (change p)
      | .error m => .error ⟨m, some (item.spanOr k), [k.name]⟩) standard

/-- Why settings could not be read from a file. -/
inductive FileError where
  /-- The text is no TOML document of settings: the report on the source. -/
  | unreadable (report : String)
  /-- The settings read do not pass validation. -/
  | invalid (e : LedgerError)

/-- Reads and validates settings from the text of a TOML file. -/
def ofToml (source : String) : Except FileError ChainParams :=
  let read := do
    let entries ← Toml.parse source
    ofEntries entries
  match read with
  | .error e => .error (.unreadable ("Failed to parse chain parameters: " ++ e.render source))
  | .ok p =>
    match p.validate with
    | .ok () => .ok p
    | .error e => .error (.invalid e)

/-- The largest integer TOML holds. -/
def largestTomlInteger : Nat := Nat.pow 2 63 - 1

/-- An unsigned setting as a TOML integer, if it is in range. -/
def unsignedText (n : Nat) : Except String String :=
  if n ≤ largestTomlInteger then .ok (toString n)
  else .error "Failed to serialize chain parameters to TOML: out-of-range value for u64 type"

/-- The settings as TOML text, one line per field in declaration order. -/
def toToml (p : ChainParams) : Except String String := do
  let lines : List (String × String) :=
    [("chain_name", stringText p.chainName),
     ("header_version", toString p.headerVersion.toNat),
     ("retarget_interval", ← unsignedText p.retargetInterval.toNat),
     ("target_seconds_per_block", ← unsignedText p.targetSecondsPerBlock.toNat),
     ("max_zero_bits", toString p.maxZeroBits.toNat),
     ("max_timestamp_skew_secs", ← unsignedText p.maxTimestampSkewSecs.toNat),
     ("initial_difficulty", stringText p.initialDifficulty.toText),
     ("genesis_timestamp_ms", toString p.genesisTimestampMs.toInt),
     ("peer_query_timeout_secs", ← unsignedText p.peerQueryTimeoutSecs.toNat),
     ("max_placeholder_wait_secs", ← unsignedText p.maxPlaceholderWaitSecs.toNat)]
  pure (String.join (lines.map fun (k, v) => k ++ " = " ++ v ++ "\n"))

end ChainParams

end WorkLedger
