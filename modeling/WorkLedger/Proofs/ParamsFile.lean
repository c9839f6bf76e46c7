import WorkLedger.Proofs.TomlDocument
import WorkLedger.Proofs.Canonical
import WorkLedger.Proofs.DecimalArithmetic
import WorkLedger.Proofs.DecimalEquality
import WorkLedger.Chain.ParamsFile

/-!
# Settings through a TOML file

Settings are written one line `key = value` per field, and read back from the entries at the
root of the document (`ChainParams.ofEntries`), each setting whose key is absent keeping its
default, and must then pass validation.

* Writing succeeds exactly when each unsigned setting of 64 bits is at most the largest integer
  TOML holds, `2^63 - 1` (`ChainParams.toToml_ok_iff`); the lines written are a document of pairs
  with bare keys (`ChainParams.lines_bytes`), which `Toml.parse_pairLines` reads back.
* Reading the entries is a fold of one step per entry (`ChainParams.readEntry`): the entries of
  the written lines make the changes of `ChainParams.changesOf` (`ChainParams.foldlM_readEntry`),
  and an entry changes no setting but its own (`ChainParams.readEntry_frame`), so that a missing
  key keeps its default (`ChainParams.ofEntries_defaults`).
* The difficulty is written as text and read back as `Decimal.reread` gives it: the same number
  (`Decimal.val_reread`) with the same text, so the settings read back pass validation as the
  settings written do (`ChainParams.validate_reread`).

`ChainParams.settings_round_trip_through_toml` puts these together.
-/

namespace WorkLedger.Decimal

theorem val_reread (d : Decimal) : d.reread.val = d.val := by
  unfold Decimal.reread
  split_ifs with hu hk
  · simp [Decimal.val, hu]
  · have hneg : -d.scale = (d.scale.natAbs : Int) := by omega
    simp only [Decimal.val, hneg, zpow_natCast, neg_zero, zpow_zero, mul_one]
    push_cast
    ring
  · rfl

end WorkLedger.Decimal

namespace WorkLedger.ChainParams

open Toml Toml.Grammar Toml.Parser

/-! ## Writing -/

/-- The five settings of 64 unsigned bits, in the order they are written. -/
def wideSettings (p : ChainParams) : List Nat :=
  [p.retargetInterval.toNat, p.targetSecondsPerBlock.toNat, p.maxTimestampSkewSecs.toNat,
    p.peerQueryTimeoutSecs.toNat, p.maxPlaceholderWaitSecs.toNat]

/-- Settings that TOML can hold: each of 64 unsigned bits is at most the largest TOML integer. -/
def Writable (p : ChainParams) : Prop := ∀ n ∈ p.wideSettings, n ≤ largestTomlInteger

instance (p : ChainParams) : Decidable p.Writable :=
  inferInstanceAs (Decidable (∀ n ∈ p.wideSettings, n ≤ largestTomlInteger))

/-- The key and value text of each line, for settings TOML can hold. -/
def lineTexts (p : ChainParams) : List (String × String) :=
  [("chain_name", stringText p.chainName),
   ("header_version", toString p.headerVersion.toNat),
   ("retarget_interval", toString p.retargetInterval.toNat),
   ("target_seconds_per_block", toString p.targetSecondsPerBlock.toNat),
   ("max_zero_bits", toString p.maxZeroBits.toNat),
   ("max_timestamp_skew_secs", toString p.maxTimestampSkewSecs.toNat),
   ("initial_difficulty", stringText p.initialDifficulty.toText),
   ("genesis_timestamp_ms", toString p.genesisTimestampMs.toInt),
   ("peer_query_timeout_secs", toString p.peerQueryTimeoutSecs.toNat),
   ("max_placeholder_wait_secs", toString p.maxPlaceholderWaitSecs.toNat)]

theorem unsignedText_of_le {n : Nat} (h : n ≤ largestTomlInteger) :
    unsignedText n = .ok (toString n) := if_pos h

theorem toToml_of_writable {p : ChainParams} (h : p.Writable) :
    toToml p = .ok (String.join (p.lineTexts.map fun (k, v) => k ++ " = " ++ v ++ "\n")) := by
  simp only [Writable, wideSettings, List.forall_mem_cons] at h
  simp only [toToml, unsignedText_of_le h.1, unsignedText_of_le h.2.1,
    unsignedText_of_le h.2.2.1, unsignedText_of_le h.2.2.2.1, unsignedText_of_le h.2.2.2.2.1]
  rfl

theorem toToml_of_not_writable {p : ChainParams} (h : ¬p.Writable) :
    toToml p = .error
      "Failed to serialize chain parameters to TOML: out-of-range value for u64 type" := by
  simp only [Writable, wideSettings, List.forall_mem_cons, not_and_or] at h
  simp only [toToml, unsignedText]
  -- the first setting out of range fails the writing; with all in range `h` is contradicted
  split_ifs <;> first | rfl | simp_all

theorem toToml_ok_iff {p : ChainParams} : (∃ s, toToml p = .ok s) ↔ p.Writable := by
  constructor
  · rintro ⟨s, hs⟩
    by_contra hw
    rw [toToml_of_not_writable hw] at hs
    cases hs
  · intro hw
    exact ⟨_, toToml_of_writable hw⟩

/-! ## The lines written -/

/-- The texts of the settings have lengths that fit 64 bits, as those of any text held in memory
do, and the difficulty's scale fits 64 bits. -/
structure Fits (p : ChainParams) : Prop where
  chainName : Canonical.Fits p.chainName
  difficulty : Canonical.Fits p.initialDifficulty.toText
  scale : -2 ^ 63 ≤ p.initialDifficulty.scale ∧ p.initialDifficulty.scale < 2 ^ 63

/-- The keys of the settings, in the order they are written. -/
def keys : List String := fieldReaders.map Prod.fst

theorem keys_bare : ∀ k ∈ keys, BareKey k := by
  have h : ∀ k ∈ keys, k.toList ≠ [] ∧
      (k.toList.flatMap String.utf8EncodeChar).all isBareKeyByte = true ∧
      (k.toList.flatMap String.utf8EncodeChar).length ≤ unbounded := by
    simp only [keys, fieldReaders, List.map_cons, List.map_nil, List.forall_mem_cons,
      String.reduceToList]
    decide
  exact fun k hk => BareKey.of_chars (h k hk).1 (h k hk).2.1 (h k hk).2.2

theorem keys_nodup : keys.Nodup := by decide

theorem largestTomlInteger_eq : largestTomlInteger = 2 ^ 63 - 1 := rfl

theorem natural_ge_smallest (n : Nat) : smallestInteger ≤ (n : Int) := by
  rw [smallestInteger_eq]
  omega

theorem natural_le_largest {n : Nat} (h : n ≤ largestTomlInteger) : (n : Int) ≤ largestInteger := by
  rw [largestInteger_eq]
  rw [largestTomlInteger_eq] at h
  omega

theorem word32_le_largest (n : UInt32) : n.toNat ≤ largestTomlInteger := by
  have := n.toNat_lt
  rw [largestTomlInteger_eq]
  omega

theorem Fits.name_short {p : ChainParams} (hp : p.Fits) : p.chainName.utf8ByteSize ≤ unbounded :=
  Nat.le_of_lt hp.chainName

theorem Fits.difficulty_short {p : ChainParams} (hp : p.Fits) :
    p.initialDifficulty.toText.utf8ByteSize ≤ unbounded :=
  Nat.le_of_lt hp.difficulty

section Lines

variable {p : ChainParams} (hp : p.Fits) (hw : p.Writable)

/-- The line of the unsigned setting `n` of 64 bits. -/
def wideLine (key : String) (hkey : key ∈ keys) (n : Nat) (hn : n ∈ p.wideSettings) : PairLine :=
  .integer key (keys_bare key hkey) n (natural_ge_smallest n) (natural_le_largest (hw n hn))

/-- The lines the settings are written as. -/
def lines : List PairLine :=
  [.string "chain_name" (keys_bare _ (by decide)) p.chainName hp.name_short,
   .integer "header_version" (keys_bare _ (by decide)) p.headerVersion.toNat
      (natural_ge_smallest _) (natural_le_largest (word32_le_largest _)),
   wideLine hw "retarget_interval" (by decide) p.retargetInterval.toNat (by simp [wideSettings]),
   wideLine hw "target_seconds_per_block" (by decide) p.targetSecondsPerBlock.toNat (by simp [wideSettings]),
   .integer "max_zero_bits" (keys_bare _ (by decide)) p.maxZeroBits.toNat
      (natural_ge_smallest _) (natural_le_largest (word32_le_largest _)),
   wideLine hw "max_timestamp_skew_secs" (by decide) p.maxTimestampSkewSecs.toNat (by simp [wideSettings]),
   .string "initial_difficulty" (keys_bare _ (by decide)) p.initialDifficulty.toText
      hp.difficulty_short,
   .integer "genesis_timestamp_ms" (keys_bare _ (by decide)) p.genesisTimestampMs.toInt
      (by rw [smallestInteger_eq]; exact p.genesisTimestampMs.le_toInt)
      (by have := p.genesisTimestampMs.toInt_lt; rw [largestInteger_eq]; omega),
   wideLine hw "peer_query_timeout_secs" (by decide) p.peerQueryTimeoutSecs.toNat (by simp [wideSettings]),
   wideLine hw "max_placeholder_wait_secs" (by decide) p.maxPlaceholderWaitSecs.toNat (by simp [wideSettings])]

theorem toUTF8_join (xs : List String) :
    (String.join xs).toUTF8.toList = xs.flatMap fun s => s.toUTF8.toList := by
  simp only [Text.Utf8.toList_toUTF8, String.toList_join, List.flatMap_assoc]

theorem toString_natCast (n : Nat) : toString (n : Int) = toString n := rfl

/-- The text written is the lines' bytes. -/
theorem lines_bytes :
    (String.join (p.lineTexts.map fun (k, v) => k ++ " = " ++ v ++ "\n")).toUTF8.toList =
      (lines hp hw).flatMap PairLine.bytes := by
  simp only [toUTF8_join, lineTexts, lines, wideLine, List.map_cons, List.map_nil,
    List.flatMap_cons, List.flatMap_nil, PairLine.bytes_integer, PairLine.bytes_string,
    toString_natCast]

theorem lines_names : (lines hp hw).map PairLine.name = keys := by
  simp only [lines, wideLine, List.map_cons, List.map_nil, PairLine.name_integer,
    PairLine.name_string]
  rfl

end Lines

/-! ## Reading -/

theorem bind_eq_ok {α β ε : Type} {x : Except ε α} {f : α → Except ε β} {b : β}
    (h : (x >>= f) = .ok b) : ∃ a, x = .ok a ∧ f a = .ok b := by
  cases x with
  | error e => cases h
  | ok a => exact ⟨a, rfl, h⟩

/-- One root entry read into the settings: the setting its key names changed to the value read
from its item, or nothing for any other key. -/
def readEntry (p : ChainParams) : Key × Item → Except Toml.Error ChainParams
  | (k, item) =>
    match fieldReaders.lookup k.name with
    | none => .ok p
    | some read =>
      match read item with
      | .ok change => .ok (change p)
      | .error m => .error ⟨m, some (item.spanOr k), [k.name]⟩

theorem ofEntries_eq (entries : List (Key × Item)) :
    ofEntries entries = entries.foldlM readEntry standard := rfl

theorem readEntry_setting {p : ChainParams} {k : Key} {item : Item} {read}
    (hk : fieldReaders.lookup k.name = some read) {change : ChainParams → ChainParams}
    (hread : read item = .ok change) : readEntry p (k, item) = .ok (change p) := by
  simp only [readEntry, hk, hread]

/-- **Entries of settings.** Entries that stand for lines of the settings' keys, whose values
their settings read as changes, read as those changes made in their order. -/
theorem foldlM_readEntry {entries : List (Key × Item)} {ls : List PairLine}
    (hrel : List.Forall₂ (fun e l => e.1.name = l.name ∧ ∃ span, e.2 = .value l.read span)
      entries ls) :
    ∀ {changes : List (ChainParams → ChainParams)},
      List.Forall₂ (fun l c => ∃ read, fieldReaders.lookup l.name = some read ∧
        ∀ span, read (.value l.read span) = .ok c) ls changes →
      ∀ p, entries.foldlM readEntry p = .ok (changes.foldl (fun q c => c q) p) := by
  induction hrel with
  | nil =>
    intro changes hch p
    cases hch
    rfl
  | @cons e l _ _ hel _ ih =>
    intro changes hch p
    obtain ⟨k, item⟩ := e
    obtain ⟨hname, span, hitem⟩ := hel
    dsimp only at hname hitem
    subst hitem
    cases hch with
    | @cons _ change _ _ hc hcs =>
      obtain ⟨read, hk, hread⟩ := hc
      have hstep : readEntry p (k, .value l.read span) = .ok (change p) :=
        readEntry_setting (hname ▸ hk) (hread span)
      rw [List.foldlM_cons, hstep, List.foldl_cons]
      exact ih hcs (change p)

theorem unsignedOf_natCast {bits n : Nat} (h : n < 2 ^ bits) (span : Span) :
    unsignedOf bits (.value (.integer n) span) = .ok n := by
  have hlt : (n : Int) < Int.pow 2 bits := by
    show (n : Int) < 2 ^ bits
    exact_mod_cast h
  simp only [unsignedOf, hlt, Int.natCast_nonneg, decide_true, Bool.and_self, if_true,
    Int.toNat_natCast]

theorem decimalOf_toText {d : Decimal} (hs : -2 ^ 63 ≤ d.scale ∧ d.scale < 2 ^ 63)
    (span : Span) : decimalOf (.value (.string d.toText) span) = .ok d.reread := by
  show Except.mapError _ (Decimal.parse d.toText) = _
  rw [Decimal.parse_toText d hs]
  rfl

/-- The changes the written lines read as: each setting to its own value, the difficulty to its
text read back. -/
def changesOf (p : ChainParams) : List (ChainParams → ChainParams) :=
  [fun q => { q with chainName := p.chainName },
   fun q => { q with headerVersion := p.headerVersion },
   fun q => { q with retargetInterval := p.retargetInterval },
   fun q => { q with targetSecondsPerBlock := p.targetSecondsPerBlock },
   fun q => { q with maxZeroBits := p.maxZeroBits },
   fun q => { q with maxTimestampSkewSecs := p.maxTimestampSkewSecs },
   fun q => { q with initialDifficulty := p.initialDifficulty.reread },
   fun q => { q with genesisTimestampMs := p.genesisTimestampMs },
   fun q => { q with peerQueryTimeoutSecs := p.peerQueryTimeoutSecs },
   fun q => { q with maxPlaceholderWaitSecs := p.maxPlaceholderWaitSecs }]

section LinesRead

variable {p : ChainParams} (hp : p.Fits) (hw : p.Writable)

/-- Each line is read by its setting as the change of that setting to its value. -/
theorem lines_read :
    List.Forall₂ (fun l c => ∃ read, fieldReaders.lookup l.name = some read ∧
      ∀ span, read (.value l.read span) = .ok c) (lines hp hw) (changesOf p) := by
  simp only [lines, wideLine, changesOf, List.forall₂_cons, List.Forall₂.nil, and_true,
    PairLine.name_string, PairLine.name_integer]
  refine ⟨⟨_, rfl, fun _ => rfl⟩, ⟨_, rfl, fun span => ?_⟩, ⟨_, rfl, fun span => ?_⟩,
    ⟨_, rfl, fun span => ?_⟩, ⟨_, rfl, fun span => ?_⟩, ⟨_, rfl, fun span => ?_⟩,
    ⟨_, rfl, fun span => ?_⟩, ⟨_, rfl, fun span => ?_⟩, ⟨_, rfl, fun span => ?_⟩,
    ⟨_, rfl, fun span => ?_⟩⟩
  · rw [PairLine.read_integer, unsignedOf_natCast p.headerVersion.toNat_lt span]
    simp [UInt32.ofNat_toNat]
  · rw [PairLine.read_integer, unsignedOf_natCast p.retargetInterval.toNat_lt span]
    simp [UInt64.ofNat_toNat]
  · rw [PairLine.read_integer, unsignedOf_natCast p.targetSecondsPerBlock.toNat_lt span]
    simp [UInt64.ofNat_toNat]
  · rw [PairLine.read_integer, unsignedOf_natCast p.maxZeroBits.toNat_lt span]
    simp [UInt32.ofNat_toNat]
  · rw [PairLine.read_integer, unsignedOf_natCast p.maxTimestampSkewSecs.toNat_lt span]
    simp [UInt64.ofNat_toNat]
  · rw [PairLine.read_string, decimalOf_toText hp.scale span]
    rfl
  · rw [PairLine.read_integer]
    simp [signedOf, Int64.ofInt_toInt]
  · rw [PairLine.read_integer, unsignedOf_natCast p.peerQueryTimeoutSecs.toNat_lt span]
    simp [UInt64.ofNat_toNat]
  · rw [PairLine.read_integer, unsignedOf_natCast p.maxPlaceholderWaitSecs.toNat_lt span]
    simp [UInt64.ofNat_toNat]

end LinesRead

/-! ## Defaults -/

/-- A setting's value, whatever the type of its field. -/
inductive Setting where
  | text (s : String)
  | word32 (n : UInt32)
  | word64 (n : UInt64)
  | decimal (d : Decimal)
  | signed64 (n : Int64)

/-- The settings by their keys. -/
def settingsOf (p : ChainParams) : List (String × Setting) :=
  [("chain_name", .text p.chainName), ("header_version", .word32 p.headerVersion),
   ("retarget_interval", .word64 p.retargetInterval),
   ("target_seconds_per_block", .word64 p.targetSecondsPerBlock),
   ("max_zero_bits", .word32 p.maxZeroBits),
   ("max_timestamp_skew_secs", .word64 p.maxTimestampSkewSecs),
   ("initial_difficulty", .decimal p.initialDifficulty),
   ("genesis_timestamp_ms", .signed64 p.genesisTimestampMs),
   ("peer_query_timeout_secs", .word64 p.peerQueryTimeoutSecs),
   ("max_placeholder_wait_secs", .word64 p.maxPlaceholderWaitSecs)]

/-- **An entry changes only its own setting.** Reading an entry leaves the setting of every
other key as it was. -/
theorem readEntry_frame {q q' : ChainParams} {k : Key} {item : Item}
    (h : readEntry q (k, item) = .ok q') {name : String} (hname : name ≠ k.name) :
    (settingsOf q').lookup name = (settingsOf q).lookup name := by
  simp only [readEntry] at h
  split at h
  · cases h
    rfl
  · rename_i read hk
    split at h
    · rename_i change hread
      cases h
      -- the key names one setting, whose reader changes that setting alone
      simp only [fieldReaders, List.lookup] at hk
      repeat' split at hk
      -- one case for each key, and none for a key no setting has
      all_goals
        rename_i hkey
        cases hk
      all_goals
        obtain ⟨v, -, hv⟩ := bind_eq_ok hread
        cases hv
        have hb := beq_false_of_ne ((beq_iff_eq.1 hkey) ▸ hname)
        simp only [settingsOf, List.lookup, hb]
    · cases h

/-- Entries none of which has the key `name` leave its setting as it was. -/
theorem foldlM_readEntry_frame {name : String} :
    ∀ {entries : List (Key × Item)} {q q' : ChainParams}, entries.foldlM readEntry q = .ok q' →
      (∀ e ∈ entries, e.1.name ≠ name) → (settingsOf q').lookup name = (settingsOf q).lookup name
  | [], _, _, h, _ => by
    cases h
    rfl
  | (k, item) :: es, q, q', h, habs => by
    rw [List.foldlM_cons] at h
    obtain ⟨q₁, h₁, h₂⟩ := bind_eq_ok h
    rw [foldlM_readEntry_frame h₂ fun e he => habs e (List.mem_cons_of_mem _ he),
      readEntry_frame h₁ (Ne.symm (habs _ List.mem_cons_self))]

/-- Settings read from a file are valid, and are what the entries of its document read as. -/
theorem ofToml_ok {source : String} {q : ChainParams} (h : ofToml source = .ok q) :
    q.validate = .ok () ∧ ∃ entries, Toml.parse source = .ok entries ∧ ofEntries entries = .ok q := by
  unfold ofToml at h
  dsimp only at h
  split at h
  · cases h
  · rename_i q₁ hread
    split at h
    · cases h
      obtain ⟨entries, hparse, hentries⟩ := bind_eq_ok hread
      exact ⟨‹_›, entries, hparse, hentries⟩
    · cases h

/-- **Missing keys keep their defaults.** Settings read from a document's entries have the
default setting for every key that none of the entries has. -/
theorem ofEntries_defaults {entries : List (Key × Item)} {q : ChainParams}
    (h : ofEntries entries = .ok q) {name : String} (habs : ∀ e ∈ entries, e.1.name ≠ name) :
    (settingsOf q).lookup name = (settingsOf standard).lookup name :=
  foldlM_readEntry_frame (by rwa [ofEntries_eq] at h) habs

/-! ## The round trip -/

/-- The difficulty read back is checked as the one written: it stands for the same number and
has the same text. -/
theorem validate_reread (p : ChainParams) :
    validate { p with initialDifficulty := p.initialDifficulty.reread } = validate p := by
  have hlt : p.initialDifficulty.reread < Decimal.one ↔ p.initialDifficulty < Decimal.one := by
    rw [Decimal.lt_iff_val_lt, Decimal.lt_iff_val_lt, Decimal.val_reread]
  simp only [validate, hlt, Decimal.toText_reread]

theorem beq_with_difficulty (p : ChainParams) (d : Decimal) :
    ({ p with initialDifficulty := d } == p) = (d == p.initialDifficulty) := by
  obtain ⟨n, v, r, t, z, k, d₀, g, q, w⟩ := p
  show instBEqChainParams.beq _ _ = _
  rw [instBEqChainParams.beq.eq_1]
  simp

/-- **Settings read back.** Settings that fit and that TOML can hold are written, and the text
written reads back as them, with the difficulty read back from its text. -/
theorem ofToml_toToml {p : ChainParams} (hp : p.Fits) (hw : p.Writable)
    (hv : p.validate = .ok ()) :
    ∃ s, toToml p = .ok s ∧
      ofToml s = .ok { p with initialDifficulty := p.initialDifficulty.reread } := by
  refine ⟨_, toToml_of_writable hw, ?_⟩
  obtain ⟨entries, hparse, hrel⟩ := parse_pairLines _ (lines hp hw) (lines_bytes hp hw)
    (by rw [lines_names]; exact keys_nodup)
  have hentries : ofEntries entries = .ok { p with initialDifficulty := p.initialDifficulty.reread } := by
    rw [ofEntries_eq, foldlM_readEntry hrel (lines_read hp hw) standard]
    rfl
  unfold ofToml
  dsimp only
  rw [hparse]
  dsimp only [bind, Except.bind]
  rw [hentries]
  dsimp only
  rw [validate_reread, hv]

/-- **Settings through a TOML file.** Take valid settings whose texts, and the scale of whose
difficulty, fit 64 bits. They can be written exactly when every unsigned setting of 64 bits is
at most `2^63 - 1`, the largest TOML integer; otherwise the writing fails with the message for a
value out of range. The text written reads back as the same settings, the difficulty as its text
reads back: the same number with the same text, and equal to the one written as `==` compares
them whenever its digits, with the zeros its text appends, fit 64 bits. And settings read from
any text are valid, each setting whose key the document's root lacks keeping its default. -/
theorem settings_round_trip_through_toml (p : ChainParams) (hp : p.Fits)
    (hv : p.validate = .ok ()) :
    ((∃ s, toToml p = .ok s) ↔ p.Writable) ∧
    (¬p.Writable → toToml p =
      .error "Failed to serialize chain parameters to TOML: out-of-range value for u64 type") ∧
    (∀ s, toToml p = .ok s →
      ofToml s = .ok { p with initialDifficulty := p.initialDifficulty.reread } ∧
      p.initialDifficulty.reread.val = p.initialDifficulty.val ∧
      p.initialDifficulty.reread.toText = p.initialDifficulty.toText ∧
      (p.initialDifficulty.unscaled.natAbs * 10 ^ p.initialDifficulty.scale.natAbs < 2 ^ 64 ∨
          ¬(-15 ≤ p.initialDifficulty.scale ∧ p.initialDifficulty.scale < 0) →
        ({ p with initialDifficulty := p.initialDifficulty.reread } == p) = true)) ∧
    (∀ s q, ofToml s = .ok q → q.validate = .ok () ∧
      ∃ entries, Toml.parse s = .ok entries ∧
        ∀ name, (∀ e ∈ entries, e.1.name ≠ name) →
          (settingsOf q).lookup name = (settingsOf standard).lookup name) := by
  refine ⟨toToml_ok_iff, toToml_of_not_writable, fun s hs => ?_, fun s q hq => ?_⟩
  · -- the text written is the one `ofToml_toToml` reads back
    obtain ⟨s', hs', hread⟩ := ofToml_toToml hp (toToml_ok_iff.1 ⟨s, hs⟩) hv
    obtain rfl : s = s' := Except.ok.inj (hs.symm.trans hs')
    refine ⟨hread, Decimal.val_reread _, Decimal.toText_reread _, fun hfit => ?_⟩
    rw [beq_with_difficulty]
    exact Decimal.reread_beq_self _ hfit
  · obtain ⟨hvalid, entries, hparse, hentries⟩ := ofToml_ok hq
    exact ⟨hvalid, entries, hparse, fun name habs => ofEntries_defaults hentries habs⟩

/-- The standard settings are written, and read back as themselves. -/
theorem standard_settings_read_back :
    standard.Fits ∧ standard.validate = .ok () ∧
      ∃ s, toToml standard = .ok s ∧ ofToml s = .ok standard := by
  have hfit : standard.Fits := ⟨by unfold Canonical.Fits; rw [String.utf8ByteSize]; decide,
    by unfold Canonical.Fits; decide, by decide⟩
  have hv : standard.validate = .ok () := rfl
  obtain ⟨hwrite, -, hread, -⟩ := settings_round_trip_through_toml standard hfit hv
  obtain ⟨s, hs⟩ := hwrite.2 (by decide)
  exact ⟨hfit, hv, s, hs, (hread s hs).1⟩

/-- Settings with a retarget interval of `2^63` blocks are valid, but cannot be written. -/
theorem wide_retarget_interval_not_written :
    ({ standard with retargetInterval := 9223372036854775808 } : ChainParams).validate = .ok () ∧
      toToml { standard with retargetInterval := 9223372036854775808 } =
        .error "Failed to serialize chain parameters to TOML: out-of-range value for u64 type" :=
  ⟨rfl, toToml_of_not_writable (by decide)⟩

end WorkLedger.ChainParams
