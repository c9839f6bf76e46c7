import WorkLedger.Json.Reader
import WorkLedger.Decimal.Text

/-!
# Decoding JSON by shape

A `Shape` describes what a JSON value must look like: fixed-width integers, booleans, strings,
strings that parse into something else, optional values, lists, records (an object with
named fields, or an array of the fields in order), and choices between named variants (a
string for a variant without payload, or an object with the variant's name as its only key).
Decoding yields a `Datum` of that shape, from which the ledger builds its values.

There are two decoders. `Shape.read` reads JSON text as a stream of bytes and reports where it
stopped; `Shape.ofJson` decodes a value already read, without positions, visiting an object's
members in key order. Both check, in this order for a record: each member as it comes (an
unknown one is skipped, a repeated one refused), then the first missing field in
declaration order.
-/

namespace WorkLedger.Json

/-- A decoded value, shaped by a `Shape`. -/
inductive Datum where
  | nat (n : Nat)
  | int (i : Int)
  | bool (b : Bool)
  | text (s : String)
  | bytes (b : List UInt8)
  | decimal (d : Decimal)
  | absent
  | present (d : Datum)
  | items (ds : List Datum)
  | fields (ds : List Datum)
  | variant (index : Nat) (payload : Datum)
  | value (j : Json)
  deriving Inhabited

/-- What a JSON value must look like. -/
inductive Shape where
  /-- An unsigned integer of `bits` bits. -/
  | unsigned (bits : Nat)
  /-- A signed 64-bit integer. -/
  | signed64
  | boolean
  | text
  /-- A string that `parse` turns into a datum; `early` says its refusal is reported where the
  string ends, otherwise where the enclosing record or list ends. -/
  | parsed (expecting : String) (early : Bool) (parse : String → Except String Datum)
  /-- `null`, the payload of a variant without one. -/
  | unit
  | optional (s : Shape)
  | list (s : Shape)
  /-- A record named `name` with named fields. -/
  | record (name : String) (fields : List (String × Shape))
  /-- A choice named `name` between named variants. -/
  | choice (name : String) (cases : List (String × Shape))
  /-- The payload of a variant that is itself a record of named fields. -/
  | variantRecord (name : String) (fields : List (String × Shape))
  /-- Any value at all. -/
  | any

/-- How an unexpected value is named in a type error. -/
def describe : Json → String
  | .null => "null"
  | .bool b => "boolean `" ++ (if b then "true" else "false") ++ "`"
  | .int i => "integer `" ++ intText i ++ "`"
  | .float f => "floating point `" ++ FloatText.render f ++ "`"
  | .str s => "string " ++ Text.quoteString s
  | .arr _ => "sequence"
  | .obj _ => "map"

/-- The message of a type error. -/
def invalidTypeMessage (what expected : String) : String :=
  "invalid type: " ++ what ++ ", expected " ++ expected

/-- The message of a value outside the range of its type. -/
def invalidValueMessage (what expected : String) : String :=
  "invalid value: " ++ what ++ ", expected " ++ expected

/-- The name of an integer shape in messages. -/
def unsignedName (bits : Nat) : String := "u" ++ toString bits

/-- The names of the variants, as a choice lists them in messages. -/
def oneOf (names : List String) : String :=
  let quoted := names.map fun n => "`" ++ n ++ "`"
  match quoted with
  | [] => "there are no variants"
  | [a] => a
  | [a, b] => a ++ " or " ++ b
  | _ => "one of " ++ ", ".intercalate quoted

/-- The message for a variant name that is not one of `names`. -/
def unknownVariant (name : String) (names : List String) : String :=
  match names with
  | [] => "unknown variant `" ++ name ++ "`, there are no variants"
  | _ => "unknown variant `" ++ name ++ "`, expected " ++ oneOf names

/-- The message for an array too short for a record. -/
def tooFewElements (got : Nat) (name : String) (count : Nat) : String :=
  "invalid length " ++ toString got ++ ", expected " ++ name ++ " with " ++ toString count ++
    (if count = 1 then " element" else " elements")

/-- Checks an integer against an integer shape; `negative` integers are below zero. -/
def checkInteger (bits : Option Nat) (i : Int) : Except String Datum :=
  match bits with
  | some b =>
    if i < 0 then .error (invalidValueMessage ("integer `" ++ intText i ++ "`") (unsignedName b))
    else if i < Int.pow 2 b then .ok (.nat i.toNat)
    else .error (invalidValueMessage ("integer `" ++ intText i ++ "`") (unsignedName b))
  | none =>
    if i < Int.pow 2 63 then .ok (.int i)
    else .error (invalidValueMessage ("integer `" ++ intText i ++ "`") "i64")

/-- Checks a number read from text against an integer shape. -/
def checkNumber (bits : Option Nat) : Number → Except String Datum
  | .unsigned n => checkInteger bits n
  | .negative n => checkInteger bits n
  | .float f =>
    .error (invalidTypeMessage ("floating point `" ++ FloatText.render f ++ "`")
      (match bits with | some b => unsignedName b | none => "i64"))

/-- The first field of `fields` not yet given, in declaration order. -/
def firstMissing (fields : List (String × Shape)) (got : List (Option Datum)) : Option String :=
  ((fields.zip got).find? (fun p => p.2.isNone)).map (·.1.1)

/-- Records `d` as the value of field `i`. -/
def setField (got : List (Option Datum)) (i : Nat) (d : Datum) : List (Option Datum) :=
  got.set i (some d)

/-- Inserts a member into an object sorted by key, replacing one of the same key. -/
def insertSorted (key : String) (v : Json) : List (String × Json) → List (String × Json)
  | [] => [(key, v)]
  | (k, w) :: rest =>
    if key = k then (key, v) :: rest
    else if key < k then (key, v) :: (k, w) :: rest
    else (k, w) :: insertSorted key v rest

/-! ## Reading text -/

/-- Runs `body`, then `finish` from wherever `body` stopped; a failure of `body` without a
position gets the point where `finish` left the cursor, and a failure of `finish` counts only
when `body` succeeded. -/
def container {α : Type} (body : ReadM α) (finish : ReadM Unit) : ReadM α := do
  let start ← get
  match body.run start with
  | .ok (a, c) =>
    match finish.run c with
    | .ok (_, c') => set c'; pure a
    | .error (e, c') => throw (fixPosition e c', c')
  | .error (e, c) =>
    let c' := match finish.run c with
      | .ok (_, c') => c'
      | .error (_, c') => c'
    throw (fixPosition e c', c')

/-- Gives any position-less failure of `r` the point where it happened. -/
def fixed {α : Type} (r : ReadM α) : ReadM α := container r (pure ())

/-- The end of an array: its closing bracket. -/
def endList : ReadM Unit := do
  match ← skipBlanks with
  | some 93 => eat
  | some 44 => do
    eat
    match ← skipBlanks with
    | some 93 => failPeek trailingComma
    | _ => failPeek trailingCharacters
  | some _ => failPeek trailingCharacters
  | none => failPeek eofList

/-- The end of an object: its closing brace. -/
def endObject : ReadM Unit := do
  match ← skipBlanks with
  | some 125 => eat
  | some 44 => failPeek trailingComma
  | some _ => failPeek trailingCharacters
  | none => failPeek eofObject

/-- Whether another array element follows (`first`: none has been read yet). -/
def nextElement (first : Bool) : ReadM Bool := do
  match ← skipBlanks with
  | none => failPeek eofList
  | some 93 => pure false
  | some b =>
    if first then pure true
    else if b == 44 then do
      eat
      match ← skipBlanks with
      | some 93 => failPeek trailingComma
      | some _ => pure true
      | none => failPeek eofValue
    else failPeek expectedListCommaOrEnd

/-- The key of the next object member, if another follows (`first`: none has been read yet). -/
def nextKey (first : Bool) : ReadM (Option String) := do
  let b? ← match ← skipBlanks with
    | some 125 => pure none
    | some 44 =>
      if first then pure (some (44 : UInt8)) else do
        eat
        match ← skipBlanks with
        | some b => pure (some b)
        | none => failPeek eofValue
    | some b => if first then pure (some b) else failPeek expectedObjectCommaOrEnd
    | none => failPeek eofObject
  match b? with
  | none => pure none
  | some 34 => do eat; let k ← readString; pure (some k)
  | some 44 => failPeek trailingComma
  | some 125 => failPeek trailingComma
  | some _ => failPeek keyMustBeString

/-- The colon between a key and its value. -/
def colon : ReadM Unit := do
  match ← skipBlanks with
  | some 58 => eat
  | some _ => failPeek expectedColon
  | none => failPeek eofObject

/-- Enters a container one level deeper, refusing the 128th level. -/
def enter (depth : Nat) : ReadM Nat :=
  if depth ≤ 1 then failPeek recursionLimit else pure (depth - 1)

/-- Reads a string for a shape that expects one, after blanks. -/
def readStringFor (expecting : String) : ReadM String := do
  match ← skipBlanks with
  | none => failPeek eofValue
  | some 34 => do eat; readString
  | some _ => invalidType expecting

/-- Reads an integer of a fixed-width shape. -/
def readInteger (bits : Option Nat) (name : String) : ReadM Datum := fixed do
  match ← skipBlanks with
  | none => failPeek eofValue
  | some b =>
    if b == 45 || (48 ≤ b && b ≤ 57) then do
      if b == 45 then eat
      let n ← readNumber (b == 45)
      match checkNumber bits n with
      | .ok d => pure d
      | .error m => failRead m
    else invalidType name

/-- Reads a variant name and finds its case. -/
def readVariantName (name : String) (cases : List (String × Shape)) : ReadM (Nat × Shape) := do
  let _ := name
  let str ← fixed (readStringFor "variant identifier")
  match cases.findIdx? (·.1 == str) with
  | some i => pure (i, (cases.getD i ("", .unit)).2)
  | none => failRead (unknownVariant str (cases.map (·.1)))

mutual

/-- Reads a value of shape `s`; `depth` is how many more containers may open, and `fuel`
bounds the nesting of shapes. -/
def Shape.read : Nat → Nat → Shape → ReadM Datum
  | 0, _, _ => failPeek recursionLimit
  | fuel + 1, depth, s =>
    match s with
    | .unsigned bits => readInteger (some bits) (unsignedName bits)
    | .signed64 => readInteger none "i64"
    | .boolean => fixed do
      match ← skipBlanks with
      | none => failPeek eofValue
      | some 116 => do eat; expectWord [114, 117, 101]; pure (.bool true)
      | some 102 => do eat; expectWord [97, 108, 115, 101]; pure (.bool false)
      | some _ => invalidType "a boolean"
    | .text => fixed do
      let str ← readStringFor "a string"
      pure (.text str)
    | .parsed expecting early parse => do
      let str ← fixed (readStringFor expecting)
      match parse str with
      | .ok d => pure d
      | .error m => if early then failRead m else failWith (.custom m)
    | .unit => fixed do
      match ← skipBlanks with
      | none => failPeek eofValue
      | some 110 => do eat; expectWord [117, 108, 108]; pure .absent
      | some _ => invalidType "unit"
    | .optional inner => do
      match ← skipBlanks with
      | some 110 => do eat; expectWord [117, 108, 108]; pure .absent
      | _ => do let d ← Shape.read fuel depth inner; pure (.present d)
    | .list inner => fixed do
      match ← skipBlanks with
      | none => failPeek eofValue
      | some 91 => do
        let depth ← enter depth
        eat
        let c ← get
        let ds ← container (readElements fuel depth inner (c.bytes.size - c.index + 1) true []) endList
        pure (.items ds)
      | some _ => invalidType "a sequence"
    | .record name fields => readRecord fuel depth ("struct " ++ name) fields
    | .variantRecord name fields => readRecord fuel depth ("struct variant " ++ name) fields
    | .choice name cases => do
      match ← skipBlanks with
      | some 123 => do
        let depth ← enter depth
        eat
        let (i, payload) ← readVariantName name cases
        colon
        let d ← Shape.read fuel depth payload
        match ← skipBlanks with
        | some 125 => do eat; pure (.variant i d)
        | some _ => failRead expectedValue
        | none => failRead eofObject
      | some 34 => do
        let (i, payload) ← readVariantName name cases
        match payload with
        | .unit => pure (.variant i .absent)
        | .variantRecord _ _ =>
          failWith (.custom (invalidTypeMessage "unit variant" "struct variant"))
        | _ => failWith (.custom (invalidTypeMessage "unit variant" "newtype variant"))
      | some _ => failPeek expectedValue
      | none => failPeek eofValue
    | .any => do let j ← readAny fuel depth; pure (.value j)
termination_by fuel _ _ => (fuel, 0, 0)

/-- Reads array elements of shape `s`, at most `count` of them. -/
def readElements (fuel depth : Nat) (s : Shape) :
    Nat → Bool → List Datum → ReadM (List Datum)
  | 0, _, acc => pure acc.reverse
  | count + 1, first, acc => do
    if ← nextElement first then do
      let d ← Shape.read fuel depth s
      readElements fuel depth s count false (d :: acc)
    else pure acc.reverse
termination_by count _ _ => (fuel, 1, count)

/-- Reads a record as an object or an array; `expecting` names it in a type error. -/
def readRecord (fuel depth : Nat) (expecting : String) (fields : List (String × Shape)) :
    ReadM Datum := fixed do
  match ← skipBlanks with
  | none => failPeek eofValue
  | some 91 => do
    let depth ← enter depth
    eat
    container (readFieldsInOrder fuel depth expecting fields.length fields true []) endList
  | some 123 => do
    let depth ← enter depth
    eat
    let c ← get
    container (readMembers fuel depth fields (c.bytes.size - c.index + 1) true
      (fields.map fun _ => none)) endObject
  | some _ => invalidType expecting
termination_by (fuel, 2, 0)

/-- Reads the fields of a record written as an array. -/
def readFieldsInOrder (fuel depth : Nat) (expecting : String) (count : Nat) :
    List (String × Shape) → Bool → List Datum → ReadM Datum
  | [], _, acc => pure (.fields acc.reverse)
  | (_, s) :: rest, first, acc => do
    if ← nextElement first then do
      let d ← Shape.read fuel depth s
      readFieldsInOrder fuel depth expecting count rest false (d :: acc)
    else failWith (.custom (tooFewElements acc.length expecting count))
termination_by fs _ _ => (fuel, 1, fs.length)

/-- Reads the members of a record written as an object, at most `count` of them. -/
def readMembers (fuel depth : Nat) (fields : List (String × Shape)) :
    Nat → Bool → List (Option Datum) → ReadM Datum
  | 0, _, _ => failPeek eofObject
  | count + 1, first, got => do
    match ← nextKey first with
    | none =>
      match firstMissing fields got with
      | some name => failWith (.custom ("missing field `" ++ name ++ "`"))
      | none => pure (.fields (got.map fun d => d.getD .absent))
    | some key =>
      match fields.findIdx? (·.1 == key) with
      | none => do
        colon
        skipValue
        readMembers fuel depth fields count false got
      | some i =>
        if (got.getD i none).isSome then failWith (.custom ("duplicate field `" ++ key ++ "`"))
        else do
          colon
          let d ← Shape.read fuel depth ((fields.getD i ("", .any)).2)
          readMembers fuel depth fields count false (setField got i d)
termination_by count _ _ => (fuel, 1, count)

/-- Reads any value. -/
def readAny : Nat → Nat → ReadM Json
  | 0, _ => failPeek recursionLimit
  | fuel + 1, depth => fixed do
  match ← skipBlanks with
  | none => failPeek eofValue
  | some 110 => do eat; expectWord [117, 108, 108]; pure .null
  | some 116 => do eat; expectWord [114, 117, 101]; pure (.bool true)
  | some 102 => do eat; expectWord [97, 108, 115, 101]; pure (.bool false)
  | some 45 => do eat; let n ← readNumber true; pure n.toJson
  | some 34 => do eat; let str ← readString; pure (.str str)
  | some 91 => do
    let depth ← enter depth
    eat
    let c ← get
    let items ← container (readAnyElements fuel depth (c.bytes.size - c.index + 1) true []) endList
    pure (.arr items)
  | some 123 => do
    let depth ← enter depth
    eat
    let c ← get
    let members ← container (readAnyMembers fuel depth (c.bytes.size - c.index + 1) true []) endObject
    pure (.obj members)
  | some b =>
    if 48 ≤ b && b ≤ 57 then do let n ← readNumber false; pure n.toJson
    else failPeek expectedValue
termination_by fuel _ => (fuel, 0, 0)

/-- Reads the elements of an array of any values. -/
def readAnyElements (fuel depth : Nat) : Nat → Bool → List Json → ReadM (List Json)
  | 0, _, acc => pure acc.reverse
  | count + 1, first, acc => do
    if ← nextElement first then do
      let j ← readAny fuel depth
      readAnyElements fuel depth count false (j :: acc)
    else pure acc.reverse
termination_by count _ _ => (fuel, 1, count)

/-- Reads the members of an object of any values, sorted by key, the last of a key winning. -/
def readAnyMembers (fuel depth : Nat) :
    Nat → Bool → List (String × Json) → ReadM (List (String × Json))
  | 0, _, acc => pure acc
  | count + 1, first, acc => do
    match ← nextKey first with
    | none => pure acc
    | some key => do
      colon
      let j ← readAny fuel depth
      readAnyMembers fuel depth count false (insertSorted key j acc)
termination_by count _ _ => (fuel, 1, count)

end

/-- Reads a whole text as a value of shape `s`: only blanks may follow it. -/
def Shape.readText (s : Shape) (bytes : ByteArray) (source : Source) : Except ReadError Datum :=
  let body : ReadM Datum := do
    let d ← Shape.read 300 128 s
    match ← skipBlanks with
    | some _ => failPeek trailingCharacters
    | none => pure d
  match body.run (Cursor.start bytes source) with
  | .ok (d, _) => .ok d
  | .error (e, _) => .error e

/-- Reads a whole text as any JSON value. -/
def parse (text : String) : Except ReadError Json :=
  match Shape.any.readText text.toUTF8 .slice with
  | .ok (.value j) => .ok j
  | .ok _ => .ok .null
  | .error e => .error e

/-! ## Decoding values -/

/-- Decodes an integer value. -/
def integerOfJson (bits : Option Nat) (name : String) : Json → Except String Datum
  | .int i => checkInteger bits i
  | j => .error (invalidTypeMessage (describe j) name)

mutual

/-- Decodes a value already read as shape `s`; `fuel` bounds the nesting of shapes. -/
def Shape.decode : Nat → Shape → Json → Except String Datum
  | 0, _, _ => .error recursionLimit
  | fuel + 1, s, j =>
    match s, j with
    | .unsigned bits, j => integerOfJson (some bits) (unsignedName bits) j
    | .signed64, j => integerOfJson none "i64" j
    | .boolean, .bool b => .ok (.bool b)
    | .boolean, j => .error (invalidTypeMessage (describe j) "a boolean")
    | .text, .str s => .ok (.text s)
    | .text, j => .error (invalidTypeMessage (describe j) "a string")
    | .parsed _ _ parse, .str s => parse s
    | .parsed expecting _ _, j => .error (invalidTypeMessage (describe j) expecting)
    | .unit, .null => .ok .absent
    | .unit, j => .error (invalidTypeMessage (describe j) "unit")
    | .optional _, .null => .ok .absent
    | .optional s, j => Datum.present <$> Shape.decode fuel s j
    | .list s, .arr items => Datum.items <$> listOfJson fuel s items
    | .list _, j => .error (invalidTypeMessage (describe j) "a sequence")
    | .record name fields, j => recordOfJson fuel ("struct " ++ name) fields true j
    | .variantRecord name fields, j => recordOfJson fuel ("struct variant " ++ name) fields false j
    | .choice _ cases, .str name => choiceOfJson fuel cases name none
    | .choice _ cases, .obj [(name, payload)] => choiceOfJson fuel cases name (some payload)
    | .choice _ _, .obj _ => .error (invalidValueMessage "map" "map with a single key")
    | .choice _ _, j => .error (invalidTypeMessage (describe j) "string or map")
    | .any, j => .ok (.value j)
termination_by fuel _ _ => (fuel, 0, 0)

/-- Decodes the elements of an array. -/
def listOfJson (fuel : Nat) (s : Shape) : List Json → Except String (List Datum)
  | [] => .ok []
  | j :: rest => do
    let d ← Shape.decode fuel s j
    let ds ← listOfJson fuel s rest
    pure (d :: ds)
termination_by items => (fuel, 1, items.length)

/-- Decodes a record from an object, or from an array when `arrays` allows it. -/
def recordOfJson (fuel : Nat) (expecting : String) (fields : List (String × Shape))
    (arrays : Bool) (j : Json) : Except String Datum :=
  match j with
  | .arr items =>
    if arrays then fieldsInOrderOfJson fuel expecting fields.length fields items []
    else .error (invalidTypeMessage "sequence" expecting)
  | .obj members => do
    let got ← membersOfJson fuel fields members (fields.map fun _ => none)
    match firstMissing fields got with
    | some name => .error ("missing field `" ++ name ++ "`")
    | none => pure (.fields (got.map fun d => d.getD .absent))
  | j => .error (invalidTypeMessage (describe j) expecting)
termination_by (fuel, 2, 0)

/-- Decodes the fields of a record written as an array. -/
def fieldsInOrderOfJson (fuel : Nat) (expecting : String) (count : Nat) :
    List (String × Shape) → List Json → List Datum → Except String Datum
  | [], [], acc => .ok (.fields acc.reverse)
  | [], extra, acc =>
    .error ("invalid length " ++ toString (acc.length + extra.length) ++
      ", expected fewer elements in array")
  | _ :: _, [], acc => .error (tooFewElements acc.length expecting count)
  | (_, s) :: rest, j :: more, acc => do
    let d ← Shape.decode fuel s j
    fieldsInOrderOfJson fuel expecting count rest more (d :: acc)
termination_by fs _ _ => (fuel, 1, fs.length)

/-- Decodes the members of a record written as an object, in the object's order. -/
def membersOfJson (fuel : Nat) (fields : List (String × Shape)) :
    List (String × Json) → List (Option Datum) → Except String (List (Option Datum))
  | [], got => .ok got
  | (key, j) :: rest, got =>
    match fields.findIdx? (·.1 == key) with
    | none => membersOfJson fuel fields rest got
    | some i =>
      if (got.getD i none).isSome then .error ("duplicate field `" ++ key ++ "`")
      else do
        let d ← Shape.decode fuel ((fields.getD i ("", .any)).2) j
        membersOfJson fuel fields rest (setField got i d)
termination_by members _ => (fuel, 1, members.length)

/-- Decodes a variant from its name and payload (none: written as a bare string). -/
def choiceOfJson (fuel : Nat) (cases : List (String × Shape)) (name : String)
    (payload : Option Json) : Except String Datum :=
  match cases.findIdx? (·.1 == name) with
  | none => .error (unknownVariant name (cases.map (·.1)))
  | some i =>
    let shape := (cases.getD i ("", .unit)).2
    match shape, payload with
    | .unit, none => .ok (.variant i .absent)
    | .variantRecord _ _, none => .error (invalidTypeMessage "unit variant" "struct variant")
    | _, none => .error (invalidTypeMessage "unit variant" "newtype variant")
    | .variantRecord _ _, some (.obj m) => Datum.variant i <$> Shape.decode fuel shape (.obj m)
    | .variantRecord _ _, some j => .error (invalidTypeMessage (describe j) "struct variant")
    | s, some j => Datum.variant i <$> Shape.decode fuel s j
termination_by (fuel, 1, 0)

end

/-- Decodes a value already read as shape `s`, with errors that carry no position. -/
def Shape.ofJson (s : Shape) (j : Json) : Except String Datum := Shape.decode 300 s j

end WorkLedger.Json
