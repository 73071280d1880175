import Siralos.Redaction

/-!
# Redaction of a stream

What of a text may be the beginning of an encoded credential is held back until the next chunk
decides it, or until the stream has ended.
-/

set_option autoImplicit false

namespace Siralos.Redaction

open Text Json Provider

structure PrefixState where
  matched : ℕ
  starts : List ℕ
  deriving DecidableEq, Repr

section Prefix

variable (pattern failure : List ℕ)

def advancePrefixState (value start : ℕ) : ℕ → PrefixState → PrefixState
  | bound, s =>
    if pattern[s.matched]? = some value then
      if s.matched + 1 = pattern.length then ⟨0, []⟩ else ⟨s.matched + 1, s.starts ++ [start]⟩
    else if s.matched = 0 then s
    else
      match bound with
      | 0 => s
      | bound + 1 =>
        let next := failure.getD (s.matched - 1) 0
        advancePrefixState value start bound ⟨next, s.starts.drop (s.matched - next)⟩

def PrefixState.read (s : PrefixState) (token : ℕ × ℕ) : PrefixState :=
  advancePrefixState pattern failure token.1 token.2 s.matched s

end Prefix

def partialJsonEscapeAt : Text → Bool
  | ['\\'] => true
  | '\\' :: 'u' :: digits => decide (digits.length < 4) && digits.all fun c => (hexNibble c).isSome
  | _ => false

def partialJsonEscapeMatches (rest : Text) (expected : ℕ) : Bool :=
  partialJsonEscapeAt rest &&
    (rest.length == 1 || ((rest.drop 2).zip (lowerHex 4 expected)).all fun digits =>
      hexNibble digits.1 == hexNibble digits.2)

/-- The tokens before an incomplete escape, and where that starts. -/
def jsonPrefixTokens : ℕ → ℕ → Text → List (ℕ × ℕ) × Option (ℕ × Text)
  | _, _, [] => ([], none)
  | skip + 1, cursor, _ :: rest => jsonPrefixTokens skip (cursor + 1) rest
  | 0, cursor, c :: rest =>
    match jsonEscapeAt (c :: rest) with
    | some (unit, width) =>
      let (tokens, cut) := jsonPrefixTokens (width - 1) (cursor + 1) rest
      ((unit, cursor) :: tokens, cut)
    | none =>
      if partialJsonEscapeAt (c :: rest) then ([], some (cursor, c :: rest))
      else
        let (tokens, cut) := jsonPrefixTokens 0 (cursor + 1) rest
        ((utf16Units c).map (fun unit => (unit, cursor)) ++ tokens, cut)

/-- The earliest source whose match an incomplete escape may continue. -/
def earliestContinued (pattern : List ℕ) (s : PrefixState) (partialStart : ℕ) (rest : Text) :
    Option ℕ :=
  (((pattern.take (s.matched + 1)).zipIdx.filter fun entry =>
    partialJsonEscapeMatches rest entry.1).map fun entry =>
      (s.starts[entry.2]?).getD partialStart).min?

def jsonPrefixStart (text secret : Text) : Option ℕ :=
  let pattern := encodeUtf16 secret
  if pattern.isEmpty then none
  else
    let (tokens, cut) := jsonPrefixTokens 0 0 text
    let s := tokens.foldl (PrefixState.read pattern (Matching.kmpFailure pattern)) ⟨0, []⟩
    match cut.bind fun (start, rest) => earliestContinued pattern s start rest with
    | some start => some start
    | none => s.starts.head?

def partialPercentEscapeAt : Text → Bool
  | ['%'] => true
  | '%' :: c :: _ => (hexNibble c).isSome
  | _ => false

def partialPercentEscapeMatches (expected : ℕ) : Text → Bool
  | ['%'] => true
  | ['%', high] => hexNibble high == some (expected / 16)
  | '%' :: high :: low :: _ =>
    hexNibble high == some (expected / 16) && hexNibble low == some (expected % 16)
  | _ => false

def expectedByte (value : ℕ) : Option ℕ :=
  if value = percentLiteralPlusToken then some '+'.toNat
  else if value < 256 then some value else none

/-- Whether an incomplete escape continues the match or one of its borders. -/
def percentContinues (pattern failure : List ℕ) (rest : Text) : ℕ → ℕ → Bool
  | bound, state =>
    if ((pattern[state]?).bind expectedByte).any fun expected =>
        partialPercentEscapeMatches expected rest then true
    else if state = 0 then false
    else
      match bound with
      | 0 => false
      | bound + 1 => percentContinues pattern failure rest bound (failure.getD (state - 1) 0)

def percentPrefixScan (pattern failure : List ℕ) : ℕ → ℕ → PrefixState → Text → Option ℕ
  | _, _, s, [] => s.starts.head?
  | skip + 1, cursor, s, _ :: rest => percentPrefixScan pattern failure skip (cursor + 1) s rest
  | 0, cursor, s, c :: rest =>
    match percentEscapeAt (c :: rest) with
    | some value =>
      percentPrefixScan pattern failure 2 (cursor + 1)
        (s.read pattern failure (percentEscapeToken value, cursor)) rest
    | none =>
      if partialPercentEscapeAt (c :: rest) &&
          percentContinues pattern failure (c :: rest) s.matched s.matched then
        some (s.starts.head?.getD cursor)
      else
        percentPrefixScan pattern failure 0 (cursor + 1)
          (((percentCharValues c).map fun value => (value, cursor)).foldl
            (PrefixState.read pattern failure) s) rest

def percentPrefixStart (text secret : Text) : Option ℕ :=
  let pattern := percentPattern secret
  if pattern.isEmpty then none
  else percentPrefixScan pattern (Matching.kmpFailure pattern) 0 0 ⟨0, []⟩ text

def sourcePrefixStart (text secret : Text) : Option ℕ :=
  ((jsonPrefixStart text secret).toList ++ (percentPrefixStart text secret).toList).min?

/-- The longest end of the text that is a proper prefix of a variant. -/
def variantPrefixLen (text : Text) (variants : List Text) : ℕ :=
  (variants.map fun variant =>
    Matching.overlap variant (text.drop (text.length - (variant.length - 1)))).foldl max 0

section Events

variable (serde : SerdeJson) (secret : Option Text)

/-- `BTreeMap::insert` into the fields of an object. -/
def insertValue (key : Text) (value : Value) : List (Text × Value) → List (Text × Value)
  | [] => [(key, value)]
  | (other, old) :: rest =>
    if key = other then (key, value) :: rest
    else if key < other then (key, value) :: (other, old) :: rest
    else (other, old) :: insertValue key value rest

def hasKey (key : Text) (fields : List (Text × Value)) : Bool :=
  fields.any fun field => field.1 == key

/-- The first free name among `base-1`, `base-2` and so on; one of `fields.length + 1` is free. -/
def freeKey (base : Text) (fields : List (Text × Value)) : ℕ → ℕ → Text
  | 0, index => base ++ "-" ++ ofNat index
  | bound + 1, index =>
    let key := base ++ "-" ++ ofNat index
    if hasKey key fields then freeKey base fields bound (index + 1) else key

def keySuffix : Text :=
  match secret with
  | some (c :: rest) => redactedPlaceholder (c :: rest)
  | _ => ['?']

def placeKey (safeKey : Text) (fields : List (Text × Value)) : Text :=
  if hasKey safeKey fields then
    let base := safeKey ++ keySuffix secret
    if hasKey base fields then freeKey base fields fields.length 1 else base
  else safeKey

mutual

/-- The redacted value, and whether anything in it changed. -/
def redactJsonValue : Value → Value × Bool
  | .string text =>
    let safe := redactSensitive text secret
    (.string safe, safe != text)
  | .array values =>
    let (values, changed) := redactJsonValues values
    (.array values, changed)
  | .object fields =>
    let (fields, changed) := redactJsonFields [] fields
    (.object fields, changed)
  | value => (value, false)

def redactJsonValues : List Value → List Value × Bool
  | [] => ([], false)
  | value :: values =>
    let (value, here) := redactJsonValue value
    let (values, there) := redactJsonValues values
    (value :: values, here || there)

def redactJsonFields (placed : List (Text × Value)) :
    List (Text × Value) → List (Text × Value) × Bool
  | [] => (placed, false)
  | (key, value) :: fields =>
    let safeKey := redactSensitive key secret
    let (value, changed) := redactJsonValue value
    let (fields, there) :=
      redactJsonFields (insertValue (placeKey secret safeKey placed) value placed) fields
    (fields, safeKey != key || changed || hasKey safeKey placed || there)

end

def redactBodyWithSecret (text : Text) : Text :=
  match serde.fromStr text with
  | none => redactSensitive text secret
  | some value =>
    let (value, changed) := redactJsonValue secret value
    if changed then serde.toStr value else text

def redactProviderEvent (secret : Text) : ProviderEvent → ProviderEvent
  | .event (.textDelta text) => .event (.textDelta (redactBodyWithSecret serde secret text))
  | .event (.reasoningDelta text) => .event (.reasoningDelta (redactBodyWithSecret serde secret text))
  | .event (.toolCall callId toolName input) =>
    let safe := redactBodyWithSecret serde secret (input.serializedJson serde)
    let value := (serde.fromStr safe).getD (.string (redactedPlaceholder secret))
    .event (.toolCall (redactSensitive callId secret) (redactSensitive toolName secret)
      (.fromValue value))
  | .event .completed => .event .completed
  | .raw value =>
    let safe := redactBodyWithSecret serde secret (serde.toStr value)
    .raw ((serde.fromStr safe).getD (.string (redactedPlaceholder secret)))
  | .failed message => .failed (redactSensitive message secret)
  | .cancelled message => .cancelled (redactSensitive message secret)

end Events

structure StreamingSecretRedactor where
  secret : Option Text
  variants : List Text
  pending : Text
  deriving DecidableEq, Repr

def maxPendingRedactionBytes : ℕ := 64 * 1024

namespace StreamingSecretRedactor

def new (secret : Option Text) : StreamingSecretRedactor :=
  match secret with
  | some (c :: rest) => ⟨some (c :: rest), sensitiveVariants (c :: rest), []⟩
  | _ => ⟨none, [], []⟩

/-- How many characters at the end may belong to a credential that is still incomplete. -/
def holdLen (redacted : Text) (variants : List Text) (secret : Text) : ℕ :=
  match sourcePrefixStart redacted secret with
  | some start => max (variantPrefixLen redacted variants) (redacted.length - start)
  | none => variantPrefixLen redacted variants

/-- The text to show, and the redactor that holds the rest. -/
def redactText (r : StreamingSecretRedactor) (text : Text) : StreamingSecretRedactor × Text :=
  match r.secret with
  | none => (r, text)
  | some secret =>
    let redacted := redactSensitiveWithVariants (r.pending ++ text) r.variants (some secret)
    let split := redacted.length - holdLen redacted r.variants secret
    if maxPendingRedactionBytes < utf8Len (redacted.drop split) then
      ({ r with pending := [] }, redacted.take split ++ redactionMarker [] r.variants)
    else ({ r with pending := redacted.drop split }, redacted.take split)

def redactEvent (serde : SerdeJson) (r : StreamingSecretRedactor) :
    ProviderEvent → StreamingSecretRedactor × ProviderEvent
  | .event (.textDelta text) =>
    let (r, text) := r.redactText text
    (r, .event (.textDelta text))
  | .event (.reasoningDelta text) =>
    let (r, text) := r.redactText text
    (r, .event (.reasoningDelta text))
  | event =>
    match r.secret with
    | none => (r, event)
    | some secret => (r, redactProviderEvent serde secret event)

/-- A held prefix is masked once the provider has completed. -/
def finish (r : StreamingSecretRedactor) : StreamingSecretRedactor × Option Text :=
  ({ r with pending := [] },
    if r.pending.isEmpty then none else some (redactionMarker [] r.variants))

end StreamingSecretRedactor

end Siralos.Redaction
