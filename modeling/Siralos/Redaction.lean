import Mathlib.Data.List.Sort
import Siralos.Identity
import Siralos.Matching
import Siralos.Provider

/-!
# Redaction of a credential

The encodings a credential may be reflected in, the marker that replaces them, the three passes
over a text, and the redactor that holds back what a chunk of a stream may have begun.
-/

set_option autoImplicit false

namespace Siralos.Redaction

open Text

def utf8Bytes (c : Char) : List ℕ := (String.utf8EncodeChar c).map UInt8.toNat

def utf16Units (c : Char) : List ℕ :=
  if c.toNat < 0x10000 then [c.toNat]
  else [0xD800 + (c.toNat - 0x10000) / 0x400, 0xDC00 + (c.toNat - 0x10000) % 0x400]

def encodeUtf8 (text : Text) : List ℕ := text.flatMap utf8Bytes

def encodeUtf16 (text : Text) : List ℕ := text.flatMap utf16Units

def isAscii (text : Text) : Bool := text.all fun c => c.toNat < 128

/-- `{:04x}` and `{:02x}`. -/
def lowerHex (width n : ℕ) : Text := List.leftpad width '0' (Nat.toDigits 16 n)

def upperHex (width n : ℕ) : Text := (lowerHex width n).map Char.toUpper

def lowerEscape (unit : ℕ) : Text := "\\u" ++ lowerHex 4 unit

def upperEscape (unit : ℕ) : Text := "\\u" ++ upperHex 4 unit

def shortEscape (c : Char) : Option Text :=
  if c = '"' then some ['\\', '"']
  else if c = '\\' then some ['\\', '\\']
  else if c = '\n' then some ['\\', 'n']
  else if c = '\r' then some ['\\', 'r']
  else if c = '\t' then some ['\\', 't']
  else if c.toNat = 8 then some ['\\', 'b']
  else if c.toNat = 12 then some ['\\', 'f']
  else if isControl c then some ((utf16Units c).flatMap lowerEscape)
  else none

def maxVariantTotalBytes : ℕ := 1024 * 1024

def maxVariantCount : ℕ := 512

/-- One form per escapable character, until the variants are too many or too long. -/
def singleForms (count bytes : ℕ) (before : Text) : Text → List Text
  | [] => []
  | c :: rest =>
    if maxVariantCount ≤ count ∨ maxVariantTotalBytes ≤ bytes then []
    else
      match shortEscape c with
      | none => singleForms count bytes (before ++ [c]) rest
      | some replacement =>
        let mixed := before ++ replacement ++ rest
        mixed :: singleForms (count + 1) (bytes + utf8Len mixed) (before ++ [c]) rest

/-- Pieces of a secret, some with another form; the bits of the mask choose among these. -/
def masked (mask : ℕ) : ℕ → List (Text × Option Text) → Text
  | _, [] => []
  | bit, (literal, none) :: rest => literal ++ masked mask bit rest
  | bit, (literal, some form) :: rest =>
    (if mask.testBit bit then form else literal) ++ masked mask (bit + 1) rest

def maskedForms (pieces : List (Text × Option Text)) : List Text :=
  let chosen := pieces.countP fun piece => piece.2.isSome
  if chosen ≤ 8 then (List.range (2 ^ chosen)).map fun mask => masked mask 0 pieces else []

def escapedForms (secret : Text) : List Text :=
  maskedForms (secret.map fun c => ([c], shortEscape c))

def unicodeForms (secret : Text) : List Text :=
  maskedForms (secret.map fun c => ([c], some ((utf16Units c).flatMap lowerEscape)))

/-- Every choice of escaped characters with every choice of their letter case. -/
def unicodeCaseForms (secret : Text) : List Text :=
  if secret.length ≤ 4 then
    (List.range (2 ^ secret.length)).flatMap fun selected =>
      (List.range (2 ^ secret.length)).map fun caseMask =>
        masked selected 0 (secret.mapIdx fun index c =>
          ([c], some ((utf16Units c).flatMap
            (if caseMask.testBit index then lowerEscape else upperEscape))))
  else []

def unreserved (byte : ℕ) : Bool :=
  let c := Char.ofNat byte
  byte < 128 && (c.isAlphanum || c == '-' || c == '_' || c == '.' || c == '~')

def percentForm (hex : ℕ → Text) (byte : ℕ) : Text :=
  if unreserved byte then [Char.ofNat byte] else '%' :: hex byte

def percentUpper (secret : Text) : Text := (encodeUtf8 secret).flatMap (percentForm (upperHex 2))

def percentLower (secret : Text) : Text := (encodeUtf8 secret).flatMap (percentForm (lowerHex 2))

def formEncoded (secret : Text) : Text :=
  (encodeUtf8 secret).flatMap fun byte =>
    if byte = 0x20 then ['+'] else percentForm (upperHex 2) byte

/-- A bit for every byte, those included that have one form only. -/
def percentForms (secret : Text) : List Text :=
  maskedForms ((encodeUtf8 secret).map fun byte =>
    (percentForm (upperHex 2) byte, some (percentForm (lowerHex 2) byte)))

def dedup : List Text → List Text
  | [] => []
  | [t] => [t]
  | t :: u :: rest => if t = u then dedup (u :: rest) else t :: dedup (u :: rest)

def jsonEscaped (secret : Text) : Text := secret.flatMap Identity.escapeChar

def sensitiveVariants (secret : Text) : List Text :=
  let whole := [secret, jsonEscaped secret, (encodeUtf16 secret).flatMap lowerEscape,
    (encodeUtf16 secret).flatMap upperEscape]
  let variants := whole ++ singleForms whole.length (whole.map utf8Len).sum [] secret ++
    escapedForms secret ++ unicodeForms secret ++ unicodeCaseForms secret ++ percentForms secret ++
    [percentUpper secret, percentLower secret, formEncoded secret]
  dedup (variants.insertionSort fun a b => utf8Len b ≤ utf8Len a)

def occursIn (part text : Text) : Bool := text.tails.any (startsWith part)

def markerText (suffix : ℕ) : Text :=
  if suffix = 0 then "[REDACTED]" else "[REDACTED:" ++ ofNat suffix ++ "]"

/-- Some proper prefix of the variant ends the marker. -/
def endsWithProperPrefix (marker variant : Text) : Bool :=
  (List.range variant.length).any fun n => 0 < n && (variant.take n).isSuffixOf marker

def collides (marker variant : Text) : Bool :=
  !variant.isEmpty && (occursIn variant marker || occursIn marker variant ||
    endsWithProperPrefix marker variant)

def redactionMarker (text : Text) (variants : List Text) : Text :=
  (((List.range 32).map markerText).find? fun marker =>
    !occursIn marker text && !variants.any (collides marker)).getD []

def slice (text : Text) (start stop : ℕ) : Text := (text.take stop).drop start

/-- The node of the matcher for the text read so far: the longest of its ends that begins a
variant, at the end of the failure links. -/
def matcherStep (variants : List Text) (state : Text) (c : Char) : Text :=
  ((state ++ [c]).tails.find? fun node => variants.any (startsWith node)).getD []

def outputLen (variants : List Text) (state : Text) : ℕ :=
  ((state.tails.find? fun node => !node.isEmpty && variants.contains node).map List.length).getD 0

structure Replacing where
  output : Text
  copied : ℕ
  index : ℕ
  state : Text

def replaceStep (text : Text) (variants : List Text) (marker : Text) (s : Replacing) (c : Char) :
    Replacing :=
  let state := matcherStep variants s.state c
  let length := outputLen variants state
  let stop := s.index + 1
  if 0 < length then
    let start := stop - length
    let kept := if s.copied ≤ start then slice text s.copied start else []
    { output := s.output ++ kept ++ marker, copied := stop, index := stop, state := state }
  else { s with index := stop, state := state }

def replaceVariantMatches (text : Text) (variants : List Text) (marker : Text) : Text :=
  if variants.all List.isEmpty then text
  else
    let s := text.foldl (replaceStep text variants marker) ⟨[], 0, 0, []⟩
    s.output ++ text.drop s.copied

structure RedactionToken where
  value : ℕ
  start : ℕ
  stop : ℕ
  deriving DecidableEq, Repr

def nonUtf16Token : ℕ := 0xFFFF

def percentLiteralPlusToken : ℕ := 0xFFFE

def hexNibble (c : Char) : Option ℕ :=
  if c.isDigit then some (c.toNat - '0'.toNat)
  else if 'a' ≤ c ∧ c ≤ 'f' then some (c.toNat - 'a'.toNat + 10)
  else if 'A' ≤ c ∧ c ≤ 'F' then some (c.toNat - 'A'.toNat + 10)
  else none

/-- `from_str_radix` of an unsigned integer takes a leading plus sign. -/
def fromStrRadix (digits : Text) : Option ℕ :=
  let body := if digits.head? = some '+' then digits.drop 1 else digits
  if body.isEmpty then none
  else body.foldlM (fun n c => (hexNibble c).map fun digit => n * 16 + digit) 0

def hexOf (width : ℕ) (text : Text) : Option ℕ :=
  if text.length < width then none else fromStrRadix (text.take width)

def shortEscapeValue (c : Char) : Option ℕ :=
  if c = '"' ∨ c = '\\' ∨ c = '/' then some c.toNat
  else if c = 'n' then some 10
  else if c = 'r' then some 13
  else if c = 't' then some 9
  else if c = 'b' then some 8
  else if c = 'f' then some 12
  else none

/-- The unit that an escape at the head stands for, and its width. -/
def jsonEscapeAt : Text → Option (ℕ × ℕ)
  | '\\' :: 'u' :: rest => (hexOf 4 rest).map fun unit => (unit, 6)
  | '\\' :: c :: _ => (shortEscapeValue c).map fun value => (value, 2)
  | _ => none

/-- `skip` characters belong to the token before. -/
def jsonTokens (patternIsAscii : Bool) : ℕ → ℕ → Text → List RedactionToken
  | _, _, [] => []
  | skip + 1, cursor, _ :: rest => jsonTokens patternIsAscii skip (cursor + 1) rest
  | 0, cursor, c :: rest =>
    match jsonEscapeAt (c :: rest) with
    | some (unit, width) =>
      ⟨if patternIsAscii && 255 < unit then nonUtf16Token else unit, cursor, cursor + width⟩ ::
        jsonTokens patternIsAscii (width - 1) (cursor + 1) rest
    | none =>
      (if patternIsAscii && 128 ≤ c.toNat then [⟨nonUtf16Token, cursor, cursor + 1⟩]
        else (utf16Units c).map fun unit => ⟨unit, cursor, cursor + 1⟩) ++
        jsonTokens patternIsAscii 0 (cursor + 1) rest

def percentEscapeAt : Text → Option ℕ
  | '%' :: rest => hexOf 2 rest
  | _ => none

/-- An escaped plus is not the plus that stands for a blank. -/
def percentEscapeToken (value : ℕ) : ℕ :=
  if value = '+'.toNat then percentLiteralPlusToken else value

def percentCharValues (c : Char) : List ℕ := if c = '+' then [0x20] else utf8Bytes c

def percentTokens : ℕ → ℕ → Text → List RedactionToken
  | _, _, [] => []
  | skip + 1, cursor, _ :: rest => percentTokens skip (cursor + 1) rest
  | 0, cursor, c :: rest =>
    match percentEscapeAt (c :: rest) with
    | some value =>
      ⟨percentEscapeToken value, cursor, cursor + 3⟩ :: percentTokens 2 (cursor + 1) rest
    | none =>
      (percentCharValues c).map (fun byte => ⟨byte, cursor, cursor + 1⟩) ++
        percentTokens 0 (cursor + 1) rest

def percentPattern (secret : Text) : List ℕ := (encodeUtf8 secret).map percentEscapeToken

/-- What is matched of the pattern, with the sources of the matched tokens. -/
structure TokenScan where
  output : Text
  copied : ℕ
  matched : ℕ
  starts : List ℕ
  deriving DecidableEq, Repr

section Tokens

variable (text : Text) (pattern : List ℕ) (failure : List ℕ) (marker : Text)

/-- The state after a fallback to the next border; `matched` is not zero. -/
def TokenScan.fallBack (failure : List ℕ) (s : TokenScan) : TokenScan :=
  let next := failure.getD (s.matched - 1) 0
  { s with matched := next, starts := s.starts.drop (s.matched - next) }

/-- The whole pattern is matched: its source is replaced, and the longest border is kept. -/
def TokenScan.replace (token : RedactionToken) (s : TokenScan) : TokenScan :=
  let start := s.starts.head?.getD token.start
  let kept := if s.copied ≤ start then slice text s.copied start else []
  TokenScan.fallBack failure { s with output := s.output ++ kept ++ marker, copied := token.stop }

/-- One token is evaluated again after each fallback, at most once for every matched token. -/
def scanToken (token : RedactionToken) : ℕ → TokenScan → TokenScan
  | bound, s =>
    if pattern[s.matched]? = some token.value then
      let grown := { s with matched := s.matched + 1, starts := s.starts ++ [token.start] }
      if grown.matched = pattern.length then grown.replace text failure marker token else grown
    else if s.matched = 0 then
      { s with output := s.output ++ slice text s.copied token.stop, copied := token.stop }
    else
      match bound with
      | 0 => s
      | bound + 1 => scanToken token bound (s.fallBack failure)

end Tokens

def redactTokenMatches (text : Text) (pattern : List ℕ) (tokens : List RedactionToken)
    (marker : Text) : Text :=
  if pattern.isEmpty ∨ tokens.isEmpty then text
  else
    let failure := Matching.kmpFailure pattern
    let s := tokens.foldl (fun s token => scanToken text pattern failure marker token s.matched s)
      ⟨[], 0, 0, []⟩
    s.output ++ text.drop s.copied

def redactEncodedJson (text secret marker : Text) : Text :=
  redactTokenMatches text (encodeUtf16 secret) (jsonTokens (isAscii secret) 0 0 text) marker

def redactEncodedPercent (text secret marker : Text) : Text :=
  redactTokenMatches text (percentPattern secret) (percentTokens 0 0 text) marker

def redactSensitiveWithVariants (text : Text) (variants : List Text) (secret : Option Text) :
    Text :=
  let marker := redactionMarker text variants
  let redacted := replaceVariantMatches text variants marker
  match secret with
  | some (c :: rest) =>
    redactEncodedPercent (redactEncodedJson redacted (c :: rest) marker) (c :: rest) marker
  | _ => redacted

def redactSensitive (text : Text) (secret : Option Text) : Text :=
  match secret with
  | some (c :: rest) => redactSensitiveWithVariants text (sensitiveVariants (c :: rest)) secret
  | _ => text

def redactedPlaceholder (secret : Text) : Text := redactionMarker [] (sensitiveVariants secret)

end Siralos.Redaction
