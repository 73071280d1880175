import Siralos.Text

/-!
# Canonical content identity

Canonical JSON of the identity payloads and the domain-separated digest over it. The
hash itself is a parameter: nothing here depends on which function it is.
-/

set_option autoImplicit false

namespace Siralos.Identity

/-- `{:04x}` of a control character. -/
def escapeControl (c : Char) : Text := "\\u" ++ List.leftpad 4 '0' (Nat.toDigits 16 c.toNat)

def escapeChar (c : Char) : Text :=
  if c = '"' then ['\\', '"']
  else if c = '\\' then ['\\', '\\']
  else if c.toNat = 8 then ['\\', 'b']
  else if c.toNat = 12 then ['\\', 'f']
  else if c = '\n' then ['\\', 'n']
  else if c = '\r' then ['\\', 'r']
  else if c = '\t' then ['\\', 't']
  else if c.toNat < 0x20 then escapeControl c
  else [c]

def jsonEscape (value : Text) : Text := '"' :: value.flatMap escapeChar ++ ['"']

/-- An object's fields are in the ascending key order of the source's `BTreeMap`. -/
inductive CanonicalValue where
  | str (value : Text)
  | u64 (value : ℕ)
  | bool (value : Bool)
  | null
  | array (entries : List CanonicalValue)
  | object (fields : List (Text × CanonicalValue))
  deriving Repr

/-- `BTreeMap::insert`; UTF-8 orders its keys as their scalar values do. -/
def insertField (key : Text) (value : CanonicalValue) :
    List (Text × CanonicalValue) → List (Text × CanonicalValue)
  | [] => [(key, value)]
  | (other, old) :: rest =>
    if key = other then (key, value) :: rest
    else if key < other then (key, value) :: (other, old) :: rest
    else (other, old) :: insertField key value rest

def CanonicalValue.ofFields (fields : List (Text × CanonicalValue)) : CanonicalValue :=
  .object (fields.foldl (fun object field => insertField field.1 field.2 object) [])

def field (key : Text) (value : CanonicalValue) : Text × CanonicalValue := (key, value)

def separator (first : Bool) : Text := if first then [] else [',']

mutual

def toCanonical : CanonicalValue → Text
  | .str value => jsonEscape value
  | .u64 value => Text.ofNat value
  | .bool true => "true"
  | .bool false => "false"
  | .null => "null"
  | .array entries => '[' :: writeEntries true entries ++ [']']
  | .object fields => Char.ofNat 0x7B :: writeFields true fields ++ [Char.ofNat 0x7D]

def writeEntries : Bool → List CanonicalValue → Text
  | _, [] => []
  | first, entry :: rest => separator first ++ toCanonical entry ++ writeEntries false rest

def writeFields : Bool → List (Text × CanonicalValue) → Text
  | _, [] => []
  | first, (key, value) :: rest =>
    separator first ++ jsonEscape key ++ ':' :: toCanonical value ++ writeFields false rest

end

/-- The hashed bytes: artifact type, schema version, a NUL, then the payload. -/
def artifactPreimage (artifactType : Text) (schemaVersion : ℕ) (payload : Text) : Text :=
  "siralos:" ++ artifactType ++ ":v".toList ++ Text.ofNat schemaVersion ++ [Char.ofNat 0] ++
    payload

def artifactDigestHex (sha256Hex : Text → Text) (artifactType : Text) (schemaVersion : ℕ)
    (payload : Text) : Text :=
  sha256Hex (artifactPreimage artifactType schemaVersion payload)

def isIdTail (c : Char) : Bool := c.isAlphanum || c == '.' || c == '_' || c == '-'

/-- The id patterns of contracts, steps, bindings and plan elements; they differ in the byte
bound and in what the first character may be. -/
def idPatternOk (maxBytes : ℕ) (first : Char → Bool) : Text → Bool
  | [] => false
  | c :: rest => decide (Text.utf8Len (c :: rest) ≤ maxBytes) && first c && rest.all isIdTail

end Siralos.Identity
