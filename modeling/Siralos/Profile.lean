import Siralos.Text
import Siralos.ToolGate

/-!
# Profiles

A profile is a named declarative configuration with a permission overlay. A record is valid within
its bounds, with every capability, module and skill named once.
-/

set_option autoImplicit false

namespace Siralos.Composition

open ToolGate

def maxProfileNameBytes : ℕ := 64
def maxProfileOverlayEntries : ℕ := 16
def maxProfileSkillEntries : ℕ := 128
def maxProfileSkillNameBytes : ℕ := 128
def maxProfileModuleEntries : ℕ := 16
def maxProfileModuleIdBytes : ℕ := 64
def maxProfileProviderBytes : ℕ := 64
def maxProfileModelBytes : ℕ := 256
def maxProfileCredentialBytes : ℕ := 70
def maxProfileCredentialKeyBytes : ℕ := 4096
def maxProfileEndpointBytes : ℕ := 4096
def maxProfileModelDisplayNameBytes : ℕ := 256
def maxCredentialEnvNameBytes : ℕ := 64

def nul : Char := Char.ofNat 0

def isModelIdChar (c : Char) : Bool :=
  c.isAlphanum || c == '.' || c == '_' || c == '-' || c == '/' || c == ':' || c == '@'

def isProviderId (value : Text) : Bool :=
  !value.isEmpty && decide (Text.utf8Len value ≤ maxProfileProviderBytes) &&
    value.all fun c => c.isLower || c.isDigit || c == '-' || c == '_'

def isModelId (value : Text) : Bool :=
  !value.isEmpty && decide (Text.utf8Len value ≤ maxProfileModelBytes) && !value.contains nul &&
    value.all isModelIdChar

def isCredentialEnvName (value : Text) : Bool :=
  !value.isEmpty && decide (Text.utf8Len value ≤ maxCredentialEnvNameBytes) &&
    value.all fun c => c.isUpper || c.isDigit || c == '_'

def hasHttpScheme (value : Text) : Bool :=
  Text.startsWith "https://" value || Text.startsWith "http://" value

def afterScheme : Text → Text
  | [] => []
  | c :: rest =>
    match Text.stripPrefix "://" (c :: rest) with
    | some after => after
    | none => afterScheme rest

/-- A decimal of any length whose value fits sixteen bits. -/
def isPort (port : Text) : Bool :=
  !port.isEmpty && port.all Char.isDigit &&
    decide (port.foldl (fun value c => value * 10 + (c.toNat - '0'.toNat)) 0 < 2 ^ 16)

/-- The part after the opening bracket of an address literal. -/
def isBracketed (literal : Text) : Bool :=
  let address := literal.takeWhile (· != ']')
  match literal.dropWhile (· != ']') with
  | [] => false
  | _ :: suffix =>
    if address.isEmpty || suffix.contains '[' then false
    else
      match suffix with
      | [] => true
      | ':' :: port => isPort port
      | _ => false

/-- A host name with an optional port after the last colon. -/
def isHostAndPort (authority : Text) : Bool :=
  if authority.contains ':' then
    let port := (authority.reverse.takeWhile (· != ':')).reverse
    let host := authority.take (authority.length - port.length - 1)
    !host.isEmpty && !host.any (['[', ']', ':'].contains ·) && isPort port
  else !authority.isEmpty && !authority.any (['[', ']', ':'].contains ·)

def isValidHttpEndpoint (value : Text) : Bool :=
  if !hasHttpScheme value || value.any Text.isControl || value.any Text.isWhitespace ||
      value.contains '#' then false
  else
    let authority := (afterScheme value).takeWhile fun c => !(c == '/' || c == '?')
    if authority.isEmpty || authority.contains '@' || authority.contains '\\' ||
        authority.contains '[' != authority.contains ']' then false
    else
      match authority with
      | '[' :: literal => isBracketed literal
      | _ => isHostAndPort authority

def isPrintable (value : Text) : Bool := value.all fun c => !Text.isControl c

structure ProfileOverlayEntry where
  capability : CapabilityId
  requested : PermissionRule
  deriving DecidableEq, Repr

structure ProfileRecord where
  name : Text
  overlay : List ProfileOverlayEntry := []
  modules : Option (List Text) := none
  skills : Option (List Text) := none
  provider : Option Text := none
  model : Option Text := none
  credential : Option Text := none
  endpoint : Option Text := none
  recordReplay : Bool := false
  replay : Bool := false
  modelDisplayName : Option Text := none
  deriving DecidableEq, Repr

def outside (value : Text) (maxBytes : ℕ) : Bool :=
  value.isEmpty || decide (maxBytes < Text.utf8Len value)

def optionally (check : Text → Except Text Unit) : Option Text → Except Text Unit
  | some value => check value
  | none => .ok ()

def boundMessage (what : Text) (bound : ℕ) (rest : Text) : Text :=
  "The ".toList ++ what ++ " exceeds the ".toList ++ Text.ofNat bound ++ rest

def validateOverlay (seen : List CapabilityId) : List ProfileOverlayEntry → Except Text Unit
  | [] => .ok ()
  | entry :: entries => do
    refuse (seen.contains entry.capability) "The profile requests a capability more than once."
    validateOverlay (seen ++ [entry.capability]) entries

def validateModuleIds (seen : List Text) : List Text → Except Text Unit
  | [] => .ok ()
  | id :: ids => do
    refuse (outside id maxProfileModuleIdBytes)
      ("A profile module id must be 1..=".toList ++ Text.ofNat maxProfileModuleIdBytes ++
        " bytes.".toList)
    refuse (id.any Text.isControl) "A profile module id must not contain NUL."
    refuse (seen.contains id) "The profile selects a module more than once."
    validateModuleIds (seen ++ [id]) ids

def validateModuleSelection : Option (List Text) → Except Text Unit
  | none => .ok ()
  | some modules => do
    refuse (decide (maxProfileModuleEntries < modules.length))
      (boundMessage "profile" maxProfileModuleEntries "-module bound.")
    validateModuleIds [] modules

def validateSkillNames (seen : List Text) : List Text → Except Text Unit
  | [] => .ok ()
  | name :: names => do
    refuse (outside name maxProfileSkillNameBytes || name.any Text.isControl)
      ("A profile skill name must be 1..=".toList ++ Text.ofNat maxProfileSkillNameBytes ++
        " printable bytes.".toList)
    refuse (seen.contains name) "A profile selects a skill more than once."
    validateSkillNames (seen ++ [name]) names

def validateSkillSelection : Option (List Text) → Except Text Unit
  | none => .ok ()
  | some skills => do
    refuse (decide (maxProfileSkillEntries < skills.length))
      (boundMessage "profile" maxProfileSkillEntries "-skill bound.")
    validateSkillNames [] skills

def validateProviderField (value : Text) : Except Text Unit := do
  refuse (outside value maxProfileProviderBytes)
    (boundMessage "provider" maxProfileProviderBytes "-byte bound or is empty.")
  refuse (value.contains nul) "A provider must not contain NUL."
  refuse (!isProviderId value) "A provider must match [a-z0-9_-]\x7b1,64\x7d."

def validateModelField (value : Text) : Except Text Unit := do
  refuse (outside value maxProfileModelBytes)
    (boundMessage "model" maxProfileModelBytes "-byte bound or is empty.")
  refuse (value.contains nul) "A model must not contain NUL."
  refuse (!isModelId value) "A model must match [a-zA-Z0-9._/:@-]\x7b1,256\x7d."

def validateCredentialField (value : Text) : Except Text Unit := do
  refuse (value.contains nul) "A credential must not contain NUL."
  match Text.stripPrefix "env:" value, Text.stripPrefix "key:" value with
  | some name, _ =>
    refuse (decide (maxProfileCredentialBytes < Text.utf8Len value))
      (boundMessage "credential" maxProfileCredentialBytes "-byte bound.")
    refuse (!isCredentialEnvName name)
      "A credential env name must match [A-Z0-9_]\x7b1,64\x7d after \"env:\"."
  | none, some inner =>
    refuse inner.isEmpty
      "A credential must be \"env:NAME\" or \"key:VALUE\" where VALUE is non-empty."
    refuse (decide (maxProfileCredentialKeyBytes < Text.utf8Len inner))
      (boundMessage "credential key value" maxProfileCredentialKeyBytes "-byte bound.")
  | none, none =>
    refuse (!isCredentialEnvName value)
      "A credential must be \"env:NAME\" or \"key:VALUE\" where NAME matches [A-Z0-9_]\x7b1,64\x7d."

def validateEndpointField (value : Text) : Except Text Unit := do
  refuse (outside value maxProfileEndpointBytes)
    (boundMessage "endpoint" maxProfileEndpointBytes "-byte bound or is empty.")
  refuse (!isValidHttpEndpoint value)
    "An endpoint must be a valid HTTP(S) URL with an authority and no userinfo, fragment, or controls."

def validateModelDisplayNameField (value : Text) : Except Text Unit := do
  refuse (decide (maxProfileModelDisplayNameBytes < Text.utf8Len value))
    (boundMessage "model display name" maxProfileModelDisplayNameBytes "-byte bound.")
  refuse (value.contains nul) "A model display name must not contain NUL."
  refuse (!isPrintable value) "A model display name must be printable."

def ProfileRecord.validate (record : ProfileRecord) : Except Text Unit := do
  refuse record.name.isEmpty "A profile requires a non-empty name."
  refuse (decide (maxProfileNameBytes < Text.utf8Len record.name))
    (boundMessage "profile name" maxProfileNameBytes "-byte bound.")
  refuse (record.name.any Text.isControl) "A profile name must not contain control characters."
  refuse (decide (maxProfileOverlayEntries < record.overlay.length))
    (boundMessage "profile" maxProfileOverlayEntries "-entry bound.")
  validateOverlay [] record.overlay
  validateModuleSelection record.modules
  validateSkillSelection record.skills
  optionally validateProviderField record.provider
  optionally validateModelField record.model
  optionally validateCredentialField record.credential
  optionally validateEndpointField record.endpoint
  optionally validateModelDisplayNameField record.modelDisplayName
  refuse (record.recordReplay && record.replay)
    "The profile cannot set both record-replay and replay; they are contradictory."

end Siralos.Composition
