import Siralos.Profile

/-!
# The provider form

Six fields filled in one after the other, with pickers for the protocol and for the fetched models.
Enter and Down each have their own copy of the step to the next field.
-/

set_option autoImplicit false

namespace Siralos.ProviderForm

open Composition

def maxInputBytes : ℕ := 64 * 1024

structure Picker where
  items : List Text
  selected : ℕ
  inRange : selected < items.length
  deriving DecidableEq

namespace Picker

def choice (p : Picker) : Text := p.items.get ⟨p.selected, p.inRange⟩

def selectPrev (p : Picker) : Picker where
  items := p.items
  selected := if p.selected = 0 then p.items.length - 1 else p.selected - 1
  inRange := by
    have hrange := p.inRange
    split_ifs <;> omega

def selectNext (p : Picker) : Picker where
  items := p.items
  selected := (p.selected + 1) % p.items.length
  inRange := Nat.mod_lt _ (Nat.zero_lt_of_lt p.inRange)

end Picker

inductive ProviderAddField where
  | displayName
  | url
  | apiKey
  | apiProtocol
  | model
  | modelDisplayName
  deriving DecidableEq, Repr

structure ProviderAddData where
  provider : Text
  model : Text
  credentialEnv : Option Text
  endpoint : Option Text
  protocol : Text
  modelDisplayName : Option Text
  deriving DecidableEq, Repr

structure ProviderAddForm where
  endpoint : Option Text
  credentialEnv : Option Text
  provider : Option Text
  protocol : Option Text
  model : Option Text
  modelDisplayName : Option Text
  field : ProviderAddField
  input : Text
  error : Option Text
  completed : Option ProviderAddData
  fetchingModels : Bool
  modelPicker : Option Picker
  fetchNote : Option Text
  protocolPicker : Option Picker
  deriving DecidableEq

def openaiCompletions : Text := "openai-completions"

def openaiResponses : Text := "openai-responses"

def anthropicMessages : Text := "anthropic-messages"

def protocolPickerItems : List Text := [openaiCompletions, openaiResponses, anthropicMessages]

def providerNameMessage : Text :=
  "Provider name must be lowercase letters, numbers, hyphens, or underscores ".toList ++
    "(e.g. openai, example-vendor)"

def apiProtocolMessage : Text :=
  "The api protocol must be \"openai-completions\", \"openai-responses\", or ".toList ++
    "\"anthropic-messages\"."

def displayNameBoundMessage : Text := "The model display name exceeds the 256-byte bound."

def displayNameNulMessage : Text := "A model display name must not contain NUL."

def displayNamePrintableMessage : Text := "A model display name must be printable."

def modelNameMessage : Text :=
  "Model name must be 1 to 256 characters: letters, numbers, or . _ - / : @ ".toList ++
    "(e.g. model-a, example/model-a)"

def endpointMessage : Text :=
  "Endpoint must be a valid URL starting with https:// or http:// ".toList ++
    "(e.g. https://api.openai.com/v1)"

def authorityMessage : Text :=
  "Endpoint must have a valid HTTP(S) authority without userinfo, fragment, or controls."

def fetchNoteMessage : Text :=
  "model list unavailable from this provider - enter the model manually"

def missingNameMessage : Text :=
  "a display name is required - enter one or provide a url so one can be derived"

def missingFieldsMessage : Text := "Internal error: missing prior fields"

def validateProviderName (value : Text) : Except Text Unit :=
  if isProviderId value then .ok () else .error providerNameMessage

def validateApiProtocol (value : Text) : Except Text Unit :=
  if value = openaiCompletions ∨ value = openaiResponses ∨ value = anthropicMessages then .ok ()
  else .error apiProtocolMessage

def validateModelDisplayName (value : Text) : Except Text Unit :=
  if value.isEmpty then .ok ()
  else if maxProfileModelDisplayNameBytes < Text.utf8Len value then .error displayNameBoundMessage
  else if value.contains nul then .error displayNameNulMessage
  else if isPrintable value then .ok ()
  else .error displayNamePrintableMessage

def validateModelName (value : Text) : Except Text Unit :=
  if isModelId value then .ok () else .error modelNameMessage

def validateEndpointValue (value : Text) : Except Text Unit :=
  if value.isEmpty || decide (maxProfileEndpointBytes < Text.utf8Len value) then
    .error endpointMessage
  else if value.contains nul then .error endpointMessage
  else if !hasHttpScheme value then .error endpointMessage
  else if value.contains ' ' then .error endpointMessage
  else if !isValidHttpEndpoint value then .error authorityMessage
  else .ok ()

/-- Explicit forms and bare variable names, and any other text as a literal key. -/
def normalizeCredentialInput (value : Text) : Option Text :=
  if value.isEmpty then none
  else if Text.startsWith "env:" value || Text.startsWith "key:" value then some value
  else if isCredentialEnvName value then some ("env:".toList ++ value)
  else some ("key:".toList ++ value)

def derivedChar (c : Char) : Char :=
  if c.isLower || c.isDigit || c == '-' || c == '_' then c else '-'

/-- The host, without a scheme, a path and a port. -/
def endpointHost (trimmed : Text) : Text :=
  let withoutScheme :=
    match Text.stripPrefix "https://" trimmed with
    | some rest => rest
    | none => (Text.stripPrefix "http://" trimmed).getD trimmed
  (withoutScheme.takeWhile (· != '/')).takeWhile (· != ':')

def hostLabel (host : Text) : Text :=
  let lower := Text.toAsciiLowercase host
  ((Text.stripPrefix "api." lower).getD lower).takeWhile (· != '.')

def deriveProviderName (url : Text) : Text :=
  let trimmed := Text.trim url
  if trimmed.isEmpty then []
  else
    let host := endpointHost trimmed
    if host.isEmpty then []
    else
      let label := hostLabel host
      if label.isEmpty then []
      else
        let out := label.map derivedChar
        -- every character of `out` is one byte
        if 64 < Text.utf8Len out then out.take 64 else out

namespace ProviderAddForm

def new : ProviderAddForm :=
  { endpoint := none, credentialEnv := none, provider := none, protocol := none, model := none,
    modelDisplayName := none, field := .displayName, input := [], error := none, completed := none,
    fetchingModels := false, modelPicker := none, fetchNote := none, protocolPicker := none }

def applyFetchResult (f : ProviderAddForm) (result : Except Text (List Text)) : ProviderAddForm :=
  match result with
  | .ok (item :: items) =>
    { f with
      fetchingModels := false
      modelPicker := some ⟨item :: items, 0, Nat.zero_lt_succ _⟩
      fetchNote := none }
  | .ok [] | .error _ =>
    { f with fetchingModels := false, modelPicker := none, fetchNote := some fetchNoteMessage }

/-- The picker of the protocols, at the protocol of the form. -/
def protocolChoices (protocol : Option Text) : Picker :=
  let position := protocolPickerItems.findIdx fun item => some item = protocol
  if h : position < protocolPickerItems.length then ⟨protocolPickerItems, position, h⟩
  else ⟨protocolPickerItems, 0, by decide⟩

def openProtocolPicker (f : ProviderAddForm) : ProviderAddForm :=
  { f with protocolPicker := some (protocolChoices f.protocol), input := [], error := none }

def openPicker (f : ProviderAddForm) : Option Picker :=
  match f.field with
  | .apiProtocol => f.protocolPicker
  | .model => f.modelPicker
  | _ => none

def setPicker (f : ProviderAddForm) (picker : Picker) : ProviderAddForm :=
  match f.field with
  | .apiProtocol => { f with protocolPicker := some picker }
  | .model => { f with modelPicker := some picker }
  | _ => f

/-- Whether the field waits for the fetched models. -/
def frozen (f : ProviderAddForm) : Bool := f.fetchingModels && f.field == .model

def trimmed (f : ProviderAddForm) : Text := Text.trim f.input

/-- The rule of the field; both copies of the step apply it alike. -/
def validation (f : ProviderAddForm) : Except Text Unit :=
  match f.field with
  | .displayName => if f.trimmed.isEmpty then .ok () else validateProviderName f.trimmed
  | .url => if f.trimmed.isEmpty then .ok () else validateEndpointValue f.trimmed
  | .apiKey => .ok ()
  | .apiProtocol => validateApiProtocol f.trimmed
  | .model => validateModelName f.trimmed
  | .modelDisplayName =>
    if f.trimmed.isEmpty then .ok () else validateModelDisplayName f.trimmed

def entered (text : Text) : Option Text := if text.isEmpty then none else some text

def advanceDisplayName (f : ProviderAddForm) : ProviderAddForm :=
  { f with provider := entered f.trimmed, field := .url, input := [] }

/-- The name derived from the endpoint takes the place of one that was not entered. -/
def derivedProvider (provider endpoint : Option Text) : Option Text :=
  match provider, endpoint with
  | none, some endpoint => entered (deriveProviderName endpoint)
  | provider, _ => provider

def advanceUrl (f : ProviderAddForm) : ProviderAddForm :=
  { f with
    endpoint := entered f.trimmed
    provider := derivedProvider f.provider (entered f.trimmed)
    field := .apiKey
    input := [] }

def advanceApiKey (f : ProviderAddForm) : ProviderAddForm :=
  { openProtocolPicker
      { f with credentialEnv := normalizeCredentialInput f.input, field := .apiProtocol } with
    fetchingModels := false }

def advanceModel (f : ProviderAddForm) : ProviderAddForm :=
  { f with model := some f.trimmed, field := .modelDisplayName, input := [] }

def hasEndpoint (f : ProviderAddForm) : Bool := f.endpoint.any fun endpoint => !endpoint.isEmpty

/-- Enter over the protocol as free text, with the fetch it starts. -/
def enterApiProtocol (f : ProviderAddForm) : ProviderAddForm :=
  let moved := { f with protocol := some f.trimmed, protocolPicker := none, field := .model }
  let moved :=
    if moved.hasEndpoint then
      { moved with fetchingModels := true, fetchNote := none, modelPicker := none }
    else moved
  { moved with input := [] }

def downApiProtocol (f : ProviderAddForm) : ProviderAddForm :=
  { f with protocol := some f.trimmed, protocolPicker := none, field := .model, input := [] }

/-- The protocol of an adapter that owns its route. -/
def adapterProtocol (namedProvider : Text) : Option Text :=
  if namedProvider = "openai".toList then some openaiCompletions
  else if namedProvider = "anthropic".toList then some anthropicMessages
  else none

def takeDisplayName (f : ProviderAddForm) : ProviderAddForm :=
  { f with modelDisplayName := entered f.trimmed }

/-- The end of the form, with the data that a copy of the step makes of a provider and a model. -/
def finish (f : ProviderAddForm) (data : ProviderAddForm → Text → Text → ProviderAddData) :
    ProviderAddForm :=
  let f := f.takeDisplayName
  if f.provider.isNone && !f.hasEndpoint then { f with error := some missingNameMessage }
  else
    match f.provider, f.model with
    | some provider, some model => { f with completed := some (data f provider model) }
    | _, _ => { f with error := some missingFieldsMessage }

/-- Enter's data: a named adapter keeps its own route. -/
def enterData (f : ProviderAddForm) (provider model : Text) : ProviderAddData :=
  let namedProvider := Text.toAsciiLowercase provider
  match adapterProtocol namedProvider with
  | some protocol =>
    { provider := namedProvider, model, credentialEnv := f.credentialEnv, endpoint := none,
      protocol, modelDisplayName := f.modelDisplayName }
  | none =>
    { provider, model, credentialEnv := f.credentialEnv, endpoint := f.endpoint,
      protocol := f.protocol.getD openaiCompletions, modelDisplayName := f.modelDisplayName }

def downData (f : ProviderAddForm) (provider model : Text) : ProviderAddData :=
  { provider, model, credentialEnv := f.credentialEnv, endpoint := f.endpoint,
    protocol := f.protocol.getD openaiCompletions, modelDisplayName := f.modelDisplayName }

def enterAdvance (f : ProviderAddForm) : ProviderAddForm :=
  match f.field with
  | .displayName => f.advanceDisplayName
  | .url => f.advanceUrl
  | .apiKey => f.advanceApiKey
  | .apiProtocol => f.enterApiProtocol
  | .model => f.advanceModel
  | .modelDisplayName => f.finish enterData

def downAdvance (f : ProviderAddForm) : ProviderAddForm :=
  match f.field with
  | .displayName => f.advanceDisplayName
  | .url => f.advanceUrl
  | .apiKey => f.advanceApiKey
  | .apiProtocol => f.downApiProtocol
  | .model => f.advanceModel
  | .modelDisplayName => f.finish downData

/-- Validate the field, then take the step or show the error. -/
def submit (f : ProviderAddForm) (advance : ProviderAddForm → ProviderAddForm) : ProviderAddForm :=
  match f.validation with
  | .error message => { f with error := some message }
  | .ok () => advance { f with error := none }

/-- Enter over an open picker takes the highlighted entry. -/
def pick (f : ProviderAddForm) (picker : Picker) : ProviderAddForm :=
  match f.field with
  | .apiProtocol =>
    { f with
      protocolPicker := none, protocol := some picker.choice, field := .model, input := []
      error := none }
  | .model =>
    { f with
      modelPicker := none, model := some picker.choice, field := .modelDisplayName, input := []
      error := none, fetchNote := none }
  | _ => f

def pressEnter (f : ProviderAddForm) : ProviderAddForm :=
  match f.openPicker with
  | some picker => f.pick picker
  | none => f.submit enterAdvance

def pressDown (f : ProviderAddForm) : ProviderAddForm :=
  match f.openPicker with
  | some picker => f.setPicker picker.selectNext
  | none => if f.frozen then f else f.submit downAdvance

def previousField : ProviderAddField → Option ProviderAddField
  | .displayName => none
  | .url => some .displayName
  | .apiKey => some .url
  | .apiProtocol => some .apiKey
  | .model => some .apiProtocol
  | .modelDisplayName => some .model

def restored (f : ProviderAddForm) : ProviderAddField → Text
  | .displayName => f.provider.getD []
  | .url => f.endpoint.getD []
  | .apiKey => f.credentialEnv.getD []
  | .apiProtocol => f.protocol.getD []
  | .model => f.model.getD []
  | .modelDisplayName => f.modelDisplayName.getD []

def pressUp (f : ProviderAddForm) : ProviderAddForm :=
  match f.openPicker with
  | some picker => f.setPicker picker.selectPrev
  | none =>
    if f.frozen then f
    else
      match previousField f.field with
      | none => f
      | some .apiProtocol => openProtocolPicker { f with field := .apiProtocol }
      | some previous =>
        { f with
          field := previous, input := f.restored previous, error := none, protocolPicker := none }

/-- Escape over an open picker falls back to free text, and else closes the form. -/
def pressEsc (f : ProviderAddForm) : Option ProviderAddForm :=
  match f.field, f.openPicker with
  | .apiProtocol, some _ => some { f with protocolPicker := none }
  | .model, some _ => some { f with modelPicker := none, fetchNote := some fetchNoteMessage }
  | _, _ => none

def pressBackspace (f : ProviderAddForm) : ProviderAddForm :=
  if f.openPicker.isSome || f.frozen then f
  else { f with input := f.input.dropLast, error := none }

def pressChar (f : ProviderAddForm) (c : Char) : ProviderAddForm :=
  if f.openPicker.isSome || f.frozen || Text.isControl c then f
  else if Text.utf8Len f.input + c.utf8Size ≤ maxInputBytes then
    { f with input := f.input ++ [c], error := none }
  else { f with error := none }

end ProviderAddForm

inductive KeyCode where
  | enter
  | up
  | down
  | esc
  | backspace
  | char (c : Char)
  | other
  deriving DecidableEq, Repr

/-- A key event: presses count, and releases and repeats only for Escape. -/
structure KeyEvent where
  code : KeyCode
  isPress : Bool
  control : Bool
  deriving DecidableEq, Repr

namespace ProviderAddForm

/-- The form behind a key, or nothing where it was closed. -/
def handleKey (f : ProviderAddForm) (key : KeyEvent) : Option ProviderAddForm :=
  if f.completed.isSome then some f
  else
    match key.code with
    | .esc => f.pressEsc
    | .enter => some (if key.isPress then f.pressEnter else f)
    | .up => some (if key.isPress then f.pressUp else f)
    | .down => some (if key.isPress then f.pressDown else f)
    | .backspace => some (if key.isPress then f.pressBackspace else f)
    | .char c => some (if key.isPress && !key.control then f.pressChar c else f)
    | .other => some f

end ProviderAddForm

def ModelId : Type := { id : Text // isModelId id = true }

inductive Op where
  | key (event : KeyEvent)
  | fetched (result : Except Text (List ModelId))

def step (form : Option ProviderAddForm) (op : Op) : Option ProviderAddForm :=
  match op with
  | .key event => form.bind fun f => f.handleKey event
  | .fetched result =>
    form.map fun f => f.applyFetchResult (result.map fun models => models.map Subtype.val)

def run (form : Option ProviderAddForm) (ops : List Op) : Option ProviderAddForm :=
  ops.foldl step form

def press (code : KeyCode) : KeyEvent := ⟨code, true, false⟩

end Siralos.ProviderForm
