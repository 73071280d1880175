import Siralos.ProviderForm

/-!
# Valid forms

Every field that a form was left with passed its rule, and so did what the pickers hold, whatever
the order of the keys and of the fetched models.
-/

set_option autoImplicit false

namespace Siralos.ProviderForm

open Composition ProviderAddForm

def isProviderChar (c : Char) : Bool := c.isLower || c.isDigit || c == '-' || c == '_'

theorem provider_char_size {c : Char} (h : isProviderChar c = true) : c.utf8Size = 1 := by
  rw [Char.utf8Size_eq_one_iff, UInt32.le_iff_toNat_le]
  simp only [isProviderChar, Char.isDigit, Bool.or_eq_true, Bool.and_eq_true, decide_eq_true_eq,
    beq_iff_eq, UInt32.le_iff_toNat_le] at h
  rcases h with ((hlower | ⟨-, hdigit⟩) | rfl) | rfl
  · have hbounds : (decide (c.val ≥ 'a'.val) && decide (c.val ≤ 'z'.val)) = true := hlower
    have hlast := of_decide_eq_true ((Bool.and_eq_true _ _).mp hbounds).2
    exact le_trans (UInt32.le_iff_toNat_le.mp hlast) (by decide)
  · exact le_trans hdigit (by decide)
  · decide
  · decide

theorem derived_char (c : Char) : isProviderChar (derivedChar c) = true := by
  rw [derivedChar]
  by_cases h : (c.isLower || c.isDigit || c == '-' || c == '_') = true
  · rw [if_pos h]
    exact h
  · rw [if_neg h]
    decide

theorem provider_chars_length {text : Text} (h : ∀ c ∈ text, isProviderChar c = true) :
    Text.utf8Len text = text.length := by
  induction text with
  | nil => rfl
  | cons c rest ih =>
    rw [Text.utf8Len_cons, provider_char_size (h c List.mem_cons_self),
      ih fun d hd => h d (List.mem_cons_of_mem _ hd), List.length_cons, Nat.add_comm]

theorem provider_id_of {text : Text} (hne : text ≠ []) (hlength : text.length ≤ 64)
    (h : ∀ c ∈ text, isProviderChar c = true) : isProviderId text = true := by
  rw [isProviderId, provider_chars_length h, Bool.and_eq_true, Bool.and_eq_true]
  refine ⟨⟨?_, decide_eq_true hlength⟩, List.all_eq_true.mpr h⟩
  cases text with
  | nil => exact absurd rfl hne
  | cons c rest => rfl

theorem derived_label_valid {label : Text} (h : label.isEmpty = false) :
    isProviderId (if 64 < Text.utf8Len (label.map derivedChar) then (label.map derivedChar).take 64
      else label.map derivedChar) = true := by
  have hchars : ∀ c ∈ label.map derivedChar, isProviderChar c = true := by
    intro c hc
    obtain ⟨d, -, rfl⟩ := List.mem_map.mp hc
    exact derived_char d
  have hlength := provider_chars_length hchars
  have hne : label.map derivedChar ≠ [] := by
    intro hnil
    rw [List.map_eq_nil_iff.mp hnil] at h
    cases h
  by_cases hlong : 64 < Text.utf8Len (label.map derivedChar)
  · rw [if_pos hlong]
    refine provider_id_of ?_ (List.length_take_le 64 _) fun c hc =>
      hchars c (List.mem_of_mem_take hc)
    intro hnil
    rw [List.take_eq_nil_iff] at hnil
    rcases hnil with hzero | hnil
    · cases hzero
    · exact hne hnil
  · rw [if_neg hlong]
    exact provider_id_of hne (by omega) hchars

theorem derived_valid (url : Text) (h : deriveProviderName url ≠ []) :
    isProviderId (deriveProviderName url) = true := by
  simp only [deriveProviderName] at h ⊢
  by_cases htrimmed : (Text.trim url).isEmpty = true
  · rw [if_pos htrimmed] at h
    exact absurd rfl h
  rw [if_neg htrimmed] at h ⊢
  by_cases hhost : (endpointHost (Text.trim url)).isEmpty = true
  · rw [if_pos hhost] at h
    exact absurd rfl h
  rw [if_neg hhost] at h ⊢
  by_cases hlabel : (hostLabel (endpointHost (Text.trim url))).isEmpty = true
  · rw [if_pos hlabel] at h
    exact absurd rfl h
  rw [if_neg hlabel]
  exact derived_label_valid (Bool.eq_false_iff.mpr hlabel)

structure FieldsValid (data : ProviderAddData) : Prop where
  provider : isProviderId data.provider = true
  model : isModelId data.model = true
  endpoint : ∀ endpoint, data.endpoint = some endpoint → validateEndpointValue endpoint = .ok ()
  protocol : data.protocol ∈ protocolPickerItems
  modelDisplayName : ∀ name, data.modelDisplayName = some name →
    validateModelDisplayName name = .ok ()

/-- Every field that was left passed its rule, and the pickers hold what does. -/
structure FormValid (f : ProviderAddForm) : Prop where
  provider : ∀ provider, f.provider = some provider → isProviderId provider = true
  model : ∀ model, f.model = some model → isModelId model = true
  endpoint : ∀ endpoint, f.endpoint = some endpoint → validateEndpointValue endpoint = .ok ()
  protocol : ∀ protocol, f.protocol = some protocol → protocol ∈ protocolPickerItems
  modelDisplayName : ∀ name, f.modelDisplayName = some name → validateModelDisplayName name = .ok ()
  protocolPicker : ∀ picker, f.protocolPicker = some picker →
    ∀ item ∈ picker.items, item ∈ protocolPickerItems
  modelPicker : ∀ picker, f.modelPicker = some picker → ∀ item ∈ picker.items, isModelId item = true
  completed : ∀ data, f.completed = some data → FieldsValid data

theorem new_valid : FormValid ProviderAddForm.new := by
  constructor <;> exact fun _ h => absurd h (by simp only [ProviderAddForm.new, reduceCtorEq,
    not_false_eq_true])

theorem entered_some {text kept : Text} (h : entered text = some kept) :
    text = kept ∧ text.isEmpty = false := by
  rw [entered] at h
  by_cases hempty : text.isEmpty = true
  · rw [if_pos hempty] at h
    cases h
  · rw [if_neg hempty] at h
    exact ⟨Option.some.inj h, Bool.eq_false_iff.mpr hempty⟩

theorem rule_ok {holds : Prop} [Decidable holds] {message : Text}
    (h : (if holds then .ok () else .error message) = Except.ok (ε := Text) ()) : holds := by
  by_cases hholds : holds
  · exact hholds
  · rw [if_neg hholds] at h
    cases h

theorem api_protocol_ok {value : Text} (h : validateApiProtocol value = .ok ()) :
    value ∈ protocolPickerItems := by
  have hnamed := rule_ok h
  simpa only [protocolPickerItems, List.mem_cons, List.not_mem_nil, or_false] using hnamed

theorem choices_items (protocol : Option Text) :
    (protocolChoices protocol).items = protocolPickerItems := by
  simp only [protocolChoices]
  split_ifs <;> rfl

theorem choice_mem (picker : Picker) : picker.choice ∈ picker.items := List.get_mem _ _

section

variable {f : ProviderAddForm}

theorem open_protocol_valid (h : FormValid f) : FormValid (openProtocolPicker f) where
  provider := h.provider
  model := h.model
  endpoint := h.endpoint
  protocol := h.protocol
  modelDisplayName := h.modelDisplayName
  modelPicker := h.modelPicker
  completed := h.completed
  protocolPicker := by
    intro picker hpicker item hitem
    rw [← Option.some.inj hpicker, choices_items] at hitem
    exact hitem

theorem pick_valid (h : FormValid f) {picker : Picker} (hopen : f.openPicker = some picker) :
    FormValid (f.pick picker) := by
  have hchoice := choice_mem picker
  rw [pick]
  rw [openPicker] at hopen
  cases hfield : f.field <;> rw [hfield] at hopen
  case apiProtocol =>
    exact {
      h with
      protocol := fun protocol hp => by
        rw [← Option.some.inj hp]
        exact h.protocolPicker picker hopen _ hchoice
      protocolPicker := fun _ hp => by cases hp }
  case model =>
    exact {
      h with
      model := fun model hm => by
        rw [← Option.some.inj hm]
        exact h.modelPicker picker hopen _ hchoice
      modelPicker := fun _ hp => by cases hp }
  all_goals cases hopen

theorem set_picker_valid (h : FormValid f) {picker moved : Picker}
    (hopen : f.openPicker = some picker) (hitems : moved.items = picker.items) :
    FormValid (f.setPicker moved) := by
  rw [setPicker]
  rw [openPicker] at hopen
  cases hfield : f.field <;> rw [hfield] at hopen
  case apiProtocol =>
    exact {
      h with
      protocolPicker := fun p hp item hitem => by
        rw [← Option.some.inj hp, hitems] at hitem
        exact h.protocolPicker picker hopen item hitem }
  case model =>
    exact {
      h with
      modelPicker := fun p hp item hitem => by
        rw [← Option.some.inj hp, hitems] at hitem
        exact h.modelPicker picker hopen item hitem }
  all_goals exact h

theorem derived_provider_valid {provider endpoint : Option Text}
    (h : ∀ p, provider = some p → isProviderId p = true) :
    ∀ p, derivedProvider provider endpoint = some p → isProviderId p = true := by
  intro p hp
  cases provider with
  | some own => exact h p hp
  | none =>
    cases endpoint with
    | none => cases hp
    | some endpoint =>
      obtain ⟨hderived, hne⟩ := entered_some hp
      rw [← hderived]
      refine derived_valid endpoint fun hnil => ?_
      rw [hnil] at hne
      cases hne

theorem entered_ok {rule : Text → Except Text Unit} {text kept : Text}
    (hrule : (if text.isEmpty = true then .ok () else rule text) = Except.ok (ε := Text) ())
    (h : entered text = some kept) : rule kept = .ok () := by
  obtain ⟨rfl, hne⟩ := entered_some h
  rwa [if_neg (by rw [hne]; decide)] at hrule

theorem display_name_valid (h : FormValid f) (hfield : f.field = .displayName)
    (hok : f.validation = .ok ()) : FormValid f.advanceDisplayName where
  __ := h
  provider := by
    intro provider hprovider
    rw [validation, hfield] at hok
    exact rule_ok (entered_ok hok hprovider)

theorem url_valid (h : FormValid f) (hfield : f.field = .url) (hok : f.validation = .ok ()) :
    FormValid f.advanceUrl where
  __ := h
  provider := derived_provider_valid h.provider
  endpoint := by
    intro endpoint hendpoint
    rw [validation, hfield] at hok
    exact entered_ok hok hendpoint

theorem api_key_valid (h : FormValid f) : FormValid f.advanceApiKey := by
  have hentered : FormValid
      { f with credentialEnv := normalizeCredentialInput f.input, field := .apiProtocol } :=
    { h with }
  exact { open_protocol_valid hentered with }

theorem model_valid (h : FormValid f) (hfield : f.field = .model) (hok : f.validation = .ok ()) :
    FormValid f.advanceModel where
  __ := h
  model := by
    intro model hmodel
    rw [validation, hfield] at hok
    rw [← Option.some.inj hmodel]
    exact rule_ok hok

theorem down_protocol_valid (h : FormValid f) (hfield : f.field = .apiProtocol)
    (hok : f.validation = .ok ()) : FormValid f.downApiProtocol where
  __ := h
  protocol := by
    intro protocol hprotocol
    rw [validation, hfield] at hok
    rw [← Option.some.inj hprotocol]
    exact api_protocol_ok hok
  protocolPicker := fun _ hp => by cases hp

theorem enter_protocol_valid (h : FormValid f) (hfield : f.field = .apiProtocol)
    (hok : f.validation = .ok ()) : FormValid f.enterApiProtocol := by
  have hdown := down_protocol_valid h hfield hok
  simp only [enterApiProtocol]
  split_ifs
  · exact { hdown with modelPicker := fun _ hp => by cases hp }
  · exact { hdown with }

theorem finish_cases (f : ProviderAddForm) :
    (∃ message, (∀ data, f.finish data = { f.takeDisplayName with error := some message }) ∧
        ∀ provider, f.provider = some provider → f.model.isSome = false) ∨
      ∃ provider model, f.provider = some provider ∧ f.model = some model ∧
        ∀ data, f.finish data =
          { f.takeDisplayName with completed := some (data f.takeDisplayName provider model) } := by
  simp only [finish]
  by_cases hmissing : (f.takeDisplayName.provider.isNone && !f.takeDisplayName.hasEndpoint) = true
  · refine Or.inl ⟨missingNameMessage, fun data => if_pos hmissing, fun provider hprovider => ?_⟩
    rw [show f.takeDisplayName.provider = some provider from hprovider] at hmissing
    cases hmissing
  simp only [if_neg hmissing]
  split
  case h_1 provider model hprovider hmodel =>
    exact Or.inr ⟨provider, model, hprovider, hmodel, fun data => rfl⟩
  case h_2 hneither =>
    refine Or.inl ⟨missingFieldsMessage, fun data => rfl, fun provider hprovider => ?_⟩
    cases hmodel : f.model with
    | none => rfl
    | some model => exact absurd hmodel (hneither provider model hprovider)

theorem finish_valid {data : ProviderAddForm → Text → Text → ProviderAddData} (h : FormValid f)
    (hfield : f.field = .modelDisplayName) (hok : f.validation = .ok ())
    (hdata : ∀ f provider model, FormValid f → isProviderId provider = true →
      isModelId model = true → FieldsValid (data f provider model)) :
    FormValid (f.finish data) := by
  have hnamed : FormValid f.takeDisplayName := {
    h with
    modelDisplayName := fun name hname => by
      rw [validation, hfield] at hok
      exact entered_ok hok hname }
  rcases finish_cases f with
    ⟨message, hfinish, -⟩ | ⟨provider, model, hprovider, hmodel, hfinish⟩
  · rw [hfinish]
    exact { hnamed with }
  · rw [hfinish]
    have hfields := hdata _ provider model hnamed (h.provider provider hprovider)
      (h.model model hmodel)
    exact {
      hnamed with
      completed := fun _ hcompleted => by
        rw [← Option.some.inj hcompleted]
        exact hfields }

theorem protocol_default (h : FormValid f) :
    f.protocol.getD openaiCompletions ∈ protocolPickerItems := by
  cases hprotocol : f.protocol with
  | none => exact List.mem_cons_self
  | some protocol => exact h.protocol protocol hprotocol

theorem down_data_valid (f : ProviderAddForm) (provider model : Text) (h : FormValid f)
    (hprovider : isProviderId provider = true) (hmodel : isModelId model = true) :
    FieldsValid (f.downData provider model) where
  provider := hprovider
  model := hmodel
  endpoint := h.endpoint
  protocol := protocol_default h
  modelDisplayName := h.modelDisplayName

theorem adapter_cases {provider protocol : Text} (h : adapterProtocol provider = some protocol) :
    provider = "openai".toList ∧ protocol = openaiCompletions ∨
      provider = "anthropic".toList ∧ protocol = anthropicMessages := by
  rw [adapterProtocol] at h
  by_cases hopenai : provider = "openai".toList
  · rw [if_pos hopenai] at h
    exact Or.inl ⟨hopenai, (Option.some.inj h).symm⟩
  rw [if_neg hopenai] at h
  by_cases hanthropic : provider = "anthropic".toList
  · rw [if_pos hanthropic] at h
    exact Or.inr ⟨hanthropic, (Option.some.inj h).symm⟩
  · rw [if_neg hanthropic] at h
    cases h

theorem enter_data_valid (f : ProviderAddForm) (provider model : Text) (h : FormValid f)
    (hprovider : isProviderId provider = true) (hmodel : isModelId model = true) :
    FieldsValid (f.enterData provider model) := by
  simp only [enterData]
  cases hadapter : adapterProtocol (Text.toAsciiLowercase provider) with
  | none => exact down_data_valid f provider model h hprovider hmodel
  | some protocol =>
    -- a named adapter has one of two names, and its own protocol
    have hnamed : isProviderId (Text.toAsciiLowercase provider) = true ∧
        protocol ∈ protocolPickerItems := by
      rcases adapter_cases hadapter with ⟨hname, rfl⟩ | ⟨hname, rfl⟩
      · rw [hname]
        exact ⟨by decide, by decide⟩
      · rw [hname]
        exact ⟨by decide, by decide⟩
    exact {
      provider := hnamed.1
      model := hmodel
      endpoint := fun _ he => by cases he
      protocol := hnamed.2
      modelDisplayName := h.modelDisplayName }

theorem enter_advance_valid (h : FormValid f) (hok : f.validation = .ok ()) :
    FormValid f.enterAdvance := by
  rw [enterAdvance]
  cases hfield : f.field with
  | displayName => exact display_name_valid h hfield hok
  | url => exact url_valid h hfield hok
  | apiKey => exact api_key_valid h
  | apiProtocol => exact enter_protocol_valid h hfield hok
  | model => exact model_valid h hfield hok
  | modelDisplayName => exact finish_valid h hfield hok enter_data_valid

theorem down_advance_valid (h : FormValid f) (hok : f.validation = .ok ()) :
    FormValid f.downAdvance := by
  rw [downAdvance]
  cases hfield : f.field with
  | displayName => exact display_name_valid h hfield hok
  | url => exact url_valid h hfield hok
  | apiKey => exact api_key_valid h
  | apiProtocol => exact down_protocol_valid h hfield hok
  | model => exact model_valid h hfield hok
  | modelDisplayName => exact finish_valid h hfield hok down_data_valid

theorem submit_valid {advance : ProviderAddForm → ProviderAddForm} (h : FormValid f)
    (hadvance : ∀ {f}, FormValid f → f.validation = .ok () → FormValid (advance f)) :
    FormValid (f.submit advance) := by
  rw [submit]
  cases hvalidation : f.validation with
  | error message => exact { h with }
  | ok =>
    have hclear : FormValid { f with error := none } := { h with }
    exact hadvance hclear hvalidation

theorem press_enter_valid (h : FormValid f) : FormValid f.pressEnter := by
  rw [pressEnter]
  cases hopen : f.openPicker with
  | some picker => exact pick_valid h hopen
  | none => exact submit_valid h enter_advance_valid

theorem press_down_valid (h : FormValid f) : FormValid f.pressDown := by
  rw [pressDown]
  cases hopen : f.openPicker with
  | some picker => exact set_picker_valid h hopen rfl
  | none =>
    by_cases hfrozen : f.frozen = true
    · simpa only [if_pos hfrozen] using h
    · simp only [if_neg hfrozen]
      exact submit_valid h down_advance_valid

theorem press_up_valid (h : FormValid f) : FormValid f.pressUp := by
  rw [pressUp]
  cases hopen : f.openPicker with
  | some picker => exact set_picker_valid h hopen rfl
  | none =>
    by_cases hfrozen : f.frozen = true
    · simpa only [if_pos hfrozen] using h
    · simp only [if_neg hfrozen]
      have hclosed : ∀ field input, FormValid
          { f with field := field, input := input, error := none, protocolPicker := none } := by
        intro field input
        exact { h with protocolPicker := fun _ hp => by cases hp }
      cases hfield : f.field with
      | displayName => exact h
      | model => exact open_protocol_valid { h with }
      | url => exact hclosed _ _
      | apiKey => exact hclosed _ _
      | apiProtocol => exact hclosed _ _
      | modelDisplayName => exact hclosed _ _

theorem fetch_valid (h : FormValid f) (result : Except Text (List ModelId)) :
    FormValid (f.applyFetchResult (result.map fun models => models.map Subtype.val)) := by
  have hnone : FormValid
      { f with fetchingModels := false, modelPicker := none, fetchNote := some fetchNoteMessage } :=
    { h with modelPicker := fun _ hp => by cases hp }
  cases result with
  | error message => exact hnone
  | ok models =>
    cases models with
    | nil => exact hnone
    | cons model models =>
      exact {
        h with
        modelPicker := fun picker hpicker item hitem => by
          rw [← Option.some.inj hpicker] at hitem
          have hfetched : item ∈ (model :: models).map Subtype.val := hitem
          obtain ⟨id, -, rfl⟩ := List.mem_map.mp hfetched
          exact id.property }

theorem press_esc_valid {next : ProviderAddForm} (h : FormValid f)
    (hnext : f.pressEsc = some next) : FormValid next := by
  rw [pressEsc] at hnext
  split at hnext
  · rw [← Option.some.inj hnext]
    exact { h with protocolPicker := fun _ hp => by cases hp }
  · rw [← Option.some.inj hnext]
    exact { h with modelPicker := fun _ hp => by cases hp }
  · cases hnext

theorem press_backspace_valid (h : FormValid f) : FormValid f.pressBackspace := by
  rw [pressBackspace]
  split_ifs
  · exact h
  · exact { h with }

theorem press_char_valid (h : FormValid f) (c : Char) : FormValid (f.pressChar c) := by
  rw [pressChar]
  split_ifs
  · exact h
  · exact { h with }
  · exact { h with }

/-- What a key can do to a form: nothing, or one of the presses while it is not completed. -/
inductive Handled (f : ProviderAddForm) (key : KeyEvent) : ProviderAddForm → Prop
  | kept : Handled f key f
  | esc {next : ProviderAddForm} (pending : f.completed = none) (h : f.pressEsc = some next) :
      Handled f key next
  | enter (pending : f.completed = none) : Handled f key f.pressEnter
  | up (pending : f.completed = none) : Handled f key f.pressUp
  | down (pending : f.completed = none) (code : key.code = .down) (isPress : key.isPress = true) :
      Handled f key f.pressDown
  | backspace (pending : f.completed = none) : Handled f key f.pressBackspace
  | char (pending : f.completed = none) (c : Char) : Handled f key (f.pressChar c)

theorem handle_key_cases {key : KeyEvent} {next : ProviderAddForm}
    (hnext : f.handleKey key = some next) : Handled f key next := by
  rw [handleKey] at hnext
  by_cases hdone : f.completed.isSome = true
  · rw [if_pos hdone] at hnext
    rw [← Option.some.inj hnext]
    exact .kept
  rw [if_neg hdone] at hnext
  have hpending : f.completed = none := Option.not_isSome_iff_eq_none.mp hdone
  -- where the event does not count, the form stays as it is
  have hpress : ∀ {counts : Bool} {pressed : ProviderAddForm},
      some (if counts = true then pressed else f) = some next →
        (counts = true → Handled f key pressed) → Handled f key next := by
    intro counts pressed hsome hhandled
    rw [← Option.some.inj hsome]
    by_cases hcounts : counts = true
    · rw [if_pos hcounts]
      exact hhandled hcounts
    · rw [if_neg hcounts]
      exact .kept
  cases hcode : key.code <;> simp only [hcode] at hnext
  case esc => exact .esc hpending hnext
  case enter => exact hpress hnext fun _ => .enter hpending
  case up => exact hpress hnext fun _ => .up hpending
  case down => exact hpress hnext fun hcounts => .down hpending hcode hcounts
  case backspace => exact hpress hnext fun _ => .backspace hpending
  case char c => exact hpress hnext fun _ => .char hpending c
  case other =>
    rw [← Option.some.inj hnext]
    exact .kept

theorem handle_key_valid {key : KeyEvent} {next : ProviderAddForm} (h : FormValid f)
    (hnext : f.handleKey key = some next) : FormValid next := by
  cases handle_key_cases hnext with
  | kept => exact h
  | esc pending hesc => exact press_esc_valid h hesc
  | enter pending => exact press_enter_valid h
  | up pending => exact press_up_valid h
  | down pending code isPress => exact press_down_valid h
  | backspace pending => exact press_backspace_valid h
  | char pending c => exact press_char_valid h c

theorem step_valid {form : Option ProviderAddForm} {next : ProviderAddForm} {op : Op}
    (h : ∀ f, form = some f → FormValid f) (hnext : step form op = some next) :
    FormValid next := by
  cases form with
  | none => cases op <;> cases hnext
  | some f =>
    cases op with
    | key event => exact handle_key_valid (h f rfl) hnext
    | fetched result =>
      rw [← Option.some.inj hnext]
      exact fetch_valid (h f rfl) result

theorem run_valid {form : Option ProviderAddForm} (h : ∀ f, form = some f → FormValid f)
    (ops : List Op) : ∀ f, run form ops = some f → FormValid f := by
  induction ops generalizing form with
  | nil => exact h
  | cons op ops ih => exact ih fun f hf => step_valid h hf

end

end Siralos.ProviderForm
