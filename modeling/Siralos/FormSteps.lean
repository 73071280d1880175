import Siralos.FormRuns

/-!
# The two copies of the step

Down is meant to take the step of Enter. They part at the end of the form, over a free protocol, and
while the models are fetched.
-/

set_option autoImplicit false

namespace Siralos.ProviderForm

open ProviderAddForm

/-- Where the two copies of the step agree, with no picker open. -/
def SameAdvance (f : ProviderAddForm) : Prop :=
  match f.field with
  | .displayName | .url | .apiKey => True
  | .apiProtocol => f.validation = .ok () → f.hasEndpoint = true →
      f.fetchingModels = true ∧ f.fetchNote = none ∧ f.modelPicker = none
  | .model => f.fetchingModels = true →
      ∃ message, f.validation = .error message ∧ f.error = some message
  | .modelDisplayName => f.validation = .ok () → f.model.isSome = true →
      ∀ provider protocol, f.provider = some provider →
        adapterProtocol (Text.toAsciiLowercase provider) = some protocol →
          Text.toAsciiLowercase provider = provider ∧ f.endpoint = none ∧
            f.protocol.getD openaiCompletions = protocol

def SameStep (f : ProviderAddForm) : Prop :=
  f.completed.isSome = true ∨ (f.openPicker = none ∧ SameAdvance f)

section

variable {f : ProviderAddForm}

theorem handle_key_enter (hpending : f.completed = none) :
    f.handleKey (press .enter) = some f.pressEnter := by
  simp only [handleKey, press, hpending, Option.isSome_none, if_true, Bool.false_eq_true, if_false]

/-- An open picker is moved by Down and closed by Enter. -/
theorem open_picker_differs {picker : Picker} (hopen : f.openPicker = some picker) :
    f.pressDown ≠ f.pressEnter := by
  have hdown : f.pressDown = f.setPicker picker.selectNext := by
    rw [pressDown, hopen]
  have henter : f.pressEnter = f.pick picker := by
    rw [pressEnter, hopen]
  rw [hdown, henter]
  intro hsame
  have hfields := congrArg ProviderAddForm.field hsame
  rw [openPicker] at hopen
  rw [setPicker, pick] at hfields
  cases hfield : f.field <;> simp only [hfield] at hopen hfields
  case apiProtocol => cases hfields
  case model => cases hfields
  all_goals cases hopen

theorem submit_same_iff :
    f.submit downAdvance = f.submit enterAdvance ↔
      (f.validation = .ok () →
        downAdvance { f with error := none } = enterAdvance { f with error := none }) := by
  rw [submit, submit]
  cases hvalidation : f.validation with
  | error message => exact ⟨fun _ h => (by cases h), fun _ => rfl⟩
  | ok => exact ⟨fun h _ => h, fun h => h rfl⟩

theorem protocol_same_iff (f : ProviderAddForm) :
    f.downApiProtocol = f.enterApiProtocol ↔
      (f.hasEndpoint = true →
        f.fetchingModels = true ∧ f.fetchNote = none ∧ f.modelPicker = none) := by
  have henter : f.enterApiProtocol =
      if f.hasEndpoint = true then
        { f.downApiProtocol with fetchingModels := true, fetchNote := none, modelPicker := none }
      else f.downApiProtocol := by
    have hmoved : ProviderAddForm.hasEndpoint
        { f with protocol := some f.trimmed, protocolPicker := none, field := .model } =
          f.hasEndpoint := rfl
    rw [enterApiProtocol, hmoved]
    by_cases hendpoint : f.hasEndpoint = true
    · rw [if_pos hendpoint, if_pos hendpoint]
      rfl
    · rw [if_neg hendpoint, if_neg hendpoint]
      rfl
  rw [henter]
  by_cases hendpoint : f.hasEndpoint = true
  · rw [if_pos hendpoint]
    constructor
    · intro h _
      exact ⟨congrArg ProviderAddForm.fetchingModels h, congrArg ProviderAddForm.fetchNote h,
        congrArg ProviderAddForm.modelPicker h⟩
    · intro h
      obtain ⟨hfetching, hnote, hpicker⟩ := h hendpoint
      simp only [downApiProtocol, hfetching, hnote, hpicker]
  · rw [if_neg hendpoint]
    exact ⟨fun _ h => absurd h hendpoint, fun _ => rfl⟩

theorem data_same_iff (f : ProviderAddForm) (provider model : Text) :
    f.downData provider model = f.enterData provider model ↔
      ∀ protocol, adapterProtocol (Text.toAsciiLowercase provider) = some protocol →
        Text.toAsciiLowercase provider = provider ∧ f.endpoint = none ∧
          f.protocol.getD openaiCompletions = protocol := by
  simp only [enterData]
  cases hadapter : adapterProtocol (Text.toAsciiLowercase provider) with
  | none => exact ⟨fun _ _ h => (nomatch h), fun _ => rfl⟩
  | some own =>
    constructor
    · intro h protocol hprotocol
      rw [← Option.some.inj hprotocol]
      exact ⟨(congrArg ProviderAddData.provider h).symm, congrArg ProviderAddData.endpoint h,
        congrArg ProviderAddData.protocol h⟩
    · intro h
      obtain ⟨hlower, hendpoint, hprotocol⟩ := h own rfl
      simp only [downData, hlower, hendpoint, hprotocol]

theorem finish_same_iff (f : ProviderAddForm) :
    f.finish downData = f.finish enterData ↔
      (f.model.isSome = true → ∀ provider protocol, f.provider = some provider →
        adapterProtocol (Text.toAsciiLowercase provider) = some protocol →
          Text.toAsciiLowercase provider = provider ∧ f.endpoint = none ∧
            f.protocol.getD openaiCompletions = protocol) := by
  rcases finish_cases f with
    ⟨message, hfinish, hmissing⟩ | ⟨provider, model, hprovider, hmodel, hfinish⟩
  · rw [hfinish, hfinish]
    refine ⟨fun _ hmodel provider _ hprovider => ?_, fun _ => rfl⟩
    rw [hmissing provider hprovider] at hmodel
    cases hmodel
  · rw [hfinish, hfinish]
    have hdata := data_same_iff f.takeDisplayName provider model
    constructor
    · intro h _ other protocol hother hadapter
      rw [hprovider] at hother
      cases hother
      exact hdata.mp (Option.some.inj (congrArg ProviderAddForm.completed h)) protocol hadapter
    · intro h
      rw [hdata.mpr fun protocol hadapter =>
        h (by rw [hmodel]; rfl) provider protocol hprovider hadapter]

theorem down_same_iff (f : ProviderAddForm) :
    f.handleKey (press .down) = f.handleKey (press .enter) ↔ SameStep f := by
  by_cases hdone : f.completed.isSome = true
  · rw [handleKey, handleKey, if_pos hdone, if_pos hdone]
    exact ⟨fun _ => Or.inl hdone, fun _ => rfl⟩
  have hpending : f.completed = none := Option.not_isSome_iff_eq_none.mp hdone
  rw [handle_key_down hpending rfl rfl, handle_key_enter hpending, Option.some.injEq, SameStep,
    or_iff_right hdone]
  cases hopen : f.openPicker with
  | some picker => exact ⟨fun h => absurd h (open_picker_differs hopen), fun h => by cases h.1⟩
  | none =>
    have henter : f.pressEnter = f.submit enterAdvance := by
      rw [pressEnter, hopen]
    have hdown : f.pressDown = if f.frozen = true then f else f.submit downAdvance := by
      rw [pressDown, hopen]
    have hmoves : f.field ≠ .model → f.pressDown = f.submit downAdvance := by
      intro hne
      rw [hdown, frozen, beq_eq_false_iff_ne.mpr hne, Bool.and_false, if_neg Bool.false_ne_true]
    rw [henter, SameAdvance]
    refine Iff.trans ?_ (and_iff_right rfl).symm
    cases hfield : f.field with
    | model =>
      rw [hdown, frozen, hfield, beq_self_eq_true, Bool.and_true]
      by_cases hfetching : f.fetchingModels = true
      · rw [if_pos hfetching, submit]
        cases hvalidation : f.validation with
        | error message =>
          constructor
          · intro h _
            exact ⟨message, rfl, congrArg ProviderAddForm.error h⟩
          · intro h
            obtain ⟨shown, hshown, herror⟩ := h hfetching
            cases hshown
            show f = { f with error := some message }
            rw [← herror]
        | ok =>
          constructor
          · intro h
            have hnext : (enterAdvance { f with error := none }).field = .modelDisplayName := by
              simp only [enterAdvance, hfield, advanceModel]
            rw [← show f = enterAdvance { f with error := none } from h, hfield] at hnext
            cases hnext
          · intro h
            obtain ⟨shown, hshown, -⟩ := h hfetching
            cases hshown
      · rw [if_neg hfetching, submit_same_iff]
        refine ⟨fun _ h => absurd h hfetching, fun _ _ => ?_⟩
        simp only [downAdvance, enterAdvance, hfield]
    | apiProtocol =>
      rw [hmoves (by rw [hfield]; decide), submit_same_iff]
      simp only [downAdvance, enterAdvance, hfield, protocol_same_iff]
      exact Iff.rfl
    | modelDisplayName =>
      rw [hmoves (by rw [hfield]; decide), submit_same_iff]
      simp only [downAdvance, enterAdvance, hfield, finish_same_iff]
    | _ =>
      rw [hmoves (by rw [hfield]; decide), submit_same_iff]
      simp only [downAdvance, enterAdvance, hfield, implies_true]

end

/-- A completed form is composable exactly where no press of Down completes a named adapter on a
route of its own making, and Down is Enter exactly where the copies of the step agree. -/
theorem provider_form_iff (ops : List Op) (f : ProviderAddForm) :
    (Composes (run (some ProviderAddForm.new) ops) ↔ KeptBy (some ProviderAddForm.new) ops) ∧
      (f.handleKey (press .down) = f.handleKey (press .enter) ↔ SameStep f) :=
  ⟨run_composes_iff ops, down_same_iff f⟩

def typed (text : Text) : List Op := text.map fun c => .key (press (.char c))

/-- The keys of a form for a named adapter, with Down at the last field. -/
def namedByDown : List Op :=
  typed "openai" ++ [Op.key (press .enter)] ++ typed "http://a" ++
    [Op.key (press .enter), .key (press .enter), .key (press .enter)] ++
    typed "m" ++ [Op.key (press .enter), .key (press .down)]

theorem named_by_down_completed :
    (run (some ProviderAddForm.new) namedByDown).bind ProviderAddForm.completed =
      some ⟨"openai", "m", none, some "http://a", openaiCompletions, none⟩ := by
  decide

theorem provider_form_fails :
    ¬ ((∀ ops, Composes (run (some ProviderAddForm.new) ops)) ∧
      ∀ f : ProviderAddForm, f.openPicker = none →
        f.handleKey (press .down) = f.handleKey (press .enter)) := by
  rintro ⟨h, -⟩
  obtain ⟨f, hf, hdata⟩ := Option.bind_eq_some_iff.mp named_by_down_completed
  have hopenai := (h namedByDown f _ hf hdata).openai (by decide)
  cases hopenai.1

end Siralos.ProviderForm
