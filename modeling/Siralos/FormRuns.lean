import Siralos.FormValid

/-!
# What a completed form holds

Every field of a completed form passed its rule, whatever the order of the keys. Only Enter puts a
named adapter on its own route.
-/

set_option autoImplicit false

namespace Siralos.ProviderForm

open Composition ProviderAddForm

structure Composable (data : ProviderAddData) : Prop where
  provider : isProviderId data.provider = true
  model : isModelId data.model = true
  endpoint : ∀ endpoint, data.endpoint = some endpoint → validateEndpointValue endpoint = .ok ()
  protocol : data.protocol ∈ protocolPickerItems
  modelDisplayName : ∀ name, data.modelDisplayName = some name →
    validateModelDisplayName name = .ok ()
  openai : Text.eqIgnoreAsciiCase data.provider "openai" = true →
    data.endpoint = none ∧ data.protocol = openaiCompletions
  anthropic : Text.eqIgnoreAsciiCase data.provider "anthropic" = true →
    data.endpoint = none ∧ data.protocol = anthropicMessages

def Composes (form : Option ProviderAddForm) : Prop :=
  ∀ f data, form = some f → f.completed = some data → Composable data

def IsDownPress (op : Op) : Prop :=
  ∃ event, op = .key event ∧ event.code = .down ∧ event.isPress = true

/-- The next step of the form completes it for the provider. -/
structure Finishing (f : ProviderAddForm) (provider : Text) : Prop where
  pending : f.completed = none
  field : f.field = .modelDisplayName
  valid : f.validation = .ok ()
  provider : f.provider = some provider
  model : f.model.isSome = true

/-- A named adapter that is about to be completed has no endpoint and its own protocol. -/
def KeepsAdapter (f : ProviderAddForm) : Prop :=
  ∀ provider protocol, Finishing f provider →
    adapterProtocol (Text.toAsciiLowercase provider) = some protocol →
      f.endpoint = none ∧ f.protocol.getD openaiCompletions = protocol

/-- Every press of Down in the run keeps the adapter. -/
def KeptBy (form : Option ProviderAddForm) : List Op → Prop
  | [] => True
  | op :: ops => (IsDownPress op → ∀ f, form = some f → KeepsAdapter f) ∧ KeptBy (step form op) ops

section

variable {f : ProviderAddForm}

/-- A named adapter has no endpoint and its own protocol. -/
def OwnRoute (data : ProviderAddData) : Prop :=
  ∀ protocol, adapterProtocol (Text.toAsciiLowercase data.provider) = some protocol →
    data.endpoint = none ∧ data.protocol = protocol

theorem composable_iff (data : ProviderAddData) :
    Composable data ↔ FieldsValid data ∧ OwnRoute data := by
  have hopenai : Text.toAsciiLowercase "openai".toList = "openai".toList := by decide
  have hanthropic : Text.toAsciiLowercase "anthropic".toList = "anthropic".toList := by decide
  constructor
  · intro h
    refine ⟨⟨h.provider, h.model, h.endpoint, h.protocol, h.modelDisplayName⟩, ?_⟩
    intro protocol hadapter
    rcases adapter_cases hadapter with ⟨hname, rfl⟩ | ⟨hname, rfl⟩
    · exact h.openai (by rw [Text.eqIgnoreAsciiCase, hname, hopenai, beq_self_eq_true])
    · exact h.anthropic (by rw [Text.eqIgnoreAsciiCase, hname, hanthropic, beq_self_eq_true])
  · rintro ⟨h, hroute⟩
    refine ⟨h.provider, h.model, h.endpoint, h.protocol, h.modelDisplayName, ?_, ?_⟩
    · intro hnamed
      rw [Text.eqIgnoreAsciiCase, beq_iff_eq, hopenai] at hnamed
      exact hroute openaiCompletions (by rw [hnamed]; decide)
    · intro hnamed
      rw [Text.eqIgnoreAsciiCase, beq_iff_eq, hanthropic] at hnamed
      exact hroute anthropicMessages (by rw [hnamed]; decide)

theorem enter_data_route (f : ProviderAddForm) (provider model : Text) :
    OwnRoute (f.enterData provider model) := by
  intro protocol hadapter
  simp only [enterData] at hadapter ⊢
  cases hown : adapterProtocol (Text.toAsciiLowercase provider) with
  | none =>
    rw [hown] at hadapter
    simp only [hown] at hadapter
    cases hadapter
  | some own =>
    rw [hown] at hadapter
    -- the name is in lower case already
    have hlower : Text.toAsciiLowercase (Text.toAsciiLowercase provider) =
        Text.toAsciiLowercase provider := by
      rcases adapter_cases hown with ⟨hname, -⟩ | ⟨hname, -⟩
      · rw [hname]
        decide
      · rw [hname]
        decide
    have hsame : adapterProtocol (Text.toAsciiLowercase (Text.toAsciiLowercase provider)) =
        some protocol := hadapter
    rw [hlower, hown] at hsame
    exact ⟨rfl, Option.some.inj hsame⟩

theorem submit_completed {advance : ProviderAddForm → ProviderAddForm}
    {data : ProviderAddForm → Text → Text → ProviderAddData} (hpending : f.completed = none)
    (hother : ∀ f : ProviderAddForm, f.field ≠ .modelDisplayName →
      (advance f).completed = f.completed)
    (hend : ∀ f : ProviderAddForm, f.field = .modelDisplayName → advance f = f.finish data)
    (done : ProviderAddData) :
    (f.submit advance).completed = some done ↔
      ∃ provider model, Finishing f provider ∧ f.model = some model ∧
        done = data { f.takeDisplayName with error := none } provider model := by
  rw [submit]
  cases hvalidation : f.validation with
  | error message =>
    constructor
    · intro hdone
      rw [show f.completed = some done from hdone] at hpending
      cases hpending
    · rintro ⟨provider, model, hfinishing, -, -⟩
      rw [hfinishing.valid] at hvalidation
      cases hvalidation
  | ok =>
    show (advance { f with error := none }).completed = some done ↔ _
    by_cases hfield : f.field = .modelDisplayName
    · rw [hend { f with error := none } hfield]
      rcases finish_cases { f with error := none } with
        ⟨message, hfinish, hmissing⟩ | ⟨provider, model, hprovider, hmodel, hfinish⟩
      · rw [hfinish]
        constructor
        · intro hdone
          rw [show f.completed = some done from hdone] at hpending
          cases hpending
        · rintro ⟨provider, model, hfinishing, hmodel, -⟩
          have hnone : f.model.isSome = false := hmissing provider hfinishing.provider
          rw [hmodel] at hnone
          cases hnone
      · have hsome : f.model = some model := hmodel
        rw [hfinish]
        constructor
        · intro hdone
          have hfinishing : Finishing f provider :=
            ⟨hpending, hfield, hvalidation, hprovider, by rw [hsome]; rfl⟩
          exact ⟨provider, model, hfinishing, hmodel, (Option.some.inj hdone).symm⟩
        · rintro ⟨other, last, hfinishing, hlast, hdone⟩
          have hother : f.provider = some provider := hprovider
          rw [hfinishing.provider] at hother
          rw [hsome] at hlast
          cases hother
          cases hlast
          exact congrArg some hdone.symm
    · constructor
      · intro hdone
        rw [hother { f with error := none } hfield] at hdone
        rw [show f.completed = some done from hdone] at hpending
        cases hpending
      · rintro ⟨provider, model, hfinishing, -, -⟩
        exact absurd hfinishing.field hfield

theorem enter_advance_pending (f : ProviderAddForm) (h : f.field ≠ .modelDisplayName) :
    f.enterAdvance.completed = f.completed := by
  rw [enterAdvance]
  cases hfield : f.field with
  | apiProtocol =>
    simp only [enterApiProtocol]
    split_ifs <;> rfl
  | modelDisplayName => exact absurd hfield h
  | _ => rfl

theorem down_advance_pending (f : ProviderAddForm) (h : f.field ≠ .modelDisplayName) :
    f.downAdvance.completed = f.completed := by
  rw [downAdvance]
  cases hfield : f.field with
  | modelDisplayName => exact absurd hfield h
  | _ => rfl

theorem enter_advance_end (f : ProviderAddForm) (h : f.field = .modelDisplayName) :
    f.enterAdvance = f.finish enterData := by
  rw [enterAdvance, h]

theorem down_advance_end (f : ProviderAddForm) (h : f.field = .modelDisplayName) :
    f.downAdvance = f.finish downData := by
  rw [downAdvance, h]

theorem set_picker_pending (f : ProviderAddForm) (picker : Picker) :
    (f.setPicker picker).completed = f.completed := by
  rw [setPicker]
  cases f.field <;> rfl

theorem enter_route (hpending : f.completed = none) {data : ProviderAddData}
    (hdata : f.pressEnter.completed = some data) : OwnRoute data := by
  rw [pressEnter] at hdata
  cases hopen : f.openPicker with
  | some picker =>
    rw [hopen] at hdata
    have hpick : (f.pick picker).completed = f.completed := by
      rw [pick]
      cases f.field <;> rfl
    rw [show (f.pick picker).completed = some data from hdata, hpending] at hpick
    cases hpick
  | none =>
    rw [hopen] at hdata
    obtain ⟨provider, model, -, -, rfl⟩ :=
      (submit_completed hpending enter_advance_pending enter_advance_end data).mp hdata
    exact enter_data_route _ provider model

/-- Down completes a form on the adapter's own route exactly where the form has it already. -/
theorem down_route_iff (hpending : f.completed = none) :
    (∀ data, f.pressDown.completed = some data → OwnRoute data) ↔ KeepsAdapter f := by
  have hsubmit := submit_completed hpending down_advance_pending down_advance_end
  constructor
  · intro h provider protocol hfinishing hadapter
    obtain ⟨model, hmodel⟩ := Option.isSome_iff_exists.mp hfinishing.model
    have hopen : f.openPicker = none := by
      rw [openPicker, hfinishing.field]
    have hfrozen : f.frozen = false := by
      rw [frozen, hfinishing.field]
      exact Bool.and_false _
    have hdown : f.pressDown = f.submit downAdvance := by
      rw [pressDown, hopen, hfrozen]
      rfl
    have hdone := (hsubmit _).mpr ⟨provider, model, hfinishing, hmodel, rfl⟩
    rw [← hdown] at hdone
    exact h _ hdone protocol hadapter
  · intro h data hdata
    rw [pressDown] at hdata
    cases hopen : f.openPicker with
    | some picker =>
      rw [hopen] at hdata
      have hset := set_picker_pending f picker.selectNext
      rw [show (f.setPicker picker.selectNext).completed = some data from hdata, hpending] at hset
      cases hset
    | none =>
      rw [hopen] at hdata
      by_cases hfrozen : f.frozen = true
      · simp only [if_pos hfrozen, hpending] at hdata
        cases hdata
      · simp only [if_neg hfrozen] at hdata
        obtain ⟨provider, model, hfinishing, -, rfl⟩ := (hsubmit data).mp hdata
        intro protocol hadapter
        exact h provider protocol hfinishing hadapter

theorem press_esc_pending {next : ProviderAddForm} (hnext : f.pressEsc = some next) :
    next.completed = f.completed := by
  rw [pressEsc] at hnext
  split at hnext
  · rw [← Option.some.inj hnext]
  · rw [← Option.some.inj hnext]
  · cases hnext

theorem press_up_pending (f : ProviderAddForm) : f.pressUp.completed = f.completed := by
  rw [pressUp]
  cases hopen : f.openPicker with
  | some picker => exact set_picker_pending f picker.selectPrev
  | none =>
    by_cases hfrozen : f.frozen = true
    · simp only [if_pos hfrozen]
    · simp only [if_neg hfrozen]
      cases hfield : f.field <;> rfl

theorem press_backspace_pending (f : ProviderAddForm) :
    f.pressBackspace.completed = f.completed := by
  rw [pressBackspace]
  split_ifs <;> rfl

theorem press_char_pending (f : ProviderAddForm) (c : Char) :
    (f.pressChar c).completed = f.completed := by
  rw [pressChar]
  split_ifs <;> rfl

theorem fetch_pending (f : ProviderAddForm) (result : Except Text (List Text)) :
    (f.applyFetchResult result).completed = f.completed := by
  cases result with
  | error message => rfl
  | ok models => cases models <;> rfl

theorem handle_key_route (hpending : f.completed = none) {key : KeyEvent} {next : ProviderAddForm}
    (hnext : f.handleKey key = some next) (hdown : ¬ (key.code = .down ∧ key.isPress = true))
    {data : ProviderAddData} (hdata : next.completed = some data) : OwnRoute data := by
  have hcontra : next.completed = f.completed → OwnRoute data := by
    intro hsame
    rw [hsame, hpending] at hdata
    cases hdata
  cases handle_key_cases hnext with
  | kept => exact hcontra rfl
  | esc pending hesc => exact hcontra (press_esc_pending hesc)
  | enter pending => exact enter_route hpending hdata
  | up pending => exact hcontra (press_up_pending f)
  | down pending code isPress => exact absurd ⟨code, isPress⟩ hdown
  | backspace pending => exact hcontra (press_backspace_pending f)
  | char pending c => exact hcontra (press_char_pending f c)

theorem handle_key_down (hpending : f.completed = none) {key : KeyEvent} (hcode : key.code = .down)
    (hpress : key.isPress = true) : f.handleKey key = some f.pressDown := by
  simp only [handleKey, hpending, hcode, hpress, Option.isSome_none, if_true, Bool.false_eq_true,
    if_false]

end

def RouteKept (form : Option ProviderAddForm) : Prop :=
  ∀ f data, form = some f → f.completed = some data → OwnRoute data

theorem step_done {f : ProviderAddForm} (hdone : f.completed.isSome = true) (op : Op) :
    ∃ next, step (some f) op = some next ∧ next.completed = f.completed := by
  cases op with
  | key event =>
    refine ⟨f, ?_, rfl⟩
    show f.handleKey event = some f
    rw [handleKey, if_pos hdone]
  | fetched result => exact ⟨_, rfl, fetch_pending f _⟩

theorem done_route_iff {f : ProviderAddForm} (hdone : f.completed.isSome = true) (op : Op) :
    RouteKept (step (some f) op) ↔ RouteKept (some f) := by
  obtain ⟨next, hnext, hsame⟩ := step_done hdone op
  rw [hnext]
  constructor
  · intro h g data hg hdata
    rw [← Option.some.inj hg, ← hsame] at hdata
    exact h next data rfl hdata
  · intro h g data hg hdata
    rw [← Option.some.inj hg, hsame] at hdata
    exact h f data rfl hdata

theorem pending_route_iff {f : ProviderAddForm} (hpending : f.completed = none) (op : Op) :
    RouteKept (step (some f) op) ↔ (IsDownPress op → KeepsAdapter f) := by
  by_cases hdown : IsDownPress op
  · obtain ⟨event, rfl, hcode, hpress⟩ := hdown
    have hnext : step (some f) (.key event) = some f.pressDown :=
      handle_key_down hpending hcode hpress
    rw [hnext]
    constructor
    · intro h _
      exact (down_route_iff hpending).mp fun data => h f.pressDown data rfl
    · intro hkeeps g data hg hdata
      rw [← Option.some.inj hg] at hdata
      exact (down_route_iff hpending).mpr (hkeeps ⟨event, rfl, hcode, hpress⟩) data hdata
  · refine ⟨fun _ h => absurd h hdown, fun _ => ?_⟩
    intro g data hg hdata
    cases op with
    | key event =>
      have hother : ¬ (event.code = .down ∧ event.isPress = true) := fun h =>
        hdown ⟨event, rfl, h.1, h.2⟩
      exact handle_key_route hpending hg hother hdata
    | fetched result =>
      rw [← Option.some.inj hg, fetch_pending, hpending] at hdata
      cases hdata

theorem step_route_iff (form : Option ProviderAddForm) (op : Op) :
    RouteKept (step form op) ↔
      RouteKept form ∧ (IsDownPress op → ∀ f, form = some f → KeepsAdapter f) := by
  cases form with
  | none =>
    have hclosed : step none op = none := by
      cases op <;> rfl
    rw [hclosed]
    exact ⟨fun h => ⟨h, fun _ f hf => by cases hf⟩, fun h => h.1⟩
  | some f =>
    by_cases hdone : f.completed.isSome = true
    · rw [done_route_iff hdone]
      refine ⟨fun h => ⟨h, fun _ g hg => ?_⟩, fun h => h.1⟩
      rw [← Option.some.inj hg]
      intro provider protocol hfinishing
      rw [hfinishing.pending] at hdone
      cases hdone
    · have hpending : f.completed = none := Option.not_isSome_iff_eq_none.mp hdone
      rw [pending_route_iff hpending]
      constructor
      · intro h
        refine ⟨fun g data hg hdata => ?_, fun hdown g hg => ?_⟩
        · rw [← Option.some.inj hg, hpending] at hdata
          cases hdata
        · rw [← Option.some.inj hg]
          exact h hdown
      · rintro ⟨-, h⟩ hdown
        exact h hdown f rfl

theorem run_route_iff (form : Option ProviderAddForm) (ops : List Op) :
    RouteKept (run form ops) ↔ RouteKept form ∧ KeptBy form ops := by
  induction ops generalizing form with
  | nil => exact ⟨fun h => ⟨h, trivial⟩, fun h => h.1⟩
  | cons op ops ih =>
    rw [show run form (op :: ops) = run (step form op) ops from rfl, ih, step_route_iff]
    exact and_assoc

theorem run_composes_iff (ops : List Op) :
    Composes (run (some ProviderAddForm.new) ops) ↔ KeptBy (some ProviderAddForm.new) ops := by
  have hvalid : ∀ f, run (some ProviderAddForm.new) ops = some f → FormValid f :=
    run_valid (fun f hf => by rw [← Option.some.inj hf]; exact new_valid) ops
  have hnew : RouteKept (some ProviderAddForm.new) := by
    intro f data hf hdata
    rw [← Option.some.inj hf] at hdata
    cases hdata
  have hroute := run_route_iff (some ProviderAddForm.new) ops
  constructor
  · intro h
    exact (hroute.mp fun f data hf hdata => ((composable_iff data).mp (h f data hf hdata)).2).2
  · intro h f data hf hdata
    exact (composable_iff data).mpr
      ⟨(hvalid f hf).completed data hdata, hroute.mpr ⟨hnew, h⟩ f data hf hdata⟩

end Siralos.ProviderForm
