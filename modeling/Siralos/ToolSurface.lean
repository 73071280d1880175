import Siralos.JsonText
import Siralos.ToolGate
import Mathlib.Data.Char
import Mathlib.Data.List.Lex
import Mathlib.Order.Lattice

/-!
# The projected tool surface

Registered tools are shown, gated or hidden; what is not hidden is requested, approved and
fingerprinted. The canonical value of a schema has natural numbers only, so every other number is
fingerprinted as the string of its text.
-/

set_option autoImplicit false

namespace Siralos.ToolSurface

open Json Provider Identity ToolGate

inductive Visibility where
  | available
  | gated
  | hidden
  deriving DecidableEq, Repr

mutual

/-- Every object's keys ascend, as a `BTreeMap` keeps them. -/
def ordered : Value → Bool
  | .array values => orderedValues values
  | .object fields => decide (fields.Pairwise fun a b => a.1 < b.1) && orderedFields fields
  | _ => true

def orderedValues : List Value → Bool
  | [] => true
  | value :: values => ordered value && orderedValues values

def orderedFields : List (Text × Value) → Bool
  | [] => true
  | (_, value) :: fields => ordered value && orderedFields fields

end

structure RegisteredToolInfo where
  definition : ToolDefinition
  capability : CapabilityId
  schemaOrdered : ordered definition.inputSchema = true

structure ProjectedTool where
  name : Text
  visibility : Visibility
  description : Text
  inputSchema : Value

structure ToolCounts where
  available : ℕ
  gated : ℕ
  hidden : ℕ
  deriving DecidableEq, Repr

structure ToolProjection where
  fingerprint : Text
  tools : List ProjectedTool
  counts : ToolCounts
  requestTools : List ToolDefinition
  approvedNames : List Text

structure ToolProjectionInput where
  registeredTools : List RegisteredToolInfo
  policy : PermissionPolicy
  allowedToolNames : Option (List Text)

def permissionVisibility (capability : CapabilityId) (policy : PermissionPolicy) : Visibility :=
  match evaluatePermission capability policy with
  | .allow => .available
  | .ask _ => .gated
  | .deny _ => .hidden

/-- `i64::to_string`. -/
def intToString (n : ℤ) : Text := if n < 0 then '-' :: Text.ofNat n.natAbs else Text.ofNat n.natAbs

section Projection

variable (sha256Hex : Text → Text) (floatToString : UInt64 → Text)

mutual

def valueToCanonical : Value → CanonicalValue
  | .null => .null
  | .bool b => .bool b
  | .number (.posInt n) => .u64 n
  | .number (.negInt n) => .str (intToString n)
  | .number (.float bits) => .str (floatToString bits)
  | .string text => .str text
  | .array values => .array (valuesToCanonical values)
  | .object fields => .ofFields (fieldsToCanonical fields)

def valuesToCanonical : List Value → List CanonicalValue
  | [] => []
  | value :: values => valueToCanonical value :: valuesToCanonical values

def fieldsToCanonical : List (Text × Value) → List (Text × CanonicalValue)
  | [] => []
  | (key, value) :: fields => (key, valueToCanonical value) :: fieldsToCanonical fields

end

def visibilityOf (input : ToolProjectionInput) (info : RegisteredToolInfo) : Visibility :=
  match input.allowedToolNames with
  | some allowed =>
    if info.definition.name ∈ allowed then permissionVisibility info.capability input.policy
    else .hidden
  | none => permissionVisibility info.capability input.policy

def projectedTools (input : ToolProjectionInput) : List ProjectedTool :=
  input.registeredTools.map fun info =>
    { name := info.definition.name
      visibility := visibilityOf input info
      description := info.definition.description
      inputSchema := info.definition.inputSchema }

def visibleTools (input : ToolProjectionInput) : List ProjectedTool :=
  (projectedTools input).filter fun tool => tool.visibility ≠ .hidden

def toolPayload (tool : ProjectedTool) : CanonicalValue :=
  .ofFields [field "description" (.str tool.description),
    field "inputSchema" (valueToCanonical floatToString tool.inputSchema),
    field "name" (.str tool.name)]

/-- The canonical text that the fingerprint hashes. -/
def surfacePayload (visible : List ProjectedTool) : Text :=
  if visible.isEmpty then "[]" else toCanonical (.array (visible.map (toolPayload floatToString)))

def countOf (visibility : Visibility) (tools : List ProjectedTool) : ℕ :=
  (tools.filter fun tool => tool.visibility = visibility).length

def projectTools (input : ToolProjectionInput) : ToolProjection :=
  let projected := projectedTools input
  let visible := visibleTools input
  { fingerprint := sha256Hex (surfacePayload floatToString visible)
    tools := projected
    counts := ⟨countOf .available projected, countOf .gated projected, countOf .hidden projected⟩
    requestTools := visible.map fun tool => ⟨tool.name, tool.description, tool.inputSchema⟩
    approvedNames := (visible.map fun tool => tool.name).mergeSort fun a b => decide (a ≤ b) }

mutual

/-- Every number that is not a natural one as the string of its text. -/
def spelled : Value → Value
  | .number (.negInt n) => .string (intToString n)
  | .number (.float bits) => .string (floatToString bits)
  | .array values => .array (spelledValues values)
  | .object fields => .object (spelledFields fields)
  | value => value

def spelledValues : List Value → List Value
  | [] => []
  | value :: values => spelled value :: spelledValues values

def spelledFields : List (Text × Value) → List (Text × Value)
  | [] => []
  | (key, value) :: fields => (key, spelled value) :: spelledFields fields

end

def spelledTool (tool : ToolDefinition) : ToolDefinition :=
  { tool with inputSchema := spelled floatToString tool.inputSchema }

theorem insert_last (key : Text) (value : CanonicalValue) (fields : List (Text × CanonicalValue))
    (h : ∀ field ∈ fields, field.1 < key) :
    insertField key value fields = fields ++ [(key, value)] := by
  induction fields with
  | nil => rfl
  | cons field fields ih =>
    obtain ⟨other, old⟩ := field
    have hother : other < key := h (other, old) List.mem_cons_self
    rw [insertField, if_neg hother.ne', if_neg hother.not_gt,
      ih fun field hfield => h field (List.mem_cons_of_mem _ hfield), List.cons_append]

theorem fold_ascending (kept fields : List (Text × CanonicalValue))
    (h : (kept ++ fields).Pairwise fun a b => a.1 < b.1) :
    fields.foldl (fun object field => insertField field.1 field.2 object) kept = kept ++ fields := by
  induction fields generalizing kept with
  | nil => rw [List.foldl_nil, List.append_nil]
  | cons field fields ih =>
    have hlast : ∀ other ∈ kept, other.1 < field.1 := fun other hother =>
      (List.pairwise_append.mp h).2.2 other hother field List.mem_cons_self
    rw [List.foldl_cons, insert_last field.1 field.2 kept hlast]
    have hassoc : kept ++ field :: fields = kept ++ [field] ++ fields := by simp
    rw [hassoc] at h ⊢
    exact ih (kept ++ [field]) h

theorem canonical_keys (fields : List (Text × Value)) :
    (fieldsToCanonical floatToString fields).map Prod.fst = fields.map Prod.fst := by
  induction fields with
  | nil => rfl
  | cons field fields ih => rw [fieldsToCanonical, List.map_cons, List.map_cons, ih]

theorem canonical_ascending (fields : List (Text × Value))
    (h : fields.Pairwise fun a b => a.1 < b.1) :
    (fieldsToCanonical floatToString fields).Pairwise fun a b => a.1 < b.1 := by
  rw [← List.pairwise_map (f := Prod.fst) (R := fun a b => a < b)] at h ⊢
  rwa [canonical_keys]

mutual

theorem spelled_plain : ∀ value : Value, plain (spelled floatToString value) = true
  | .null => rfl
  | .bool _ => rfl
  | .number (.posInt _) => rfl
  | .number (.negInt _) => rfl
  | .number (.float _) => rfl
  | .string _ => rfl
  | .array values => spelled_values_plain values
  | .object fields => spelled_fields_plain fields

theorem spelled_values_plain :
    ∀ values : List Value, plainValues (spelledValues floatToString values) = true
  | [] => rfl
  | value :: values => by
    rw [spelledValues, plainValues, spelled_plain value, spelled_values_plain values]
    rfl

theorem spelled_fields_plain :
    ∀ fields : List (Text × Value), plainFields (spelledFields floatToString fields) = true
  | [] => rfl
  | (key, value) :: fields => by
    rw [spelledFields, plainFields, spelled_plain value, spelled_fields_plain fields]
    rfl

end

mutual

theorem canonical_spelled : ∀ value : Value, ordered value = true →
    valueToCanonical floatToString value = canonicalOf (spelled floatToString value)
  | .null, _ => rfl
  | .bool _, _ => rfl
  | .number (.posInt _), _ => rfl
  | .number (.negInt _), _ => rfl
  | .number (.float _), _ => rfl
  | .string _, _ => rfl
  | .array values, h => by
    rw [valueToCanonical, spelled, canonicalOf, canonical_values_spelled values h]
  | .object fields, h => by
    rw [ordered, Bool.and_eq_true, decide_eq_true_eq] at h
    have hfold := fold_ascending [] (fieldsToCanonical floatToString fields)
      (canonical_ascending floatToString fields h.1)
    rw [valueToCanonical, spelled, canonicalOf, CanonicalValue.ofFields, hfold, List.nil_append,
      canonical_fields_spelled fields h.2]

theorem canonical_values_spelled : ∀ values : List Value, orderedValues values = true →
    valuesToCanonical floatToString values = canonicalValues (spelledValues floatToString values)
  | [], _ => rfl
  | value :: values, h => by
    rw [orderedValues, Bool.and_eq_true] at h
    rw [valuesToCanonical, spelledValues, canonicalValues, canonical_spelled value h.1,
      canonical_values_spelled values h.2]

theorem canonical_fields_spelled : ∀ fields : List (Text × Value), orderedFields fields = true →
    fieldsToCanonical floatToString fields = canonicalFields (spelledFields floatToString fields)
  | [], _ => rfl
  | (key, value) :: fields, h => by
    rw [orderedFields, Bool.and_eq_true] at h
    rw [fieldsToCanonical, spelledFields, canonicalFields, canonical_spelled value h.1,
      canonical_fields_spelled fields h.2]

end

theorem canonical_eq_iff {a b : Value} (ha : ordered a = true) (hb : ordered b = true) :
    valueToCanonical floatToString a = valueToCanonical floatToString b ↔
      spelled floatToString a = spelled floatToString b := by
  rw [canonical_spelled floatToString a ha, canonical_spelled floatToString b hb]
  constructor
  · intro h
    exact canonical_of_inj (spelled_plain floatToString a) (spelled_plain floatToString b) h
  · intro h
    rw [h]

/-- A projected tool whose schema is one of a registered tool. -/
def Sound (tool : ProjectedTool) : Prop := ordered tool.inputSchema = true

theorem visible_sound (input : ToolProjectionInput) : ∀ tool ∈ visibleTools input, Sound tool := by
  intro tool htool
  obtain ⟨info, -, hinfo⟩ := List.mem_map.mp (List.mem_filter.mp htool).1
  rw [Sound, ← hinfo]
  exact info.schemaOrdered

def definitionOf (tool : ProjectedTool) : ToolDefinition :=
  ⟨tool.name, tool.description, tool.inputSchema⟩

theorem tool_payload (tool : ProjectedTool) : toolPayload floatToString tool =
    .object [("description", .str tool.description),
      ("inputSchema", valueToCanonical floatToString tool.inputSchema),
      ("name", .str tool.name)] := rfl

theorem payload_eq_iff {a b : ProjectedTool} (ha : Sound a) (hb : Sound b) :
    toolPayload floatToString a = toolPayload floatToString b ↔
      spelledTool floatToString (definitionOf a) = spelledTool floatToString (definitionOf b) := by
  rw [tool_payload, tool_payload]
  simp only [CanonicalValue.object.injEq, CanonicalValue.str.injEq, List.cons.injEq,
    Prod.mk.injEq, true_and, and_true, canonical_eq_iff floatToString ha hb, spelledTool,
    definitionOf, ToolDefinition.mk.injEq]
  constructor
  · rintro ⟨hdescription, hschema, hname⟩
    exact ⟨hname, hdescription, hschema⟩
  · rintro ⟨hname, hdescription, hschema⟩
    exact ⟨hdescription, hschema, hname⟩

theorem payloads_eq_iff {xs ys : List ProjectedTool} (hxs : ∀ tool ∈ xs, Sound tool)
    (hys : ∀ tool ∈ ys, Sound tool) :
    xs.map (toolPayload floatToString) = ys.map (toolPayload floatToString) ↔
      (xs.map definitionOf).map (spelledTool floatToString) =
        (ys.map definitionOf).map (spelledTool floatToString) := by
  induction xs generalizing ys with
  | nil => cases ys <;> simp
  | cons x xs ih =>
    cases ys with
    | nil => simp
    | cons y ys =>
      have hrest := ih (fun tool htool => hxs tool (List.mem_cons_of_mem _ htool))
        (show ∀ tool ∈ ys, Sound tool from fun tool htool =>
          hys tool (List.mem_cons_of_mem _ htool))
      simp only [List.map_cons, List.cons.injEq] at hrest ⊢
      rw [hrest, payload_eq_iff floatToString (hxs x List.mem_cons_self) (hys y List.mem_cons_self)]

theorem surface_payload (tools : List ProjectedTool) : surfacePayload floatToString tools =
    toCanonical (.array (tools.map (toolPayload floatToString))) := by
  cases tools with
  | nil => rfl
  | cons tool tools => rfl

theorem surface_eq_iff (first second : ToolProjectionInput) :
    surfacePayload floatToString (visibleTools first) =
        surfacePayload floatToString (visibleTools second) ↔
      (projectTools sha256Hex floatToString first).requestTools.map (spelledTool floatToString) =
        (projectTools sha256Hex floatToString second).requestTools.map
          (spelledTool floatToString) := by
  rw [surface_payload, surface_payload]
  have hpayloads := payloads_eq_iff floatToString (visible_sound first) (visible_sound second)
  constructor
  · intro h
    exact hpayloads.mp (CanonicalValue.array.inj (canonical_inj h))
  · intro h
    rw [hpayloads.mpr h]

theorem counts_sum (tools : List ProjectedTool) :
    countOf .available tools + countOf .gated tools + countOf .hidden tools = tools.length := by
  induction tools with
  | nil => rfl
  | cons tool tools ih =>
    simp only [countOf, List.filter_cons, List.length_cons] at ih ⊢
    cases tool.visibility with
    | available => simp; omega
    | gated => simp; omega
    | hidden => simp; omega

theorem visible_definitions (input : ToolProjectionInput) :
    (visibleTools input).map definitionOf =
      (input.registeredTools.filter fun info => visibilityOf input info ≠ .hidden).map
        RegisteredToolInfo.definition := by
  rw [visibleTools, projectedTools, List.filter_map, List.map_map]
  rfl

/-- No two surfaces that are hashed here share a digest. -/
def NoCollision (first second : ToolProjectionInput) : Prop :=
  sha256Hex (surfacePayload floatToString (visibleTools first)) =
      sha256Hex (surfacePayload floatToString (visibleTools second)) →
    surfacePayload floatToString (visibleTools first) =
      surfacePayload floatToString (visibleTools second)

/-- What is requested is what is not hidden, what is approved is what is requested, and every
registered tool is counted once. -/
structure Coupled (input : ToolProjectionInput) (projection : ToolProjection) : Prop where
  requested : projection.requestTools =
    (input.registeredTools.filter fun info => visibilityOf input info ≠ .hidden).map
      RegisteredToolInfo.definition
  approved : projection.approvedNames.Perm (projection.requestTools.map ToolDefinition.name)
  counted : projection.counts.available + projection.counts.gated + projection.counts.hidden =
    input.registeredTools.length

theorem project_coupled (input : ToolProjectionInput) :
    Coupled input (projectTools sha256Hex floatToString input) where
  requested := visible_definitions input
  approved := by
    have hnames : (projectTools sha256Hex floatToString input).requestTools.map ToolDefinition.name =
        (visibleTools input).map ProjectedTool.name := by
      rw [projectTools, List.map_map]
      rfl
    rw [hnames]
    exact List.mergeSort_perm _ _
  counted := by
    have hsum := counts_sum (projectedTools input)
    rwa [projectedTools, List.length_map] at hsum

/-- Fingerprints tell surfaces apart up to the numbers that are read as strings. -/
theorem surface_law (first second : ToolProjectionInput)
    (collisionFree : NoCollision sha256Hex floatToString first second) :
    ((projectTools sha256Hex floatToString first).fingerprint =
        (projectTools sha256Hex floatToString second).fingerprint ↔
      (projectTools sha256Hex floatToString first).requestTools.map (spelledTool floatToString) =
        (projectTools sha256Hex floatToString second).requestTools.map
          (spelledTool floatToString)) ∧
      Coupled first (projectTools sha256Hex floatToString first) ∧
      Coupled second (projectTools sha256Hex floatToString second) := by
  refine ⟨?_, project_coupled sha256Hex floatToString first,
    project_coupled sha256Hex floatToString second⟩
  rw [← surface_eq_iff sha256Hex floatToString first second]
  constructor
  · exact collisionFree
  · intro h
    exact congrArg sha256Hex h

end Projection

def scaleTool : RegisteredToolInfo where
  definition :=
    ⟨"scale", "Scales a picture.", .object [("default", .number (.float 0x3FF8000000000000)),
      ("minimum", .number (.negInt (-1))), ("type", .string "number")]⟩
  capability := "image.scale"
  schemaOrdered := rfl

def readTool : RegisteredToolInfo := ⟨⟨"read", "Reads a file.", .object []⟩, "file.read", rfl⟩

def gatedSurface : ToolProjectionInput where
  registeredTools := [scaleTool, readTool]
  policy := .fromRules [⟨"image.scale", .ask⟩, ⟨"file.read", .allow⟩]
  allowedToolNames := none

def narrowedSurface : ToolProjectionInput := { gatedSurface with allowedToolNames := some ["read"] }

/-- Agrees with the real text on the float of the sample. -/
def sampleFloat (bits : UInt64) : Text := if bits = 0x3FF8000000000000 then "1.5" else "0"

/-- Agrees with the real digest on the documents of the two surfaces. -/
def surfaceSha256 (text : Text) : Text :=
  if text = surfacePayload sampleFloat (visibleTools narrowedSurface) then
    "d733153c46a6c3ff777dc259d6a996c70d2f3a7d4bac2daa071915a866711acb"
  else "23065838fa6ab9bf4e64865a0046fe9a133e90400dec6be3b5edee25e2faff90"

theorem surface_law_sample :
    ((projectTools surfaceSha256 sampleFloat gatedSurface).fingerprint =
        (projectTools surfaceSha256 sampleFloat narrowedSurface).fingerprint ↔
      (projectTools surfaceSha256 sampleFloat gatedSurface).requestTools.map
          (spelledTool sampleFloat) =
        (projectTools surfaceSha256 sampleFloat narrowedSurface).requestTools.map
          (spelledTool sampleFloat)) ∧
      Coupled gatedSurface (projectTools surfaceSha256 sampleFloat gatedSurface) ∧
      Coupled narrowedSurface (projectTools surfaceSha256 sampleFloat narrowedSurface) :=
  surface_law surfaceSha256 sampleFloat gatedSurface narrowedSurface fun h =>
    absurd h (by decide +kernel)

def oneTool (schema : Value) (hordered : ordered schema = true) : ToolProjectionInput where
  registeredTools := [⟨⟨"t", "d", schema⟩, "a", hordered⟩]
  policy := .fromRules [⟨"a", .allow⟩]
  allowedToolNames := none

def numberSurface : ToolProjectionInput := oneTool (.number (.negInt (-1))) rfl

def stringSurface : ToolProjectionInput := oneTool (.string "-1") rfl

theorem number_shares_fingerprint :
    ¬ ∀ (sha256Hex : Text → Text) (floatToString : UInt64 → Text) (first second :
      ToolProjectionInput), Function.Injective sha256Hex →
        ((projectTools sha256Hex floatToString first).fingerprint =
            (projectTools sha256Hex floatToString second).fingerprint ↔
          (projectTools sha256Hex floatToString first).requestTools =
            (projectTools sha256Hex floatToString second).requestTools) := by
  intro hclaim
  have hsame := (hclaim id (fun _ => []) numberSurface stringSurface fun _ _ h => h).mp (by decide)
  have hfirst : (projectTools id (fun _ => []) numberSurface).requestTools =
      [⟨"t", "d", .number (.negInt (-1))⟩] := rfl
  have hsecond : (projectTools id (fun _ => []) stringSurface).requestTools =
      [⟨"t", "d", .string "-1"⟩] := rfl
  rw [hfirst, hsecond] at hsame
  cases hsame

end Siralos.ToolSurface
