import Mathlib.Data.Char
import Mathlib.Data.List.Lex
import Mathlib.Data.List.Sort
import Siralos.Canonical
import Siralos.Conversation
import Siralos.StableSort
import Siralos.ToolGate

/-!
# Context segments

Segments are ordered by stability and then by the UTF-16 order of their ids. The stable ones are
fingerprinted; the stable and the contextual ones make the system text.
-/

set_option autoImplicit false

namespace Siralos.Projection

open Identity ToolGate

inductive Stability where
  | stable
  | contextual
  | volatile
  deriving DecidableEq, Repr

def Stability.rank : Stability → ℕ
  | .stable => 0
  | .contextual => 1
  | .volatile => 2

structure SegmentInput where
  id : Text
  stability : Stability
  title : Text
  content : Text
  deriving DecidableEq, Repr

structure ContextSegment where
  id : Text
  stability : Stability
  title : Text
  content : Text
  bytes : ℕ
  estimatedTokens : ℕ
  deriving DecidableEq, Repr

structure ContextProjection where
  stableSegments : List ContextSegment
  contextualSegments : List ContextSegment
  volatileSegments : List ContextSegment
  stableFingerprint : Text
  stableBytes : ℕ
  stablePrefixBytes : ℕ
  totalBytes : ℕ
  estimatedTokens : ℕ
  deriving DecidableEq, Repr

def serializeSegment (segment : ContextSegment) : Text :=
  '[' :: segment.title ++ ']' :: '\n' :: segment.content

def blankLine : Text := ['\n', '\n']

def joinBlocks : List Text → Text
  | [] => []
  | [text] => text
  | text :: texts => text ++ blankLine ++ joinBlocks texts

def serializeSegments (segments : List ContextSegment) : Text :=
  joinBlocks (segments.map serializeSegment)

def buildSegment (input : SegmentInput) : ContextSegment where
  id := input.id
  stability := input.stability
  title := input.title
  content := input.content
  bytes := Text.utf8Len input.content
  estimatedTokens := estimateTokens input.content

/-- The order of UTF-16 code units; a text comes before its proper extensions. -/
def jsLe (left right : Text) : Bool := decide (encodeUtf16 left ≤ encodeUtf16 right)

def segmentLe (a b : SegmentInput) : Bool :=
  decide (a.stability.rank < b.stability.rank) ||
    (a.stability.rank == b.stability.rank && jsLe a.id b.id)

def segmentPayload (segment : ContextSegment) : CanonicalValue :=
  .ofFields [field "content" (.str segment.content), field "id" (.str segment.id),
    field "title" (.str segment.title)]

/-- The canonical text that the stable fingerprint hashes. -/
def stablePayload (segments : List ContextSegment) : Text :=
  toCanonical (.array (segments.map segmentPayload))

def ofStability (stability : Stability) (segments : List ContextSegment) : List ContextSegment :=
  segments.filter fun segment => segment.stability == stability

def projectSegments (sha256Hex : Text → Text) (inputs : List SegmentInput) : ContextProjection :=
  let built := (inputs.mergeSort segmentLe).map buildSegment
  let stable := ofStability .stable built
  let contextual := ofStability .contextual built
  { stableSegments := stable
    contextualSegments := contextual
    volatileSegments := ofStability .volatile built
    stableFingerprint := sha256Hex (stablePayload stable)
    stableBytes := Text.utf8Len (serializeSegments stable)
    stablePrefixBytes := Text.utf8Len (serializeSegments (stable ++ contextual))
    totalBytes := (built.map ContextSegment.bytes).sum
    estimatedTokens := (built.map ContextSegment.estimatedTokens).sum }

def serializePrefix (projection : ContextProjection) : Text :=
  serializeSegments (projection.stableSegments ++ projection.contextualSegments)

/-- Reads the character that a code unit, or a pair of surrogates, stands for. -/
def readUnits : List ℕ → Option (Char × List ℕ)
  | [] => none
  | unit :: rest =>
    if 0xD800 ≤ unit ∧ unit < 0xDC00 then
      rest.head?.map fun low =>
        (Char.ofNat (0x10000 + (unit - 0xD800) * 0x400 + (low - 0xDC00)), rest.tail)
    else some (Char.ofNat unit, rest)

def charUnits (c : Char) : List ℕ :=
  if c.toNat < 0x10000 then [c.toNat]
  else [0xD800 + (c.toNat - 0x10000) / 0x400, 0xDC00 + (c.toNat - 0x10000) % 0x400]

theorem char_bounds (c : Char) : c.toNat < 0xD800 ∨ 0xDFFF < c.toNat ∧ c.toNat < 0x110000 := by
  have hvalid := c.valid
  rcases hvalid with h | ⟨hlow, hhigh⟩
  · exact Or.inl h
  · exact Or.inr ⟨hlow, hhigh⟩

theorem read_units (c : Char) (rest : List ℕ) :
    readUnits (charUnits c ++ rest) = some (c, rest) := by
  have hbounds := char_bounds c
  unfold charUnits
  by_cases h : c.toNat < 0x10000
  · rw [if_pos h, List.singleton_append, readUnits, if_neg (by omega), Char.ofNat_toNat]
  · have hvalue : 0x10000 + (0xD800 + (c.toNat - 0x10000) / 0x400 - 0xD800) * 0x400 +
        (0xDC00 + (c.toNat - 0x10000) % 0x400 - 0xDC00) = c.toNat := by
      omega
    rw [if_neg h, List.cons_append, readUnits, if_pos (by omega)]
    show some (Char.ofNat (0x10000 + (0xD800 + (c.toNat - 0x10000) / 0x400 - 0xD800) * 0x400 +
      (0xDC00 + (c.toNat - 0x10000) % 0x400 - 0xDC00)), rest) = some (c, rest)
    rw [hvalue, Char.ofNat_toNat]

theorem encode_inj {a b : Text} (h : encodeUtf16 a = encodeUtf16 b) : a = b := by
  apply Coding.flat_map_inj (Coding.separable_of_read readUnits read_units) _ h
  intro c hc
  unfold charUnits at hc
  split at hc <;> cases hc

theorem js_antisymm {a b : Text} (hab : jsLe a b = true) (hba : jsLe b a = true) : a = b := by
  simp only [jsLe, decide_eq_true_eq] at hab hba
  exact encode_inj (le_antisymm hab hba)

theorem js_trans {a b c : Text} (hab : jsLe a b = true) (hbc : jsLe b c = true) :
    jsLe a c = true := by
  simp only [jsLe, decide_eq_true_eq] at hab hbc ⊢
  exact le_trans hab hbc

theorem js_total (a b : Text) : (jsLe a b || jsLe b a) = true := by
  simp only [jsLe, Bool.or_eq_true, decide_eq_true_eq]
  exact le_total _ _

def DistinctIds (inputs : List SegmentInput) : Prop :=
  ∀ stability, ((inputs.filter fun input => input.stability == stability).map
    SegmentInput.id).Nodup

theorem rank_inj {a b : Stability} (h : a.rank = b.rank) : a = b := by
  cases a <;> cases b <;> first | rfl | cases h

theorem segment_le_iff (a b : SegmentInput) : segmentLe a b = true ↔
    a.stability.rank < b.stability.rank ∨
      a.stability.rank = b.stability.rank ∧ jsLe a.id b.id = true := by
  simp [segmentLe]

theorem segment_trans (a b c : SegmentInput) (hab : segmentLe a b = true)
    (hbc : segmentLe b c = true) : segmentLe a c = true := by
  rw [segment_le_iff] at hab hbc ⊢
  rcases hab with hab | ⟨hab, hids⟩
  · rcases hbc with hbc | ⟨hbc, -⟩
    · exact Or.inl (by omega)
    · exact Or.inl (by omega)
  · rcases hbc with hbc | ⟨hbc, hids'⟩
    · exact Or.inl (by omega)
    · exact Or.inr ⟨hab.trans hbc, js_trans hids hids'⟩

theorem segment_total (a b : SegmentInput) : (segmentLe a b || segmentLe b a) = true := by
  rw [Bool.or_eq_true, segment_le_iff, segment_le_iff]
  rcases Nat.lt_trichotomy a.stability.rank b.stability.rank with h | h | h
  · exact Or.inl (Or.inl h)
  · rcases Bool.or_eq_true _ _ ▸ js_total a.id b.id with hids | hids
    · exact Or.inl (Or.inr ⟨h, hids⟩)
    · exact Or.inr (Or.inr ⟨h.symm, hids⟩)
  · exact Or.inr (Or.inl h)

theorem distinct_eq {inputs : List SegmentInput} (h : DistinctIds inputs) {a b : SegmentInput}
    (ha : a ∈ inputs) (hb : b ∈ inputs) (hstability : a.stability = b.stability)
    (hid : a.id = b.id) : a = b := by
  apply List.inj_on_of_nodup_map (h a.stability) _ _ hid
  · exact List.mem_filter.mpr ⟨ha, by simp⟩
  · exact List.mem_filter.mpr ⟨hb, by simp [hstability]⟩

theorem sort_perm {inputs others : List SegmentInput} (hperm : inputs.Perm others)
    (h : DistinctIds inputs) : inputs.mergeSort segmentLe = others.mergeSort segmentLe := by
  have hsorted := List.pairwise_mergeSort segment_trans segment_total
  apply List.Perm.eq_of_pairwise _ (hsorted inputs) (hsorted others)
  · exact (List.mergeSort_perm inputs _).trans (hperm.trans (List.mergeSort_perm others _).symm)
  · intro a b ha hb hab hba
    have hranks : a.stability.rank = b.stability.rank ∧ a.id = b.id := by
      rw [segment_le_iff] at hab hba
      rcases hab with hab | ⟨hrank, hab⟩
      · rcases hba with hba | ⟨hrank, -⟩
        · omega
        · omega
      · rcases hba with hba | ⟨-, hba⟩
        · omega
        · exact ⟨hrank, js_antisymm hab hba⟩
    exact distinct_eq h (List.mem_mergeSort.mp ha) (hperm.mem_iff.mpr (List.mem_mergeSort.mp hb))
      (rank_inj hranks.1) hranks.2

theorem join_append (first second : List Text) (hfirst : first ≠ []) (hsecond : second ≠ []) :
    joinBlocks (first ++ second) = joinBlocks first ++ blankLine ++ joinBlocks second := by
  induction first with
  | nil => exact absurd rfl hfirst
  | cons text texts ih =>
    cases texts with
    | nil =>
      obtain ⟨next, rest, rfl⟩ := List.exists_cons_of_ne_nil hsecond
      rfl
    | cons next rest =>
      have hrest := ih (List.cons_ne_nil next rest)
      show text ++ blankLine ++ joinBlocks ((next :: rest) ++ second) =
        text ++ blankLine ++ joinBlocks (next :: rest) ++ blankLine ++ joinBlocks second
      rw [hrest]
      simp only [List.append_assoc]

theorem serialize_append (first second : List ContextSegment) (hfirst : first ≠ [])
    (hsecond : second ≠ []) : serializeSegments (first ++ second) =
      serializeSegments first ++ blankLine ++ serializeSegments second := by
  rw [serializeSegments, List.map_append]
  exact join_append _ _ (by simpa using hfirst) (by simpa using hsecond)

def identityOf (segment : ContextSegment) : Text × Text × Text :=
  (segment.id, segment.title, segment.content)

theorem segment_payload (segment : ContextSegment) : segmentPayload segment =
    .object [("content", .str segment.content), ("id", .str segment.id),
      ("title", .str segment.title)] := rfl

theorem payload_eq_iff (a b : ContextSegment) :
    segmentPayload a = segmentPayload b ↔ identityOf a = identityOf b := by
  rw [segment_payload, segment_payload, identityOf, identityOf]
  simp only [CanonicalValue.object.injEq, CanonicalValue.str.injEq, List.cons.injEq,
    Prod.mk.injEq, true_and, and_true]
  constructor
  · rintro ⟨hcontent, hid, htitle⟩
    exact ⟨hid, htitle, hcontent⟩
  · rintro ⟨hid, htitle, hcontent⟩
    exact ⟨hcontent, hid, htitle⟩

theorem payloads_eq_iff (xs ys : List ContextSegment) :
    xs.map segmentPayload = ys.map segmentPayload ↔ xs.map identityOf = ys.map identityOf := by
  induction xs generalizing ys with
  | nil => cases ys <;> simp
  | cons x xs ih =>
    cases ys with
    | nil => simp
    | cons y ys => simp only [List.map_cons, List.cons.injEq, ih, payload_eq_iff]

theorem stable_payload_inj (xs ys : List ContextSegment) :
    stablePayload xs = stablePayload ys ↔ xs.map identityOf = ys.map identityOf := by
  rw [← payloads_eq_iff]
  constructor
  · intro h
    exact CanonicalValue.array.inj (canonical_inj h)
  · intro h
    rw [stablePayload, h, stablePayload]

def idLe (a b : SegmentInput) : Bool := jsLe a.id b.id

theorem id_trans (a b c : SegmentInput) (hab : idLe a b = true) (hbc : idLe b c = true) :
    idLe a c = true := js_trans hab hbc

theorem id_total (a b : SegmentInput) : (idLe a b || idLe b a) = true := js_total _ _

/-- The segments of one stability in the order of their ids. -/
def orderedOf (stability : Stability) (inputs : List SegmentInput) : List ContextSegment :=
  ((inputs.filter fun input => input.stability == stability).mergeSort idLe).map buildSegment

theorem ordered_perm (stability : Stability) (inputs : List SegmentInput) :
    (orderedOf stability inputs).Perm
      ((inputs.filter fun input => input.stability == stability).map buildSegment) :=
  (List.mergeSort_perm _ _).map _

theorem ordered_sorted (stability : Stability) (inputs : List SegmentInput) :
    (orderedOf stability inputs).Pairwise fun a b => jsLe a.id b.id = true :=
  List.pairwise_map.mpr (List.pairwise_mergeSort id_trans id_total _)

theorem of_stability_ordered (stability : Stability) (inputs : List SegmentInput) :
    ofStability stability ((inputs.mergeSort segmentLe).map buildSegment) =
      orderedOf stability inputs := by
  have hsame : ∀ a b : SegmentInput, (a.stability == stability) = true →
      (b.stability == stability) = true → idLe a b = segmentLe a b := by
    intro a b ha hb
    rw [beq_iff_eq] at ha hb
    simp [segmentLe, idLe, ha, hb]
  rw [ofStability, List.filter_map, orderedOf]
  exact congrArg (List.map buildSegment) (StableSort.filter_merge_sort segment_trans segment_total
    id_trans id_total hsame inputs)

section Law

variable (sha256Hex : Text → Text)

/-- The stable payloads of the two lists share no digest, unless they are the same. -/
def NoCollision (xs ys : List SegmentInput) : Prop :=
  sha256Hex (stablePayload (orderedOf .stable xs)) =
      sha256Hex (stablePayload (orderedOf .stable ys)) →
    stablePayload (orderedOf .stable xs) = stablePayload (orderedOf .stable ys)

structure StablePrefixLaw (xs ys : List SegmentInput) : Prop where
  order : DistinctIds xs → xs.Perm ys → projectSegments sha256Hex xs = projectSegments sha256Hex ys
  stable : (projectSegments sha256Hex xs).stableSegments = orderedOf .stable xs
  contextual : (projectSegments sha256Hex xs).contextualSegments = orderedOf .contextual xs
  volatile : (projectSegments sha256Hex xs).volatileSegments = orderedOf .volatile xs
  complete : ∀ stability, (orderedOf stability xs).Perm
    ((xs.filter fun input => input.stability == stability).map buildSegment)
  sorted : ∀ stability, (orderedOf stability xs).Pairwise fun a b => jsLe a.id b.id = true
  bytes : Text.utf8Len (serializePrefix (projectSegments sha256Hex xs)) =
    (projectSegments sha256Hex xs).stablePrefixBytes
  joined : orderedOf .stable xs ≠ [] → orderedOf .contextual xs ≠ [] →
    serializePrefix (projectSegments sha256Hex xs) =
      serializeSegments (orderedOf .stable xs) ++ blankLine ++
        serializeSegments (orderedOf .contextual xs)
  fingerprint : (projectSegments sha256Hex xs).stableFingerprint =
      (projectSegments sha256Hex ys).stableFingerprint ↔
    (orderedOf .stable xs).map identityOf = (orderedOf .stable ys).map identityOf

theorem projected_fingerprint (xs : List SegmentInput) :
    (projectSegments sha256Hex xs).stableFingerprint =
      sha256Hex (stablePayload (orderedOf .stable xs)) := by
  rw [← of_stability_ordered, projectSegments]

theorem stable_prefix_law (xs ys : List SegmentInput) (collisionFree : NoCollision sha256Hex xs ys) :
    StablePrefixLaw sha256Hex xs ys where
  order := by
    intro hdistinct hperm
    rw [projectSegments, projectSegments, sort_perm hperm hdistinct]
  stable := of_stability_ordered .stable xs
  contextual := of_stability_ordered .contextual xs
  volatile := of_stability_ordered .volatile xs
  complete := fun stability => ordered_perm stability xs
  sorted := fun stability => ordered_sorted stability xs
  bytes := rfl
  joined := by
    intro hstable hcontextual
    rw [← of_stability_ordered] at hstable hcontextual ⊢
    rw [← of_stability_ordered]
    exact serialize_append _ _ hstable hcontextual
  fingerprint := by
    rw [← stable_payload_inj, projected_fingerprint, projected_fingerprint]
    constructor
    · exact collisionFree
    · intro h
      exact congrArg sha256Hex h

end Law

/-- The digests of the payloads of two small stable segments. -/
def sampleDigest (text : Text) : Text :=
  if text = "[\x7b\"content\":\"c\",\"id\":\"s\",\"title\":\"t\"\x7d]".toList then
    "557d36d294b0107bf11ada84f9ce24e620cbfbf8b416a8b0fac8a70f0fef588b"
  else "b9b66f836e01cab915cf57b35e9775564e84b168a01e32bd1a66e09ad57badf2"

def sampleInputs (content : Text) : List SegmentInput :=
  [⟨['n'], .volatile, ['m'], ['1']⟩, ⟨['k'], .contextual, ['u'], ['x']⟩,
    ⟨['s'], .stable, ['t'], content⟩]

theorem sample_stable (content : Text) : orderedOf .stable (sampleInputs content) =
    [buildSegment ⟨['s'], .stable, ['t'], content⟩] := by
  show ([_].mergeSort _).map buildSegment = _
  rw [List.mergeSort_singleton]
  rfl

theorem stable_prefix_sample :
    StablePrefixLaw sampleDigest (sampleInputs ['c']) (sampleInputs ['d']) := by
  apply stable_prefix_law
  intro h
  rw [sample_stable, sample_stable] at h
  revert h
  decide +kernel

end Siralos.Projection
