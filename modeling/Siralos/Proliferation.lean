import Siralos.NewFiles
import Siralos.Listing

/-!
# The messages of the signals

Of the four messages only the one that names the new directories holds text of the paths, and
it is cut at a byte that may be inside one of their characters.
-/

set_option autoImplicit false

namespace Siralos.NewFiles

open Cursor Text

/-- A position in a text that is between two characters. -/
def Boundary (position : ℕ) (text : Text) : Prop :=
  ∃ front rest, text = front ++ rest ∧ utf8Len front = position

theorem boundary_behind (front text : Text) (position : ℕ) (h : utf8Len front ≤ position) :
    Boundary position (front ++ text) ↔ Boundary (position - utf8Len front) text := by
  constructor
  · rintro ⟨shown, rest, hsplit, hlen⟩
    rcases List.append_eq_append_iff.mp hsplit with ⟨middle, rfl, rfl⟩ | ⟨middle, rfl, rfl⟩
    · rw [utf8Len_append] at hlen
      exact ⟨middle, rest, rfl, by omega⟩
    · rw [utf8Len_append] at h
      have hmiddle : utf8Len middle = 0 := by omega
      have hnil : middle = [] := weigh_zero Char.utf8Size_pos hmiddle
      subst hnil
      rw [List.append_nil]
      exact ⟨[], text, rfl, by rw [utf8Len_nil]; omega⟩
  · rintro ⟨shown, rest, rfl, hlen⟩
    refine ⟨front ++ shown, rest, by rw [List.append_assoc], ?_⟩
    rw [utf8Len_append]
    omega

theorem boundary_before (text tail : Text) (position : ℕ) (h : position ≤ utf8Len text) :
    Boundary position (text ++ tail) ↔ Boundary position text := by
  constructor
  · rintro ⟨shown, rest, hsplit, hlen⟩
    rcases List.append_eq_append_iff.mp hsplit with ⟨middle, rfl, rfl⟩ | ⟨middle, rfl, rfl⟩
    · rw [utf8Len_append] at hlen
      have hmiddle : utf8Len middle = 0 := by omega
      have hnil : middle = [] := weigh_zero Char.utf8Size_pos hmiddle
      subst hnil
      exact ⟨text, [], by rw [List.append_nil], by rw [← hlen, utf8Len_nil, Nat.add_zero]⟩
    · exact ⟨shown, middle, rfl, hlen⟩
  · rintro ⟨shown, rest, rfl, hlen⟩
    exact ⟨shown, rest ++ tail, by rw [List.append_assoc], hlen⟩

def SingleBytes (text : Text) : Prop := ∀ c ∈ text, c.utf8Size = 1

theorem boundary_single (text : Text) (h : SingleBytes text) (position : ℕ)
    (hle : position ≤ utf8Len text) : Boundary position text := by
  induction text generalizing position with
  | nil => exact ⟨[], [], rfl, (Nat.le_zero.mp hle).symm⟩
  | cons c text ih =>
    cases position with
    | zero => exact ⟨[], c :: text, rfl, rfl⟩
    | succ position =>
      have hc := h c List.mem_cons_self
      rw [utf8Len_cons, hc] at hle
      obtain ⟨front, rest, rfl, hlen⟩ :=
        ih (fun d hd => h d (List.mem_cons_of_mem _ hd)) position (by omega)
      refine ⟨c :: front, rest, rfl, ?_⟩
      rw [utf8Len_cons, hc]
      omega

/-- The message passes the bound: it is short, or may be cut. -/
def Passes (message : Text) : Prop :=
  utf8Len message ≤ maxSignalMessageBytes ∨ Boundary 240 message

theorem bound_signal_some (signal bounded : ProliferationSignal)
    (h : boundSignal signal = some bounded) :
    bounded.id = signal.id ∧ utf8Len bounded.message ≤ maxSignalMessageBytes := by
  rw [boundSignal] at h
  by_cases hlong : maxSignalMessageBytes < utf8Len signal.message
  · rw [if_pos hlong] at h
    obtain ⟨parts, hcut, rfl⟩ := Option.map_eq_some_iff.mp h
    have hfront : utf8Len parts.1 = min 240 (utf8Len signal.message) :=
      ((cut_iff Char.utf8Size_pos _ _ _ _).mp hcut).2
    refine ⟨rfl, ?_⟩
    have hmark : utf8Len ['…'] = 3 := rfl
    rw [utf8Len_append, hmark, hfront]
    have hbound : maxSignalMessageBytes = 512 := rfl
    omega
  · rw [if_neg hlong] at h
    cases h
    exact ⟨rfl, by omega⟩

theorem bound_signal_passes (signal : ProliferationSignal) :
    (∃ bounded, boundSignal signal = some bounded) ↔ Passes signal.message := by
  rw [boundSignal, Passes]
  by_cases hlong : maxSignalMessageBytes < utf8Len signal.message
  · have hbound : maxSignalMessageBytes = 512 := rfl
    rw [if_pos hlong, Nat.min_eq_left (by omega)]
    constructor
    · rintro ⟨bounded, h⟩
      obtain ⟨parts, hcut, -⟩ := Option.map_eq_some_iff.mp h
      obtain ⟨hsplit, hlen⟩ := (cut_iff Char.utf8Size_pos _ _ _ _).mp hcut
      exact .inr ⟨parts.1, parts.2, hsplit, hlen⟩
    · rintro (hshort | ⟨front, rest, hsplit, hlen⟩)
      · omega
      · have hcut := (cut_iff Char.utf8Size_pos 240 signal.message front rest).mpr ⟨hsplit, hlen⟩
        rw [hcut]
        exact ⟨_, rfl⟩
  · rw [if_neg hlong]
    exact ⟨fun _ => .inl (by omega), fun _ => ⟨_, rfl⟩⟩

theorem single_append {first second : Text} (hfirst : SingleBytes first)
    (hsecond : SingleBytes second) : SingleBytes (first ++ second) := by
  intro c hc
  rcases List.mem_append.mp hc with hc | hc
  · exact hfirst c hc
  · exact hsecond c hc

theorem single_all {text : Text} (h : text.all (fun c => c.utf8Size == 1) = true) :
    SingleBytes text := fun c hc => beq_iff_eq.mp (List.all_eq_true.mp h c hc)

theorem decimal_single (n : ℕ) : SingleBytes (Text.ofNat n) := by
  intro c hc
  have hdigit : c.isDigit = true := Nat.isDigit_of_mem_toDigits (by omega) (by omega) hc
  simp only [Char.isDigit, Bool.and_eq_true, decide_eq_true_eq, UInt32.le_iff_toNat_le] at hdigit
  have hnine : '9'.val.toNat = 57 := rfl
  have hmost : (127 : UInt32).toNat = 127 := rfl
  rw [Char.utf8Size_eq_one_iff, UInt32.le_iff_toNat_le]
  omega

theorem passes_single {message : Text} (h : SingleBytes message) : Passes message := by
  by_cases hlong : maxSignalMessageBytes < utf8Len message
  · have hbound : maxSignalMessageBytes = 512 := rfl
    exact .inr (boundary_single message h 240 (by omega))
  · exact .inl (by omega)

theorem counts_pass (n : ℕ) : Passes (manyNewFiles n).message ∧ Passes (tinyHelpers n).message ∧
    Passes (outsideScope n).message := by
  have hcount := decimal_single n
  refine ⟨?_, ?_, ?_⟩
  · exact passes_single (single_append (single_append (single_append hcount
      (single_all (by decide +kernel))) (decimal_single _)) (single_all (by decide +kernel)))
  · exact passes_single (single_append (single_append (single_append hcount
      (single_all (by decide +kernel))) (decimal_single _)) (single_all (by decide +kernel)))
  · exact passes_single (single_append (single_append hcount
      (single_all (by decide +kernel))) (single_all (by decide +kernel)))

/-- The directories of the new files that are not known, each once. -/
def createdDirectories (input : DetectProliferationSignalsInput) : List Text :=
  ((input.newProductionFiles.map fun file => directoryOf file.path).filter fun directory =>
    directory != ['.'] && !input.knownDirectories.contains directory).eraseDups

theorem new_directories_from (known : List Text) (found : List Text)
    (files : List NewProductionFile) :
    newDirectoriesFrom known found files = found ++
      (((files.map fun file => directoryOf file.path).filter fun directory =>
        directory != ['.'] && !known.contains directory).filter fun directory =>
          !found.contains directory).eraseDups := by
  induction files generalizing found with
  | nil => exact (List.append_nil found).symm
  | cons file files ih =>
    rw [newDirectoriesFrom, List.map_cons, List.filter_cons]
    by_cases hnew : (directoryOf file.path != ['.'] &&
        !known.contains (directoryOf file.path)) = true
    · rw [if_pos hnew, hnew, Bool.true_and, List.filter_cons]
      by_cases hfound : found.contains (directoryOf file.path) = true
      · rw [hfound, Bool.not_true, if_neg Bool.false_ne_true, if_neg Bool.false_ne_true, ih]
      · have hapart : (!found.contains (directoryOf file.path)) = true := by
          rw [Bool.eq_false_iff.mpr hfound]
          rfl
        rw [if_pos hapart, if_pos hapart, ih, List.eraseDups_cons, List.append_assoc,
          List.singleton_append, List.filter_filter (p := fun directory => !directory == _)]
        congr 3
        apply List.filter_congr
        intro directory _
        rw [List.contains_append, List.contains_cons, List.contains_nil, Bool.or_false,
          Bool.not_or, Bool.and_comm]
    · rw [if_neg hnew, Bool.eq_false_iff.mpr hnew, Bool.false_and, if_neg Bool.false_ne_true, ih]

theorem new_directories (input : DetectProliferationSignalsInput) :
    newDirectoriesFrom input.knownDirectories [] input.newProductionFiles =
      createdDirectories input := by
  rw [new_directories_from, List.nil_append, createdDirectories]
  congr 1
  exact List.filter_eq_self.mpr fun _ _ => rfl

/-- The names of the created directories as the message joins them. -/
def directoryNames (input : DetectProliferationSignalsInput) : Text :=
  [',', ' '].intercalate (createdDirectories input)

/-- The names are short, or the byte of the cut is between two of their characters. -/
def NamesFit (input : DetectProliferationSignalsInput) : Prop :=
  utf8Len (directoryNames input) ≤ 420 ∨ Boundary 199 (directoryNames input)

theorem names_fit_iff (input : DetectProliferationSignalsInput) :
    Passes (newDirectory (createdDirectories input)).message ↔ NamesFit input := by
  obtain ⟨hlead, htail⟩ : utf8Len directoryLead = 41 ∧ utf8Len directoryTail = 51 := by
    decide +kernel
  have hbound : maxSignalMessageBytes = 512 := rfl
  have hmessage : (newDirectory (createdDirectories input)).message =
      directoryLead ++ directoryNames input ++ directoryTail := rfl
  simp only [hmessage, Passes, NamesFit, utf8Len_append, hlead, htail]
  by_cases hshort : utf8Len (directoryNames input) ≤ 420
  · exact ⟨fun _ => .inl hshort, fun _ => .inl (by omega)⟩
  · rw [List.append_assoc, boundary_behind _ _ _ (by omega), hlead,
      boundary_before _ _ _ (by omega)]
    constructor
    · rintro (hfits | hcut)
      · omega
      · exact .inr hcut
    · rintro (hfits | hcut)
      · omega
      · exact .inr hcut

/-- The signals before their messages are bounded. -/
def raisedSignals (input : DetectProliferationSignalsInput) : List ProliferationSignal :=
  let files := input.newProductionFiles
  let tinyCount := files.countP fun file => file.sizeBytes < tinyFileBytes
  let outsideScopeCount := files.countP fun file =>
    !input.plannedPaths.any (pathMatchesPattern file.path)
  (if files.length > maxNewProductionFiles then [manyNewFiles files.length] else []) ++
  (if tinyCount > maxTinyHelperFiles then [tinyHelpers tinyCount] else []) ++
  (if !(createdDirectories input).isEmpty then [newDirectory (createdDirectories input)] else []) ++
  (if outsideScopeCount > maxChangedOutsideScope then [outsideScope outsideScopeCount] else [])

theorem signal_sublist (condition : Prop) [Decidable condition] (signal : ProliferationSignal) :
    ((if condition then [signal] else []).map (·.id)).Sublist [signal.id] := by
  split
  · exact List.Sublist.refl _
  · exact List.nil_sublist _

theorem raised_ids (input : DetectProliferationSignalsInput) :
    ((raisedSignals input).map (·.id)).Sublist
      [(manyNewFiles 0).id, (tinyHelpers 0).id, (newDirectory []).id, (outsideScope 0).id] := by
  rw [raisedSignals, List.map_append, List.map_append, List.map_append]
  exact (((signal_sublist _ _).append (signal_sublist _ _)).append (signal_sublist _ _)).append
    (signal_sublist _ _)

theorem detect_raised (input : DetectProliferationSignalsInput) :
    detectProliferationSignals input =
      ((raisedSignals input).mapM boundSignal).map Except.ok := by
  have hfew : (raisedSignals input).length ≤ maxSignals := by
    have hlength := (raised_ids input).length_le
    rw [List.length_map] at hlength
    exact hlength.trans (by decide)
  rw [← List.take_of_length_le hfew, detectProliferationSignals, new_directories]
  rfl

theorem mem_raised (input : DetectProliferationSignalsInput) (signal : ProliferationSignal)
    (h : signal ∈ raisedSignals input) (hfit : NamesFit input) : Passes signal.message := by
  have hone : ∀ (condition : Prop) [Decidable condition] (raised : ProliferationSignal),
      signal ∈ (if condition then [raised] else []) → signal = raised := by
    intro condition _ raised hmem
    split at hmem
    · exact List.mem_singleton.mp hmem
    · cases hmem
  rw [raisedSignals] at h
  rcases List.mem_append.mp h with h | h
  · rcases List.mem_append.mp h with h | h
    · rcases List.mem_append.mp h with h | h
      · exact hone _ _ h ▸ (counts_pass _).1
      · exact hone _ _ h ▸ (counts_pass _).2.1
    · exact hone _ _ h ▸ (names_fit_iff input).mpr hfit
  · exact hone _ _ h ▸ (counts_pass _).2.2

theorem raised_fits (input : DetectProliferationSignalsInput)
    (h : ∀ signal ∈ raisedSignals input, Passes signal.message) : NamesFit input := by
  by_cases hnone : (createdDirectories input).isEmpty = true
  · left
    rw [directoryNames, List.isEmpty_iff.mp hnone]
    exact Nat.zero_le _
  · apply (names_fit_iff input).mp
    apply h
    rw [raisedSignals, if_pos (show (!(createdDirectories input).isEmpty) = true by
      rw [Bool.eq_false_iff.mpr hnone]; rfl)]
    simp

theorem mapM_isSome {α β : Type} (f : α → Option β) (xs : List α) :
    (∃ ys, xs.mapM f = some ys) ↔ ∀ x ∈ xs, ∃ y, f x = some y := by
  induction xs with
  | nil => simp
  | cons x xs ih =>
    rw [List.forall_mem_cons, ← ih, List.mapM_cons]
    cases hx : f x with
    | none => simp
    | some y =>
      cases hxs : xs.mapM f with
      | none => simp
      | some ys => simp

theorem mapM_ids (signals bounded : List ProliferationSignal)
    (h : signals.mapM boundSignal = some bounded) :
    bounded.map (·.id) = signals.map (·.id) := by
  induction signals generalizing bounded with
  | nil =>
    cases h
    rfl
  | cons signal signals ih =>
    rw [List.mapM_cons] at h
    obtain ⟨first, hfirst, h⟩ := Option.bind_eq_some_iff.mp h
    obtain ⟨rest, hrest, h⟩ := Option.bind_eq_some_iff.mp h
    cases h
    rw [List.map_cons, List.map_cons, ih rest hrest, (bound_signal_some signal first hfirst).1]

/-- One signal of a kind at most, each with a message within the bound. -/
def SignalsBounded (input : DetectProliferationSignalsInput) : Prop :=
  ∃ signals, detectProliferationSignals input = some (.ok signals) ∧
    (signals.map (·.id)).Nodup ∧
    ∀ signal ∈ signals, utf8Len signal.message ≤ maxSignalMessageBytes

theorem proliferation_iff (input : DetectProliferationSignalsInput) :
    SignalsBounded input ↔ NamesFit input := by
  rw [SignalsBounded, detect_raised]
  constructor
  · rintro ⟨signals, h, -⟩
    obtain ⟨bounded, hbounded, -⟩ := Option.map_eq_some_iff.mp h
    apply raised_fits
    intro signal hsignal
    exact (bound_signal_passes signal).mp
      ((mapM_isSome boundSignal _).mp ⟨bounded, hbounded⟩ signal hsignal)
  · intro hfit
    obtain ⟨bounded, hbounded⟩ := (mapM_isSome boundSignal (raisedSignals input)).mpr
      fun signal hsignal => (bound_signal_passes signal).mpr (mem_raised input signal hsignal hfit)
    refine ⟨bounded, by rw [hbounded]; rfl, ?_, ?_⟩
    · rw [mapM_ids _ _ hbounded]
      exact (raised_ids input).nodup (by decide)
    · intro signal hsignal
      obtain ⟨raised, -, hraised⟩ := (Inspection.mem_mapM hbounded).1 signal hsignal
      exact (bound_signal_some raised signal hraised).2

/-- A new file two directories deep, both named in a script of two-byte characters. -/
def accentedInput : DetectProliferationSignalsInput where
  newProductionFiles := [⟨List.replicate 100 'é' ++ '/' :: List.replicate 110 'é' ++ "/a".toList, 9⟩]
  plannedPaths := []
  knownDirectories := []

theorem proliferation_fails : ¬ ∀ input, SignalsBounded input := by
  intro h
  obtain ⟨signals, hsignals, -⟩ := h accentedInput
  have hpanic : detectProliferationSignals accentedInput = none := by decide +kernel
  rw [hpanic] at hsignals
  cases hsignals

end Siralos.NewFiles
