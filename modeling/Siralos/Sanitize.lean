import Siralos.Text

/-!
# Texts for the terminal

The automaton that swallows escape sequences wherever the text is split, and the sanitizer of paths,
which lets the upper control characters through.
-/

set_option autoImplicit false

namespace Siralos.Sanitize

open Text (isControl)

inductive Mode where
  | normal
  | escape
  | csi
  | osc
  | oscEscape
  deriving DecidableEq, Repr

/-- `^` and the letter of a control character. -/
def caret (c : Char) : Text := ['^', Char.ofNat (c.toNat + 0x40)]

/-- One character: the mode behind it, and what it shows. -/
def read : Mode → Char → Mode × Text
  | .normal, c =>
    if c.toNat = 0x1B then (.escape, [])
    else if c = '\n' ∨ c = '\t' then (.normal, [c])
    else if c.toNat ≤ 0x1F then (.normal, caret c)
    else if c.toNat = 0x7F then (.normal, ['^', '?'])
    else if 0x80 ≤ c.toNat ∧ c.toNat ≤ 0x9F then (.normal, ['�'])
    else (.normal, [c])
  | .escape, c => (if c = '[' then .csi else if c = ']' then .osc else .normal, [])
  | .csi, c => (if 0x40 ≤ c.toNat ∧ c.toNat ≤ 0x7E then .normal else .csi, [])
  | .osc, c =>
    (if c.toNat = 0x07 then .normal else if c.toNat = 0x1B then .oscEscape else .osc, [])
  | .oscEscape, c => (if c = '\\' then .normal else .osc, [])

structure TerminalSanitizer where
  mode : Mode
  deriving DecidableEq, Repr

namespace TerminalSanitizer

def new : TerminalSanitizer := ⟨.normal⟩

def push (s : TerminalSanitizer) : Text → TerminalSanitizer × Text
  | [] => (s, [])
  | c :: text =>
    let read := read s.mode c
    let rest := push ⟨read.1⟩ text
    (rest.1, read.2 ++ rest.2)

def flush (_ : TerminalSanitizer) : TerminalSanitizer × Text := (⟨.normal⟩, [])

/-- The concatenated output of a push for every chunk, and the flush. -/
def pushAll (s : TerminalSanitizer) : List Text → Text
  | [] => s.flush.2
  | chunk :: chunks => (s.push chunk).2 ++ pushAll (s.push chunk).1 chunks

end TerminalSanitizer

def sanitizeForDisplay (text : Text) : Text :=
  let pushed := TerminalSanitizer.new.push text
  pushed.2 ++ pushed.1.flush.2

def displayPathChar (c : Char) : Text :=
  if c = '\\' then ['\\', '\\']
  else if c = '\n' then ['\\', 'n']
  else if c = '\r' then ['\\', 'r']
  else if c = '\t' then ['\\', 't']
  else if c.toNat < 0x20 then caret c
  else if c.toNat = 0x7F then ['^', '?']
  else [c]

def sanitizePathForDisplay (path : Option Text) : Text :=
  match path with
  | none => "(none)".toList
  | some path => path.flatMap displayPathChar

/-- What crosses to the terminal: no control character but line feed and tab, whatever the chunks,
plain texts as they are, and paths without any. -/
structure DisplaySafe (chunks : List Text) (text path : Text) : Prop where
  closed : ∀ c ∈ TerminalSanitizer.new.pushAll chunks, isControl c = true → c = '\n' ∨ c = '\t'
  joined : TerminalSanitizer.new.pushAll chunks = sanitizeForDisplay chunks.flatten
  plain : (∀ c ∈ text, isControl c = false) → sanitizeForDisplay text = text
  path : ∀ c ∈ sanitizePathForDisplay (some path), isControl c = false

/-- Whether the character is one of `U+0080` to `U+009F`. -/
def isUpperControl (c : Char) : Bool := 0x80 ≤ c.toNat && c.toNat ≤ 0x9F

theorem caret_plain {c : Char} (h : c.toNat ≤ 0x1F) : ∀ d ∈ caret c, isControl d = false := by
  have hall : ∀ n ≤ 0x1F, (['^', Char.ofNat (n + 0x40)]).all (fun d => !isControl d) = true := by
    decide
  intro d hd
  have hplain : (!isControl d) = true := List.all_eq_true.mp (hall c.toNat h) d hd
  rwa [Bool.not_eq_true'] at hplain

theorem control_ranges {c : Char} (hlow : ¬ c.toNat ≤ 0x1F) (hdel : ¬ c.toNat = 0x7F)
    (hupper : isUpperControl c = false) : isControl c = false := by
  simp only [isUpperControl, Bool.and_eq_false_iff, decide_eq_false_iff_not] at hupper
  simp only [isControl, Bool.or_eq_false_iff, Bool.and_eq_false_iff, decide_eq_false_iff_not]
  omega

theorem read_closed (mode : Mode) (c : Char) :
    ∀ d ∈ (read mode c).2, isControl d = true → d = '\n' ∨ d = '\t' := by
  cases mode
  case normal =>
    intro d hd hcontrol
    rw [read] at hd
    by_cases hescape : c.toNat = 0x1B
    · rw [if_pos hescape] at hd
      cases hd
    rw [if_neg hescape] at hd
    by_cases hbreak : c = '\n' ∨ c = '\t'
    · rw [if_pos hbreak] at hd
      rwa [List.mem_singleton.mp hd]
    rw [if_neg hbreak] at hd
    by_cases hlow : c.toNat ≤ 0x1F
    · rw [if_pos hlow] at hd
      rw [caret_plain hlow d hd] at hcontrol
      cases hcontrol
    rw [if_neg hlow] at hd
    by_cases hdel : c.toNat = 0x7F
    · rw [if_pos hdel] at hd
      have hall : (['^', '?']).all (fun d => !isControl d) = true := by decide
      have hplain := List.all_eq_true.mp hall d hd
      rw [hcontrol] at hplain
      cases hplain
    rw [if_neg hdel] at hd
    by_cases hupper : 0x80 ≤ c.toNat ∧ c.toNat ≤ 0x9F
    · rw [if_pos hupper] at hd
      rw [List.mem_singleton.mp hd] at hcontrol
      exact absurd hcontrol (by decide)
    · rw [if_neg hupper] at hd
      have hupper' : isUpperControl c = false := by
        rw [isUpperControl, Bool.and_eq_false_iff, decide_eq_false_iff_not, decide_eq_false_iff_not]
        omega
      rw [List.mem_singleton.mp hd, control_ranges hlow hdel hupper'] at hcontrol
      cases hcontrol
  all_goals nofun

theorem push_closed (s : TerminalSanitizer) (text : Text) :
    ∀ c ∈ (s.push text).2, isControl c = true → c = '\n' ∨ c = '\t' := by
  induction text generalizing s with
  | nil => nofun
  | cons c text ih =>
    intro d hd
    rcases List.mem_append.mp hd with hd | hd
    · exact read_closed s.mode c d hd
    · exact ih _ d hd

theorem push_append (s : TerminalSanitizer) (first second : Text) :
    s.push (first ++ second) = (((s.push first).1.push second).1,
      (s.push first).2 ++ ((s.push first).1.push second).2) := by
  induction first generalizing s with
  | nil => rfl
  | cons c first ih =>
    rw [List.cons_append, TerminalSanitizer.push, TerminalSanitizer.push]
    dsimp only
    rw [ih, List.append_assoc]

theorem push_all_joined (s : TerminalSanitizer) (chunks : List Text) :
    s.pushAll chunks = (s.push chunks.flatten).2 := by
  induction chunks generalizing s with
  | nil => rfl
  | cons chunk chunks ih =>
    rw [TerminalSanitizer.pushAll, List.flatten_cons, push_append, ih]

theorem sanitized_pushed (text : Text) :
    sanitizeForDisplay text = (TerminalSanitizer.new.push text).2 := List.append_nil _

theorem push_plain {text : Text} (h : ∀ c ∈ text, isControl c = false) :
    TerminalSanitizer.new.push text = (.new, text) := by
  induction text with
  | nil => rfl
  | cons c text ih =>
    have hc := h c List.mem_cons_self
    simp only [isControl, Bool.or_eq_false_iff, Bool.and_eq_false_iff,
      decide_eq_false_iff_not] at hc
    have hbreak : ¬ (c = '\n' ∨ c = '\t') := by
      rintro (rfl | rfl)
      · exact absurd hc.1 (by decide)
      · exact absurd hc.1 (by decide)
    have hread : read .normal c = (.normal, [c]) := by
      rw [read, if_neg (by omega), if_neg hbreak, if_neg (by omega), if_neg (by omega),
        if_neg (by omega)]
    rw [TerminalSanitizer.push, show TerminalSanitizer.new.mode = .normal from rfl, hread]
    dsimp only
    rw [show (⟨.normal⟩ : TerminalSanitizer) = .new from rfl,
      ih fun d hd => h d (List.mem_cons_of_mem _ hd)]
    rfl

theorem pair_plain {first second : Char} (h : isControl first = false ∧ isControl second = false) :
    ∀ d ∈ [first, second], isControl d = false :=
  List.forall_mem_cons.mpr ⟨h.1, List.forall_mem_singleton.mpr h.2⟩

theorem path_char_iff (c : Char) :
    (∀ d ∈ displayPathChar c, isControl d = false) ↔ isUpperControl c = false := by
  rw [displayPathChar]
  by_cases hback : c = '\\'
  · subst hback
    rw [if_pos rfl]
    exact iff_of_true (pair_plain (by decide)) (by decide)
  rw [if_neg hback]
  by_cases hfeed : c = '\n'
  · subst hfeed
    rw [if_pos rfl]
    exact iff_of_true (pair_plain (by decide)) (by decide)
  rw [if_neg hfeed]
  by_cases hreturn : c = '\r'
  · subst hreturn
    rw [if_pos rfl]
    exact iff_of_true (pair_plain (by decide)) (by decide)
  rw [if_neg hreturn]
  by_cases htab : c = '\t'
  · subst htab
    rw [if_pos rfl]
    exact iff_of_true (pair_plain (by decide)) (by decide)
  rw [if_neg htab]
  by_cases hlow : c.toNat < 0x20
  · rw [if_pos hlow]
    refine iff_of_true (caret_plain (Nat.le_of_lt_succ hlow)) ?_
    simp only [isUpperControl, Bool.and_eq_false_iff, decide_eq_false_iff_not]
    omega
  rw [if_neg hlow]
  by_cases hdel : c.toNat = 0x7F
  · rw [if_pos hdel]
    refine iff_of_true (pair_plain (by decide)) ?_
    simp only [isUpperControl, Bool.and_eq_false_iff, decide_eq_false_iff_not]
    omega
  · rw [if_neg hdel, List.forall_mem_singleton]
    constructor
    · intro hplain
      simp only [isControl, Bool.or_eq_false_iff, Bool.and_eq_false_iff,
        decide_eq_false_iff_not] at hplain
      simp only [isUpperControl, Bool.and_eq_false_iff, decide_eq_false_iff_not]
      omega
    · exact control_ranges (fun h => hlow (Nat.lt_succ_of_le h)) hdel

theorem path_safe_iff (path : Text) :
    (∀ c ∈ sanitizePathForDisplay (some path), isControl c = false) ↔
      ∀ c ∈ path, isUpperControl c = false := by
  change (∀ c ∈ path.flatMap displayPathChar, isControl c = false) ↔ _
  rw [List.forall_mem_flatMap]
  exact forall₂_congr fun c _ => path_char_iff c

/-- The display boundary is closed exactly for the paths without upper control characters. -/
theorem display_safe_iff (chunks : List Text) (text path : Text) :
    DisplaySafe chunks text path ↔ ∀ c ∈ path, isUpperControl c = false := by
  rw [← path_safe_iff]
  refine ⟨fun h => h.path, fun hpath => ⟨?_, ?_, ?_, hpath⟩⟩
  · rw [push_all_joined]
    exact push_closed _ _
  · rw [push_all_joined, sanitized_pushed]
  · intro hplain
    rw [sanitized_pushed, push_plain hplain]

/-- `U+009B` introduces a control sequence by itself. -/
theorem display_safe_fails : ¬ ∀ (chunks : List Text) (text path : Text),
    DisplaySafe chunks text path := by
  intro h
  have hplain := (h [] [] [Char.ofNat 0x9B]).path (Char.ofNat 0x9B) List.mem_cons_self
  exact absurd hplain (by decide)

end Siralos.Sanitize
