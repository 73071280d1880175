import Mathlib.Data.List.Infix

/-!
# Patterns over a text

Regular expressions with word boundaries and lookahead, and the spans of a text that they match. A
pattern matches a span when some order of backtracking reaches it, so greediness plays no part.
-/

set_option autoImplicit false

inductive Pattern (α : Type) where
  | literal (sought : List α)
  /-- Symbols of a class, so many of them. -/
  | repeated (accepted : α → Bool) (least : ℕ) (most : Option ℕ)
  | edge
  | opening
  | empty
  | seq (first next : Pattern α)
  | alt (left right : Pattern α)
  | ahead (sought : Pattern α)
  | notAhead (sought : Pattern α)

namespace Pattern

variable {α : Type}

def chain : List (Pattern α) → Pattern α
  | [] => .empty
  | p :: rest => .seq p (chain rest)

def anyOf : List (Pattern α) → Pattern α
  | [] => .notAhead .empty
  | p :: rest => .alt p (anyOf rest)

def oneOf (words : List (List α)) : Pattern α := anyOf (words.map .literal)

def optional (p : Pattern α) : Pattern α := .alt p .empty

section Semantics

variable (isWord : α → Bool) (s : List α)

def wordAt (i : ℕ) : Bool := (s[i]?).any isWord

def wordBefore : ℕ → Bool
  | 0 => false
  | i + 1 => wordAt isWord s i

/-- The `n` symbols from `i` on are of the class. -/
def Run (accepted : α → Bool) (i n : ℕ) : Prop := ∀ k < n, (s[i + k]?).any accepted = true

/-- The pattern matches the symbols from `i` up to `j`. -/
def Spans : Pattern α → ℕ → ℕ → Prop
  | .literal sought, i, j => sought <+: s.drop i ∧ j = i + sought.length
  | .repeated accepted least most, i, j =>
    ∃ n, j = i + n ∧ least ≤ n ∧ (∀ m ∈ most, n ≤ m) ∧ Run s accepted i n
  | .edge, i, j => j = i ∧ wordBefore isWord s i ≠ wordAt isWord s i
  | .opening, i, j => j = i ∧ i = 0
  | .empty, i, j => j = i
  | .seq first next, i, k => ∃ j, Spans first i j ∧ Spans next j k
  | .alt left right, i, j => Spans left i j ∨ Spans right i j
  | .ahead sought, i, j => j = i ∧ ∃ k, Spans sought i k
  | .notAhead sought, i, j => j = i ∧ ¬ ∃ k, Spans sought i k

def Leads (p : Pattern α) (i : ℕ) : Prop := ∃ j, Spans isWord s p i j

def Found (p : Pattern α) : Prop := ∃ i ≤ s.length, Leads isWord s p i

/-- A literal between places where no word goes on. -/
structure Stands (sought : List α) (i : ℕ) : Prop where
  leads : sought <+: s.drop i
  before : wordBefore isWord s i = false
  behind : wordAt isWord s (i + sought.length) = false

end Semantics

/-- A literal that begins and ends with word symbols. -/
def Lexical (isWord : α → Bool) (sought : List α) : Prop :=
  sought.head?.any isWord = true ∧ sought.getLast?.any isWord = true

instance (isWord : α → Bool) (sought : List α) : Decidable (Lexical isWord sought) :=
  inferInstanceAs (Decidable (_ ∧ _))

section Runs

variable {s : List α} {accepted : α → Bool} {i : ℕ}

theorem Run.zero : Run s accepted i 0 := fun _ hk => absurd hk (Nat.not_lt_zero _)

theorem run_add {m n : ℕ} :
    Run s accepted i (m + n) ↔ Run s accepted i m ∧ Run s accepted (i + m) n := by
  constructor
  · intro h
    constructor
    · intro k hk
      exact h k (by omega)
    · intro k hk
      rw [Nat.add_assoc]
      exact h (m + k) (by omega)
  · rintro ⟨hfirst, hnext⟩ k hk
    by_cases hm : k < m
    · exact hfirst k hm
    · have hlater := hnext (k - m) (by omega)
      rwa [show i + m + (k - m) = i + k by omega] at hlater

theorem run_one : Run s accepted i 1 ↔ (s[i]?).any accepted = true := by
  constructor
  · intro h
    exact h 0 Nat.one_pos
  · intro h k hk
    rwa [Nat.lt_one_iff.mp hk, Nat.add_zero]

theorem run_congr {other : α → Bool} (h : ∀ a ∈ s, accepted a = other a) {n : ℕ} :
    Run s accepted i n ↔ Run s other i n := by
  have hat : ∀ k : ℕ, (s[k]?).any accepted = (s[k]?).any other := by
    intro k
    cases hget : s[k]? with
    | none => rfl
    | some a => exact h a (List.mem_of_getElem? hget)
  simp only [Run, hat]

theorem literal_get {sought : List α} (h : sought <+: s.drop i) {k : ℕ} (hk : k < sought.length) :
    s[i + k]? = some sought[k] := by
  obtain ⟨rest, hrest⟩ := h
  rw [← List.getElem?_drop, ← hrest, List.getElem?_append_left hk, List.getElem?_eq_getElem hk]

theorem run_literal {sought : List α} (h : sought <+: s.drop i)
    (hall : ∀ a ∈ sought, accepted a = true) : Run s accepted i sought.length := by
  intro k hk
  rw [literal_get h hk]
  exact hall _ (List.getElem_mem hk)

theorem run_drop (n : ℕ) : Run (s.drop i) accepted 0 n ↔ Run s accepted i n := by
  simp only [Run, List.getElem?_drop, Nat.zero_add]

theorem run_window {m : ℕ} (n : ℕ) :
    Run ((s.drop i).take m) accepted 0 n ↔ n ≤ m ∧ Run s accepted i n := by
  have hdrop : Run s accepted i n ↔ Run (s.drop i) accepted 0 n := (run_drop n).symm
  rw [hdrop]
  constructor
  · intro h
    constructor
    · by_contra hlong
      have hlast := h m (by omega)
      rw [List.getElem?_take, if_neg (by omega)] at hlast
      exact absurd hlast (by simp)
    · intro k hk
      have hget := h k hk
      rw [List.getElem?_take] at hget
      split at hget
      · exact hget
      · exact absurd hget (by simp)
  · rintro ⟨hle, h⟩ k hk
    rw [List.getElem?_take, if_pos (by omega)]
    exact h k hk

theorem le_take_while_iff (s : List α) (n : ℕ) :
    n ≤ (s.takeWhile accepted).length ↔ Run s accepted 0 n := by
  induction s generalizing n with
  | nil =>
    cases n with
    | zero => simp [Run]
    | succ n =>
      simp only [List.takeWhile_nil, List.length_nil, Nat.le_zero, Nat.add_one_ne_zero, false_iff]
      intro h
      simpa using h 0 (Nat.succ_pos n)
  | cons a s ih =>
    cases n with
    | zero => simp [Run]
    | succ n =>
      rw [Nat.add_comm n 1, run_add, run_one]
      by_cases ha : accepted a = true
      · have hshift : Run (a :: s) accepted (0 + 1) n ↔ Run s accepted 0 n := by
          simp only [Run, Nat.zero_add, Nat.add_comm 1, List.getElem?_cons_succ]
        rw [List.takeWhile_cons_of_pos ha, List.length_cons, hshift, ← ih]
        simp [ha, Nat.add_comm 1]
      · rw [List.takeWhile_cons_of_neg ha]
        simp [ha]

end Runs

section Matches

variable {isWord : α → Bool} {s : List α} {i j k : ℕ} {rest : List (Pattern α)}

theorem spans_any {ps : List (Pattern α)} :
    Spans isWord s (anyOf ps) i j ↔ ∃ p ∈ ps, Spans isWord s p i j := by
  induction ps with
  | nil => simp [anyOf, Spans]
  | cons p ps ih => simp [anyOf, Spans, ih]

theorem spans_one {words : List (List α)} :
    Spans isWord s (oneOf words) i j ↔
      ∃ sought ∈ words, sought <+: s.drop i ∧ j = i + sought.length := by
  simp [oneOf, spans_any, Spans]

@[simp] theorem leads_nil : Leads isWord s (chain []) i := ⟨i, rfl⟩

theorem leads_chain {p : Pattern α} :
    Leads isWord s (chain (p :: rest)) i ↔
      ∃ j, Spans isWord s p i j ∧ Leads isWord s (chain rest) j := by
  constructor
  · rintro ⟨k, j, hfirst, hnext⟩
    exact ⟨j, hfirst, k, hnext⟩
  · rintro ⟨j, hfirst, k, hnext⟩
    exact ⟨k, j, hfirst, hnext⟩

theorem leads_next {p : Pattern α} {P : ℕ → Prop}
    (h : ∀ j, Leads isWord s (chain rest) j ↔ P j) :
    Leads isWord s (chain (p :: rest)) i ↔ ∃ j, Spans isWord s p i j ∧ P j := by
  simp only [leads_chain, h]

theorem leads_congr {p q : Pattern α} (h : ∀ i j, Spans isWord s p i j ↔ Spans isWord s q i j) :
    Leads isWord s (chain (p :: rest)) i ↔ Leads isWord s (chain (q :: rest)) i := by
  simp only [leads_chain, h]

theorem leads_optional {p : Pattern α} :
    Leads isWord s (chain (.optional p :: rest)) i ↔
      Leads isWord s (chain (p :: rest)) i ∨ Leads isWord s (chain rest) i := by
  rw [leads_chain, leads_chain]
  constructor
  · rintro ⟨j, hspans, hnext⟩
    rcases hspans with hspans | hsame
    · exact .inl ⟨j, hspans, hnext⟩
    · rw [show j = i from hsame] at hnext
      exact .inr hnext
  · intro hleads
    rcases hleads with ⟨j, hspans, hnext⟩ | hnext
    · exact ⟨j, .inl hspans, hnext⟩
    · exact ⟨i, .inr rfl, hnext⟩

theorem leads_edge :
    Leads isWord s (chain (.edge :: rest)) i ↔
      wordBefore isWord s i ≠ wordAt isWord s i ∧ Leads isWord s (chain rest) i := by
  rw [leads_chain]
  constructor
  · rintro ⟨j, ⟨hsame, hedge⟩, hnext⟩
    rw [hsame] at hnext
    exact ⟨hedge, hnext⟩
  · rintro ⟨hedge, hnext⟩
    exact ⟨i, ⟨rfl, hedge⟩, hnext⟩

theorem leads_ahead {p : Pattern α} :
    Leads isWord s (chain (.ahead p :: rest)) i ↔
      Leads isWord s p i ∧ Leads isWord s (chain rest) i := by
  rw [leads_chain]
  constructor
  · rintro ⟨j, ⟨hsame, hsought⟩, hnext⟩
    rw [hsame] at hnext
    exact ⟨hsought, hnext⟩
  · rintro ⟨hsought, hnext⟩
    exact ⟨i, ⟨rfl, hsought⟩, hnext⟩

theorem leads_not_ahead {p : Pattern α} :
    Leads isWord s (chain (.notAhead p :: rest)) i ↔
      ¬ Leads isWord s p i ∧ Leads isWord s (chain rest) i := by
  rw [leads_chain]
  constructor
  · rintro ⟨j, ⟨hsame, hnone⟩, hnext⟩
    rw [hsame] at hnext
    exact ⟨hnone, hnext⟩
  · rintro ⟨hnone, hnext⟩
    exact ⟨i, ⟨rfl, hnone⟩, hnext⟩

theorem leads_literal {sought : List α} :
    Leads isWord s (chain (.literal sought :: rest)) i ↔
      sought <+: s.drop i ∧ Leads isWord s (chain rest) (i + sought.length) := by
  rw [leads_chain]
  constructor
  · rintro ⟨j, ⟨hleads, hsame⟩, hnext⟩
    rw [hsame] at hnext
    exact ⟨hleads, hnext⟩
  · rintro ⟨hleads, hnext⟩
    exact ⟨_, ⟨hleads, rfl⟩, hnext⟩

theorem leads_one {words : List (List α)} :
    Leads isWord s (chain (.oneOf words :: rest)) i ↔
      ∃ sought ∈ words, sought <+: s.drop i ∧
        Leads isWord s (chain rest) (i + sought.length) := by
  rw [leads_chain]
  constructor
  · rintro ⟨j, hone, hnext⟩
    obtain ⟨sought, hmem, hleads, hsame⟩ := spans_one.mp hone
    rw [hsame] at hnext
    exact ⟨sought, hmem, hleads, hnext⟩
  · rintro ⟨sought, hmem, hleads, hnext⟩
    exact ⟨_, spans_one.mpr ⟨sought, hmem, hleads, rfl⟩, hnext⟩

theorem leads_one_append {words more : List (List α)} :
    Leads isWord s (chain (.oneOf (words ++ more) :: rest)) i ↔
      Leads isWord s (chain (.oneOf words :: rest)) i ∨
        Leads isWord s (chain (.oneOf more :: rest)) i := by
  simp only [leads_one, List.mem_append, or_and_right, exists_or]

theorem literal_append {first next : List α} :
    first ++ next <+: s.drop i ↔ first <+: s.drop i ∧ next <+: s.drop (i + first.length) := by
  constructor
  · rintro ⟨after, hafter⟩
    rw [List.append_assoc] at hafter
    refine ⟨⟨next ++ after, hafter⟩, after, ?_⟩
    rw [← List.drop_drop, ← hafter, List.drop_left]
  · rintro ⟨⟨after, hafter⟩, hnext⟩
    rw [← List.drop_drop, ← hafter, List.drop_left] at hnext
    rw [← hafter]
    exact (List.prefix_append_right_inj first).mpr hnext

theorem literal_one {a : α} : [a] <+: s.drop i ↔ s[i]? = some a := by
  constructor
  · intro h
    exact literal_get h Nat.one_pos
  · intro h
    obtain ⟨hi, hget⟩ := List.getElem?_eq_some_iff.mp h
    rw [List.drop_eq_getElem_cons hi, hget]
    exact ⟨_, rfl⟩

variable {sought : List α}

theorem Lexical.word_at (h : Lexical isWord sought) (hleads : sought <+: s.drop i) :
    wordAt isWord s i = true := by
  cases sought with
  | nil => exact absurd h.1 (by simp)
  | cons a sought =>
    have hget : s[i]? = some a := literal_get hleads (Nat.succ_pos _)
    rw [wordAt, hget]
    exact h.1

theorem Lexical.word_before (h : Lexical isWord sought) (hleads : sought <+: s.drop i) :
    wordBefore isWord s (i + sought.length) = true := by
  have hpos : 0 < sought.length := by
    apply List.length_pos_of_ne_nil
    intro hnil
    rw [hnil] at h
    exact absurd h.1 (by simp)
  have hlast : sought.getLast? = some sought[sought.length - 1] := by
    rw [List.getLast?_eq_getElem?, List.getElem?_eq_getElem (by omega)]
  have hget : s[i + (sought.length - 1)]? = some sought[sought.length - 1] :=
    literal_get hleads (by omega)
  have hword := h.2
  rw [hlast] at hword
  rw [show i + sought.length = i + (sought.length - 1) + 1 by omega, wordBefore, wordAt, hget]
  exact hword

theorem Lexical.stands (h : Lexical isWord sought) :
    Stands isWord s sought i ↔ sought <+: s.drop i ∧ wordBefore isWord s i ≠ wordAt isWord s i ∧
      wordBefore isWord s (i + sought.length) ≠ wordAt isWord s (i + sought.length) := by
  constructor
  · rintro ⟨hleads, hbefore, hbehind⟩
    refine ⟨hleads, ?_, ?_⟩
    · rw [hbefore, h.word_at hleads]
      exact Bool.false_ne_true
    · rw [hbehind, h.word_before hleads]
      exact Bool.false_ne_true.symm
  · rintro ⟨hleads, hedge, hend⟩
    rw [h.word_at hleads] at hedge
    rw [h.word_before hleads] at hend
    exact ⟨hleads, by simpa using hedge, by simpa using hend.symm⟩

/-- Word boundaries around one of the words say that no word goes on beside it. -/
theorem leads_bounded {words : List (List α)} (h : ∀ sought ∈ words, Lexical isWord sought) :
    Leads isWord s (chain (.edge :: .oneOf words :: .edge :: rest)) i ↔
      ∃ sought ∈ words, Stands isWord s sought i ∧
        Leads isWord s (chain rest) (i + sought.length) := by
  rw [leads_edge, leads_one]
  constructor
  · rintro ⟨hedge, sought, hmem, hleads, hrest⟩
    rw [leads_edge] at hrest
    exact ⟨sought, hmem, (h sought hmem).stands.mpr ⟨hleads, hedge, hrest.1⟩, hrest.2⟩
  · rintro ⟨sought, hmem, hstands, hrest⟩
    obtain ⟨hleads, hedge, hend⟩ := (h sought hmem).stands.mp hstands
    exact ⟨hedge, sought, hmem, hleads, leads_edge.mpr ⟨hend, hrest⟩⟩

theorem Stands.start_le (h : Stands isWord s sought i) (hlexical : Lexical isWord sought) :
    i ≤ s.length := by
  have hword := hlexical.word_at h.leads
  by_contra hlong
  rw [wordAt, List.getElem?_eq_none (by omega)] at hword
  exact absurd hword (by simp)

theorem found_bounded {words : List (List α)} (h : ∀ sought ∈ words, Lexical isWord sought) :
    Found isWord s (chain (.edge :: .oneOf words :: .edge :: rest)) ↔
      ∃ i, ∃ sought ∈ words, Stands isWord s sought i ∧
        Leads isWord s (chain rest) (i + sought.length) := by
  simp only [Found, leads_bounded h]
  constructor
  · rintro ⟨i, _, hfound⟩
    exact ⟨i, hfound⟩
  · rintro ⟨i, sought, hmem, hstands, hrest⟩
    exact ⟨i, hstands.start_le (h sought hmem), sought, hmem, hstands, hrest⟩

end Matches

end Pattern
