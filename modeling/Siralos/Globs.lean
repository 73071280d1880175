import Siralos.NewFiles

/-!
# The language of a pattern

A pattern is read segment by segment. The matcher accepts the paths of its language, and the
scope report classifies by it.
-/

set_option autoImplicit false

namespace Siralos.NewFiles

open Chunks Text
open scoped Computability

/-- `[^/]*` for a star, every other character for itself. -/
def charLanguage (c : Char) : Language Char := if c = '*' then (letter '/')∗ else {[c]}

/-- `((?:[^/]+/)*)[^/]*` for two stars alone. -/
def segmentLanguage (segment : Text) : Language Char :=
  if segment = ['*', '*'] then chunks '/' else (segment.map charLanguage).prod

def joinedLanguage : List Text → Language Char
  | [] => 1
  | segment :: segments =>
    segmentLanguage segment * (segments.map fun next => {['/']} * segmentLanguage next).prod

def patternLanguage (pattern : Text) : Language Char :=
  if '*' ∈ pattern then joinedLanguage (pattern.splitOn '/') else {pattern}

def tokenLanguage : Token → Language Char
  | .lit c => {[c]}
  | .starNoSlash => (letter '/')∗
  | .doubleStar => chunks '/'

theorem windows_iff (chars : Text) :
    ((chars.zip chars.tail).all fun window => !(window.1 == '/' && window.2 == '/')) = true ↔
      chars.IsChain fun a b => ¬ (a = '/' ∧ b = '/') := by
  induction chars with
  | nil => exact ⟨fun _ => .nil, fun _ => rfl⟩
  | cons a chars ih =>
    cases chars with
    | nil => exact ⟨fun _ => .singleton a, fun _ => rfl⟩
    | cons b chars =>
      rw [List.tail_cons] at ih ⊢
      rw [List.zip_cons_cons, List.all_cons, Bool.and_eq_true, ih, List.isChain_cons_cons]
      simp only [Bool.not_eq_true', Bool.and_eq_false_iff, beq_eq_false_iff_ne, not_and_or]

theorem double_star_iff (chars : Text) :
    doubleStarValid chars = true ↔ chars ∈ chunks '/' := by
  rw [mem_chunks, Spaced]
  cases chars with
  | nil => exact ⟨fun _ => ⟨nofun, .nil⟩, fun _ => rfl⟩
  | cons first rest =>
    rw [doubleStarValid, Bool.and_eq_true, windows_iff, bne_iff_ne, List.head?_cons,
      ne_eq, ne_eq, Option.some.injEq]

theorem star_iff (part : Text) : part.all (· != '/') = true ↔ part ∈ (letter '/')∗ := by
  rw [mem_letters, List.all_eq_true]
  constructor
  · intro h hmem
    exact bne_iff_ne.mp (h _ hmem) rfl
  · intro h c hc
    exact bne_iff_ne.mpr fun heq => h (heq ▸ hc)

theorem match_from_iff (tokens : List Token) (chars : Text) :
    matchFrom tokens chars = true ↔ chars ∈ (tokens.map tokenLanguage).prod := by
  induction tokens generalizing chars with
  | nil =>
    rw [matchFrom, List.map_nil, List.prod_nil, Language.mem_one, List.isEmpty_iff]
  | cons token tokens ih =>
    rw [List.map_cons, List.prod_cons, Language.mem_mul]
    cases token with
    | lit expected =>
      cases chars with
      | nil =>
        constructor
        · intro h
          cases h
        · rintro ⟨front, rfl, rest, -, h⟩
          cases h
      | cons c rest =>
        rw [matchFrom, Bool.and_eq_true, beq_iff_eq, ih]
        constructor
        · rintro ⟨rfl, hrest⟩
          exact ⟨[c], rfl, rest, hrest, rfl⟩
        · rintro ⟨front, rfl, others, hothers, h⟩
          cases h
          exact ⟨rfl, hothers⟩
    | starNoSlash =>
      rw [matchFrom, any_cut_back, any_cut_iff]
      simp only [star_iff, ih]
      constructor
      · rintro ⟨front, rest, h, hfront, hrest⟩
        exact ⟨front, hfront, rest, hrest, h⟩
      · rintro ⟨front, hfront, rest, hrest, h⟩
        exact ⟨front, rest, h, hfront, hrest⟩
    | doubleStar =>
      rw [matchFrom, any_cut_iff]
      simp only [double_star_iff, ih]
      constructor
      · rintro ⟨front, rest, h, hfront, hrest⟩
        exact ⟨front, hfront, rest, hrest, h⟩
      · rintro ⟨front, hfront, rest, hrest, h⟩
        exact ⟨front, rest, h, hfront, hrest⟩

theorem segment_tokens (segment : Text) :
    ((segmentTokens segment).map tokenLanguage).prod = segmentLanguage segment := by
  by_cases hdouble : segment = ['*', '*']
  · subst hdouble
    exact mul_one _
  · have hbeq : (segment == ['*', '*']) = false := beq_eq_false_iff_ne.mpr hdouble
    rw [segmentTokens, hbeq, segmentLanguage, if_neg hdouble, if_neg Bool.false_ne_true,
      List.map_map]
    congr 2
    funext c
    by_cases hstar : c = '*'
    · subst hstar
      rfl
    · rw [Function.comp_apply, beq_eq_false_iff_ne.mpr hstar, charLanguage, if_neg hstar]
      rfl

theorem later_tokens (segments : List Text) (n : ℕ) :
    (((segments.zipIdx (n + 1)).flatMap fun (segment, index) =>
      (if index > 0 then [Token.lit '/'] else []) ++ segmentTokens segment).map
        tokenLanguage).prod =
      (segments.map fun next => {['/']} * segmentLanguage next).prod := by
  induction segments generalizing n with
  | nil => rfl
  | cons segment segments ih =>
    rw [List.zipIdx_cons, List.flatMap_cons, List.map_append, List.prod_append, ih,
      List.map_cons, List.prod_cons, List.map_append, List.prod_append, segment_tokens]
    show (List.map tokenLanguage [Token.lit '/']).prod * _ * _ = _
    rw [List.map_cons, List.map_nil, List.prod_singleton]
    rfl

theorem tokens_language (pattern : Text) :
    ((tokensOf pattern).map tokenLanguage).prod = joinedLanguage (pattern.splitOn '/') := by
  rw [tokensOf]
  cases pattern.splitOn '/' with
  | nil => rfl
  | cons segment segments =>
    rw [List.zipIdx_cons, List.flatMap_cons, List.map_append, List.prod_append, later_tokens]
    show (List.map tokenLanguage ([] ++ segmentTokens segment)).prod * _ = _
    rw [List.nil_append, segment_tokens]
    rfl

theorem path_matches_iff (path pattern : Text) :
    pathMatchesPattern path pattern = true ↔ path ∈ patternLanguage pattern := by
  rw [pathMatchesPattern, patternLanguage]
  by_cases hstar : '*' ∈ pattern
  · rw [List.contains_iff_mem.mpr hstar, if_pos hstar, ← tokens_language]
    exact match_from_iff _ _
  · have hfree : pattern.contains '*' = false := by
      rwa [Bool.eq_false_iff, ne_eq, List.contains_iff_mem]
    rw [hfree, if_neg hstar]
    exact beq_iff_eq

/-- Some planned pattern has the path in its language. -/
def Planned (planned : List Text) (path : Text) : Prop :=
  ∃ pattern ∈ planned, path ∈ patternLanguage pattern

theorem planned_iff (planned : List Text) (path : Text) :
    planned.any (pathMatchesPattern path) = true ↔ Planned planned path := by
  rw [List.any_eq_true]
  simp only [path_matches_iff]
  rfl

theorem validate_path_ok (path normalized : Text) :
    validatePath path = .ok normalized ↔
      normalized = trim path ∧ trim path ≠ [] ∧ utf8Len (trim path) ≤ maxPathBytes := by
  rw [validatePath]
  by_cases hempty : trim path = []
  · simp [hempty]
  · by_cases hlong : maxPathBytes < utf8Len (trim path)
    · simp [hempty, hlong]
    · have hfull : (trim path).isEmpty = false := by
        rwa [Bool.eq_false_iff, ne_eq, List.isEmpty_iff]
      simp only [hfull, Bool.false_eq_true, if_false, if_neg hlong, Except.ok.injEq]
      constructor
      · rintro rfl
        exact ⟨rfl, hempty, by omega⟩
      · rintro ⟨rfl, -⟩
        rfl

def entryOf (planned : List Text) (rationales : List NewFileRationale) (normalized : Text) :
    ScopeDiffEntry :=
  if planned.any (pathMatchesPattern normalized) then ⟨normalized, .expected, none⟩
  else
    match (rationales.find? (·.path == normalized)).map (·.reason) with
    | some rationale => ⟨normalized, .justifiedExpansion, some rationale⟩
    | none => ⟨normalized, .unexplainedExpansion, none⟩

structure Classified (planned : List Text) (rationales : List NewFileRationale)
    (entry : ScopeDiffEntry) : Prop where
  expected : entry.classification = .expected ↔ Planned planned entry.path
  justified : entry.classification = .justifiedExpansion ↔
    ¬ Planned planned entry.path ∧ ∃ rationale ∈ rationales, rationale.path = entry.path

theorem entry_of_path (planned : List Text) (rationales : List NewFileRationale)
    (normalized : Text) : (entryOf planned rationales normalized).path = normalized := by
  rw [entryOf]
  split
  · rfl
  · split
    · rfl
    · rfl

theorem entry_classified (planned : List Text) (rationales : List NewFileRationale)
    (normalized : Text) :
    Classified planned rationales (entryOf planned rationales normalized) := by
  have hplanned := planned_iff planned normalized
  rw [entryOf]
  by_cases hany : planned.any (pathMatchesPattern normalized) = true
  · rw [if_pos hany]
    have hmember := hplanned.mp hany
    exact ⟨⟨fun _ => hmember, fun _ => rfl⟩, ⟨nofun, fun h => absurd hmember h.1⟩⟩
  · rw [if_neg hany]
    have hnone : ¬ Planned planned normalized := fun h => hany (hplanned.mpr h)
    cases hfind : rationales.find? (·.path == normalized) with
    | some rationale =>
      have hpath := List.find?_some hfind
      have hmem := List.mem_of_find?_eq_some hfind
      exact ⟨⟨nofun, fun h => absurd h hnone⟩,
        ⟨fun _ => ⟨hnone, rationale, hmem, beq_iff_eq.mp hpath⟩, fun _ => rfl⟩⟩
    | none =>
      refine ⟨⟨nofun, fun h => absurd h hnone⟩, ⟨nofun, ?_⟩⟩
      rintro ⟨-, rationale, hmem, hpath⟩
      exact absurd (beq_iff_eq.mpr hpath) (List.find?_eq_none.mp hfind rationale hmem)

/-- The path among the unexplained ones, when it is. -/
def unexplainedOf (entry : ScopeDiffEntry) : List Text :=
  if entry.classification = .unexplainedExpansion then [entry.path] else []

theorem scope_diff_cons (planned : List Text) (rationales : List NewFileRationale)
    (entries : List ScopeDiffEntry) (unexplained : List Text) (path : Text) (paths : List Text) :
    scopeDiffFrom planned rationales entries unexplained (path :: paths) =
      (validatePath path >>= fun normalized =>
        scopeDiffFrom planned rationales (entries ++ [entryOf planned rationales normalized])
          (unexplained ++ unexplainedOf (entryOf planned rationales normalized)) paths) := by
  rw [scopeDiffFrom]
  congr 1
  funext normalized
  rw [entryOf]
  by_cases hany : planned.any (pathMatchesPattern normalized) = true
  · rw [if_pos hany, if_pos hany, unexplainedOf, if_neg nofun, List.append_nil]
  · rw [if_neg hany, if_neg hany]
    cases (rationales.find? (·.path == normalized)).map (·.reason) with
    | some rationale =>
      show scopeDiffFrom _ _ _ _ _ = scopeDiffFrom _ _ _ _ _
      rw [unexplainedOf, if_neg nofun, List.append_nil]
    | none => rfl

theorem scope_diff_ok (planned : List Text) (rationales : List NewFileRationale)
    (paths : List Text) (entries : List ScopeDiffEntry) (unexplained : List Text)
    (report : ScopeDiffReport) :
    scopeDiffFrom planned rationales entries unexplained paths = .ok report ↔
      (∀ path ∈ paths, trim path ≠ [] ∧ utf8Len (trim path) ≤ maxPathBytes) ∧
      report.entries = entries ++ paths.map (fun path => entryOf planned rationales (trim path)) ∧
      report.unexplained = unexplained ++
        paths.flatMap fun path => unexplainedOf (entryOf planned rationales (trim path)) := by
  induction paths generalizing entries unexplained with
  | nil =>
    rw [scopeDiffFrom, List.map_nil, List.flatMap_nil, List.append_nil, List.append_nil,
      Except.ok.injEq]
    constructor
    · rintro rfl
      exact ⟨nofun, rfl, rfl⟩
    · rintro ⟨-, rfl, rfl⟩
      rfl
  | cons path paths ih =>
    rw [scope_diff_cons, except_bind_ok]
    simp only [validate_path_ok, ih, List.map_cons, List.flatMap_cons, List.append_assoc,
      List.singleton_append, List.forall_mem_cons]
    constructor
    · rintro ⟨normalized, ⟨rfl, hpath⟩, hpaths, hentries, hunexplained⟩
      exact ⟨⟨hpath, hpaths⟩, hentries, hunexplained⟩
    · rintro ⟨⟨hpath, hpaths⟩, hentries, hunexplained⟩
      exact ⟨_, ⟨rfl, hpath⟩, hpaths, hentries, hunexplained⟩

theorem unexplained_filter (entries : List ScopeDiffEntry) :
    entries.flatMap unexplainedOf =
      (entries.filter fun entry => entry.classification = .unexplainedExpansion).map (·.path) := by
  induction entries with
  | nil => rfl
  | cons entry entries ih =>
    rw [List.flatMap_cons, ih, unexplainedOf]
    by_cases h : entry.classification = .unexplainedExpansion
    · rw [if_pos h, List.filter_cons_of_pos (by simpa using h)]
      rfl
    · rw [if_neg h, List.filter_cons_of_neg (by simpa using h)]
      rfl

/-- The matcher decides the language of the pattern, and the report classifies each changed
path, as it is after trimming, by the languages of the planned patterns. -/
theorem glob_semantics :
    (∀ path pattern, pathMatchesPattern path pattern = true ↔ path ∈ patternLanguage pattern) ∧
    ∀ input : EvaluateScopeDiffInput,
      ((∃ report, evaluateScopeDiff input = .ok report) ↔
        input.changedPaths.length ≤ maxDiffEntries ∧
          ∀ path ∈ input.changedPaths, trim path ≠ [] ∧ utf8Len (trim path) ≤ maxPathBytes) ∧
      ∀ report, evaluateScopeDiff input = .ok report →
        report.entries.map (·.path) = input.changedPaths.map trim ∧
        (∀ entry ∈ report.entries, Classified input.plannedPaths input.rationales entry) ∧
        report.unexplained = (report.entries.filter fun entry =>
          entry.classification = .unexplainedExpansion).map (·.path) := by
  refine ⟨path_matches_iff, ?_⟩
  intro input
  by_cases hmany : maxDiffEntries < input.changedPaths.length
  · rw [evaluateScopeDiff, if_pos hmany]
    refine ⟨⟨?_, ?_⟩, ?_⟩
    · rintro ⟨report, h⟩
      cases h
    · rintro ⟨hfew, -⟩
      omega
    · intro report h
      cases h
  · rw [evaluateScopeDiff, if_neg hmany]
    have hok := scope_diff_ok input.plannedPaths input.rationales input.changedPaths [] []
    refine ⟨⟨?_, ?_⟩, ?_⟩
    · rintro ⟨report, h⟩
      exact ⟨by omega, ((hok report).mp h).1⟩
    · rintro ⟨-, hpaths⟩
      exact ⟨⟨_, _⟩, (hok _).mpr ⟨hpaths, rfl, rfl⟩⟩
    · intro report h
      obtain ⟨-, hentries, hunexplained⟩ := (hok report).mp h
      rw [List.nil_append] at hentries hunexplained
      refine ⟨?_, ?_, ?_⟩
      · rw [hentries, List.map_map]
        apply List.map_congr_left
        intro path _
        exact entry_of_path _ _ _
      · intro entry hentry
        rw [hentries] at hentry
        obtain ⟨path, -, rfl⟩ := List.mem_map.mp hentry
        exact entry_classified _ _ _
      · rw [hunexplained, ← unexplained_filter, hentries, List.flatMap_map]

/-- Trimming comes before matching: a planned path is unexplained, one not planned is
expected. -/
theorem blanks_misclassify :
    [' ', 'a'] ∈ patternLanguage [' ', 'a'] ∧
    evaluateScopeDiff ⟨[[' ', 'a']], [[' ', 'a']], []⟩ =
      .ok ⟨[⟨['a'], .unexplainedExpansion, none⟩], [['a']]⟩ ∧
    ['a', ' '] ∉ patternLanguage ['a'] ∧
    evaluateScopeDiff ⟨[['a']], [['a', ' ']], []⟩ = .ok ⟨[⟨['a'], .expected, none⟩], []⟩ := by
  refine ⟨(path_matches_iff _ _).mp rfl, rfl, ?_, rfl⟩
  rw [← path_matches_iff]
  decide

end Siralos.NewFiles
