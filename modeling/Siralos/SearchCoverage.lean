import Siralos.Findable
import Siralos.RedactionForms
import Siralos.SearchSkips

/-!
# Sound and complete search

Every match is a line of an eligible file that holds the query, and a search that is not truncated
reports each such line once. Files whose names are not UTF-8 have no path to report.
-/

set_option autoImplicit false

namespace Siralos.Inspection

open Workspace Checkpoint

/-- What stands before the first occurrence of the query. -/
structure FirstAt (line query before : Text) : Prop where
  occurs : before ++ query <+: line
  first : ∀ earlier, earlier ++ query <+: line → before.length ≤ earlier.length

/-- The longest beginning of the line within a budget of UTF-16 code units. -/
structure Cut (limit : ℕ) (line text : Text) : Prop where
  leads : text <+: line
  fits : utf16Len text ≤ limit
  longest : ∀ other, other <+: line → utf16Len other ≤ limit → other <+: text

variable {query line text before : Text} {limit : ℕ}

theorem first_at_head (h : query <+: line) : FirstAt line query before ↔ before = [] := by
  constructor
  · intro hfirst
    exact List.length_eq_zero_iff.mp (Nat.le_zero.mp (hfirst.first [] h))
  · rintro rfl
    exact ⟨h, fun _ _ => Nat.zero_le _⟩

theorem first_at_cons (c : Char) (h : ¬ query <+: c :: line) :
    FirstAt (c :: line) query before ↔ ∃ later, before = c :: later ∧ FirstAt line query later := by
  constructor
  · intro hfirst
    cases before with
    | nil => exact absurd hfirst.occurs h
    | cons d later =>
      obtain ⟨rfl, hoccurs⟩ := List.cons_prefix_cons.mp hfirst.occurs
      refine ⟨later, rfl, hoccurs, ?_⟩
      intro earlier hearlier
      have hlength := hfirst.first (d :: earlier) (List.cons_prefix_cons.mpr ⟨rfl, hearlier⟩)
      exact Nat.le_of_succ_le_succ hlength
  · rintro ⟨later, rfl, hfirst⟩
    refine ⟨List.cons_prefix_cons.mpr ⟨rfl, hfirst.occurs⟩, ?_⟩
    intro earlier hearlier
    cases earlier with
    | nil => exact absurd hearlier h
    | cons d earlier =>
      exact Nat.succ_le_succ (hfirst.first earlier (List.cons_prefix_cons.mp hearlier).2)

theorem find_prefix_iff : findPrefix query line = some before ↔ FirstAt line query before := by
  induction line generalizing before with
  | nil =>
    rw [findPrefix]
    by_cases hquery : query = []
    · rw [if_pos hquery, Option.some.injEq, first_at_head (by rw [hquery])]
      exact eq_comm
    · rw [if_neg hquery]
      constructor
      · intro h
        cases h
      · intro hfirst
        have hnil := List.prefix_nil.mp hfirst.occurs
        exact absurd (List.append_eq_nil_iff.mp hnil).2 hquery
  | cons c line ih =>
    rw [findPrefix]
    by_cases hhead : query <+: c :: line
    · rw [if_pos (List.isPrefixOf_iff_prefix.mpr hhead), Option.some.injEq, first_at_head hhead]
      exact eq_comm
    · rw [if_neg (by rwa [List.isPrefixOf_iff_prefix]), Option.map_eq_some_iff,
        first_at_cons c hhead]
      constructor
      · rintro ⟨later, hlater, rfl⟩
        exact ⟨later, rfl, ih.mp hlater⟩
      · rintro ⟨later, rfl, hlater⟩
        exact ⟨later, ih.mpr hlater, rfl⟩

theorem utf16_index_iff {column : ℕ} : utf16IndexOf line query = some column ↔
    ∃ before, FirstAt line query before ∧ column = utf16Len before := by
  have hfind : utf16IndexOf line query = (findPrefix query line).map utf16Len := by
    rw [utf16IndexOf]
    by_cases hquery : query = []
    · have hnil : findPrefix query line = some [] :=
        find_prefix_iff.mpr ((first_at_head (by rw [hquery]; exact List.nil_prefix)).mpr rfl)
      rw [if_pos hquery, hnil]
      rfl
    · rw [if_neg hquery]
  rw [hfind, Option.map_eq_some_iff]
  constructor
  · rintro ⟨before, hfound, rfl⟩
    exact ⟨before, find_prefix_iff.mp hfound, rfl⟩
  · rintro ⟨before, hfirst, rfl⟩
    exact ⟨before, find_prefix_iff.mpr hfirst, rfl⟩

theorem utf16_len_cons (c : Char) (text : Text) :
    utf16Len (c :: text) = lenUtf16 c + utf16Len text := by
  rw [utf16Len, List.map_cons, List.sum_cons]
  rfl

theorem slice_cut (limit : ℕ) (line : Text) : Cut limit line (utf16Slice limit line) := by
  induction line generalizing limit with
  | nil =>
    rw [utf16Slice]
    exact ⟨List.prefix_rfl, Nat.zero_le _, fun other hother _ => hother⟩
  | cons c line ih =>
    rw [utf16Slice]
    by_cases hwide : limit < lenUtf16 c
    · rw [if_pos hwide]
      refine ⟨List.nil_prefix, Nat.zero_le _, ?_⟩
      intro other hother hfits
      cases other with
      | nil => exact List.nil_prefix
      | cons d other =>
        obtain ⟨rfl, -⟩ := List.cons_prefix_cons.mp hother
        rw [utf16_len_cons] at hfits
        omega
    · rw [if_neg hwide]
      obtain ⟨hleads, hfits, hlongest⟩ := ih (limit - lenUtf16 c)
      refine ⟨List.cons_prefix_cons.mpr ⟨rfl, hleads⟩, ?_, ?_⟩
      · rw [utf16_len_cons]
        omega
      · intro other hother hbudget
        cases other with
        | nil => exact List.nil_prefix
        | cons d other =>
          obtain ⟨rfl, hrest⟩ := List.cons_prefix_cons.mp hother
          rw [utf16_len_cons] at hbudget
          exact List.cons_prefix_cons.mpr ⟨rfl, hlongest other hrest (by omega)⟩

theorem Cut.unique {other : Text} (h : Cut limit line text) (hother : Cut limit line other) :
    text = other :=
  (hother.longest text h.leads h.fits).eq_of_length_le
    (h.longest other hother.leads hother.fits).length_le

theorem nul_within_iff (count : ℕ) (text : Text) : nulWithin count text = true ↔
    (0 : UInt8) ∈ (text.flatMap String.utf8EncodeChar).take count := by
  induction text generalizing count with
  | nil => simp [nulWithin]
  | cons c text ih =>
    rw [nulWithin, List.flatMap_cons, List.take_append, List.mem_append]
    by_cases hcount : count = 0
    · simp [hcount]
    · rw [if_neg hcount, Bool.or_eq_true, ih, String.length_utf8EncodeChar, beq_iff_eq]
      refine or_congr_left ?_
      constructor
      · rintro rfl
        obtain ⟨n, rfl⟩ := Nat.exists_eq_succ_of_ne_zero hcount
        rw [show String.utf8EncodeChar nul = [0] by decide, List.take_succ_cons]
        exact List.mem_cons_self
      · intro hzero
        obtain ⟨-, hvalue⟩ := Redaction.ascii_byte (List.mem_of_mem_take hzero) (by decide)
        rw [← Char.ofNat_toNat c, hvalue]
        rfl

section Eligible

variable (folding : Folding) (tree : WorkspaceTree) (limits : InspectionLimits)

/-- A regular file that no link leads to, neither excluded nor protected, within the size bound and
text. -/
structure EligibleFile (names : List Text) (text : Text) : Prop where
  regular : tree.fs.node (tree.root ++ names) = some (.file (.text text))
  resolved : Resolved tree.fs.node (tree.root ++ names)
  included : ∀ name ∈ names, isExcludedName folding name = false
  visible : isModelProtected folding (joinNames names) = false
  small : (FileBytes.text text).length ≤ limits.maxSearchFileSizeBytes
  plain : (0 : UInt8) ∉ (text.flatMap String.utf8EncodeChar).take 8192

structure MatchOf (query : Text) (names : List Text) (text : Text) (line before : Text)
    (found : SearchMatch) : Prop where
  path : found.path = joinNames names
  stands : 1 ≤ found.line ∧ (splitIntoLines text)[found.line - 1]? = some line
  holds : FirstAt line query before
  column : found.column = utf16Len before + 1
  shown : Cut limits.maxSearchLineLengthChars line found.text

def EligibleMatch (query : Text) (names : List Text) (found : SearchMatch) : Prop :=
  ∃ text line before, EligibleFile folding tree limits names text ∧
    MatchOf limits query names text line before found

end Eligible

variable {folding : Folding} {tree : WorkspaceTree} {input : SearchInput}
  {limits : InspectionLimits} {control : SearchControl} {names : List Text} {found : SearchMatch}

theorem searched_iff :
    Searched folding tree limits names text ↔ EligibleFile folding tree limits names text := by
  have hbinary : looksBinary (.text text) = false ↔
      (0 : UInt8) ∉ (text.flatMap String.utf8EncodeChar).take 8192 := by
    rw [← nul_within_iff, looksBinary]
    simp
  constructor
  · rintro ⟨hshown, hsmall, hplain⟩
    exact ⟨hshown.file, hshown.resolved, hshown.included, hshown.visible, hsmall,
      hbinary.mp hplain⟩
  · intro h
    have hne : names ≠ [] := by
      rintro rfl
      have hroot := h.regular
      rw [List.append_nil, tree.opened.directories tree.root List.prefix_rfl] at hroot
      cases hroot
    exact ⟨⟨hne, h.resolved, h.regular, h.included, h.visible⟩, h.small, hbinary.mpr h.plain⟩

theorem matched_in_iff : MatchedIn input limits names text found ↔
    ∃ line before, MatchOf limits input.query names text line before found := by
  constructor
  · rintro ⟨index, column, line, hline, hcolumn, rfl⟩
    obtain ⟨before, hfirst, rfl⟩ := utf16_index_iff.mp hcolumn
    exact ⟨line, before, rfl, ⟨Nat.le_add_left 1 index, hline⟩, hfirst, rfl, slice_cut _ _⟩
  · rintro ⟨line, before, hpath, ⟨hpositive, hline⟩, hfirst, hcolumn, hcut⟩
    refine ⟨found.line - 1, utf16Len before, line, hline, utf16_index_iff.mpr ⟨before, hfirst, rfl⟩,
      ?_⟩
    rw [← hpath, ← hcolumn, Nat.sub_add_cancel hpositive, (slice_cut _ _).unique hcut]

theorem found_at_iff : FoundAt folding tree input limits names found ↔
    EligibleMatch folding tree limits input.query names found := by
  constructor
  · rintro ⟨text, hfile, hmatched⟩
    obtain ⟨line, before, hmatch⟩ := matched_in_iff.mp hmatched
    exact ⟨text, line, before, searched_iff.mp hfile, hmatch⟩
  · rintro ⟨text, line, before, hfile, hmatch⟩
    exact ⟨text, searched_iff.mpr hfile, matched_in_iff.mpr ⟨line, before, hmatch⟩⟩

theorem before_nodup {matched : List SearchMatch} (h : matched.Pairwise Before) : matched.Nodup := by
  refine h.imp ?_
  rintro a b hbefore rfl
  rcases hbefore with hpath | ⟨-, hline⟩
  · have hsame : compare a.path a.path = .eq := Std.ReflCmp.compare_self
    rw [hsame] at hpath
    cases hpath
  · exact Nat.lt_irrefl _ hline

theorem search_covers (folding : Folding) (tree : WorkspaceTree) (enumeration : Enumeration tree)
    (input : SearchInput) (limits : InspectionLimits) (control : SearchControl) {path query : Text}
    {matched : List SearchMatch} {scannedFiles skippedFiles : ℕ} {truncated : Bool}
    {reason : Option TruncationReason}
    (h : searchEntries folding tree enumeration.entries input limits control =
      .success query path matched scannedFiles skippedFiles truncated reason) :
    ∃ start, resolveWorkspacePath tree.fs tree.root input.path = .ok ⟨path, tree.root ++ start⟩ ∧
      (∀ found ∈ matched, ∃ names, start <+: names ∧
        EligibleMatch folding tree limits input.query names found) ∧
      matched.Pairwise Before ∧
      (truncated = false → ∀ names found, start <+: names →
        EligibleMatch folding tree limits input.query names found → matched.count found = 1) ∧
      (truncated = false → ∃ visited foreign, foreign ≤ skippedFiles ∧
        WentInto folding tree enumeration.entries [⟨tree.root ++ start, path, 0⟩] visited
          foreign) := by
  obtain ⟨start, hreported⟩ := search_reports enumeration h
  refine ⟨start, hreported.resolves, ?_, hreported.increasing, ?_, ?_⟩
  · intro found hfound
    obtain ⟨names, hbelow, hat⟩ := hreported.located found hfound
    exact ⟨names, hbelow, found_at_iff.mp hat⟩
  · intro hwhole names found hbelow heligible
    have hmem := hreported.complete hwhole names found hbelow (found_at_iff.mpr heligible)
    exact List.count_eq_one_of_mem (before_nodup hreported.increasing) hmem
  · rintro rfl
    obtain ⟨directory, visited, foreign, hskipped, hresolve, hwent⟩ := search_skips h
    rw [hreported.resolves] at hresolve
    cases hresolve
    exact ⟨visited, foreign, hskipped, hwent⟩

def SearchControl.idle : SearchControl := ⟨fun _ => false, fun _ => false⟩

/-- The names of a directory, and before those of one directory an entry whose name is not UTF-8. -/
def WorkspaceTree.enumerateForeign (tree : WorkspaceTree) (foreign : Path) (raw : List UInt8)
    (node : Node) : Enumeration tree where
  entries directory := (tree.enumerate.entries directory).map fun listed =>
    if directory = foreign then .foreign raw node :: listed else listed
  directories directory listed h := by
    obtain ⟨names, hnames, -⟩ := Option.map_eq_some_iff.mp h
    exact tree.enumerate.directories directory names hnames
  named directory listed h name := by
    obtain ⟨names, hnames, rfl⟩ := Option.map_eq_some_iff.mp h
    rw [← tree.enumerate.named directory names hnames name]
    split
    · simp
    · rfl
  distinct directory listed h := by
    obtain ⟨names, hnames, rfl⟩ := Option.map_eq_some_iff.mp h
    have hdistinct := tree.enumerate.distinct directory names hnames
    split
    · refine List.nodup_cons.mpr ⟨?_, hdistinct⟩
      obtain ⟨texts, -, rfl⟩ := Option.map_eq_some_iff.mp hnames
      simp
    · exact hdistinct

def linesNodes : List (Path × Node) :=
  [(["w"], .directory), (["w", "a"], .file (.text "x\nyx")), (["w", "b"], .directory),
    (["w", "b", "c"], .file (.text "zx"))]

def linesTree : WorkspaceTree :=
  .ofNodes linesNodes ["w"] (opened_single linesNodes "w" (by decide) (by decide)) (by decide)

def linesMatched : List SearchMatch :=
  [⟨"a", 1, 1, "x"⟩, ⟨"a", 2, 2, "yx"⟩, ⟨"b/c", 1, 2, "zx"⟩]

theorem search_covers_sample :
    ∃ start, resolveWorkspacePath linesTree.fs linesTree.root "." =
        .ok ⟨".", linesTree.root ++ start⟩ ∧
      (∀ names found, start <+: names →
        EligibleMatch Folding.plain linesTree workspaceLimits "x" names found →
          linesMatched.count found = 1) ∧
      ∃ visited foreign, foreign ≤ 1 ∧ WentInto Folding.plain linesTree
        (linesTree.enumerateForeign ["w"] [0xFF] (.file (.text "x"))).entries
        [⟨linesTree.root ++ start, ".", 0⟩] visited foreign := by
  obtain ⟨start, hresolve, -, -, hcomplete, hskips⟩ := search_covers Folding.plain linesTree
    (linesTree.enumerateForeign ["w"] [0xFF] (.file (.text "x"))) ⟨"x", ".", 10⟩ workspaceLimits
    .idle (by decide +kernel : _ = SearchOutcome.success "x" "." linesMatched 2 1 false none)
  exact ⟨start, hresolve, hcomplete rfl, hskips rfl⟩

def emptyTree : WorkspaceTree :=
  .ofNodes [(["w"], .directory)] ["w"] (opened_single _ "w" (by decide) (by decide)) (by decide)

/-- The one entry of the directory is a file whose name is not UTF-8. -/
def foreignEnumeration : Enumeration emptyTree :=
  emptyTree.enumerateForeign ["w"] [0xFF] (.file (.text "x"))

/-- Its lines are not reported, and the search is not truncated. -/
theorem foreign_file_left_out :
    ¬ ∀ (tree : WorkspaceTree) (enumeration : Enumeration tree) (input : SearchInput)
      (limits : InspectionLimits) (control : SearchControl) path query matched scannedFiles
      skippedFiles reason, searchEntries Folding.plain tree enumeration.entries input limits
          control = .success query path matched scannedFiles skippedFiles false reason →
        ∀ directory listed raw text line before,
          resolveWorkspacePath tree.fs tree.root input.path = .ok ⟨path, directory⟩ →
          enumeration.entries directory = some listed →
          .foreign raw (.file (.text text)) ∈ listed →
          (FileBytes.text text).length ≤ limits.maxSearchFileSizeBytes →
          (0 : UInt8) ∉ (text.flatMap String.utf8EncodeChar).take 8192 →
          line ∈ splitIntoLines text → FirstAt line input.query before →
            ∃ found ∈ matched, Cut limits.maxSearchLineLengthChars line found.text := by
  intro hclaim
  have hfirst : FirstAt "x".toList "x".toList [] :=
    ⟨List.prefix_rfl, fun _ _ => Nat.zero_le _⟩
  obtain ⟨found, hfound, -⟩ := hclaim emptyTree foreignEnumeration ⟨"x", ".", 10⟩ workspaceLimits
    .idle "." "x" [] 0 1 none (by decide +kernel) ["w"] _ [0xFF] "x" "x" [] (by decide +kernel) rfl
    List.mem_cons_self (by decide) (by decide +kernel) (by decide) hfirst
  cases hfound

end Siralos.Inspection
