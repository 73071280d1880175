import Siralos.WorkspacePath

/-!
# Containment of reference paths

A reference must stay outside the workspace. The check compares normalized path strings; it is
component containment except at root directories, for relative inputs and for UNC paths.
-/

set_option autoImplicit false

namespace Siralos.References

open Workspace (isSeparator joinComponent joinNames)

section Check

/-- The Unicode lower case of the standard library. A slash ends the context of every letter. -/
structure LowerCase where
  toLowercase : Text → Text
  joins : ∀ a b, toLowercase (a ++ '/' :: b) = toLowercase a ++ '/' :: toLowercase b
  slashless : ∀ a, '/' ∉ a → '/' ∉ toLowercase a
  nil_iff : ∀ a, toLowercase a = [] ↔ a = []

/-- `path.replace('\\', "/")` -/
def slashed (path : Text) : Text := path.map fun c => if c = '\\' then '/' else c

def collapseSlashes : Bool → Text → Text
  | _, [] => []
  | lastWasSlash, c :: rest =>
    if c = '/' then
      if lastWasSlash then collapseSlashes true rest else '/' :: collapseSlashes true rest
    else c :: collapseSlashes false rest

/-- The segments of a body: empty and `.` segments are dropped, `..` takes one back. -/
def resolveSegments (body : Text) : List Text := (body.splitOn '/').foldl joinComponent []

def hasDrive : Text → Bool
  | letter :: colon :: _ => letter.isAlpha && colon == ':'
  | _ => false

def normalizeAbsolutePath (path : Text) : Text :=
  let collapsed := collapseSlashes false (slashed path)
  if hasDrive collapsed then
    collapsed.take 2 ++ '/' :: joinNames (resolveSegments (collapsed.drop 2))
  else
    match Text.stripPrefix ['/', '/'] collapsed with
    | some body => '/' :: '/' :: joinNames (resolveSegments body)
    | none => '/' :: joinNames (resolveSegments collapsed)

def isDriveForm : Text → Bool
  | letter :: colon :: slash :: _ => letter.isAlpha && colon == ':' && slash == '/'
  | _ => false

def isWindowsForm (path : Text) : Bool := isDriveForm path || Text.startsWith ['/', '/'] path

def isAbsoluteForm (path : Text) : Bool := Text.startsWith ['/'] path || isWindowsForm path

def samePrefix (root target : Text) : Bool :=
  target == root || Text.startsWith (root ++ ['/']) target

def isPathWithin (lower : LowerCase) (root target : Text) : Bool :=
  let rootNorm := normalizeAbsolutePath root
  let targetNorm := normalizeAbsolutePath target
  if !isAbsoluteForm rootNorm || !isAbsoluteForm targetNorm then false
  else if isWindowsForm rootNorm && isWindowsForm targetNorm then
    samePrefix (lower.toLowercase rootNorm) (lower.toLowercase targetNorm)
  else samePrefix rootNorm targetNorm

end Check

section Containment

inductive PathForm where
  | posix
  | drive
  | unc
  deriving DecidableEq, Repr

def isDriveAbsolute : Text → Bool
  | letter :: colon :: separator :: _ => letter.isAlpha && colon == ':' && isSeparator separator
  | _ => false

/-- A server, a separator and something behind it. -/
def isUncAbsolute (path : Text) : Bool :=
  match Text.stripPrefix ['\\', '\\'] path with
  | some rest => (rest.findIdx? isSeparator).any fun index =>
      decide (0 < index ∧ index + 1 < rest.length)
  | none => false

def isAbsolutePath (path : Text) : Bool :=
  Text.startsWith ['/'] path || isDriveAbsolute path || isUncAbsolute path

/-- Which of the three absolute forms a path has. -/
def formOf (path : Text) : Option PathForm :=
  if Text.startsWith ['/'] path then some .posix
  else if isDriveAbsolute path then some .drive
  else if isUncAbsolute path then some .unc
  else none

def driveOf (path : Text) : Text := if hasDrive path then path.take 2 else []

def componentsOf (path : Text) : List Text :=
  resolveSegments (slashed (if hasDrive path then path.drop 2 else path))

def folded (lower : LowerCase) : PathForm → List Text → List Text
  | .posix, components => components
  | .drive, components => components.map lower.toLowercase
  | .unc, components => components.map lower.toLowercase

/-- The target is the root or below it, both absolute of one form. -/
def Contained (lower : LowerCase) (root target : Text) : Prop :=
  ∃ form, formOf root = some form ∧ formOf target = some form ∧
    folded lower form [driveOf root] = folded lower form [driveOf target] ∧
      folded lower form (componentsOf root) <+: folded lower form (componentsOf target)

/-- The reading of any two inputs as rooted paths. -/
structure Rooted (lower : LowerCase) (root target : Text) : Prop where
  drive : if hasDrive root && hasDrive target then
      lower.toLowercase (driveOf root) = lower.toLowercase (driveOf target)
    else driveOf root = driveOf target
  components : if hasDrive root && hasDrive target then
      (componentsOf root).map lower.toLowercase <+: (componentsOf target).map lower.toLowercase
    else componentsOf root <+: componentsOf target
  top : componentsOf root = [] → componentsOf target = []

end Containment

section Normalized

theorem collapse_words (path : Text) :
    (∃ head tail tail', path.splitOn '/' = head :: tail ∧
      (collapseSlashes false path).splitOn '/' = head :: tail' ∧
      tail'.filter (· ≠ []) = tail.filter (· ≠ [])) ∧
    ((collapseSlashes true path).splitOn '/').filter (· ≠ []) =
      (path.splitOn '/').filter (· ≠ []) := by
  induction path with
  | nil => exact ⟨⟨[], [], [], rfl, rfl, rfl⟩, rfl⟩
  | cons c path ih =>
    obtain ⟨⟨head, tail, tail', hsplit, hcollapsed, htails⟩, htrue⟩ := ih
    by_cases hc : c = '/'
    · subst hc
      have hslash : ∀ rest : Text, ('/' :: rest).splitOn '/' = [] :: rest.splitOn '/' := by
        intro rest
        rw [List.splitOn_cons_eq_if_modifyHead]
        rfl
      constructor
      · refine ⟨[], path.splitOn '/', (collapseSlashes true path).splitOn '/', hslash path, ?_,
          htrue⟩
        exact hslash _
      · rw [hslash]
        exact htrue
    · have hletter : ∀ rest : Text, (c :: rest).splitOn '/' =
          (rest.splitOn '/').modifyHead (List.cons c) := by
        intro rest
        rw [List.splitOn_cons_eq_if_modifyHead, if_neg (by simpa using hc)]
      have hfirst : ∀ b, collapseSlashes b (c :: path) = c :: collapseSlashes false path := by
        intro b
        rw [collapseSlashes, if_neg hc]
      constructor
      · refine ⟨c :: head, tail, tail', ?_, ?_, htails⟩
        · rw [hletter, hsplit]
          rfl
        · rw [hfirst, hletter, hcollapsed]
          rfl
      · rw [hfirst, hletter, hletter, hsplit, hcollapsed, List.modifyHead_cons,
          List.modifyHead_cons, List.filter_cons_of_pos (by simp),
          List.filter_cons_of_pos (by simp), htails]

theorem fold_words (out : List Text) (segments : List Text) :
    segments.foldl joinComponent out = (segments.filter (· ≠ [])).foldl joinComponent out := by
  induction segments generalizing out with
  | nil => rfl
  | cons segment segments ih =>
    by_cases hsegment : segment = []
    · subst hsegment
      rw [List.filter_cons_of_neg (by simp), ← ih]
      rfl
    · rw [List.filter_cons_of_pos (by simpa using hsegment)]
      exact ih _

theorem collapse_segments (path : Text) :
    resolveSegments (collapseSlashes false path) = resolveSegments path := by
  obtain ⟨head, tail, tail', hsplit, hcollapsed, htails⟩ := (collapse_words path).1
  rw [resolveSegments, resolveSegments, hsplit, hcollapsed, List.foldl_cons, List.foldl_cons,
    fold_words _ tail, fold_words _ tail', htails]

theorem collapse_true_head (path rest : Text) : collapseSlashes true path ≠ '/' :: rest := by
  induction path with
  | nil => nofun
  | cons c path ih =>
    rw [collapseSlashes]
    by_cases hc : c = '/'
    · rw [if_pos hc]
      exact ih
    · rw [if_neg hc]
      exact fun h => hc (List.cons.inj h).1

/-- Slashes are collapsed before the UNC prefix is looked for, so it is never found. -/
theorem collapse_no_unc (path : Text) :
    Text.stripPrefix ['/', '/'] (collapseSlashes false path) = none := by
  cases hstrip : Text.stripPrefix ['/', '/'] (collapseSlashes false path) with
  | none => rfl
  | some rest =>
    exfalso
    have hpath := (Text.strip_prefix_some _ _ _).mp hstrip
    cases path with
    | nil => cases hpath
    | cons c path =>
      rw [collapseSlashes] at hpath
      by_cases hc : c = '/'
      · rw [if_pos hc] at hpath
        exact collapse_true_head path rest (List.cons.inj hpath).2
      · rw [if_neg hc] at hpath
        exact hc (List.cons.inj hpath).1

theorem slashed_drive (path : Text) (h : hasDrive path = true) :
    ∃ letter rest, path = letter :: ':' :: rest ∧ letter.isAlpha = true ∧
      collapseSlashes false (slashed path) =
        letter :: ':' :: collapseSlashes false (slashed rest) := by
  cases path with
  | nil => cases h
  | cons letter path =>
    cases path with
    | nil => cases h
    | cons colon rest =>
      simp only [hasDrive, Bool.and_eq_true, beq_iff_eq] at h
      obtain ⟨halpha, rfl⟩ := h
      have hslash : letter ≠ '/' := by
        rintro rfl
        exact absurd halpha (by decide)
      have hback : letter ≠ '\\' := by
        rintro rfl
        exact absurd halpha (by decide)
      refine ⟨letter, rest, rfl, halpha, ?_⟩
      rw [slashed, List.map_cons, List.map_cons, if_neg hback, if_neg (by decide), collapseSlashes,
        if_neg hslash, collapseSlashes, if_neg (by decide)]
      rfl

theorem slashed_no_drive (path : Text) (h : hasDrive path = false) :
    hasDrive (collapseSlashes false (slashed path)) = false := by
  cases path with
  | nil => rfl
  | cons letter path =>
    rw [slashed, List.map_cons, collapseSlashes]
    by_cases hletter : (if letter = '\\' then '/' else letter) = '/'
    · rw [if_pos hletter]
      cases collapseSlashes true (path.map fun c => if c = '\\' then '/' else c) <;> rfl
    · rw [if_neg hletter]
      have hsame : (if letter = '\\' then '/' else letter) = letter := by
        by_cases hback : letter = '\\'
        · exact absurd (if_pos hback) hletter
        · exact if_neg hback
      rw [hsame]
      cases path with
      | nil => rfl
      | cons colon rest =>
        rw [List.map_cons, collapseSlashes]
        by_cases hcolon : (if colon = '\\' then '/' else colon) = '/'
        · rw [if_pos hcolon]
          show (letter.isAlpha && ('/' : Char) == ':') = false
          exact Bool.and_false _
        · have hsecond : (if colon = '\\' then '/' else colon) = colon := by
            by_cases hback : colon = '\\'
            · exact absurd (if_pos hback) hcolon
            · exact if_neg hback
          rw [if_neg hcolon, hsecond]
          exact h

def rooted (drive : Text) (components : List Text) : Text := drive ++ '/' :: joinNames components

theorem normalize_rooted (path : Text) :
    normalizeAbsolutePath path = rooted (driveOf path) (componentsOf path) := by
  unfold normalizeAbsolutePath rooted driveOf componentsOf
  dsimp only
  by_cases hdrive : hasDrive path = true
  · obtain ⟨letter, rest, rfl, halpha, hcollapsed⟩ := slashed_drive path hdrive
    have hkept : hasDrive (letter :: ':' :: collapseSlashes false (slashed rest)) = true := by
      simp [hasDrive, halpha]
    rw [hcollapsed, if_pos hkept, if_pos hdrive, if_pos hdrive]
    show [letter, ':'] ++ '/' :: joinNames (resolveSegments (collapseSlashes false (slashed rest))) =
      [letter, ':'] ++ '/' :: joinNames (resolveSegments (slashed rest))
    rw [collapse_segments]
  · have hnone : hasDrive path = false := by simpa using hdrive
    rw [if_neg (by rw [slashed_no_drive path hnone]; decide), if_neg hdrive, if_neg hdrive,
      collapse_no_unc, collapse_segments]
    rfl

def Solid (component : Text) : Prop := component ≠ [] ∧ '/' ∉ component

theorem fold_solid (segments out : List Text) (hsegments : ∀ segment ∈ segments, '/' ∉ segment)
    (hout : ∀ component ∈ out, Solid component) :
    ∀ component ∈ segments.foldl joinComponent out, Solid component := by
  induction segments generalizing out with
  | nil => exact hout
  | cons segment segments ih =>
    apply ih _ fun other hother => hsegments other (List.mem_cons_of_mem _ hother)
    rw [joinComponent]
    split_ifs with hskip hback
    · exact hout
    · exact fun component hmem => hout component (List.mem_of_mem_dropLast hmem)
    · intro component hmem
      rcases List.mem_append.mp hmem with hmem | hmem
      · exact hout component hmem
      · rw [List.mem_singleton.mp hmem]
        exact ⟨fun hnil => hskip (Or.inl hnil), hsegments segment List.mem_cons_self⟩

theorem components_solid (path : Text) : ∀ component ∈ componentsOf path, Solid component := by
  apply fold_solid
  · intro segment hsegment hslash
    rw [List.splitOn_eq_splitOnP] at hsegment
    have hnot := (Splitting.mem_split_on _ _ segment hsegment '/' hslash).1
    exact absurd hnot (by decide)
  · exact fun component hmem => absurd hmem List.not_mem_nil

end Normalized

section Strings

/-- The components of a path string, with an empty one where nothing is below the root. -/
def named (drive : Text) (components : List Text) : List Text :=
  drive :: (if components = [] then [[]] else components)

theorem join_named (drive : Text) (components : List Text) :
    joinNames (named drive components) = rooted drive components := by
  rw [named, Workspace.join_cons _ _ (by split_ifs with h <;> simp [h]), rooted]
  by_cases h : components = []
  · subst h
    rfl
  · rw [if_neg h]

theorem split_rooted (drive : Text) (components : List Text) (hdrive : '/' ∉ drive)
    (hsolid : ∀ component ∈ components, Solid component) :
    (rooted drive components).splitOn '/' = named drive components := by
  rw [← join_named, List.splitOn_eq_splitOnP]
  apply Workspace.split_join
  · rfl
  · intro name hname c hc
    have hslash : '/' ∉ name := by
      rcases List.mem_cons.mp hname with rfl | hname
      · exact hdrive
      · split_ifs at hname with hnil
        · rw [List.mem_singleton.mp hname]
          exact List.not_mem_nil
        · exact (hsolid name hname).2
    rw [beq_eq_false_iff_ne]
    rintro rfl
    exact hslash hc
  · exact List.cons_ne_nil _ _

theorem join_append (names more : List Text) (hnames : names ≠ []) (hmore : more ≠ []) :
    joinNames (names ++ more) = joinNames names ++ '/' :: joinNames more := by
  induction names with
  | nil => exact absurd rfl hnames
  | cons name names ih =>
    by_cases hrest : names = []
    · subst hrest
      rw [List.singleton_append, Workspace.join_cons name more hmore]
      simp [joinNames]
    · rw [List.cons_append, Workspace.join_cons name (names ++ more) (by simp [hrest]), ih hrest,
        Workspace.join_cons name names hrest, List.append_assoc, List.cons_append]

theorem named_prefix (drive drive' : Text) (components components' : List Text)
    (hfirst : ∀ component ∈ components, Solid component)
    (hsolid : ∀ component ∈ components', Solid component) :
    named drive components <+: named drive' components' ↔
      drive = drive' ∧ components <+: components' ∧ (components = [] → components' = []) := by
  rw [named, named, List.cons_prefix_cons]
  apply and_congr_right
  intro hdrive
  by_cases h : components = []
  · subst h
    rw [if_pos rfl]
    by_cases h' : components' = []
    · subst h'
      simp
    · rw [if_neg h']
      refine iff_of_false ?_ fun hall => h' (hall.2 rfl)
      intro hbegin
      obtain ⟨first, rest, rfl⟩ := List.exists_cons_of_ne_nil h'
      rw [List.cons_prefix_cons] at hbegin
      exact (hsolid first List.mem_cons_self).1 hbegin.1.symm
  · rw [if_neg h]
    by_cases h' : components' = []
    · subst h'
      rw [if_pos rfl]
      refine iff_of_false ?_ ?_
      · intro hbegin
        obtain ⟨first, rest, rfl⟩ := List.exists_cons_of_ne_nil h
        rw [List.cons_prefix_cons] at hbegin
        exact (hfirst first List.mem_cons_self).1 hbegin.1
      · rintro ⟨hbegin, -⟩
        exact h (List.prefix_nil.mp hbegin)
    · rw [if_neg h']
      exact ⟨fun hbegin => ⟨hbegin, fun hnil => absurd hnil h⟩, fun hall => hall.1⟩

theorem split_slash_free (name rest : Text) :
    (name ++ '/' :: rest).splitOn '/' = name.splitOn '/' ++ rest.splitOn '/' := by
  rw [List.splitOn_eq_splitOnP, List.splitOn_eq_splitOnP, List.splitOn_eq_splitOnP]
  exact List.splitOnP_append_cons name rest rfl

theorem same_prefix_iff (drive drive' : Text) (components components' : List Text)
    (hdrive : '/' ∉ drive) (hdrive' : '/' ∉ drive')
    (hfirst : ∀ component ∈ components, Solid component)
    (hsolid : ∀ component ∈ components', Solid component) :
    samePrefix (rooted drive components) (rooted drive' components') = true ↔
      drive = drive' ∧ components <+: components' ∧ (components = [] → components' = []) := by
  rw [← named_prefix drive drive' components components' hfirst hsolid]
  have hsplit := split_rooted drive components hdrive hfirst
  have hsplit' := split_rooted drive' components' hdrive' hsolid
  simp only [samePrefix, Bool.or_eq_true, beq_iff_eq, Text.starts_with_iff]
  constructor
  · rintro (hsame | ⟨rest, hrest⟩)
    · rw [← hsplit, ← hsplit', hsame]
    · rw [List.append_assoc, List.singleton_append] at hrest
      rw [← hsplit', ← hrest, split_slash_free, hsplit]
      exact List.prefix_append _ _
  · rintro ⟨more, hmore⟩
    rw [← join_named, ← join_named, ← hmore]
    by_cases hnil : more = []
    · left
      rw [hnil, List.append_nil]
    · right
      have hjoin := join_append (named drive components) more (List.cons_ne_nil _ _) hnil
      rw [hjoin]
      exact ⟨joinNames more, by simp⟩

variable (lower : LowerCase)

theorem lower_join (components : List Text) :
    lower.toLowercase (joinNames components) = joinNames (components.map lower.toLowercase) := by
  induction components with
  | nil => exact (lower.nil_iff []).mpr rfl
  | cons component components ih =>
    by_cases hrest : components = []
    · subst hrest
      simp [joinNames]
    · rw [Workspace.join_cons component components hrest, lower.joins, ih, List.map_cons,
        Workspace.join_cons _ _ (by simpa using hrest)]

theorem lower_rooted (drive : Text) (components : List Text) :
    lower.toLowercase (rooted drive components) =
      rooted (lower.toLowercase drive) (components.map lower.toLowercase) := by
  rw [rooted, lower.joins, lower_join, rooted]

theorem lower_solid {components : List Text} (h : ∀ component ∈ components, Solid component) :
    ∀ component ∈ components.map lower.toLowercase, Solid component := by
  intro component hmem
  obtain ⟨given, hgiven, rfl⟩ := List.mem_map.mp hmem
  exact ⟨fun hnil => (h given hgiven).1 ((lower.nil_iff given).mp hnil),
    lower.slashless given (h given hgiven).2⟩

theorem drive_slashless (path : Text) : '/' ∉ driveOf path := by
  rw [driveOf]
  by_cases h : hasDrive path = true
  · obtain ⟨letter, rest, rfl, halpha, -⟩ := slashed_drive path h
    rw [if_pos h]
    intro hslash
    rcases List.mem_cons.mp hslash with hslash | hslash
    · rw [← hslash] at halpha
      exact absurd halpha (by decide)
    · exact absurd (List.mem_singleton.mp hslash) (by decide)
  · rw [if_neg h]
    exact List.not_mem_nil

theorem drive_nil (path : Text) : driveOf path = [] ↔ hasDrive path = false := by
  rw [driveOf]
  by_cases h : hasDrive path = true
  · obtain ⟨letter, rest, rfl, -, -⟩ := slashed_drive path h
    rw [if_pos h, h]
    exact iff_of_false (List.cons_ne_nil _ _) (by decide)
  · rw [if_neg h]
    exact iff_of_true rfl (by simpa using h)

theorem normalized_form (path : Text) :
    isAbsoluteForm (normalizeAbsolutePath path) = true ∧
      isWindowsForm (normalizeAbsolutePath path) = hasDrive path := by
  rw [normalize_rooted]
  by_cases h : hasDrive path = true
  · obtain ⟨letter, rest, rfl, halpha, -⟩ := slashed_drive path h
    have hwindows : isWindowsForm (rooted (driveOf (letter :: ':' :: rest))
        (componentsOf (letter :: ':' :: rest))) = true := by
      rw [driveOf, if_pos h]
      show (((letter.isAlpha && true) && true) || _) = true
      rw [halpha]
      rfl
    rw [isAbsoluteForm, hwindows, h]
    exact ⟨Bool.or_true _, rfl⟩
  · have hnone : hasDrive path = false := by simpa using h
    have hdrive := (drive_nil path).mpr hnone
    have hsolid := components_solid path
    rw [hdrive, hnone]
    refine ⟨rfl, ?_⟩
    show (isDriveForm ('/' :: joinNames (componentsOf path)) ||
      Text.startsWith ['/', '/'] ('/' :: joinNames (componentsOf path))) = false
    cases hcomponents : componentsOf path with
    | nil => rfl
    | cons first rest =>
      rw [hcomponents] at hsolid
      have hfirst := hsolid first List.mem_cons_self
      obtain ⟨c, name, rfl⟩ := List.exists_cons_of_ne_nil hfirst.1
      have hc : c ≠ '/' := fun hc => hfirst.2 (hc ▸ List.mem_cons_self)
      have hhead : ∃ more, joinNames ((c :: name) :: rest) = c :: more := by
        by_cases hrest : rest = []
        · subst hrest
          exact ⟨name, by simp [joinNames]⟩
        · exact ⟨name ++ '/' :: joinNames rest, Workspace.join_cons _ _ hrest⟩
      obtain ⟨more, hmore⟩ := hhead
      rw [hmore, Bool.or_eq_false_iff]
      constructor
      · cases more with
        | nil => rfl
        | cons d more => rfl
      · rw [← Bool.not_eq_true, Text.starts_with_iff]
        rintro ⟨tail, htail⟩
        exact hc (List.cons.inj (List.cons.inj htail).2).1.symm

theorem path_within_iff (root target : Text) :
    isPathWithin lower root target = true ↔ Rooted lower root target := by
  have hroot := normalized_form root
  have htarget := normalized_form target
  have hsolid := components_solid root
  have hsolid' := components_solid target
  have hdrive := drive_slashless root
  have hdrive' := drive_slashless target
  unfold isPathWithin
  dsimp only
  rw [hroot.1, htarget.1, hroot.2, htarget.2, if_neg (by decide), normalize_rooted,
    normalize_rooted]
  by_cases hboth : (hasDrive root && hasDrive target) = true
  · rw [if_pos hboth, lower_rooted, lower_rooted, same_prefix_iff _ _ _ _
      (lower.slashless _ hdrive) (lower.slashless _ hdrive') (lower_solid lower hsolid)
      (lower_solid lower hsolid'), List.map_eq_nil_iff, List.map_eq_nil_iff]
    constructor
    · rintro ⟨h1, h2, h3⟩
      exact ⟨by rwa [if_pos hboth], by rwa [if_pos hboth], h3⟩
    · rintro ⟨h1, h2, h3⟩
      rw [if_pos hboth] at h1 h2
      exact ⟨h1, h2, h3⟩
  · rw [if_neg hboth, same_prefix_iff _ _ _ _ hdrive hdrive' hsolid hsolid']
    constructor
    · rintro ⟨h1, h2, h3⟩
      exact ⟨by rwa [if_neg hboth], by rwa [if_neg hboth], h3⟩
    · rintro ⟨h1, h2, h3⟩
      rw [if_neg hboth] at h1 h2
      exact ⟨h1, h2, h3⟩

end Strings

section Agreement

variable (lower : LowerCase)

/-- Two absolute paths of one form: nothing is asked below a root directory, and the case of a UNC
path does not decide. Other inputs: read as rooted paths, the root is no ancestor. -/
def Decides (root target : Text) : Prop :=
  if formOf root = formOf target ∧ (formOf root).isSome then
    (lower.toLowercase (driveOf root) = lower.toLowercase (driveOf target) →
      componentsOf root = [] → componentsOf target = []) ∧
    (formOf root = some .unc →
      (componentsOf root).map lower.toLowercase <+: (componentsOf target).map lower.toLowercase →
      componentsOf root <+: componentsOf target)
  else ¬ Rooted lower root target

theorem form_drive (path : Text) (h : formOf path = some .drive) : hasDrive path = true := by
  have hdrive : isDriveAbsolute path = true := by
    unfold formOf at h
    split_ifs at h with h1 h2 h3
    · cases h
    · exact h2
    · cases h
  cases path with
  | nil => cases hdrive
  | cons letter path =>
    cases path with
    | nil => cases hdrive
    | cons colon rest =>
      cases rest with
      | nil => cases hdrive
      | cons separator rest =>
        simp only [isDriveAbsolute, Bool.and_eq_true] at hdrive
        simp only [hasDrive, Bool.and_eq_true]
        exact hdrive.1

theorem form_no_drive (path : Text) (form : PathForm) (hform : form ≠ .drive)
    (h : formOf path = some form) : hasDrive path = false := by
  have hhead : ∃ c rest, path = c :: rest ∧ c.isAlpha = false := by
    unfold formOf at h
    split_ifs at h with h1 h2 h3
    · obtain ⟨rest, rfl⟩ := (Text.starts_with_iff _ _).mp h1
      exact ⟨'/', rest, rfl, by decide⟩
    · exact absurd (Option.some.inj h).symm hform
    · rw [isUncAbsolute] at h3
      cases hstrip : Text.stripPrefix ['\\', '\\'] path with
      | none =>
        rw [hstrip] at h3
        cases h3
      | some rest =>
        rw [(Text.strip_prefix_some _ _ _).mp hstrip]
        exact ⟨'\\', '\\' :: rest, rfl, by decide⟩
  obtain ⟨c, rest, rfl, hc⟩ := hhead
  cases rest with
  | nil => rfl
  | cons d rest =>
    show (c.isAlpha && d == ':') = false
    rw [hc]
    rfl

theorem contained_form {root target : Text} {form : PathForm} (hroot : formOf root = some form)
    (htarget : formOf target = some form) :
    Contained lower root target ↔
      folded lower form [driveOf root] = folded lower form [driveOf target] ∧
        folded lower form (componentsOf root) <+: folded lower form (componentsOf target) := by
  constructor
  · rintro ⟨other, hother, -, h⟩
    rw [hroot, Option.some.injEq] at hother
    subst hother
    exact h
  · intro h
    exact ⟨form, hroot, htarget, h⟩

theorem rooted_no_drive {root target : Text} (hroot : hasDrive root = false)
    (htarget : hasDrive target = false) :
    Rooted lower root target ↔ componentsOf root <+: componentsOf target ∧
      (componentsOf root = [] → componentsOf target = []) := by
  have hneither : ¬ (hasDrive root && hasDrive target) = true := by
    rw [hroot]
    exact Bool.false_ne_true
  constructor
  · intro h
    have hcomponents := h.components
    rw [if_neg hneither] at hcomponents
    exact ⟨hcomponents, h.top⟩
  · rintro ⟨hcomponents, htop⟩
    refine ⟨?_, by rwa [if_neg hneither], htop⟩
    rw [if_neg hneither, (drive_nil root).mpr hroot, (drive_nil target).mpr htarget]

theorem rooted_drives {root target : Text} (hroot : hasDrive root = true)
    (htarget : hasDrive target = true) :
    Rooted lower root target ↔
      lower.toLowercase (driveOf root) = lower.toLowercase (driveOf target) ∧
      (componentsOf root).map lower.toLowercase <+: (componentsOf target).map lower.toLowercase ∧
      (componentsOf root = [] → componentsOf target = []) := by
  have hboth : (hasDrive root && hasDrive target) = true := by
    rw [hroot, htarget]
    rfl
  constructor
  · rintro ⟨hdrive, hcomponents, htop⟩
    rw [if_pos hboth] at hdrive hcomponents
    exact ⟨hdrive, hcomponents, htop⟩
  · rintro ⟨hdrive, hcomponents, htop⟩
    exact ⟨by rwa [if_pos hboth], by rwa [if_pos hboth], htop⟩

theorem same_form_iff {root target : Text} {form : PathForm} (hroot : formOf root = some form)
    (htarget : formOf target = some form) :
    (Rooted lower root target ↔ Contained lower root target) ↔
      (lower.toLowercase (driveOf root) = lower.toLowercase (driveOf target) →
        componentsOf root = [] → componentsOf target = []) ∧
      (form = .unc →
        (componentsOf root).map lower.toLowercase <+: (componentsOf target).map lower.toLowercase →
        componentsOf root <+: componentsOf target) := by
  rw [contained_form lower hroot htarget]
  cases form with
  | drive =>
    rw [rooted_drives lower (form_drive root hroot) (form_drive target htarget)]
    simp only [folded, List.map_cons, List.map_nil, List.cons.injEq, and_true]
    constructor
    · intro h
      refine ⟨?_, nofun⟩
      intro hdrive hnil
      exact (h.mpr ⟨hdrive, by rw [hnil]; exact List.nil_prefix⟩).2.2 hnil
    · rintro ⟨h, -⟩
      exact ⟨fun hall => ⟨hall.1, hall.2.1⟩, fun hall => ⟨hall.1, hall.2, h hall.1⟩⟩
  | posix =>
    have hnone := form_no_drive root .posix nofun hroot
    have hnone' := form_no_drive target .posix nofun htarget
    rw [rooted_no_drive lower hnone hnone', (drive_nil root).mpr hnone,
      (drive_nil target).mpr hnone']
    simp only [folded, true_and]
    constructor
    · intro h
      refine ⟨?_, nofun⟩
      intro _ hnil
      exact (h.mpr (by rw [hnil]; exact List.nil_prefix)).2 hnil
    · rintro ⟨h, -⟩
      exact ⟨fun hall => hall.1, fun hall => ⟨hall, h trivial⟩⟩
  | unc =>
    have hnone := form_no_drive root .unc nofun hroot
    have hnone' := form_no_drive target .unc nofun htarget
    rw [rooted_no_drive lower hnone hnone', (drive_nil root).mpr hnone,
      (drive_nil target).mpr hnone']
    simp only [folded, true_and]
    constructor
    · intro h
      constructor
      · intro _ hnil
        exact (h.mpr (by rw [hnil]; exact List.nil_prefix)).2 hnil
      · intro _ hbegin
        exact (h.mpr hbegin).1
    · rintro ⟨htop, hcase⟩
      exact ⟨fun hall => hall.1.map lower.toLowercase,
        fun hall => ⟨hcase trivial hall, htop trivial⟩⟩

/-- The check is containment of components exactly under the condition. -/
theorem containment_iff (root target : Text) :
    (isPathWithin lower root target = true ↔ Contained lower root target) ↔
      Decides lower root target := by
  rw [path_within_iff]
  unfold Decides
  by_cases hform : formOf root = formOf target ∧ (formOf root).isSome = true
  · rw [if_pos hform]
    obtain ⟨form, hroot⟩ := Option.isSome_iff_exists.mp hform.2
    have htarget : formOf target = some form := by rw [← hform.1, hroot]
    rw [same_form_iff lower hroot htarget, hroot, Option.some.injEq]
  · rw [if_neg hform]
    have hnot : ¬ Contained lower root target := by
      rintro ⟨form, hroot, htarget, -⟩
      exact hform ⟨by rw [hroot, htarget], by rw [hroot]; rfl⟩
    exact ⟨fun h hrooted => hnot (h.mp hrooted), fun h => iff_of_false h hnot⟩

end Agreement

/-- Lower-cased ASCII inputs are their own lower case. -/
def plainCase : LowerCase := ⟨id, fun _ _ => rfl, fun _ h => h, fun _ => Iff.rfl⟩

/-- Nothing is within the root directory but itself. -/
theorem containment_fails : ¬ ∀ (lower : LowerCase) (root target : Text),
    isPathWithin lower root target = true ↔ Contained lower root target := by
  intro h
  have hcontained : Contained plainCase ['/'] ['/', 'a'] :=
    ⟨.posix, by decide, by decide, by decide, by decide⟩
  have hwithin := (h plainCase ['/'] ['/', 'a']).mpr hcontained
  exact absurd hwithin (by decide)

end Siralos.References
