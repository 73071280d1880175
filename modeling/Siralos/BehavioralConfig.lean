import Siralos.WorkspacePath

/-!
# Protected behavioural configuration

The classifier removes the first `./` of a path as text before it splits. Where a component ends in
a dot, that runs two components together; a last `.` stays in the way of the file name.
-/

set_option autoImplicit false

namespace Siralos.Workspace

open Text

def isSiralosName (component : Text) : Bool := eqIgnoreAsciiCase component ".siralos"

def isAgentsName (component : Text) : Bool := eqIgnoreAsciiCase component "AGENTS.md"

def toSlashes (value : Text) : Text := value.map fun c => if c = '\\' then '/' else c

def isProtectedBehavioralConfigPath (relative : Text) : Bool :=
  let normalized := Checkpoint.replaceFirst ['.', '/'] [] (toSlashes relative)
  if normalized.isEmpty || normalized == ['.'] then false
  else
    let components := (normalized.splitOn '/').filter fun component => !component.isEmpty
    components.any isSiralosName || isAgentsName (components.getLast?.getD [])

/-- `WorkspaceRelativePath::components` -/
def pathComponents (relative : Text) : List Text :=
  (splitSeparators relative).filter fun component => !component.isEmpty && component != ['.']

def isProtectedWriteTarget (toLowercase : Text → Text) (relative : Text) (fold : Bool) : Bool :=
  match validateRelativePath relative with
  | .error _ => false
  | .ok () =>
    let components := (pathComponents relative).map fun component =>
      if fold then toLowercase component else component
    let basename := components.getLast?.getD []
    if components.any fun component => component == ".git".toList || component == ".siralos".toList
    then true
    else if isProtectedBehavioralConfigPath relative then true
    else basename == ".env".toList || startsWith ".env." basename ||
      (".pem".toList).isSuffixOf basename || (".key".toList).isSuffixOf basename

/-- The components once the first `./` is gone as text. -/
def joinDotted : List Text → List Text
  | component :: next :: rest =>
    if component.getLast? = some '.' then (component.dropLast ++ next) :: rest
    else component :: joinDotted (next :: rest)
  | components => components

theorem split_slashes (value : Text) : (toSlashes value).splitOn '/' = splitSeparators value := by
  rw [List.splitOn_eq_splitOnP]
  induction value with
  | nil => rfl
  | cons c value ih =>
    rw [toSlashes, List.map_cons, ← toSlashes, splitSeparators, List.splitOnP_cons_eq_if_modifyHead,
      List.splitOnP_cons_eq_if_modifyHead, ih]
    by_cases hc : c = '\\'
    · rw [hc]
      rfl
    · rw [if_neg hc, isSeparator, show (c == '\\') = false by simpa using hc, Bool.or_false]
      rfl

theorem join_dotted_cons (c : Char) (first : Text) (rest : List Text)
    (h : ¬ (c = '.' ∧ first = [] ∧ rest ≠ [])) :
    joinDotted ((c :: first) :: rest) = (joinDotted (first :: rest)).modifyHead (c :: ·) := by
  cases rest with
  | nil => rfl
  | cons next rest =>
    rw [joinDotted, joinDotted]
    by_cases hfirst : first = []
    · have hc : c ≠ '.' := fun hc => h ⟨hc, hfirst, List.cons_ne_nil _ _⟩
      rw [hfirst]
      simp [hc]
    · rw [List.getLast?_cons_of_ne_nil hfirst]
      split
      · rw [List.dropLast_cons_of_ne_nil hfirst]
        rfl
      · rfl

theorem split_replaced (value : Text) :
    (Checkpoint.replaceFirst ['.', '/'] [] value).splitOn '/' = joinDotted (value.splitOn '/') := by
  simp only [List.splitOn_eq_splitOnP]
  induction value with
  | nil => rfl
  | cons c value ih =>
    obtain ⟨first, rest, hsplit⟩ := List.exists_cons_of_ne_nil
      (@List.splitOnP_ne_nil _ (· == '/') value)
    rw [Checkpoint.replaceFirst]
    by_cases hstart : startsWith ['.', '/'] (c :: value) = true
    · obtain ⟨after, hafter⟩ := (starts_with_iff _ _).mp hstart
      obtain ⟨hc, hvalue⟩ := List.cons.inj hafter
      rw [if_pos hstart, ← hafter, List.nil_append]
      obtain ⟨next, others, hnext⟩ := List.exists_cons_of_ne_nil
        (@List.splitOnP_ne_nil _ (· == '/') after)
      have hread : List.splitOnP (· == '/') (['.', '/'] ++ after) = ['.'] :: next :: others := by
        rw [List.cons_append, List.cons_append, List.nil_append,
          List.splitOnP_cons_eq_if_modifyHead, List.splitOnP_cons_eq_if_modifyHead, hnext]
        rfl
      rw [hread]
      exact hnext
    · rw [if_neg hstart, List.splitOnP_cons_eq_if_modifyHead, List.splitOnP_cons_eq_if_modifyHead,
        ih, hsplit]
      split
      · rfl
      · rw [List.modifyHead_cons, join_dotted_cons]
        rintro ⟨hc, hfirst, hrest⟩
        cases value with
        | nil =>
          cases hsplit
          exact hrest rfl
        | cons d value =>
          rw [List.splitOnP_cons_eq_if_modifyHead] at hsplit
          split at hsplit
          · next hd =>
            rw [beq_iff_eq] at hd
            rw [hc, hd] at hstart
            exact hstart ((starts_with_iff _ _).mpr ⟨value, rfl⟩)
          · obtain ⟨piece, pieces, hpieces⟩ := List.exists_cons_of_ne_nil
              (@List.splitOnP_ne_nil _ (· == '/') value)
            rw [hpieces, List.modifyHead_cons] at hsplit
            rw [← (List.cons.inj hsplit).1] at hfirst
            cases hfirst

def named (components : List Text) : List Text :=
  components.filter fun component => !component.isEmpty && component != ['.']

def nonempty (components : List Text) : List Text :=
  components.filter fun component => !component.isEmpty

def HasSiralos (components : List Text) : Prop :=
  ∃ component ∈ components, isSiralosName component = true

def LastAgents (components : List Text) : Prop :=
  ∃ component ∈ components.getLast?, isAgentsName component = true

theorem protected_iff (relative : Text) :
    isProtectedBehavioralConfigPath relative = true ↔
      HasSiralos (nonempty (joinDotted (splitSeparators relative))) ∨
        LastAgents (nonempty (joinDotted (splitSeparators relative))) := by
  simp only [HasSiralos, LastAgents]
  rw [← split_slashes, ← split_replaced, nonempty, isProtectedBehavioralConfigPath]
  generalize Checkpoint.replaceFirst ['.', '/'] [] (toSlashes relative) = normalized
  by_cases hempty : normalized = []
  · rw [hempty]
    decide
  · by_cases hdot : normalized = ['.']
    · rw [hdot]
      decide
    · rw [if_neg (by simp [hempty, hdot]), Bool.or_eq_true, List.any_eq_true]
      cases hlast : ((normalized.splitOn '/').filter fun component => !component.isEmpty).getLast? with
      | none =>
        have hnone : isAgentsName [] = false := by decide
        simp [hnone]
      | some component => simp

def Guarded (relative : Text) : Prop :=
  HasSiralos (pathComponents relative) ∨ LastAgents (pathComponents relative)

theorem siralos_name {component : Text} (h : isSiralosName component = true) :
    component.length = 8 ∧ component.getLast?.map Char.toLower = some 's' := by
  rw [isSiralosName, eqIgnoreAsciiCase, beq_iff_eq, toAsciiLowercase] at h
  rw [← List.getLast?_map, h, ← List.length_map (f := Char.toLower), h]
  decide

theorem agents_name {component : Text} (h : isAgentsName component = true) :
    component.length = 9 ∧ component.getLast?.map Char.toLower = some 'd' := by
  rw [isAgentsName, eqIgnoreAsciiCase, beq_iff_eq, toAsciiLowercase] at h
  rw [← List.getLast?_map, h, ← List.length_map (f := Char.toLower), h]
  decide

theorem dotted_name (stem : Text) :
    isSiralosName (stem ++ ['.']) = false ∧ isAgentsName (stem ++ ['.']) = false := by
  constructor
  · apply Bool.eq_false_iff.mpr
    intro h
    have hlast := (siralos_name h).2
    rw [List.getLast?_concat] at hlast
    exact absurd hlast (by decide)
  · apply Bool.eq_false_iff.mpr
    intro h
    have hlast := (agents_name h).2
    rw [List.getLast?_concat] at hlast
    exact absurd hlast (by decide)

theorem joined_name {stem next : Text} (hstem : stem ≠ [])
    (h : isSiralosName next = true ∨ isAgentsName next = true) :
    isSiralosName (stem ++ next) = false ∧ isAgentsName (stem ++ next) = false := by
  have hpos := List.length_pos_of_ne_nil hstem
  have hlength : 8 ≤ next.length := by
    rcases h with h | h
    · exact (siralos_name h).1.ge
    · have := (agents_name h).1
      omega
  have hlast : (stem ++ next).getLast? = next.getLast? :=
    List.getLast?_append_of_ne_nil _ (List.ne_nil_of_length_pos (by omega))
  constructor
  · apply Bool.eq_false_iff.mpr
    intro hjoined
    have hsum := (siralos_name hjoined).1
    rw [List.length_append] at hsum
    omega
  · apply Bool.eq_false_iff.mpr
    intro hjoined
    have hsum := (agents_name hjoined).1
    have hend := (agents_name hjoined).2
    rw [List.length_append] at hsum
    rcases h with h | h
    · rw [hlast, (siralos_name h).2] at hend
      exact absurd hend (by decide)
    · have hnine := (agents_name h).1
      omega

theorem name_kept {component : Text}
    (h : isSiralosName component = true ∨ isAgentsName component = true) :
    (!component.isEmpty) = true ∧ (!component.isEmpty && component != ['.']) = true := by
  have hlength : 8 ≤ component.length := by
    rcases h with h | h
    · exact (siralos_name h).1.ge
    · have := (agents_name h).1
      omega
  have hempty : component ≠ [] := by
    intro hnil
    rw [hnil] at hlength
    cases hlength
  have hdot : component ≠ ['.'] := by
    intro hdot
    rw [hdot] at hlength
    exact absurd hlength (by decide)
  simp [hempty, hdot]

section Lists

variable {kept : Text → Bool}

theorem siralos_filter (hkept : ∀ c, isSiralosName c = true → kept c = true)
    (components : List Text) : HasSiralos (components.filter kept) ↔ HasSiralos components := by
  constructor
  · rintro ⟨c, hmem, hc⟩
    exact ⟨c, (List.mem_filter.mp hmem).1, hc⟩
  · rintro ⟨c, hmem, hc⟩
    exact ⟨c, List.mem_filter.mpr ⟨hmem, hkept c hc⟩, hc⟩

theorem siralos_append (left right : List Text) :
    HasSiralos (left ++ right) ↔ HasSiralos left ∨ HasSiralos right := by
  simp only [HasSiralos, List.mem_append, or_and_right, exists_or]

theorem siralos_cons (c : Text) (rest : List Text) :
    HasSiralos (c :: rest) ↔ isSiralosName c = true ∨ HasSiralos rest := by
  simp only [HasSiralos, List.mem_cons, or_and_right, exists_or, exists_eq_left]

theorem agents_nil : ¬ LastAgents [] := by
  rintro ⟨c, hmem, _⟩
  cases hmem

theorem agents_filter_cons (hkept : ∀ c, isAgentsName c = true → kept c = true) (c : Text)
    (rest : List Text) :
    LastAgents ((c :: rest).filter kept) ↔
      LastAgents (rest.filter kept) ∨ (rest.filter kept = [] ∧ isAgentsName c = true) := by
  by_cases hrest : rest.filter kept = []
  · rw [List.filter_cons, hrest]
    split
    · simp [LastAgents]
    · next hc =>
      have hother : ¬ isAgentsName c = true := mt (hkept c) hc
      simp [agents_nil, hother]
  · have hlast : ((c :: rest).filter kept).getLast? = (rest.filter kept).getLast? := by
      rw [List.filter_cons]
      split
      · exact List.getLast?_cons_of_ne_nil hrest
      · rfl
    rw [LastAgents, hlast, ← LastAgents]
    simp [hrest]

theorem agents_filter_append (left right : List Text) (h : right.filter kept ≠ []) :
    LastAgents ((left ++ right).filter kept) ↔ LastAgents (right.filter kept) := by
  rw [LastAgents, List.filter_append, List.getLast?_append_of_ne_nil _ h, ← LastAgents]

end Lists

/-- The first component with a dot at its end and a separator behind it, where it is more than the
dot. -/
structure Joint (components before : List Text) (stem next : Text) (after : List Text) : Prop where
  components : components = before ++ (stem ++ ['.']) :: next :: after
  first : ∀ c ∈ before, c.getLast? ≠ some '.'
  longer : stem ≠ []

/-- `AGENTS.md` is the last name, and a `.` that the removal leaves stands behind it. -/
def HiddenFile (components : List Text) : Prop :=
  ¬ HasSiralos components ∧ ¬ HasSiralos (joinDotted components) ∧
    LastAgents (named components) ∧
      (nonempty (joinDotted components)).getLast? = some ['.']

/-- A protected name run together with what stands in front of it, or made by that. -/
def Misjoined (stem next : Text) (after : List Text) : Prop :=
  (isSiralosName next = true ∧ ¬ LastAgents (nonempty after)) ∨
  (isSiralosName (stem ++ next) = true ∧ ¬ LastAgents (named after)) ∨
  (isAgentsName next = true ∧ named after = []) ∨
  (isAgentsName (stem ++ next) = true ∧ nonempty after = [])

def Misread (components : List Text) : Prop :=
  HiddenFile components ∨ ∃ before stem next after, Joint components before stem next after ∧
    ¬ HasSiralos (before ++ after) ∧ Misjoined stem next after

theorem join_dotted_first (before : List Text) (stem next : Text) (after : List Text)
    (h : ∀ c ∈ before, c.getLast? ≠ some '.') :
    joinDotted (before ++ (stem ++ ['.']) :: next :: after) =
      before ++ (stem ++ next) :: after := by
  induction before with
  | nil =>
    rw [List.nil_append, joinDotted, if_pos List.getLast?_concat, List.dropLast_concat]
    rfl
  | cons c before ih =>
    have hrest := ih fun other hother => h other (List.mem_cons_of_mem _ hother)
    have hc := h c (by simp)
    cases before with
    | nil =>
      rw [List.nil_append] at hrest
      rw [List.cons_append, List.nil_append, joinDotted, if_neg hc, hrest]
      rfl
    | cons d before =>
      rw [List.cons_append, List.cons_append, joinDotted, if_neg hc, ← List.cons_append, hrest]
      rfl

theorem joint_cases (components : List Text) :
    joinDotted components = components ∨
      ∃ before stem next after, components = before ++ (stem ++ ['.']) :: next :: after ∧
        ∀ c ∈ before, c.getLast? ≠ some '.' := by
  induction components with
  | nil => exact .inl rfl
  | cons c rest ih =>
    cases rest with
    | nil => exact .inl rfl
    | cons next rest =>
      by_cases hdot : c.getLast? = some '.'
      · obtain ⟨stem, hstem⟩ := List.getLast?_eq_some_iff.mp hdot
        exact .inr ⟨[], stem, next, rest, by rw [hstem]; rfl, by simp⟩
      · rcases ih with hsame | ⟨before, stem, other, after, hrest, hfirst⟩
        · refine .inl ?_
          rw [joinDotted, if_neg hdot, hsame]
        · refine .inr ⟨c :: before, stem, other, after, by rw [hrest]; rfl, ?_⟩
          intro d hd
          rcases List.mem_cons.mp hd with hsame | hmem
          · rw [hsame]
            exact hdot
          · exact hfirst d hmem

/-- What the removal reads and what the path says. -/
def ReadsRight (components : List Text) : Prop :=
  (HasSiralos (nonempty (joinDotted components)) ∨
    LastAgents (nonempty (joinDotted components))) ↔
      HasSiralos (named components) ∨ LastAgents (named components)

theorem siralos_nonempty (components : List Text) :
    HasSiralos (nonempty components) ↔ HasSiralos components :=
  siralos_filter (fun _ hc => (name_kept (.inl hc)).1) components

theorem siralos_named (components : List Text) :
    HasSiralos (named components) ↔ HasSiralos components :=
  siralos_filter (fun _ hc => (name_kept (.inl hc)).2) components

theorem named_nil {components : List Text} (h : nonempty components = []) :
    named components = [] := by
  simp only [nonempty, named, List.filter_eq_nil_iff] at h ⊢
  intro c hc hkept
  rw [Bool.and_eq_true] at hkept
  exact h c hc hkept.1

theorem agents_nonempty (components : List Text) :
    LastAgents (nonempty components) ↔
      LastAgents (named components) ∧ (nonempty components).getLast? ≠ some ['.'] := by
  induction components using List.reverseRecOn with
  | nil => simp [nonempty, named, agents_nil]
  | append_singleton components c ih =>
    rw [nonempty, named, List.filter_append, List.filter_append, ← nonempty, ← named]
    by_cases hempty : c = []
    · rw [hempty]
      simpa using ih
    · by_cases hdot : c = ['.']
      · have hother : isAgentsName ['.'] = false := by decide
        rw [hdot]
        simp [LastAgents, hother]
      · simp [LastAgents, hempty, hdot]

section Joints

variable {components before after : List Text} {stem next : Text}

theorem joint_readings (h : Joint components before stem next after) :
    ((HasSiralos (nonempty (joinDotted components)) ∨
      LastAgents (nonempty (joinDotted components))) ↔
        HasSiralos (before ++ after) ∨ isSiralosName (stem ++ next) = true ∨
          LastAgents (nonempty after) ∨
            (nonempty after = [] ∧ isAgentsName (stem ++ next) = true)) ∧
    ((HasSiralos (named components) ∨ LastAgents (named components)) ↔
      HasSiralos (before ++ after) ∨ isSiralosName next = true ∨
        LastAgents (named after) ∨ (named after = [] ∧ isAgentsName next = true)) := by
  have hdotted := dotted_name stem
  constructor
  · have hkeep : (nonempty ((stem ++ next) :: after)) ≠ [] := by
      simp [nonempty, h.longer]
    rw [h.components, join_dotted_first before stem next after h.first, siralos_nonempty,
      siralos_append, siralos_cons, siralos_append, nonempty,
      agents_filter_append before _ hkeep, agents_filter_cons
        (fun c hc => (name_kept (.inr hc)).1), ← nonempty]
    simp only [or_assoc, or_left_comm]
  · have hkeep : (named ((stem ++ ['.']) :: next :: after)) ≠ [] := by
      simp [named, h.longer]
    rw [h.components, siralos_named, siralos_append, siralos_cons, siralos_cons, siralos_append,
      named, agents_filter_append before _ hkeep,
      agents_filter_cons (fun c hc => (name_kept (.inr hc)).2),
      agents_filter_cons (fun c hc => (name_kept (.inr hc)).2), ← named, hdotted.1, hdotted.2]
    simp only [Bool.false_eq_true, and_false, or_false, false_or, or_assoc, or_left_comm]

theorem misjoined_departs (h : Joint components before stem next after)
    (hplain : ¬ HasSiralos (before ++ after)) (hmisjoined : Misjoined stem next after) :
    ¬ ReadsRight components := by
  obtain ⟨hread, hsaid⟩ := joint_readings h
  rw [ReadsRight, hread, hsaid]
  have hnamed : LastAgents (nonempty after) → LastAgents (named after) :=
    fun hlast => ((agents_nonempty after).mp hlast).1
  rcases hmisjoined with ⟨hname, hlast⟩ | ⟨hname, hlast⟩ | ⟨hname, hnone⟩ | ⟨hname, hnone⟩
  · have hjoined := joined_name h.longer (.inl hname)
    simp [hplain, hname, hjoined, hlast]
  · have hnext : isSiralosName next = false ∧ isAgentsName next = false := by
      constructor
      · apply Bool.eq_false_iff.mpr
        intro hother
        rw [(joined_name h.longer (.inl hother)).1] at hname
        cases hname
      · apply Bool.eq_false_iff.mpr
        intro hother
        rw [(joined_name h.longer (.inr hother)).1] at hname
        cases hname
    simp [hplain, hname, hnext, hlast]
  · have hjoined := joined_name h.longer (.inr hname)
    have hread : ¬ LastAgents (nonempty after) := by
      intro hlast
      have := hnamed hlast
      rw [hnone] at this
      exact agents_nil this
    simp [hplain, hname, hjoined, hnone, hread]
  · have hnext : isSiralosName next = false ∧ isAgentsName next = false := by
      constructor
      · apply Bool.eq_false_iff.mpr
        intro hother
        rw [(joined_name h.longer (.inl hother)).2] at hname
        cases hname
      · apply Bool.eq_false_iff.mpr
        intro hother
        rw [(joined_name h.longer (.inr hother)).2] at hname
        cases hname
    have hnamedNone : ¬ LastAgents (named after) := by
      rw [named_nil hnone]
      exact agents_nil
    simp [hplain, hname, hnext, hnone, hnamedNone]

end Joints

theorem hidden_file_departs {components : List Text} (h : HiddenFile components) :
    ¬ ReadsRight components := by
  obtain ⟨hplain, hjoined, hagents, hdot⟩ := h
  rw [ReadsRight, siralos_nonempty, siralos_named, agents_nonempty]
  simp [hplain, hjoined, hagents, hdot]

theorem reads_right_same {components : List Text} (h : ¬ HiddenFile components)
    (hsiralos : HasSiralos (joinDotted components) ↔ HasSiralos components)
    (hnamed : named (joinDotted components) = named components) : ReadsRight components := by
  rw [ReadsRight, siralos_nonempty, siralos_named, agents_nonempty, hsiralos, hnamed]
  constructor
  · intro hread
    exact hread.imp_right And.left
  · intro hsaid
    by_cases hplain : HasSiralos components
    · exact .inl hplain
    · have hagents := hsaid.resolve_left hplain
      refine .inr ⟨hagents, ?_⟩
      intro hdot
      exact h ⟨hplain, mt hsiralos.mp hplain, hagents, hdot⟩

theorem reads_right_joint {components before after : List Text} {stem next : Text}
    (hjoint : Joint components before stem next after) (h : ¬ Misread components) :
    ReadsRight components := by
  have hhidden : ¬ HiddenFile components := fun hfile => h (.inl hfile)
  obtain ⟨hread, hsaid⟩ := joint_readings hjoint
  rw [ReadsRight, hread, hsaid]
  by_cases hplain : HasSiralos (before ++ after)
  · exact iff_of_true (.inl hplain) (.inl hplain)
  have hright : ¬ Misjoined stem next after :=
    fun hmisjoined => h (.inr ⟨before, stem, next, after, hjoint, hplain, hmisjoined⟩)
  simp only [Misjoined, not_or, not_and, not_not] at hright
  obtain ⟨hswallowed, hforged, hswallowedFile, hforgedFile⟩ := hright
  have hnamed : LastAgents (nonempty after) → LastAgents (named after) :=
    fun hlast => ((agents_nonempty after).mp hlast).1
  by_cases hnext : isSiralosName next = true
  · exact iff_of_true (.inr (.inr (.inl (hswallowed hnext)))) (.inr (.inl hnext))
  by_cases hjoined : isSiralosName (stem ++ next) = true
  · exact iff_of_true (.inr (.inl hjoined)) (.inr (.inr (.inl (hforged hjoined))))
  constructor
  · intro hleft
    rcases hleft with hsiralos | hsiralos | hlast | ⟨hnone, hname⟩
    · exact absurd hsiralos hplain
    · exact absurd hsiralos hjoined
    · exact .inr (.inr (.inl (hnamed hlast)))
    · exact absurd hnone (hforgedFile hname)
  · intro hleft
    rcases hleft with hsiralos | hsiralos | hlast | ⟨hnone, hname⟩
    · exact absurd hsiralos hplain
    · exact absurd hsiralos hnext
    · refine .inr (.inr (.inl ((agents_nonempty after).mpr ⟨hlast, ?_⟩)))
      -- a last `.` behind the joint would hide the file
      intro hdot
      have hkeep : nonempty after ≠ [] := by
        intro hnone
        rw [hnone] at hdot
        cases hdot
      have hcomponents : ¬ HasSiralos components := by
        rw [hjoint.components, siralos_append, siralos_cons, siralos_cons, (dotted_name stem).1]
        rw [siralos_append] at hplain
        simp only [Bool.false_eq_true, false_or]
        rintro (hleft | hname | hleft)
        · exact hplain (.inl hleft)
        · exact hnext hname
        · exact hplain (.inr hleft)
      have hread' : joinDotted components = before ++ (stem ++ next) :: after := by
        rw [hjoint.components]
        exact join_dotted_first before stem next after hjoint.first
      refine hhidden ⟨hcomponents, ?_, ?_, ?_⟩
      · rw [hread', siralos_append, siralos_cons]
        rw [siralos_append] at hplain
        rintro (hleft | hname | hleft)
        · exact hplain (.inl hleft)
        · exact hjoined hname
        · exact hplain (.inr hleft)
      · have hguarded := hsaid.mpr (.inr (.inr (.inl hlast)))
        rw [siralos_named] at hguarded
        exact hguarded.resolve_left hcomponents
      · have hjoinedKept : (!(stem ++ next).isEmpty) = true := by simp [hjoint.longer]
        rw [hread', nonempty, List.filter_append, List.filter_cons, if_pos hjoinedKept,
          List.getLast?_append_of_ne_nil _ (List.cons_ne_nil _ _), ← nonempty,
          List.getLast?_cons_of_ne_nil hkeep]
        exact hdot
    · exact absurd hnone (hswallowedFile hname)

theorem reads_right {components : List Text} (h : ¬ Misread components) :
    ReadsRight components := by
  have hhidden : ¬ HiddenFile components := fun hfile => h (.inl hfile)
  rcases joint_cases components with hsame | ⟨before, stem, next, after, hcomponents, hfirst⟩
  · exact reads_right_same hhidden (by rw [hsame]) (by rw [hsame])
  · by_cases hstem : stem = []
    · rw [hstem, List.nil_append] at hcomponents
      have hjoined : joinDotted components = before ++ next :: after := by
        rw [hcomponents]
        exact join_dotted_first before [] next after hfirst
      have hdot : isSiralosName ['.'] = false := by decide
      apply reads_right_same hhidden
      · rw [hjoined, hcomponents]
        simp only [siralos_append, siralos_cons, hdot, Bool.false_eq_true, false_or]
      · rw [hjoined, hcomponents, named, named, List.filter_append, List.filter_append]
        rfl
    · exact reads_right_joint ⟨hcomponents, hfirst, hstem⟩ h

/-- The classifier and the write guard follow the components of every path that is not misread. -/
theorem protection_follows_components (toLowercase : Text → Text) (relative : Text) :
    ((isProtectedBehavioralConfigPath relative = true ↔ Guarded relative) ∧
      ∀ fold, Guarded relative → validateRelativePath relative = .ok () →
        isProtectedWriteTarget toLowercase relative fold = true) ↔
      ¬ Misread (splitSeparators relative) := by
  have hclassified : (isProtectedBehavioralConfigPath relative = true ↔ Guarded relative) ↔
      ReadsRight (splitSeparators relative) := by
    rw [protected_iff]
    exact Iff.rfl
  rw [hclassified]
  constructor
  · rintro ⟨hright, _⟩ hmisread
    rcases hmisread with hhidden | ⟨before, stem, next, after, hjoint, hplain, hmisjoined⟩
    · exact hidden_file_departs hhidden hright
    · exact misjoined_departs hjoint hplain hmisjoined hright
  · intro h
    have hright := reads_right h
    refine ⟨hright, ?_⟩
    intro fold hguarded hvalid
    have hprotected := (hclassified.mpr hright).mpr hguarded
    rw [isProtectedWriteTarget, hvalid]
    simp [hprotected]

/-- A component that ends in a dot takes the file name in. -/
theorem dotted_directory_unprotected :
    ¬ ∀ relative, (isProtectedBehavioralConfigPath relative = true ↔ Guarded relative) ∧
      ∀ fold, Guarded relative → validateRelativePath relative = .ok () →
        isProtectedWriteTarget toAsciiLowercase relative fold = true := by
  intro hclaim
  have hguarded : Guarded "a./AGENTS.md" := .inr ⟨"AGENTS.md", by decide, by decide⟩
  exact absurd ((hclaim "a./AGENTS.md").2 true hguarded (by decide)) (by decide)

end Siralos.Workspace
