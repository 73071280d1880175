import Siralos.InspectionPaths
import Siralos.InspectionSearch

/-!
# What a search shows

The traversal goes through real directories only. What it has still to look into is a list of places
of which none is inside another: each of its matches stands in a line of a file outside of them, and
no such line is left out.
-/

set_option autoImplicit false

namespace Siralos.Inspection

open Workspace Checkpoint

section Invariant

variable (folding : Folding) (tree : WorkspaceTree) (input : SearchInput)
  (limits : InspectionLimits)

/-- A match stands in a line of the file that its path names. -/
def MatchedIn (names : List Text) (text : Text) (found : SearchMatch) : Prop :=
  ∃ index column line, (splitIntoLines text)[index]? = some line ∧
    utf16IndexOf line input.query = some column ∧
    found = ⟨joinNames names, index + 1, column + 1,
      utf16Slice limits.maxSearchLineLengthChars line⟩

structure Searched (names : List Text) (text : Text) : Prop where
  shown : Shown folding tree names (.text text)
  small : (FileBytes.text text).length ≤ limits.maxSearchFileSizeBytes
  plain : looksBinary (.text text) = false

def FoundAt (names : List Text) (found : SearchMatch) : Prop :=
  ∃ text, Searched folding tree limits names text ∧ MatchedIn input limits names text found

/-- A pending directory is canonical; it may be a file only where the search starts. -/
structure Visited (directory : PendingDirectory) (names : List Text) : Prop where
  absolute : directory.absolute = tree.root ++ names
  relative : directory.relative = relativeOf tree.root (tree.root ++ names)
  resolved : Resolved tree.fs.node (tree.root ++ names)
  included : ∀ name ∈ names, isExcludedName folding name = false

/-- What holds of the matches wherever the traversal stops. -/
structure Sound (start : List Text) (s : SearchState) : Prop where
  located : ∀ found ∈ s.matched, ∃ names, start <+: names ∧
    FoundAt folding tree input limits names found
  distinct : s.matched.Pairwise fun a b => ¬(a.path = b.path ∧ a.line = b.line)

/-- Below the start, the matches are those that are not left. -/
structure SearchInvariant (start : List Text) (left : List Text → ℕ → Prop)
    (waiting : List (List Text)) (s : SearchState) : Prop where
  sound : Sound folding tree input limits start s
  settled : ∀ names found, start <+: names → FoundAt folding tree input limits names found →
    (found ∈ s.matched ↔ ¬ left names found.line)
  pending : List.Forall₂ (Visited folding tree) s.pending waiting

end Invariant

/-- The state satisfies the one condition where the work ends, the other where it stops. -/
def Keeps (halted kept : SearchState → Prop) : Except Halt SearchState → Prop
  | .ok s => kept s
  | .error .cancelled => True
  | .error (.stopped _ s) => halted s

def Apart (p q : List Text) : Prop := ¬ p <+: q ∧ ¬ q <+: p

def LeftIn (places : List (List Text)) (names : List Text) (_ : ℕ) : Prop :=
  ∃ place ∈ places, place <+: names

def fromLine (left : List Text → ℕ → Prop) (names : List Text) (index : ℕ) (other : List Text)
    (line : ℕ) : Prop := left other line ∨ other = names ∧ index < line

structure Places (start : List Text) (places : List (List Text)) : Prop where
  apart : places.Pairwise Apart
  below : ∀ place ∈ places, start <+: place

/-- These places and the pending directories are left. -/
def Progress (folding : Folding) (tree : WorkspaceTree) (input : SearchInput)
    (limits : InspectionLimits) (start : List Text) (children : List (List Text))
    (s : SearchState) : Prop :=
  ∃ waiting, Places start (children ++ waiting) ∧
    SearchInvariant folding tree input limits start (LeftIn (children ++ waiting)) waiting s

variable {folding : Folding} {tree : WorkspaceTree} {input : SearchInput}
  {limits : InspectionLimits} {control : SearchControl} {s : SearchState}
  {start names other : List Text} {left left' : List Text → ℕ → Prop}
  {waiting children : List (List Text)} {found a b : SearchMatch}

theorem keeps_bind {halted first second : SearchState → Prop} {x : Except Halt SearchState}
    {f : SearchState → Except Halt SearchState} (hx : Keeps halted first x)
    (hf : ∀ s, first s → Keeps halted second (f s)) : Keeps halted second (x >>= f) := by
  cases x with
  | ok s => exact hf s hx
  | error halt => cases halt <;> exact hx

theorem FoundAt.path_eq (h : FoundAt folding tree input limits names found) :
    found.path = joinNames names := by
  obtain ⟨_, _, _, _, _, _, _, rfl⟩ := h
  rfl

theorem FoundAt.names_eq (ha : FoundAt folding tree input limits names a)
    (hb : FoundAt folding tree input limits other b) (h : a.path = b.path) : names = other := by
  have hpath : joinNames names = joinNames other := ha.path_eq.symm.trans (h.trans hb.path_eq)
  obtain ⟨_, hfile, _⟩ := ha
  obtain ⟨_, hfile', _⟩ := hb
  exact join_injective hfile.shown.valid hfile'.shown.valid hfile.shown.nonempty
    hfile'.shown.nonempty hpath

theorem FoundAt.unique (ha : FoundAt folding tree input limits names a)
    (hb : FoundAt folding tree input limits names b) (h : a.line = b.line) : a = b := by
  obtain ⟨text, hfile, index, column, line, hline, hcolumn, rfl⟩ := ha
  obtain ⟨text', hfile', index', column', line', hline', hcolumn', rfl⟩ := hb
  have htext : text = text' := by
    have hnode := hfile.shown.file
    rw [hfile'.shown.file] at hnode
    cases hnode
    rfl
  subst htext
  obtain rfl : index = index' := Nat.succ.inj h
  obtain rfl : line = line' := Option.some.inj (hline.symm.trans hline')
  obtain rfl : column = column' := Option.some.inj (hcolumn.symm.trans hcolumn')
  rfl

theorem Shown.above {bytes : FileBytes} (h : Shown folding tree other bytes)
    (hinside : names <+: other) :
    names = other ∨ tree.fs.node (tree.root ++ names) = some .directory := by
  by_cases hsame : names = other
  · exact .inl hsame
  · right
    obtain ⟨more, rfl⟩ := hinside
    obtain ⟨init, last, rfl⟩ := List.eq_nil_or_concat' more |>.resolve_left (by
      rintro rfl
      exact hsame (List.append_nil _).symm)
    apply h.resolved.parent.directories
    rw [← List.append_assoc, ← List.append_assoc, List.dropLast_concat]
    exact List.prefix_append _ _

theorem SearchInvariant.counts {s' : SearchState}
    (h : SearchInvariant folding tree input limits start left waiting s)
    (hmatched : s'.matched = s.matched) (hpending : s'.pending = s.pending) :
    SearchInvariant folding tree input limits start left waiting s' := by
  obtain ⟨⟨hlocated, hdistinct⟩, hsettled, hwaiting⟩ := h
  rw [← hmatched] at hlocated hdistinct hsettled
  rw [← hpending] at hwaiting
  exact ⟨⟨hlocated, hdistinct⟩, hsettled, hwaiting⟩

theorem SearchInvariant.polled
    (h : SearchInvariant folding tree input limits start left waiting s) :
    Keeps (Sound folding tree input limits start)
      (SearchInvariant folding tree input limits start left waiting) (poll control s) := by
  unfold poll
  split
  · trivial
  · exact h.counts rfl rfl

theorem SearchInvariant.looked
    (h : SearchInvariant folding tree input limits start left waiting s) :
    Keeps (Sound folding tree input limits start)
      (SearchInvariant folding tree input limits start left waiting) (look control s) := by
  unfold look
  split
  · exact h.sound
  · exact h.counts rfl rfl

theorem SearchInvariant.bounded {exceeded : Bool} {reason : TruncationReason}
    (h : SearchInvariant folding tree input limits start left waiting s) :
    Keeps (Sound folding tree input limits start)
      (SearchInvariant folding tree input limits start left waiting) (within exceeded reason s) := by
  unfold within
  split
  · exact h.sound
  · exact h

theorem SearchInvariant.skipped
    (h : SearchInvariant folding tree input limits start left waiting s) :
    SearchInvariant folding tree input limits start left waiting s.skip := h.counts rfl rfl

theorem SearchInvariant.refine
    (h : SearchInvariant folding tree input limits start left waiting s)
    (hleft : ∀ names found, start <+: names → FoundAt folding tree input limits names found →
      (left names found.line ↔ left' names found.line)) :
    SearchInvariant folding tree input limits start left' waiting s := by
  refine ⟨h.sound, ?_, h.pending⟩
  intro names found hbelow hfound
  rw [h.settled names found hbelow hfound, hleft names found hbelow hfound]

theorem SearchInvariant.drop
    (h : SearchInvariant folding tree input limits start (LeftIn (names :: children)) waiting s)
    (hnone : ∀ other text, Searched folding tree limits other text → ¬ names <+: other) :
    SearchInvariant folding tree input limits start (LeftIn children) waiting s := by
  refine h.refine ?_
  intro other found _ hfound
  obtain ⟨text, hfile, _⟩ := hfound
  constructor
  · rintro ⟨place, hplace, hinside⟩
    rcases List.mem_cons.mp hplace with rfl | hplace
    · exact absurd hinside (hnone other text hfile)
    · exact ⟨place, hplace, hinside⟩
  · rintro ⟨place, hplace, hinside⟩
    exact ⟨place, List.mem_cons_of_mem _ hplace, hinside⟩

theorem SearchInvariant.recorded {outputBytes : ℕ}
    (h : SearchInvariant folding tree input limits start left waiting s)
    (hbelow : start <+: names) (hfound : FoundAt folding tree input limits names found)
    (hleft : left names found.line) :
    SearchInvariant folding tree input limits start
      (fun other line => left other line ∧ ¬(other = names ∧ line = found.line)) waiting
      (s.record found outputBytes) := by
  refine ⟨⟨?_, ?_⟩, ?_, h.pending⟩
  · intro other hother
    rcases List.mem_append.mp hother with hold | hnew
    · exact h.sound.located other hold
    · rw [List.mem_singleton.mp hnew]
      exact ⟨names, hbelow, hfound⟩
  · refine List.pairwise_append.mpr ⟨h.sound.distinct, List.pairwise_singleton _ _, ?_⟩
    rintro a ha b hb ⟨hpath, hline⟩
    rw [List.mem_singleton.mp hb] at hpath hline
    obtain ⟨others, hothers, hat⟩ := h.sound.located a ha
    obtain rfl := hat.names_eq hfound hpath
    exact (h.settled others a hothers hat).mp ha (hline ▸ hleft)
  · intro other a hother hat
    show a ∈ s.matched ++ [found] ↔ _
    rw [List.mem_append, List.mem_singleton, h.settled other a hother hat]
    constructor
    · rintro (hsettled | rfl) ⟨hstill, hdiffers⟩
      · exact hsettled hstill
      · exact hdiffers ⟨hat.names_eq hfound rfl, rfl⟩
    · intro hsettled
      by_cases hstill : left other a.line
      · right
        obtain ⟨rfl, hline⟩ := not_not.mp fun hdiffers => hsettled ⟨hstill, hdiffers⟩
        exact hat.unique hfound hline
      · exact .inl hstill

theorem match_line_keeps {text line : Text} {index : ℕ}
    (hfile : Searched folding tree limits names text) (hbelow : start <+: names)
    (hline : (splitIntoLines text)[index]? = some line) (houtside : ∀ line, ¬ left names line)
    (h : SearchInvariant folding tree input limits start (fromLine left names index) waiting s) :
    Keeps (Sound folding tree input limits start)
      (SearchInvariant folding tree input limits start (fromLine left names (index + 1)) waiting)
      (matchLine input limits (joinNames names) index line s) := by
  unfold matchLine
  split
  · rename_i hnone
    -- A match of this line would have a column.
    refine h.refine ?_
    intro other found _ hfound
    refine or_congr_right (and_congr_right ?_)
    rintro rfl
    have hdiffers : found.line ≠ index + 1 := by
      intro heq
      obtain ⟨text', hfile', index', column, line', hline', hcolumn, rfl⟩ := hfound
      have hnode := hfile.shown.file
      rw [hfile'.shown.file] at hnode
      cases hnode
      obtain rfl : index' = index := Nat.succ.inj heq
      obtain rfl : line' = line := Option.some.inj (hline'.symm.trans hline)
      rw [hnone] at hcolumn
      cases hcolumn
    omega
  · rename_i column hcolumn
    refine keeps_bind h.bounded ?_
    intro s hs
    have hfound : FoundAt folding tree input limits names ⟨joinNames names, index + 1, column + 1,
        utf16Slice limits.maxSearchLineLengthChars line⟩ :=
      ⟨text, hfile, index, column, line, hline, hcolumn, rfl⟩
    have hleft : fromLine left names index names (index + 1) := .inr ⟨rfl, Nat.lt_succ_self index⟩
    refine SearchInvariant.bounded ((hs.recorded hbelow hfound hleft).refine ?_)
    intro other a _ _
    show (left other a.line ∨ other = names ∧ index < a.line) ∧
      ¬(other = names ∧ a.line = index + 1) ↔ left other a.line ∨ other = names ∧ index + 1 < a.line
    by_cases hsame : other = names
    · subst hsame
      have hnot := houtside a.line
      simp only [hnot, true_and, false_or]
      omega
    · simp [hsame]

theorem poll_lines_keeps (index : ℕ)
    (h : SearchInvariant folding tree input limits start left waiting s) :
    Keeps (Sound folding tree input limits start)
      (SearchInvariant folding tree input limits start left waiting)
      (pollLines control index s) := by
  unfold pollLines
  split
  · exact keeps_bind h.polled fun s hs => hs.looked
  · exact h

theorem search_lines_keeps {text : Text} (hfile : Searched folding tree limits names text)
    (hbelow : start <+: names) (houtside : ∀ line, ¬ left names line) (index : ℕ)
    (rest : List Text) (hrest : ∀ i, rest[i]? = (splitIntoLines text)[index + i]?)
    (h : SearchInvariant folding tree input limits start (fromLine left names index) waiting s) :
    Keeps (Sound folding tree input limits start)
      (SearchInvariant folding tree input limits start left waiting)
      (searchLines input limits control (joinNames names) index rest s) := by
  induction rest generalizing index s with
  | nil =>
    -- No line stands at the index or beyond it.
    refine h.refine ?_
    intro other found _ hfound
    refine or_iff_left ?_
    rintro ⟨rfl, hbeyond⟩
    obtain ⟨text', hfile', index', column, line, hline, -, rfl⟩ := hfound
    have hnode := hfile.shown.file
    rw [hfile'.shown.file] at hnode
    cases hnode
    have hnone := hrest (index' - index)
    rw [Nat.add_sub_cancel' (Nat.le_of_lt_succ hbeyond), hline] at hnone
    cases hnone
  | cons line rest ih =>
    have hline : (splitIntoLines text)[index]? = some line := by
      simpa using (hrest 0).symm
    have hnext : ∀ i, rest[i]? = (splitIntoLines text)[index + 1 + i]? := by
      intro i
      have hshift := hrest (i + 1)
      rw [List.getElem?_cons_succ] at hshift
      rw [hshift]
      congr 1
      omega
    rw [searchLines]
    refine keeps_bind (poll_lines_keeps index h) ?_
    intro s hs
    refine keeps_bind (match_line_keeps hfile hbelow hline houtside hs) ?_
    intro s hs
    exact ih (index + 1) hnext hs

theorem consider_file_keeps (bytes : FileBytes)
    (h : SearchInvariant folding tree input limits start left waiting s) :
    Keeps (Sound folding tree input limits start)
      (SearchInvariant folding tree input limits start left waiting)
      (considerFile limits bytes s) := by
  have hconsider : SearchInvariant folding tree input limits start left waiting s.consider :=
    h.counts rfl rfl
  unfold considerFile
  refine keeps_bind hconsider.bounded ?_
  intro s hs
  split
  · exact hs.skipped
  · exact hs.bounded

theorem searched_file {bytes : FileBytes} {text : Text}
    (hnode : tree.fs.node (tree.root ++ names) = some (.file bytes))
    (hfile : Searched folding tree limits other text) (hinside : names <+: other) :
    names = other ∧ bytes = .text text := by
  rcases hfile.shown.above hinside with rfl | hdirectory
  · rw [hfile.shown.file] at hnode
    cases hnode
    exact ⟨rfl, rfl⟩
  · rw [hdirectory] at hnode
    cases hnode

theorem scan_file_keeps {bytes : FileBytes} (hshown : Shown folding tree names bytes)
    (hsmall : bytes.length ≤ limits.maxSearchFileSizeBytes) (hbelow : start <+: names)
    (houtside : ∀ place ∈ children, ¬ place <+: names)
    (h : SearchInvariant folding tree input limits start (LeftIn (names :: children)) waiting s) :
    Keeps (Sound folding tree input limits start)
      (SearchInvariant folding tree input limits start (LeftIn children) waiting)
      (scanFile input limits control (joinNames names) bytes s) := by
  have hscan : SearchInvariant folding tree input limits start (LeftIn (names :: children)) waiting
      s.scan := h.counts rfl rfl
  unfold scanFile
  refine keeps_bind hscan.polled ?_
  intro s hs
  refine keeps_bind hs.polled ?_
  intro s hs
  have hread : SearchInvariant folding tree input limits start (LeftIn (names :: children)) waiting
      (s.read bytes.length) := hs.counts rfl rfl
  refine keeps_bind hread.bounded ?_
  intro s hs
  split
  · rename_i hbinary
    refine (hs.drop ?_).skipped
    intro other text hfile hinside
    obtain ⟨-, rfl⟩ := searched_file hshown.file hfile hinside
    rw [hfile.plain] at hbinary
    cases hbinary
  · rename_i hplain
    cases bytes with
    | binary raw =>
      refine (hs.drop ?_).skipped
      intro other text hfile hinside
      obtain ⟨-, hbytes⟩ := searched_file hshown.file hfile hinside
      cases hbytes
    | text text =>
      refine keeps_bind hs.polled ?_
      intro s hs
      have hfile : Searched folding tree limits names text :=
        ⟨hshown, hsmall, by simpa using hplain⟩
      have hlines : SearchInvariant folding tree input limits start
          (fromLine (LeftIn children) names 0) waiting s := by
        refine hs.refine ?_
        intro other found _ hfound
        obtain ⟨text', hfile', index, column, line, -, -, rfl⟩ := hfound
        constructor
        · rintro ⟨place, hplace, hinside⟩
          rcases List.mem_cons.mp hplace with rfl | hplace
          · obtain ⟨rfl, -⟩ := searched_file hshown.file hfile' hinside
            exact .inr ⟨rfl, Nat.succ_pos index⟩
          · exact .inl ⟨place, hplace, hinside⟩
        · rintro (⟨place, hplace, hinside⟩ | ⟨rfl, -⟩)
          · exact ⟨place, List.mem_cons_of_mem _ hplace, hinside⟩
          · exact ⟨other, List.mem_cons_self, List.prefix_rfl⟩
      refine search_lines_keeps hfile hbelow ?_ 0 _ (by simp) hlines
      rintro line ⟨place, hplace, hinside⟩
      exact houtside place hplace hinside

theorem visit_file_keeps {bytes : FileBytes} (hshown : Shown folding tree names bytes)
    (hbelow : start <+: names) (houtside : ∀ place ∈ children, ¬ place <+: names)
    (h : SearchInvariant folding tree input limits start (LeftIn (names :: children)) waiting s) :
    Keeps (Sound folding tree input limits start)
      (SearchInvariant folding tree input limits start (LeftIn children) waiting)
      (visitFile input limits control (joinNames names) bytes s) := by
  unfold visitFile
  refine keeps_bind (consider_file_keeps bytes h) ?_
  intro s hs
  split
  · rename_i hlarge
    refine hs.drop ?_
    intro other text hfile hinside
    obtain ⟨-, rfl⟩ := searched_file hshown.file hfile hinside
    exact absurd hfile.small (Nat.not_le.mpr hlarge)
  · rename_i hsmall
    exact scan_file_keeps hshown (Nat.not_lt.mp hsmall) hbelow houtside hs

theorem Apart.symm {p q : List Text} (h : Apart p q) : Apart q p := ⟨h.2, h.1⟩

theorem Apart.child {place directory : List Text} (name : Text) (h : Apart directory place) :
    Apart (directory ++ [name]) place := by
  constructor
  · intro hinside
    exact h.1 ((List.prefix_append _ _).trans hinside)
  · intro hinside
    rcases List.prefix_concat_iff.mp hinside with rfl | hinside
    · exact h.1 (List.prefix_append _ _)
    · exact h.2 hinside

theorem apart_children {directory : List Text} {m n : Text} (h : m ≠ n) :
    Apart (directory ++ [m]) (directory ++ [n]) := by
  have hdiffers : ∀ {m n : Text}, m ≠ n → ¬ directory ++ [m] <+: directory ++ [n] := by
    intro m n hne hinside
    have hsame := hinside.eq_of_length (by simp)
    exact hne (List.singleton_inj.mp (List.append_cancel_left hsame))
  exact ⟨hdiffers h, hdiffers h.symm⟩

theorem Places.tail {place : List Text} {places : List (List Text)}
    (h : Places start (place :: places)) : Places start places :=
  ⟨(List.pairwise_cons.mp h.apart).2, fun q hq => h.below q (List.mem_cons_of_mem _ hq)⟩

theorem Places.head {place : List Text} {places : List (List Text)}
    (h : Places start (place :: places)) : start <+: place ∧ ∀ q ∈ places, Apart place q :=
  ⟨h.below place List.mem_cons_self, (List.pairwise_cons.mp h.apart).1⟩

theorem Places.taken {directory : List Text} {places : List (List Text)} {all : List Text}
    (h : Places start (directory :: places)) (hall : all.Nodup) :
    Places start (all.map (fun name => directory ++ [name]) ++ places) := by
  obtain ⟨hbelow, hothers⟩ := h.head
  constructor
  · refine List.pairwise_append.mpr ⟨?_, h.tail.apart, ?_⟩
    · exact List.pairwise_map.mpr (hall.imp fun hne => apart_children hne)
    · intro child hchild place hplace
      obtain ⟨name, -, rfl⟩ := List.mem_map.mp hchild
      exact (hothers place hplace).child name
  · intro place hplace
    rcases List.mem_append.mp hplace with hchild | hold
    · obtain ⟨name, -, rfl⟩ := List.mem_map.mp hchild
      exact hbelow.trans (List.prefix_append _ _)
    · exact h.tail.below place hold

theorem Places.moved {place : List Text} {places : List (List Text)}
    (h : Places start (place :: (children ++ places))) :
    Places start (children ++ place :: places) :=
  ⟨(List.pairwise_middle fun hpq => Apart.symm hpq).mpr h.apart, fun q hq =>
    h.below q (List.perm_middle.mem_iff.mp hq)⟩

theorem Progress.kept {place : List Text} (hplaces : Places start (place :: (children ++ waiting)))
    {x : Except Halt SearchState}
    (h : Keeps (Sound folding tree input limits start) (SearchInvariant folding tree input limits
      start (LeftIn (children ++ waiting)) waiting) x) :
    Keeps (Sound folding tree input limits start)
      (Progress folding tree input limits start children) x := by
  cases x with
  | ok s => exact ⟨waiting, hplaces.tail, h⟩
  | error halt => cases halt <;> exact h

theorem protected_inside (more : List Text) (hne : names ≠ [])
    (h : isModelProtected folding (joinNames names) = true) :
    isModelProtected folding (joinNames (names ++ more)) = true := by
  induction more generalizing names with
  | nil => rwa [List.append_nil]
  | cons name more ih =>
    rw [List.append_cons]
    apply ih (by simp)
    rw [isModelProtected, splitSeparators, join_snoc names name hne,
      List.splitOnP_append_cons _ _ (by decide : isSeparator '/' = true), List.filter_append,
      List.any_append, Bool.or_eq_true]
    exact .inl h

theorem SearchInvariant.pushed {directory : PendingDirectory}
    (h : SearchInvariant folding tree input limits start (LeftIn (names :: (children ++ waiting)))
      waiting s) (hvisited : Visited folding tree directory names) :
    SearchInvariant folding tree input limits start (LeftIn (children ++ names :: waiting))
      (names :: waiting) (s.push directory) := by
  have hmoved : SearchInvariant folding tree input limits start
      (LeftIn (children ++ names :: waiting)) waiting s := by
    refine h.refine ?_
    intro other found _ _
    refine exists_congr ?_
    intro place
    rw [List.perm_middle.mem_iff]
  exact ⟨⟨hmoved.sound.located, hmoved.sound.distinct⟩, hmoved.settled,
    List.Forall₂.cons hvisited hmoved.pending⟩

theorem visit_name_keeps {directory : PendingDirectory} {name : Text}
    (hvisited : Visited folding tree directory names) (hentered : Entered folding tree names)
    (hincluded : isExcludedName folding name = false)
    (h : Progress folding tree input limits start ((names ++ [name]) :: children) s) :
    Keeps (Sound folding tree input limits start)
      (Progress folding tree input limits start children)
      (visitName folding tree input limits control directory name s) := by
  obtain ⟨waiting, hplaces, h⟩ := h
  have hchild := child_relative tree.root name hentered.valid
  unfold visitName
  refine keeps_bind h.polled ?_
  intro s hs
  refine keeps_bind hs.looked ?_
  intro s hs
  dsimp only
  rw [hvisited.absolute, hvisited.relative, hchild]
  split
  · rename_i hprotected
    refine Progress.kept hplaces (hs.drop ?_).skipped
    rintro _ text hfile ⟨more, rfl⟩
    have hinside := protected_inside more (by simp) hprotected
    rw [hfile.shown.visible] at hinside
    cases hinside
  · rename_i hvisible
    refine keeps_bind hs.polled ?_
    intro s hs
    split
    · refine keeps_bind hs.polled ?_
      intro s hs
      exact hs.skipped.sound
    · rename_i node hnode
      have hempty : ∀ {kind : Node}, node = kind → kind ≠ .directory →
          (∀ bytes, kind ≠ .file bytes) →
          ∀ other text, Searched folding tree limits other text → ¬ names ++ [name] <+: other := by
        intro kind hkind hdirectory hfiles other text hfile hinside
        rw [hkind, List.append_assoc] at hnode
        rcases hfile.shown.above hinside with rfl | habove
        · rw [hfile.shown.file] at hnode
          exact hfiles _ (Option.some.inj hnode).symm
        · rw [habove] at hnode
          exact hdirectory (Option.some.inj hnode).symm
      refine keeps_bind hs.polled ?_
      intro s hs
      cases node with
      | link target =>
        exact Progress.kept hplaces (hs.drop (hempty rfl (by simp) (by simp))).skipped
      | special => exact Progress.kept hplaces (hs.drop (hempty rfl (by simp) (by simp))).skipped
      | directory =>
        have hdirectory := hentered.directory name hnode hincluded
        refine ⟨_, hplaces.moved, hs.pushed ⟨by simp, ?_, hdirectory.real.resolved,
          hdirectory.included⟩⟩
        rw [relative_below tree.root (by simp)]
      | file bytes =>
        have hshown : Shown folding tree (names ++ [name]) bytes := by
          refine hentered.file name bytes hnode hincluded ?_
          rw [hchild]
          simpa using hvisible
        obtain ⟨hbelow, hothers⟩ := hplaces.head
        exact Progress.kept hplaces
          (visit_file_keeps hshown hbelow (fun place hplace => (hothers place hplace).2) hs)

theorem visit_names_keeps {directory : PendingDirectory}
    (hvisited : Visited folding tree directory names) (hentered : Entered folding tree names)
    (all : List Text) (hincluded : ∀ name ∈ all, isExcludedName folding name = false)
    (h : Progress folding tree input limits start
      (all.map (fun name => names ++ [name]) ++ children) s) :
    Keeps (Sound folding tree input limits start)
      (Progress folding tree input limits start children)
      (visitNames folding tree input limits control directory all s) := by
  induction all generalizing s with
  | nil => exact h
  | cons name rest ih =>
    rw [visitNames]
    refine keeps_bind (visit_name_keeps hvisited hentered (hincluded name List.mem_cons_self) h) ?_
    intro s hs
    exact ih (fun other hother => hincluded other (List.mem_cons_of_mem _ hother)) hs

theorem examine_entries_keeps (listed : List DirectoryEntry)
    (h : SearchInvariant folding tree input limits start left waiting s) :
    Keeps (Sound folding tree input limits start)
      (SearchInvariant folding tree input limits start left waiting)
      (examineEntries limits control listed s) := by
  induction listed generalizing s with
  | nil => exact h
  | cons entry rest ih =>
    rw [examineEntries]
    refine keeps_bind h.polled ?_
    intro s hs
    have hexamine : SearchInvariant folding tree input limits start left waiting s.examine :=
      hs.counts rfl rfl
    refine keeps_bind hexamine.bounded ?_
    intro s hs
    refine keeps_bind hs.polled ?_
    intro s hs
    apply ih
    rw [skipForeign]
    split
    · exact hs
    · exact hs.skipped

theorem mem_visited_names {all : List Text} {name : Text} :
    name ∈ visitedNames folding all ↔ name ∈ all ∧ isExcludedName folding name = false := by
  rw [visitedNames, List.mem_insertionSort, List.mem_filter]
  simp

theorem visited_names_nodup {listed : List DirectoryEntry} (h : listed.Nodup) :
    (visitedNames folding (listed.filterMap DirectoryEntry.text)).Nodup := by
  rw [visitedNames, (List.perm_insertionSort _ _).nodup_iff]
  apply List.Nodup.filter
  refine h.filterMap ?_
  rintro (a | _) (b | _) c ha hb
  · cases ha
    cases hb
    rfl
  · cases hb
  · cases ha
  · cases ha

theorem mem_entry_texts {listed : List DirectoryEntry} {name : Text} :
    name ∈ listed.filterMap DirectoryEntry.text ↔ .name name ∈ listed := by
  rw [List.mem_filterMap]
  constructor
  · rintro ⟨entry, hentry, htext⟩
    cases entry with
    | name text =>
      cases htext
      exact hentry
    | foreign raw node => cases htext
  · intro hentry
    exact ⟨_, hentry, rfl⟩

/-- The files of a directory stand below the names that are visited. -/
theorem SearchInvariant.taken {enumeration : Enumeration tree} {listed : List DirectoryEntry}
    (hlisted : enumeration.entries (tree.root ++ names) = some listed)
    (h : SearchInvariant folding tree input limits start (LeftIn (names :: children)) waiting s) :
    SearchInvariant folding tree input limits start
      (LeftIn ((visitedNames folding (listed.filterMap DirectoryEntry.text)).map
        (fun name => names ++ [name]) ++ children)) waiting s := by
  refine h.refine ?_
  intro other found _ hfound
  obtain ⟨text, hfile, _⟩ := hfound
  constructor
  · rintro ⟨place, hplace, hinside⟩
    rcases List.mem_cons.mp hplace with rfl | hplace
    · obtain ⟨more, rfl⟩ := hinside
      cases more with
      | nil =>
        have hdirectory := enumeration.directories _ listed hlisted
        rw [List.append_nil] at hfile
        rw [hfile.shown.file] at hdirectory
        cases hdirectory
      | cons name more =>
        refine ⟨place ++ [name], List.mem_append_left _ (List.mem_map.mpr ⟨name, ?_, rfl⟩),
          ⟨more, by simp⟩⟩
        have hthere : (tree.fs.node (tree.root ++ (place ++ [name]))).isSome = true :=
          resolved_inside hfile.shown.resolved ⟨more, by simp⟩
        rw [← List.append_assoc] at hthere
        rw [mem_visited_names, mem_entry_texts]
        exact ⟨(enumeration.named _ listed hlisted name).mpr hthere,
          hfile.shown.included name (by simp)⟩
    · exact ⟨place, List.mem_append_right _ hplace, hinside⟩
  · rintro ⟨place, hplace, hinside⟩
    rcases List.mem_append.mp hplace with hchild | hplace
    · obtain ⟨name, -, rfl⟩ := List.mem_map.mp hchild
      exact ⟨names, List.mem_cons_self, (List.prefix_append _ _).trans hinside⟩
    · exact ⟨place, List.mem_cons_of_mem _ hplace, hinside⟩

theorem visit_directory_keeps (enumeration : Enumeration tree) {directory : PendingDirectory}
    (hvisited : Visited folding tree directory names)
    (h : Progress folding tree input limits start [names] s) :
    Keeps (Sound folding tree input limits start) (Progress folding tree input limits start [])
      (visitDirectory folding tree enumeration.entries input limits control directory s) := by
  obtain ⟨waiting, hplaces, h⟩ := h
  unfold visitDirectory
  refine keeps_bind h.bounded ?_
  intro s hs
  refine keeps_bind hs.polled ?_
  intro s hs
  split
  · refine keeps_bind hs.polled ?_
    intro s hs
    exact hs.skipped.sound
  · rename_i listed hlisted
    rw [hvisited.absolute] at hlisted
    have hentered : Entered folding tree names :=
      ⟨resolved_directory hvisited.resolved (enumeration.directories _ listed hlisted),
        hvisited.included⟩
    refine keeps_bind hs.polled ?_
    intro s hs
    refine keeps_bind (examine_entries_keeps listed hs) ?_
    intro s hs
    refine visit_names_keeps hvisited hentered _ (fun name hname =>
      (mem_visited_names.mp hname).2) ⟨waiting, ?_, ?_⟩
    · rw [List.append_nil]
      exact hplaces.taken (visited_names_nodup (enumeration.distinct _ listed hlisted))
    · rw [List.append_nil]
      exact SearchInvariant.taken hlisted hs

theorem arrive_keeps {directory : PendingDirectory} {rest : List PendingDirectory}
    (hpending : s.pending = directory :: rest)
    (h : Progress folding tree input limits start [] s) :
    ∃ names, Visited folding tree directory names ∧
      Keeps (Sound folding tree input limits start)
        (Progress folding tree input limits start [names]) (arrive control rest s) := by
  obtain ⟨waiting, hplaces, h⟩ := h
  have hwaiting := h.pending
  rw [hpending] at hwaiting
  cases hwaiting with
  | cons hvisited hothers =>
    rename_i names waiting
    have hpop : SearchInvariant folding tree input limits start (LeftIn ([] ++ names :: waiting))
        waiting (s.pop rest) :=
      ⟨⟨h.sound.located, h.sound.distinct⟩, h.settled, hothers⟩
    have harrive : Keeps (Sound folding tree input limits start) (SearchInvariant folding tree input
        limits start (LeftIn ([] ++ names :: waiting)) waiting) (arrive control rest s) := by
      unfold arrive
      exact keeps_bind hpop.polled fun s hs => hs.looked
    refine ⟨names, hvisited, ?_⟩
    cases harrived : arrive control rest s with
    | ok s =>
      rw [harrived] at harrive
      exact ⟨waiting, hplaces, harrive⟩
    | error halt =>
      rw [harrived] at harrive
      cases halt <;> exact harrive

theorem search_loop_keeps (enumeration : Enumeration tree) (remaining : ℕ)
    (h : Progress folding tree input limits start [] s) :
    Keeps (Sound folding tree input limits start)
      (fun s => SearchInvariant folding tree input limits start (LeftIn []) [] s)
      (searchLoop folding tree enumeration.entries input limits control remaining s) := by
  have hdone : s.pending = [] →
      SearchInvariant folding tree input limits start (LeftIn []) [] s := by
    intro hpending
    obtain ⟨waiting, -, hs⟩ := h
    have hwaiting := hs.pending
    rw [hpending] at hwaiting
    cases hwaiting
    exact hs
  induction remaining generalizing s with
  | zero =>
    rw [searchLoop]
    split
    · rename_i hpending
      exact hdone hpending
    · rename_i hpending
      obtain ⟨names, -, harrive⟩ := arrive_keeps hpending h
      refine keeps_bind harrive ?_
      rintro s ⟨waiting, -, hs⟩
      exact hs.sound
  | succ remaining ih =>
    rw [searchLoop]
    split
    · rename_i hpending
      exact hdone hpending
    · rename_i directory rest hpending
      obtain ⟨names, hvisited, harrive⟩ := arrive_keeps hpending h
      refine keeps_bind harrive ?_
      intro s hs
      refine keeps_bind (visit_directory_keeps enumeration hvisited hs) ?_
      intro s hs
      refine ih hs ?_
      intro hpending
      obtain ⟨waiting, -, hs⟩ := hs
      have hwaiting := hs.pending
      rw [hpending] at hwaiting
      cases hwaiting
      exact hs

instance : Std.TransCmp compareMatches :=
  inferInstanceAs (Std.TransCmp (compareLex (compareOn SearchMatch.path)
    (compareLex (compareOn SearchMatch.line) (compareOn SearchMatch.column))))

def Before (a b : SearchMatch) : Prop :=
  compare a.path b.path = .lt ∨ a.path = b.path ∧ a.line < b.line

theorem sorted_matches (matched : List SearchMatch) :
    (matched.insertionSort fun a b => compareMatches a b ≠ .gt).Pairwise
      fun a b => compareMatches a b ≠ .gt := by
  have htotal : Std.Total fun a b => compareMatches a b ≠ .gt := by
    constructor
    intro a b
    by_cases hgt : compareMatches a b = .gt
    · right
      have hswap : compareMatches b a = (compareMatches a b).swap := Std.OrientedCmp.eq_swap
      rw [hswap, hgt]
      decide
    · exact .inl hgt
  have htrans : IsTrans SearchMatch fun a b => compareMatches a b ≠ .gt := by
    constructor
    intro a b c hab hbc
    exact Ordering.isLE_iff_ne_gt.mp (Std.TransCmp.isLE_trans (Ordering.isLE_iff_ne_gt.mpr hab)
      (Ordering.isLE_iff_ne_gt.mpr hbc))
  exact List.pairwise_insertionSort _ _

theorem before_of_sorted (h : compareMatches a b ≠ .gt)
    (hdistinct : ¬(a.path = b.path ∧ a.line = b.line)) : Before a b := by
  rw [compareMatches] at h
  cases hpath : compare a.path b.path with
  | lt => exact .inl hpath
  | gt => simp [hpath] at h
  | eq =>
    have hsame := Std.LawfulEqOrd.eq_of_compare hpath
    refine .inr ⟨hsame, ?_⟩
    have hlines : ¬ b.line < a.line := by
      intro hgt
      rw [hpath, Nat.compare_eq_gt.mpr hgt] at h
      exact h rfl
    have hother : a.line ≠ b.line := fun heq => hdistinct ⟨hsame, heq⟩
    omega

/-- What a successful search reports; one that is not truncated reports every match below its
start. -/
structure Reported (folding : Folding) (tree : WorkspaceTree) (input : SearchInput)
    (limits : InspectionLimits) (path : Text) (matched : List SearchMatch) (truncated : Bool)
    (start : List Text) : Prop where
  resolves : resolveWorkspacePath tree.fs tree.root input.path = .ok ⟨path, tree.root ++ start⟩
  located : ∀ found ∈ matched, ∃ names, start <+: names ∧
    FoundAt folding tree input limits names found
  increasing : matched.Pairwise Before
  complete : truncated = false → ∀ names found, start <+: names →
    FoundAt folding tree input limits names found → found ∈ matched

theorem Sound.reported {path : Text}
    (hresolve : resolveWorkspacePath tree.fs tree.root input.path = .ok ⟨path, tree.root ++ start⟩)
    (h : Sound folding tree input limits start s) {truncated : Bool}
    (hcomplete : truncated = false → ∀ names found, start <+: names →
      FoundAt folding tree input limits names found → found ∈ s.matched) :
    Reported folding tree input limits path
      (s.matched.insertionSort fun a b => compareMatches a b ≠ .gt) truncated start := by
  refine ⟨hresolve, ?_, ?_, ?_⟩
  · intro found hfound
    exact h.located found ((List.mem_insertionSort _).mp hfound)
  · have hdistinct := (List.perm_insertionSort (fun a b => compareMatches a b ≠ .gt)
      s.matched).symm.pairwise h.distinct (by
        rintro a b hab ⟨hpath, hline⟩
        exact hab ⟨hpath.symm, hline.symm⟩)
    refine (sorted_matches s.matched).imp₂ ?_ hdistinct
    intro a b hsorted hother
    exact before_of_sorted hsorted hother
  · intro hwhole names found hbelow hfound
    exact (List.mem_insertionSort _).mpr (hcomplete hwhole names found hbelow hfound)

theorem search_reports (enumeration : Enumeration tree) {path query : Text}
    {matched : List SearchMatch} {scannedFiles skippedFiles : ℕ} {truncated : Bool}
    {reason : Option TruncationReason}
    (h : searchEntries folding tree enumeration.entries input limits control =
      .success query path matched scannedFiles skippedFiles truncated reason) :
    ∃ start, Reported folding tree input limits path matched truncated start := by
  unfold searchEntries at h
  split at h
  · cases h
  rename_i resolved hresolve
  split at h
  · cases h
  rename_i hguard
  split at h
  · cases h
  obtain ⟨start, rfl, hresolved, hincluded⟩ := entered_start hresolve hguard
  have hstart : Progress folding tree input limits start []
      (.initial ⟨relativeOf tree.root (tree.root ++ start), tree.root ++ start⟩) := by
    refine ⟨[start], ⟨List.pairwise_singleton _ _, by simp⟩, ⟨⟨by simp [SearchState.initial], by
      simp [SearchState.initial]⟩, ?_, .cons ⟨rfl, rfl, hresolved, hincluded⟩ .nil⟩⟩
    intro names found hbelow _
    simpa [SearchState.initial, LeftIn] using hbelow
  have hkeeps : Keeps (Sound folding tree input limits start)
      (fun s => SearchInvariant folding tree input limits start (LeftIn []) [] s)
      (searchLoop folding tree enumeration.entries input limits control limits.maxSearchDirectories
        (.initial ⟨relativeOf tree.root (tree.root ++ start), tree.root ++ start⟩) >>=
          poll control) :=
    keeps_bind (search_loop_keeps enumeration limits.maxSearchDirectories hstart) fun s hs =>
      hs.polled
  refine ⟨start, ?_⟩
  split at h
  · rename_i s hend
    rw [hend] at hkeeps
    have hdone : SearchInvariant folding tree input limits start (LeftIn []) [] s := hkeeps
    cases h
    refine hdone.sound.reported hresolve ?_
    intro _ names found hbelow hfound
    rw [hdone.settled names found hbelow hfound]
    rintro ⟨place, hplace, -⟩
    cases hplace
  · cases h
  · rename_i reason s hend
    rw [hend] at hkeeps
    have hsound : Sound folding tree input limits start s := hkeeps
    cases h
    exact hsound.reported hresolve (by simp)

end Siralos.Inspection
