import Siralos.Text

/-!
# Wrapping

A line that is too wide is cut at spaces where it can be, and inside a word where it cannot. Only
spaces lie between the rows.
-/

set_option autoImplicit false

namespace Siralos.Wrapping

abbrev Cell := Char × ℕ

section Wrapping

variable (displayWidth : Text → ℕ)

def cellOf (c : Char) : Cell := (c, max (displayWidth [c]) 1)

/-- How many cells fit the width, and where the last space among them is. -/
def fitting (width : ℕ) : List Cell → ℕ → ℕ → Option ℕ → ℕ × Option ℕ
  | [], fits, _, lastSpace => (fits, lastSpace)
  | (c, cellWidth) :: cells, fits, used, lastSpace =>
    if width < used + cellWidth then (fits, lastSpace)
    else
      fitting width cells (fits + 1) (used + cellWidth)
        (if c = ' ' then some fits else lastSpace)

def textOf (cells : List Cell) : Text := cells.map Prod.fst

/-- The next row, and the cells behind it. Positions count from the start of the row. -/
def wrapRow (width : ℕ) (cells : List Cell) : Text × List Cell :=
  let fit := fitting width cells 0 0 none
  if fit.1 = 0 then (textOf (cells.take 1), cells.drop 1)
  else if (cells[fit.1]?).any (fun cell => cell.1 == ' ') then
    -- The space at the break is a separator.
    (Text.trimEndMatches ' ' (textOf (cells.take fit.1)), cells.drop (fit.1 + 1))
  else
    match fit.2.filter fun i => 0 < i && fit.1 < cells.length with
    | some breakAt =>
      (Text.trimEndMatches ' ' (textOf (cells.take breakAt)), cells.drop (breakAt + 1))
    | none => (textOf (cells.take fit.1), cells.drop fit.1)

theorem wrap_row_shorter (width : ℕ) (cell : Cell) (cells : List Cell) :
    (wrapRow width (cell :: cells)).2.length < (cell :: cells).length := by
  have hpos : 0 < (cell :: cells).length := Nat.succ_pos _
  rw [wrapRow]
  by_cases hwide : (fitting width (cell :: cells) 0 0 none).1 = 0
  · rw [if_pos hwide, List.length_drop]
    omega
  · rw [if_neg hwide]
    split
    · rw [List.length_drop]
      omega
    · split
      · rw [List.length_drop]
        omega
      · rw [List.length_drop]
        omega

def wrapCells (width : ℕ) : List Cell → List Text
  | [] => []
  | cell :: cells =>
    (wrapRow width (cell :: cells)).1 :: wrapCells width (wrapRow width (cell :: cells)).2
termination_by cells => cells.length
decreasing_by exact wrap_row_shorter width cell cells

def wrapLineToWidth (text : Text) (width : ℕ) : List Text :=
  if width = 0 then [text]
  else if displayWidth text ≤ width then [text]
  else wrapCells width (text.map (cellOf displayWidth))

end Wrapping

def Spaces (text : Text) : Prop := ∀ c ∈ text, c = ' '

def withoutSpaces (text : Text) : Text := text.filter (· != ' ')

/-- The summed widths of the scalars, each at least one. -/
def cellsWidth (displayWidth : Text → ℕ) (row : Text) : ℕ :=
  (row.map fun c => max (displayWidth [c]) 1).sum

/-- The rows stand in the text in order, with nothing but spaces behind each. -/
structure Wrapped (displayWidth : Text → ℕ) (text : Text) (width : ℕ) (rows : List Text) :
    Prop where
  pieces : ∃ skipped : List Text, skipped.length = rows.length ∧ (∀ skip ∈ skipped, Spaces skip) ∧
    text = (List.zipWith (· ++ ·) rows skipped).flatten
  same : withoutSpaces rows.flatten = withoutSpaces text
  fits : width < displayWidth text → ∀ row ∈ rows, cellsWidth displayWidth row ≤ width ∨
    ∃ c, row = [c] ∧ width < cellsWidth displayWidth [c]

theorem fitting_spec (width : ℕ) (cells : List Cell) (fits used : ℕ) (lastSpace : Option ℕ)
    (hused : used ≤ width) :
    ∃ n ≤ cells.length, (fitting width cells fits used lastSpace).1 = fits + n ∧
      used + ((cells.take n).map Prod.snd).sum ≤ width ∧
      ∀ i, (fitting width cells fits used lastSpace).2 = some i →
        lastSpace = some i ∨ ∃ k < n, i = fits + k ∧ (cells[k]?).map Prod.fst = some ' ' := by
  induction cells generalizing fits used lastSpace with
  | nil => exact ⟨0, le_rfl, rfl, by simpa using hused, fun i h => .inl h⟩
  | cons cell cells ih =>
    obtain ⟨c, cellWidth⟩ := cell
    rw [fitting]
    by_cases hwide : width < used + cellWidth
    · rw [if_pos hwide]
      exact ⟨0, Nat.zero_le _, rfl, by simpa using hused, fun i h => .inl h⟩
    · rw [if_neg hwide]
      obtain ⟨n, hn, hfits, hwidth, hspace⟩ := ih (fits + 1) (used + cellWidth)
        (if c = ' ' then some fits else lastSpace) (Nat.not_lt.mp hwide)
      refine ⟨n + 1, Nat.succ_le_succ hn, by omega, ?_, ?_⟩
      · rw [List.take_succ_cons, List.map_cons, List.sum_cons]
        omega
      · intro i hi
        rcases hspace i hi with hlast | ⟨k, hk, hik, hcell⟩
        · by_cases hc : c = ' '
          · rw [if_pos hc, Option.some.injEq] at hlast
            exact .inr ⟨0, Nat.succ_pos _, hlast.symm, by rw [List.getElem?_cons_zero, hc]; rfl⟩
          · rw [if_neg hc] at hlast
            exact .inl hlast
        · exact .inr ⟨k + 1, Nat.succ_lt_succ hk, by omega, hcell⟩

theorem trimmed (text : Text) : ∃ skip, Spaces skip ∧
    text = Text.trimEndMatches ' ' text ++ skip := by
  refine ⟨text.rtakeWhile (· == ' '), ?_, List.rdropWhile_append_rtakeWhile.symm⟩
  intro c hc
  have hspace := List.mem_rtakeWhile_imp hc
  exact beq_iff_eq.mp hspace

theorem text_split (cells : List Cell) (n : ℕ) :
    textOf cells = textOf (cells.take n) ++ textOf (cells.drop n) := by
  rw [textOf, textOf, textOf, ← List.map_append, List.take_append_drop]

theorem broken_row {cells : List Cell} {n : ℕ} (h : (cells[n]?).map Prod.fst = some ' ') :
    ∃ skip, Spaces skip ∧ textOf cells =
      Text.trimEndMatches ' ' (textOf (cells.take n)) ++ (skip ++ textOf (cells.drop (n + 1))) := by
  obtain ⟨skip, hskip, htrim⟩ := trimmed (textOf (cells.take n))
  obtain ⟨cell, hcell, hspace⟩ := Option.map_eq_some_iff.mp h
  obtain ⟨hlt, hget⟩ := List.getElem?_eq_some_iff.mp hcell
  refine ⟨skip ++ [' '], ?_, ?_⟩
  · intro c hc
    rcases List.mem_append.mp hc with hc | hc
    · exact hskip c hc
    · exact List.mem_singleton.mp hc
  · have hdrop : textOf (cells.drop n) = ' ' :: textOf (cells.drop (n + 1)) := by
      rw [List.drop_eq_getElem_cons hlt, hget, textOf, List.map_cons, hspace]
      rfl
    conv_lhs => rw [text_split cells n, hdrop, htrim]
    simp only [List.append_assoc, List.singleton_append]

section Rows

variable {displayWidth : Text → ℕ}

/-- The cells carry the widths of their scalars. -/
def Measured (displayWidth : Text → ℕ) (cells : List Cell) : Prop :=
  ∀ cell ∈ cells, cell.2 = max (displayWidth [cell.1]) 1

theorem cells_width {cells : List Cell} (h : Measured displayWidth cells) :
    cellsWidth displayWidth (textOf cells) = (cells.map Prod.snd).sum := by
  rw [cellsWidth, textOf, List.map_map]
  congr 1
  apply List.map_congr_left
  intro cell hcell
  exact (h cell hcell).symm

theorem prefix_width {first second : Text} (h : first <+: second) :
    cellsWidth displayWidth first ≤ cellsWidth displayWidth second := by
  obtain ⟨rest, rfl⟩ := h
  rw [cellsWidth, cellsWidth, List.map_append, List.sum_append]
  exact Nat.le_add_right _ _

theorem take_width {cells : List Cell} {width n m : ℕ} (h : Measured displayWidth cells)
    (hwidth : ((cells.take n).map Prod.snd).sum ≤ width) (hle : m ≤ n) {row : Text}
    (hrow : row <+: textOf (cells.take m)) : cellsWidth displayWidth row ≤ width := by
  have hprefix : textOf (cells.take m) <+: textOf (cells.take n) :=
    (List.take_prefix_take_left hle).map Prod.fst
  have hmeasured : Measured displayWidth (cells.take n) := fun cell hcell =>
    h cell (List.mem_of_mem_take hcell)
  calc cellsWidth displayWidth row ≤ cellsWidth displayWidth (textOf (cells.take n)) :=
        prefix_width (hrow.trans hprefix)
    _ = ((cells.take n).map Prod.snd).sum := cells_width hmeasured
    _ ≤ width := hwidth

/-- A row, what is skipped behind it, and the cells that remain. -/
structure Row (displayWidth : Text → ℕ) (width : ℕ) (cells : List Cell)
    (row : Text × List Cell) : Prop where
  behind : ∃ skip, Spaces skip ∧ textOf cells = row.1 ++ (skip ++ textOf row.2)
  remaining : row.2 <:+ cells
  fits : cellsWidth displayWidth row.1 ≤ width ∨
    ∃ c, row.1 = [c] ∧ width < cellsWidth displayWidth [c]

theorem wrap_row_spec {width : ℕ} {cell : Cell} {cells : List Cell}
    (h : Measured displayWidth (cell :: cells)) :
    Row displayWidth width (cell :: cells) (wrapRow width (cell :: cells)) := by
  obtain ⟨n, hn, hfits, hwidth, hspace⟩ :=
    fitting_spec width (cell :: cells) 0 0 none (Nat.zero_le _)
  rw [Nat.zero_add] at hfits hwidth
  rw [wrapRow, hfits]
  by_cases hwide : n = 0
  · -- The first scalar is wider than the row.
    rw [if_pos hwide]
    refine ⟨⟨[], nofun, text_split _ 1⟩, List.drop_suffix _ _, .inr ⟨cell.1, rfl, ?_⟩⟩
    rw [hwide, fitting] at hfits
    have hlarge : width < 0 + cell.2 := by
      by_contra hsmall
      rw [if_neg hsmall] at hfits
      obtain ⟨m, -, hm, -⟩ := fitting_spec width cells (0 + 1) (0 + cell.2)
        (if cell.1 = ' ' then some 0 else none) (Nat.not_lt.mp hsmall)
      rw [hfits] at hm
      omega
    rw [cellsWidth, List.map_singleton, List.sum_singleton, ← h cell List.mem_cons_self]
    omega
  rw [if_neg hwide]
  split
  · rename_i hbreak
    obtain ⟨found, hfound, hchar⟩ := (Option.any_eq_true _ _).mp hbreak
    have hspaced : ((cell :: cells)[n]?).map Prod.fst = some ' ' := by
      rw [hfound, Option.map_some, beq_iff_eq.mp hchar]
    obtain ⟨skip, hskip, hsplit⟩ := broken_row hspaced
    exact ⟨⟨skip, hskip, hsplit⟩, List.drop_suffix _ _,
      .inl (take_width h hwidth le_rfl (List.rdropWhile_prefix ..))⟩
  · split
    · rename_i breakAt hbreak
      obtain ⟨hlast, -⟩ := Option.filter_eq_some_iff.mp hbreak
      rcases hspace breakAt hlast with hnone | ⟨k, hk, hik, hchar⟩
      · cases hnone
      · rw [Nat.zero_add] at hik
        subst hik
        obtain ⟨skip, hskip, hsplit⟩ := broken_row hchar
        exact ⟨⟨skip, hskip, hsplit⟩, List.drop_suffix _ _,
          .inl (take_width h hwidth hk.le (List.rdropWhile_prefix ..))⟩
    · exact ⟨⟨[], nofun, text_split _ n⟩, List.drop_suffix _ _,
        .inl (take_width h hwidth le_rfl List.prefix_rfl)⟩

theorem wrap_cells_spec (width : ℕ) {cells : List Cell} (h : Measured displayWidth cells) :
    (∃ skipped : List Text, skipped.length = (wrapCells width cells).length ∧
      (∀ skip ∈ skipped, Spaces skip) ∧
      textOf cells = (List.zipWith (· ++ ·) (wrapCells width cells) skipped).flatten) ∧
    ∀ row ∈ wrapCells width cells, cellsWidth displayWidth row ≤ width ∨
      ∃ c, row = [c] ∧ width < cellsWidth displayWidth [c] := by
  induction cells using wrapCells.induct width with
  | case1 =>
    rw [wrapCells]
    exact ⟨⟨[], rfl, nofun, rfl⟩, nofun⟩
  | case2 cell cells ih =>
    have hrow : Row displayWidth width (cell :: cells) (wrapRow width (cell :: cells)) :=
      wrap_row_spec h
    obtain ⟨skip, hskip, hsplit⟩ := hrow.behind
    obtain ⟨⟨skipped, hlength, hspaces, htext⟩, hfits⟩ := ih fun other hother =>
      h other (hrow.remaining.subset hother)
    rw [wrapCells]
    refine ⟨⟨skip :: skipped, ?_, List.forall_mem_cons.mpr ⟨hskip, hspaces⟩, ?_⟩,
      List.forall_mem_cons.mpr ⟨hrow.fits, hfits⟩⟩
    · rw [List.length_cons, List.length_cons, hlength]
    · rw [hsplit, htext, List.zipWith_cons_cons, List.flatten_cons, List.append_assoc]

theorem without_spaces_append (first second : Text) :
    withoutSpaces (first ++ second) = withoutSpaces first ++ withoutSpaces second :=
  List.filter_append ..

theorem without_spaces_nil {text : Text} (h : Spaces text) : withoutSpaces text = [] := by
  rw [withoutSpaces, List.filter_eq_nil_iff]
  intro c hc
  simp [h c hc]

theorem pieces_same {rows skipped : List Text} (hlength : skipped.length = rows.length)
    (hspaces : ∀ skip ∈ skipped, Spaces skip) :
    withoutSpaces rows.flatten =
      withoutSpaces (List.zipWith (· ++ ·) rows skipped).flatten := by
  induction rows generalizing skipped with
  | nil => rfl
  | cons row rows ih =>
    cases skipped with
    | nil => cases hlength
    | cons skip skipped =>
      obtain ⟨hskip, hrest⟩ := List.forall_mem_cons.mp hspaces
      rw [List.zipWith_cons_cons, List.flatten_cons, List.flatten_cons, without_spaces_append,
        without_spaces_append, without_spaces_append, without_spaces_nil hskip, List.append_nil,
        ih (Nat.succ.inj hlength) hrest]

/-- Wrapping loses nothing but spaces, and its rows fit. -/
theorem wrap_line_spec (displayWidth : Text → ℕ) (text : Text) (width : ℕ) (hwidth : 1 ≤ width) :
    Wrapped displayWidth text width (wrapLineToWidth displayWidth text width) := by
  rw [wrapLineToWidth, if_neg (Nat.one_le_iff_ne_zero.mp hwidth)]
  by_cases hfits : displayWidth text ≤ width
  · rw [if_pos hfits]
    refine ⟨⟨[[]], rfl, by simp [Spaces], by simp⟩, by simp, ?_⟩
    intro hwide
    exact absurd hfits (Nat.not_le.mpr hwide)
  · rw [if_neg hfits]
    have hmeasured : Measured displayWidth (text.map (cellOf displayWidth)) := by
      intro cell hcell
      obtain ⟨c, -, rfl⟩ := List.mem_map.mp hcell
      rfl
    have htext : textOf (text.map (cellOf displayWidth)) = text := by
      rw [textOf, List.map_map]
      exact List.map_id text
    obtain ⟨⟨skipped, hlength, hspaces, hpieces⟩, hrows⟩ := wrap_cells_spec width hmeasured
    rw [htext] at hpieces
    refine ⟨⟨skipped, hlength, hspaces, hpieces⟩, ?_, fun _ => hrows⟩
    rw [pieces_same hlength hspaces, ← hpieces]

theorem sample_wrapped : Wrapped List.length ['a', 'b', ' ', 'c'] 2
    (wrapLineToWidth List.length ['a', 'b', ' ', 'c'] 2) :=
  wrap_line_spec List.length ['a', 'b', ' ', 'c'] 2 (by decide)

end Rows

end Siralos.Wrapping
