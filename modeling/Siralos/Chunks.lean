import Mathlib.Computability.Language
import Mathlib.Data.List.Chain

/-!
# Words and a separator

The words without a separator, those whose pieces in front of a separator are not empty, and
the search through all the ways to cut a word in two.
-/

set_option autoImplicit false

open scoped Computability

namespace Siralos.Chunks

variable {α : Type*}

/-- The words of one letter that is not the separator. -/
def letter (sep : α) : Language α := {word | ∃ a, a ≠ sep ∧ word = [a]}

/-- Every separator is behind a piece that is not empty. -/
def chunks (sep : α) : Language α :=
  (letter sep * (letter sep)∗ * {[sep]})∗ * (letter sep)∗

/-- No separator is in front, and none behind another. -/
def Spaced (sep : α) (word : List α) : Prop :=
  word.head? ≠ some sep ∧ word.IsChain fun a b => ¬ (a = sep ∧ b = sep)

theorem mem_letters (sep : α) (word : List α) : word ∈ (letter sep)∗ ↔ sep ∉ word := by
  constructor
  · intro h hsep
    obtain ⟨parts, rfl, hparts⟩ := Language.mem_kstar.mp h
    obtain ⟨part, hpart, hmem⟩ := List.mem_flatten.mp hsep
    obtain ⟨a, ha, rfl⟩ := hparts part hpart
    exact ha (List.mem_singleton.mp hmem).symm
  · intro h
    apply Language.mem_kstar.mpr
    refine ⟨word.map fun a => [a], ?_, ?_⟩
    · induction word with
      | nil => rfl
      | cons a word ih =>
        rw [List.map_cons, List.flatten_cons, ← ih fun hmem => h (List.mem_cons_of_mem _ hmem)]
        rfl
    · intro part hpart
      obtain ⟨a, ha, rfl⟩ := List.mem_map.mp hpart
      exact ⟨a, fun hsep => h (hsep ▸ ha), rfl⟩

theorem mem_piece (sep : α) (word : List α) :
    word ∈ letter sep * (letter sep)∗ ↔ word ≠ [] ∧ sep ∉ word := by
  constructor
  · intro h
    obtain ⟨first, ⟨a, ha, rfl⟩, rest, hrest, rfl⟩ := Language.mem_mul.mp h
    refine ⟨List.cons_ne_nil _ _, ?_⟩
    intro hsep
    rcases List.mem_cons.mp hsep with hsep | hsep
    · exact ha hsep.symm
    · exact (mem_letters sep rest).mp hrest hsep
  · rintro ⟨hne, hsep⟩
    obtain ⟨a, rest, rfl⟩ := List.exists_cons_of_ne_nil hne
    have hrest : rest ∈ (letter sep)∗ :=
      (mem_letters sep rest).mpr fun hmem => hsep (List.mem_cons_of_mem _ hmem)
    have ha : [a] ∈ letter sep := ⟨a, fun h => hsep (h ▸ List.mem_cons_self), rfl⟩
    exact Language.append_mem_mul ha hrest

theorem chain_free {sep : α} {word : List α} (h : sep ∉ word) :
    word.IsChain fun a b => ¬ (a = sep ∧ b = sep) := by
  induction word with
  | nil => exact .nil
  | cons a word ih =>
    have hword := ih fun hmem => h (List.mem_cons_of_mem _ hmem)
    apply hword.cons
    intro b _ hboth
    exact h (hboth.1 ▸ List.mem_cons_self)

theorem spaced_piece {sep : α} {piece rest : List α} (hne : piece ≠ []) (hfree : sep ∉ piece) :
    Spaced sep (piece ++ sep :: rest) ↔ Spaced sep rest := by
  have hhead : (piece ++ sep :: rest).head? ≠ some sep := by
    obtain ⟨a, piece, rfl⟩ := List.exists_cons_of_ne_nil hne
    intro h
    exact hfree (Option.some.inj h ▸ List.mem_cons_self)
  constructor
  · rintro ⟨-, hchain⟩
    have hbehind := (List.isChain_append.mp hchain).2.1
    refine ⟨?_, hbehind.tail⟩
    intro hrest
    obtain ⟨rest, rfl⟩ : ∃ others, rest = sep :: others := by
      cases rest with
      | nil => cases hrest
      | cons b others => exact ⟨others, by rw [Option.some.inj hrest]⟩
    exact (List.isChain_cons_cons.mp hbehind).1 ⟨rfl, rfl⟩
  · rintro ⟨hrest, hchain⟩
    refine ⟨hhead, List.isChain_append.mpr ⟨chain_free hfree, ?_, ?_⟩⟩
    · apply hchain.cons
      intro b hb hboth
      exact hrest (hboth.2 ▸ hb)
    · intro a ha b hb hboth
      exact hfree (hboth.1 ▸ List.mem_of_getLast? ha)

theorem mem_chunks (sep : α) (word : List α) : word ∈ chunks sep ↔ Spaced sep word := by
  classical
  constructor
  · intro h
    obtain ⟨front, hfront, last, hlast, rfl⟩ := Language.mem_mul.mp h
    obtain ⟨parts, rfl, hparts⟩ := Language.mem_kstar.mp hfront
    have hfree := (mem_letters sep last).mp hlast
    clear h hfront
    -- one piece after the other, from the last to the first
    induction parts with
    | nil =>
      refine ⟨?_, chain_free hfree⟩
      intro hhead
      exact hfree (List.mem_of_mem_head? hhead)
    | cons part parts ih =>
      obtain ⟨piece, hpiece, behind, rfl, rfl⟩ :=
        Language.mem_mul.mp (hparts part List.mem_cons_self)
      obtain ⟨hne, hapart⟩ := (mem_piece sep piece).mp hpiece
      have hrest := ih fun y hy => hparts y (List.mem_cons_of_mem _ hy)
      rw [List.flatten_cons, List.append_assoc, List.append_assoc]
      exact (spaced_piece hne hapart).mpr hrest
  · intro h
    induction hn : word.length using Nat.strong_induction_on generalizing word with
    | _ n ih =>
      by_cases hsep : sep ∈ word
      · obtain ⟨piece, rest, rfl, hapart⟩ := List.eq_append_cons_of_mem hsep
        have hne : piece ≠ [] := by
          rintro rfl
          exact h.1 rfl
        have hrest := ih rest.length (by
          rw [← hn, List.length_append, List.length_cons]
          omega) rest ((spaced_piece hne hapart).mp h) rfl
        have hpart : piece ++ [sep] ∈ letter sep * (letter sep)∗ * {[sep]} :=
          Language.append_mem_mul ((mem_piece sep piece).mpr ⟨hne, hapart⟩) rfl
        have hword := Language.append_mem_mul hpart hrest
        rw [List.append_assoc, List.singleton_append, chunks, ← mul_assoc] at hword
        have hless : letter sep * (letter sep)∗ * {[sep]} *
            (letter sep * (letter sep)∗ * {[sep]})∗ * (letter sep)∗ ≤ chunks sep :=
          mul_le_mul_left mul_kstar_le_kstar _
        exact hless hword
      · exact Language.append_mem_mul (Language.nil_mem_kstar _) ((mem_letters sep word).mpr hsep)

/-- The cuts of a word in two parts, tried one after the other. -/
def anyCut (first second : List α → Bool) (word : List α) : Bool :=
  (List.range (word.length + 1)).any fun n => first (word.take n) && second (word.drop n)

/-- The same cuts, the longest first part before the others. -/
def anyCutBack (first second : List α → Bool) (word : List α) : Bool :=
  (List.range (word.length + 1)).reverse.any fun n => first (word.take n) && second (word.drop n)

theorem any_cut_back (first second : List α → Bool) (word : List α) :
    anyCutBack first second word = anyCut first second word := by
  rw [anyCutBack, List.any_reverse]
  rfl

theorem any_cut_iff (first second : List α → Bool) (word : List α) :
    anyCut first second word = true ↔
      ∃ front rest, front ++ rest = word ∧ first front = true ∧ second rest = true := by
  simp only [anyCut, List.any_eq_true, Bool.and_eq_true]
  constructor
  · rintro ⟨n, -, hfirst, hsecond⟩
    exact ⟨_, _, List.take_append_drop n word, hfirst, hsecond⟩
  · rintro ⟨front, rest, rfl, hfirst, hsecond⟩
    refine ⟨front.length, ?_, ?_, ?_⟩
    · rw [List.mem_range, List.length_append]
      omega
    · rwa [List.take_left]
    · rwa [List.drop_left]

end Siralos.Chunks
