import Siralos.SseMoves

/-!
# Chunk boundaries

What a stream makes of its text does not depend on where the text is cut, as
long as no cut makes the mode probe of a running stream see a JSON body and no
held text outgrows the probe.
-/

set_option autoImplicit false

namespace Siralos.Sse
open Text Json Provider Emission

def head (t : Text) : Text := trimStart (stripMark t)

theorem strip_mark_append (s t : Text) (hs : s ≠ []) : stripMark (s ++ t) = stripMark s ++ t := by
  cases s with
  | nil => exact absurd rfl hs
  | cons c s => by_cases hc : byteOrderMark = c <;> simp [stripMark, stripPrefix, hc]

theorem head_append (s t : Text) (hs : head s ≠ []) : head (s ++ t) = head s ++ t := by
  have hne : s ≠ [] := by
    rintro rfl
    exact hs rfl
  unfold head trimStart at hs ⊢
  rw [strip_mark_append s t hne, List.dropWhile_append, if_neg (by simpa using hs)]

theorem head_nil_of_append (s t : Text) (h : head (s ++ t) = []) : head s = [] := by
  by_contra hs
  rw [head_append s t hs] at h
  exact hs (List.append_eq_nil_iff.mp h).1

theorem starts_json_append (s t : Text) (hs : s ≠ []) : startsJson (s ++ t) = startsJson s := by
  cases s with
  | nil => exact absurd rfl hs
  | cons c s =>
    have hbrace : ("\x7b" : Text) = ['{'] := rfl
    have hbracket : ("[" : Text) = ['['] := rfl
    simp only [startsJson, startsWith, List.cons_append, hbrace, hbracket, stripPrefix,
      apply_ite Option.isSome, Option.isSome_some, Option.isSome_none]

theorem starts_json_ne_nil (t : Text) (h : startsJson t = true) : t ≠ [] := by
  rintro rfl
  exact absurd h (by decide)

theorem cut_lines_append (s t : Text) :
    cutLines (s ++ t) =
      ((cutLines s).1 ++ (cutLines ((cutLines s).2 ++ t)).1, (cutLines ((cutLines s).2 ++ t)).2) := by
  induction s with
  | nil => rfl
  | cons c s ih =>
    rw [List.cons_append, cutLines, ih, cutLines]
    by_cases hc : c = '\n'
    · simp [hc]
    · rcases hcut : cutLines s with ⟨_ | ⟨line, lines⟩, rest⟩
      · simp [hc, cutLines]
      · simp [hc]

theorem cut_lines_mem (t : Text) :
    (∀ line ∈ (cutLines t).1, ∀ c ∈ line, c ∈ t) ∧ ∀ c ∈ (cutLines t).2, c ∈ t := by
  induction t with
  | nil => simp [cutLines]
  | cons c t ih =>
    rw [cutLines]
    by_cases hc : c = '\n'
    · simp only [hc, if_true, List.mem_cons]
      refine ⟨fun line hline d hd => ?_, fun d hd => Or.inr (ih.2 d hd)⟩
      rcases hline with rfl | hline
      · simp at hd
      · exact Or.inr (ih.1 line hline d hd)
    · rcases hcut : cutLines t with ⟨_ | ⟨line, lines⟩, rest⟩
      · rw [hcut] at ih
        simp only [hc, if_false, List.not_mem_nil, List.mem_cons]
        refine ⟨fun _ h => absurd h id, fun d hd => ?_⟩
        rcases hd with rfl | hd
        · exact Or.inl rfl
        · exact Or.inr (ih.2 d hd)
      · rw [hcut] at ih
        simp only [hc, if_false, List.mem_cons]
        refine ⟨fun l hl d hd => ?_, fun d hd => Or.inr (ih.2 d hd)⟩
        rcases hl with rfl | hl
        · rcases List.mem_cons.mp hd with rfl | hd
          · exact Or.inl rfl
          · exact Or.inr (ih.1 line (by simp) d hd)
        · exact Or.inr (ih.1 l (by simp [hl]) d hd)

theorem cut_lines_plain (t : Text) (h : '\n' ∉ t) : cutLines t = ([], t) := by
  induction t with
  | nil => rfl
  | cons c t ih =>
    simp only [List.mem_cons, not_or] at h
    rw [cutLines, ih h.2]
    simp [Ne.symm h.1]

theorem cut_lines_rest (t : Text) : '\n' ∉ (cutLines t).2 := by
  induction t with
  | nil => simp [cutLines]
  | cons c t ih =>
    rw [cutLines]
    by_cases hc : c = '\n'
    · simpa [hc] using ih
    · rcases hcut : cutLines t with ⟨_ | ⟨line, lines⟩, rest⟩
      · rw [hcut] at ih
        simpa [hc, Ne.symm hc] using ih
      · rw [hcut] at ih
        simpa [hc] using ih

section Reading

variable (parse : Text → Option Value)

theorem consume_lines_append (lines more : List Text) (a : Assembly) :
    consumeLines parse (lines ++ more) a =
      ((consumeLines parse more (consumeLines parse lines a).1).1,
        (consumeLines parse lines a).2 ++
          (consumeLines parse more (consumeLines parse lines a).1).2) := by
  induction lines generalizing a with
  | nil => simp [consumeLines]
  | cons line lines ih =>
    simp only [List.cons_append, consumeLines]
    by_cases hf : ((consumeLine parse (trimEndMatches '\r' line)).run a).2.1.failed = true
    · rw [if_pos hf, if_pos hf, consume_lines_ended parse more _ (by simp [hf])]
      simp
    · rw [if_neg hf, if_neg hf, ih]
      simp [List.append_assoc]

theorem consume_line_congr {s t : Text} (h : trim s = trim t) :
    consumeLine parse s = consumeLine parse t := by
  unfold consumeLine
  rw [h]

theorem consume_line_skip (line : Text) (a : Assembly)
    (h : (trim line).isEmpty = true ∨ trim line = [byteOrderMark]) :
    (consumeLine parse line).run a = (none, a, []) := by
  by_cases he : (a.failed || a.completed) = true
  · exact consume_line_ended parse line a he
  rw [consumeLine, observe_bind, if_neg he]
  rcases h with h | h
  · simp only [h, Bool.true_or, if_true]
    rfl
  · rw [h]
    rfl

def readRest (a : Assembly) (t : Text) : Assembly × List ProviderEvent :=
  let read := consumeLines parse (cutLines t).1 a
  let flushed := flushTail parse read.1 (cutLines t).2
  let ended := endStream flushed.1
  (ended.1, read.2 ++ flushed.2 ++ ended.2)

theorem read_rest_ended (a : Assembly) (t : Text) (he : (a.failed || a.completed) = true) :
    readRest parse a t = (a, []) := by
  simp [readRest, consume_lines_ended parse _ a he, flush_tail_ended parse a _ he,
    end_stream_ended a he]

theorem read_rest_append (a : Assembly) (s t : Text) :
    readRest parse a (s ++ t) =
      ((readRest parse (consumeLines parse (cutLines s).1 a).1 ((cutLines s).2 ++ t)).1,
        (consumeLines parse (cutLines s).1 a).2 ++
          (readRest parse (consumeLines parse (cutLines s).1 a).1 ((cutLines s).2 ++ t)).2) := by
  simp only [readRest, cut_lines_append s t, consume_lines_append, List.append_assoc]

theorem read_rest_space (a : Assembly) (c : Char) (t : Text) (hc : isWhitespace c = true) :
    readRest parse a (c :: t) = readRest parse a t := by
  by_cases he : (a.failed || a.completed) = true
  · rw [read_rest_ended parse a _ he, read_rest_ended parse a _ he]
  have hf : ¬ a.failed = true := fun h => he (by simp [h])
  have hblank : blank [c] = true := by simp [blank, hc]
  by_cases hn : c = '\n'
  · have hcut : cutLines (c :: t) = ([] :: (cutLines t).1, (cutLines t).2) := by
      simp [cutLines, hn]
    have hskip : consumeLines parse ([] :: (cutLines t).1) a =
        consumeLines parse (cutLines t).1 a := by
      rw [consumeLines, consume_line_skip parse _ a (Or.inl rfl)]
      simp [hf]
    rw [readRest, readRest, hcut, hskip]
  · rcases hcut : cutLines t with ⟨_ | ⟨line, lines⟩, rest⟩
    · have htail : flushTail parse a (c :: rest) = flushTail parse a rest := by
        rw [flushTail, flushTail]
        exact congrArg (fun tail => if tail.isEmpty then (a, []) else
          ((consumeLine parse tail).run a).2) (trim_blank_append [c] rest hblank)
      simp [readRest, cutLines, hn, hcut, htail, consumeLines]
    · have hline : trim (trimEndMatches '\r' (c :: line)) = trim (trimEndMatches '\r' line) := by
        rw [trim_trim_end_matches _ _ rfl, trim_trim_end_matches _ _ rfl]
        exact trim_blank_append [c] line hblank
      simp [readRest, cutLines, hn, hcut, consumeLines, consume_line_congr parse hline]

theorem read_rest_blank (a : Assembly) (s t : Text) (hs : blank s = true) :
    readRest parse a (s ++ t) = readRest parse a t := by
  induction s with
  | nil => rfl
  | cons c s ih =>
    simp only [blank, List.all_cons, Bool.and_eq_true] at hs
    rw [List.cons_append, read_rest_space parse a c _ hs.1, ih hs.2]

theorem read_rest_mark (a : Assembly) (t : Text) (ht : blank t = true) :
    readRest parse a (byteOrderMark :: t) = readRest parse a t := by
  obtain ⟨hlines, hrest⟩ := cut_lines_mem t
  rw [blank_iff] at ht
  have hmark : ∀ u, (∀ c ∈ u, c ∈ t) → trim (byteOrderMark :: u) = [byteOrderMark] := fun u hu =>
    trim_append_blank [byteOrderMark] u ((blank_iff u).mpr fun c hc => ht c (hu c hc))
  have hempty : ∀ u, (∀ c ∈ u, c ∈ t) → trim u = [] := fun u hu =>
    (trim_eq_nil u).mpr ((blank_iff u).mpr fun c hc => ht c (hu c hc))
  have hbreak : byteOrderMark ≠ '\n' := by decide
  rcases hcut : cutLines t with ⟨_ | ⟨line, lines⟩, rest⟩
  · rw [hcut] at hrest
    have hflush : flushTail parse a (byteOrderMark :: rest) = flushTail parse a rest := by
      rw [flushTail, flushTail]
      simp only [hmark rest hrest, hempty rest hrest]
      rw [consume_line_skip parse _ a (Or.inr rfl)]
      rfl
    simp [readRest, cutLines, hbreak, hcut, hflush, consumeLines]
  · have hmem : ∀ c ∈ line, c ∈ t := by
      rw [hcut] at hlines
      exact hlines line (by simp)
    have hskip : (consumeLine parse (trimEndMatches '\r' (byteOrderMark :: line))).run a =
        (none, a, []) :=
      consume_line_skip parse _ a (Or.inr (by
        rw [trim_trim_end_matches _ _ rfl]
        exact hmark line hmem))
    have hblank : (consumeLine parse (trimEndMatches '\r' line)).run a = (none, a, []) :=
      consume_line_skip parse _ a (Or.inl (by
        rw [trim_trim_end_matches _ _ rfl, hempty line hmem]
        rfl))
    simp [readRest, cutLines, hbreak, hcut, consumeLines, hskip, hblank]

theorem flush_read_rest (a : Assembly) (t : Text) (ht : '\n' ∉ t ∨ head t = []) :
    readRest parse a t = ((endStream (flushTail parse a t).1).1,
      (flushTail parse a t).2 ++ (endStream (flushTail parse a t).1).2) := by
  have hplain : ∀ u, '\n' ∉ u → readRest parse a u = ((endStream (flushTail parse a u).1).1,
      (flushTail parse a u).2 ++ (endStream (flushTail parse a u).1).2) := by
    intro u hu
    simp [readRest, cut_lines_plain u hu, consumeLines]
  have hblank : ∀ u, blank u = true → flushTail parse a u = (a, []) ∧
      readRest parse a u = readRest parse a [] := by
    intro u hu
    refine ⟨?_, ?_⟩
    · simp [flushTail, (trim_eq_nil u).mpr hu]
    · simpa using read_rest_blank parse a u [] hu
  rcases ht with ht | ht
  · exact hplain t ht
  rw [head, trim_start_eq_nil] at ht
  cases t with
  | nil => exact hplain [] (by simp)
  | cons c t =>
    by_cases hc : byteOrderMark = c
    · subst hc
      have hb : blank t = true := by simpa [stripMark, stripPrefix] using ht
      have hflush : flushTail parse a (byteOrderMark :: t) = (a, []) := by
        have hmark : trim (byteOrderMark :: t) = [byteOrderMark] :=
          trim_append_blank [byteOrderMark] t hb
        rw [flushTail]
        simp only [hmark]
        rw [consume_line_skip parse _ a (Or.inr rfl)]
        rfl
      rw [read_rest_mark parse a t hb, (hblank t hb).2, hflush, hplain [] (by simp),
        (hblank [] rfl).1]
    · have hb : blank (c :: t) = true := by simpa [stripMark, stripPrefix, hc] using ht
      rw [(hblank _ hb).1, (hblank _ hb).2, hplain [] (by simp), (hblank [] rfl).1]

end Reading
end Siralos.Sse
