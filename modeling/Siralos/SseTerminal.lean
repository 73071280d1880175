import Siralos.SseCommit

/-!
# The terminal event of a stream

A stream ends in exactly one terminal event, except where the commit reached at
`[DONE]` needs more events than the stream has left: it then fails silently.
-/

set_option autoImplicit false

namespace Siralos.Sse
open Text Json Provider Emission

def Running (a : Assembly) (h : List ProviderEvent) : Prop :=
  live a ∧ a.eventCount ≤ maxStreamEvents ∧ Nonterminal h

/-- One terminal event, the last one, which agrees with the flags. -/
def Ended (a : Assembly) (h : List ProviderEvent) : Prop :=
  ∃ before, Nonterminal before ∧
    ((a.failed = true ∧ a.completed = false ∧ ∃ message, h = before ++ [.failed message]) ∨
      (a.failed = false ∧ a.completed = true ∧ h = before ++ [.event .completed]))

/-- The turn is over and no terminal event says so. -/
def Silent (a : Assembly) (h : List ProviderEvent) : Prop := a.failed = true ∧ Nonterminal h

theorem move_running {a a' : Assembly} {h es : List ProviderEvent} (hm : Move a a' es)
    (hr : Running a h) : Running a' (h ++ es) := by
  obtain ⟨hl, hc, hn⟩ := hr
  cases hm with
  | text text hv hne hlt =>
    exact ⟨hl, hlt, nonterminal_append.mpr ⟨hn, by simp [Nonterminal, terminal]⟩⟩
  | reasoning text hv hne hlt =>
    exact ⟨hl, hlt, nonterminal_append.mpr ⟨hn, by simp [Nonterminal, terminal]⟩⟩
  | _ =>
    rw [List.append_nil]
    exact ⟨hl, hc, hn⟩

theorem path_running {start a : Assembly} {before h : List ProviderEvent}
    (hp : Path start before a h) (hr : Running start before) : Running a h ∨ Ended a h := by
  induction hp with
  | start => exact Or.inl hr
  | move hp hl hm ih =>
    rcases ih with ih | ⟨b, -, ⟨hf, -⟩ | ⟨-, hc, -⟩⟩
    · exact Or.inl (move_running hm ih)
    · exact absurd hf (by simp [hl.1])
    · exact absurd hc (by simp [hl.2])
  | refuse hp hl a' message hf hc hm ih =>
    rcases ih with ih | ⟨b, -, ⟨hf', -⟩ | ⟨-, hc', -⟩⟩
    · exact Or.inr ⟨_, ih.2.2, Or.inl ⟨hf, hc, message, rfl⟩⟩
    · exact absurd hf' (by simp [hl.1])
    · exact absurd hc' (by simp [hl.2])

/-- The lines handed to `consume_line`, each with the assembly it meets. -/
def linesMet (parse : Text → Option Value) : List Text → Assembly → List (Assembly × Text)
  | [], _ => []
  | line :: lines, a =>
    let (_, a', _) := (consumeLine parse (trimEndMatches '\r' line)).run a
    (a, trimEndMatches '\r' line) :: if a'.failed then [] else linesMet parse lines a'

def chunkMet (parse : Text → Option Value) (s : CompletionStream) (chunk : Text) :
    List (Assembly × Text) :=
  match route s chunk with
  | .lines buffer => linesMet parse (cutLines buffer).1 s.assembly
  | _ => []

def chunksMet (parse : Text → Option Value) :
    CompletionStream → List Text → List (Assembly × Text)
  | _, [] => []
  | s, chunk :: chunks => chunkMet parse s chunk ++ chunksMet parse (pushChunk parse s chunk).1 chunks

def finishMet (s : CompletionStream) : List (Assembly × Text) :=
  if s.assembly.failed || (trim s.pending).isEmpty then [] else [(s.assembly, trim s.pending)]

def runMet (parse : Text → Option Value) (limit : ℕ) (chunks : List Text) :
    List (Assembly × Text) :=
  chunksMet parse (new limit) chunks ++ finishMet (pushChunks parse (new limit) chunks).1

/-- A line that makes a live assembly commit finds room for the commit. -/
def Fits (parse : Text → Option Value) (met : Assembly × Text) : Prop :=
  live met.1 → doneLine met.2 = true → commitFits parse met.1

def Verdict (parse : Text → Option Value) (met : List (Assembly × Text)) (a : Assembly)
    (h : List ProviderEvent) : Prop :=
  ((∀ m ∈ met, Fits parse m) ∧ (Running a h ∨ Ended a h)) ∨
    ((∃ m ∈ met, ¬ Fits parse m) ∧ Silent a h)

theorem verdict_over {parse : Text → Option Value} {met : List (Assembly × Text)} {a : Assembly}
    {h : List ProviderEvent} (hv : Verdict parse met a h) :
    Running a h ∨ (a.failed || a.completed) = true := by
  rcases hv with ⟨-, hr | ⟨-, -, ⟨hf, -⟩ | ⟨-, hc, -⟩⟩⟩ | ⟨-, hf, -⟩
  · exact Or.inl hr
  · simp [hf]
  · simp [hc]
  · simp [hf]

theorem line_verdict (parse : Text → Option Value) (line : Text) (a : Assembly)
    (h : List ProviderEvent) (hr : Running a h) :
    Verdict parse [(a, line)] ((consumeLine parse line).run a).2.1
      (h ++ ((consumeLine parse line).run a).2.2) := by
  have hone : (∀ m ∈ [(a, line)], Fits parse m) ↔ Fits parse (a, line) := by simp
  have hsome : (∃ m ∈ [(a, line)], ¬ Fits parse m) ↔ ¬ Fits parse (a, line) := by simp
  rw [Verdict, hone, hsome]
  cases hd : doneLine line with
  | false =>
    refine Or.inl ⟨fun _ hdone => absurd hdone (by simp [hd]), ?_⟩
    have hwalk := walks_line parse line hd a h a h ⟨.start, hr.1⟩
    rcases hrun : (consumeLine parse line).run a with ⟨_ | u, a', es⟩
    · rw [hrun] at hwalk
      exact path_running hwalk hr
    · rw [hrun] at hwalk
      exact path_running hwalk.1 hr
  | true =>
    rw [consume_line_done parse line a hr.1 hd]
    by_cases hfit : commitFits parse a
    · refine Or.inl ⟨fun _ _ => hfit, Or.inr ?_⟩
      rcases commit_fits parse a hr.1 hfit with ⟨n, message, -, hcommit⟩ | ⟨-, -, hcommit⟩
      · rw [hcommit]
        exact ⟨h, hr.2.2, Or.inl ⟨rfl, hr.1.2, message, rfl⟩⟩
      · rw [hcommit]
        refine ⟨h ++ readyEvents parse a.calls, ?_, Or.inr ⟨hr.1.1, rfl, ?_⟩⟩
        · exact nonterminal_append.mpr ⟨hr.2.2, ready_nonterminal parse a.calls⟩
        · simp
    · refine Or.inr ⟨fun hf => hfit (hf hr.1 hd), ?_⟩
      obtain ⟨hfailed, hnone⟩ := commit_over parse a hr.1 hr.2.1 hfit
      rw [hnone, List.append_nil]
      exact ⟨hfailed, hr.2.2⟩

theorem verdict_append {parse : Text → Option Value} {met more : List (Assembly × Text)}
    {a : Assembly} {h : List ProviderEvent} (hmet : ∀ m ∈ met, Fits parse m)
    (hv : Verdict parse more a h) : Verdict parse (met ++ more) a h := by
  rcases hv with ⟨hfits, hend⟩ | ⟨⟨m, hm, hnot⟩, hs⟩
  · refine Or.inl ⟨fun m hm => ?_, hend⟩
    rcases List.mem_append.mp hm with hm | hm
    · exact hmet m hm
    · exact hfits m hm
  · exact Or.inr ⟨⟨m, List.mem_append_right met hm, hnot⟩, hs⟩

theorem verdict_ended {parse : Text → Option Value} {met more : List (Assembly × Text)}
    {a : Assembly} {h : List ProviderEvent} (hv : Verdict parse met a h)
    (hmore : ∀ m ∈ more, ¬ live m.1) : Verdict parse (met ++ more) a h := by
  rcases hv with ⟨hfits, hend⟩ | ⟨⟨m, hm, hnot⟩, hs⟩
  · refine Or.inl ⟨fun m hm => ?_, hend⟩
    rcases List.mem_append.mp hm with hm | hm
    · exact hfits m hm
    · exact fun hl => absurd hl (hmore m hm)
  · exact Or.inr ⟨⟨m, List.mem_append_left more hm, hnot⟩, hs⟩

theorem lines_met_ended (parse : Text → Option Value) (lines : List Text) (a : Assembly)
    (he : (a.failed || a.completed) = true) : ∀ m ∈ linesMet parse lines a, m.1 = a := by
  induction lines with
  | nil => simp [linesMet]
  | cons line lines ih =>
    rw [linesMet, consume_line_ended parse _ a he]
    intro m hm
    rcases List.mem_cons.mp hm with rfl | hm
    · rfl
    · by_cases hf : a.failed = true
      · simp [hf] at hm
      · rw [if_neg hf] at hm
        exact ih m hm

theorem lines_verdict (parse : Text → Option Value) (lines : List Text) (a : Assembly)
    (h : List ProviderEvent) (hr : Running a h) :
    Verdict parse (linesMet parse lines a) (consumeLines parse lines a).1
      (h ++ (consumeLines parse lines a).2) := by
  induction lines generalizing a h with
  | nil => exact Or.inl ⟨by simp [linesMet], Or.inl (by simpa [consumeLines] using hr)⟩
  | cons line lines ih =>
    have hline := line_verdict parse (trimEndMatches '\r' line) a h hr
    rw [linesMet, consumeLines]
    set r := (consumeLine parse (trimEndMatches '\r' line)).run a with hrun
    rcases r with ⟨u, a', es⟩
    simp only at hline ⊢
    by_cases hf : a'.failed = true
    · simpa only [hf, if_true] using hline
    simp only [hf, Bool.false_eq_true, if_false]
    rw [← List.append_assoc]
    rcases verdict_over hline with hr' | he
    · rw [← List.singleton_append]
      refine verdict_append ?_ (ih a' (h ++ es) hr')
      rcases hline with ⟨hfits, -⟩ | ⟨-, hs⟩
      · exact hfits
      · exact absurd hs.1 hf
    · rw [consume_lines_ended parse lines a' he, List.append_nil, ← List.singleton_append]
      refine verdict_ended hline fun m hm hl => ?_
      rw [lines_met_ended parse lines a' he m hm] at hl
      simp [hl.1, hl.2] at he

theorem fail_with_ended (s : CompletionStream) (message : Text) (h : List ProviderEvent)
    (hr : Running s.assembly h) : Ended (failWith s message).1.assembly (h ++ [.failed message]) :=
  ⟨h, hr.2.2, Or.inl ⟨rfl, hr.1.2, message, rfl⟩⟩

theorem chunk_verdict (parse : Text → Option Value) (s : CompletionStream) (chunk : Text)
    (met : List (Assembly × Text)) (h : List ProviderEvent) (hv : Verdict parse met s.assembly h) :
    Verdict parse (met ++ chunkMet parse s chunk) (pushChunk parse s chunk).1.assembly
      (h ++ (pushChunk parse s chunk).2) := by
  rcases verdict_over hv with hr | he
  · have hmet : ∀ m ∈ met, Fits parse m := by
      rcases hv with ⟨hfits, -⟩ | ⟨-, hs⟩
      · exact hfits
      · exact absurd hs.1 (by simp [hr.1.1])
    refine verdict_append hmet ?_
    unfold chunkMet pushChunk
    cases hroute : route s chunk with
    | ended => exact Or.inl ⟨by simp, Or.inl (by simpa using hr)⟩
    | overLimit => exact Or.inl ⟨by simp, Or.inr (fail_with_ended _ _ h hr)⟩
    | plain body => exact Or.inl ⟨by simp, Or.inl (by simpa [accept] using hr)⟩
    | morePlain body => exact Or.inl ⟨by simp, Or.inl (by simpa [accept] using hr)⟩
    | held pending => exact Or.inl ⟨by simp, Or.inl (by simpa [accept] using hr)⟩
    | ambiguous => exact Or.inl ⟨by simp, Or.inr (fail_with_ended _ _ h hr)⟩
    | lines buffer => exact lines_verdict parse (cutLines buffer).1 s.assembly h hr
  · rw [chunkMet, pushChunk, route_ended s chunk he]
    simpa using hv

theorem chunks_verdict (parse : Text → Option Value) (s : CompletionStream) (chunks : List Text)
    (met : List (Assembly × Text)) (h : List ProviderEvent) (hv : Verdict parse met s.assembly h) :
    Verdict parse (met ++ chunksMet parse s chunks) (pushChunks parse s chunks).1.assembly
      (h ++ (pushChunks parse s chunks).2) := by
  induction chunks generalizing s met h with
  | nil => simpa [chunksMet, pushChunks] using hv
  | cons chunk chunks ih =>
    have hstep := ih _ _ _ (chunk_verdict parse s chunk met h hv)
    simpa [chunksMet, pushChunks, List.append_assoc] using hstep

theorem chunks_met_append (parse : Text → Option Value) (s : CompletionStream)
    (chunks more : List Text) :
    chunksMet parse s (chunks ++ more) =
      chunksMet parse s chunks ++ chunksMet parse (pushChunks parse s chunks).1 more := by
  induction chunks generalizing s with
  | nil => simp [pushChunks, chunksMet]
  | cons chunk chunks ih => simp [pushChunks, chunksMet, ih, List.append_assoc]

theorem flush_verdict (parse : Text → Option Value) (s : CompletionStream)
    (h : List ProviderEvent) (hr : Running s.assembly h) :
    Verdict parse (finishMet s) (flushTail parse s.assembly s.pending).1
      (h ++ (flushTail parse s.assembly s.pending).2) := by
  unfold finishMet flushTail
  by_cases htail : (trim s.pending).isEmpty = true
  · refine Or.inl ⟨by simp [htail], Or.inl ?_⟩
    simpa [htail] using hr
  · have hline := line_verdict parse (trim s.pending) s.assembly h hr
    simpa [htail, hr.1.1] using hline

theorem finish_verdict (parse : Text → Option Value) (s : CompletionStream)
    (met : List (Assembly × Text)) (h : List ProviderEvent) (hv : Verdict parse met s.assembly h)
    (hp : s.plainBody = none) :
    Verdict parse (met ++ finishMet s) (finish parse s).1.assembly (h ++ (finish parse s).2) ∧
      ((finish parse s).1.assembly.failed || (finish parse s).1.assembly.completed) = true := by
  unfold finish
  by_cases hf : s.assembly.failed = true
  · rw [if_pos hf]
    simpa [finishMet, hf] using hv
  rw [if_neg hf]
  simp only [hp, Option.isSome_none, Bool.false_eq_true, if_false]
  rcases verdict_over hv with hr | he
  · have hmet : ∀ m ∈ met, Fits parse m := by
      rcases hv with ⟨hfits, -⟩ | ⟨-, hs⟩
      · exact hfits
      · exact absurd hs.1 hf
    have hflush := flush_verdict parse s h hr
    rcases verdict_over hflush with hrun | hend
    · rw [end_stream_live _ hrun.1]
      refine ⟨verdict_append hmet (Or.inl ⟨?_, Or.inr ?_⟩), by simp [fail]⟩
      · rcases hflush with ⟨hfits, -⟩ | ⟨-, hs⟩
        · exact hfits
        · exact absurd hs.1 (by simp [hrun.1.1])
      · exact ⟨_, hrun.2.2, Or.inl ⟨rfl, hrun.1.2, endedEarly, by rw [List.append_assoc]⟩⟩
    · rw [end_stream_ended _ hend, List.append_nil]
      exact ⟨verdict_append hmet hflush, hend⟩
  · rw [flush_tail_ended parse _ _ he, end_stream_ended _ he]
    refine ⟨?_, he⟩
    rw [List.append_nil, List.append_nil]
    refine verdict_ended hv fun m hm hl => ?_
    unfold finishMet at hm
    split at hm
    · simp at hm
    · rw [List.mem_singleton.mp hm, live_iff] at hl
      exact hl he

/-- The promise: one terminal event, last, and in agreement with the flags. -/
structure TerminalContract (s : CompletionStream) (events : List ProviderEvent) : Prop where
  single : ∃ before last, events = before ++ [last] ∧ terminal last = true ∧ Nonterminal before
  completed : .event .completed ∈ events ↔ isCompleted s = true ∧ isFailed s = false
  failed : (∃ message, .failed message ∈ events) ↔ isFailed s = true

theorem ended_contract (s : CompletionStream) (events : List ProviderEvent)
    (he : Ended s.assembly events) : TerminalContract s events := by
  obtain ⟨before, hn, ⟨hf, hc, message, rfl⟩ | ⟨hf, hc, rfl⟩⟩ := he
  · refine ⟨⟨before, _, rfl, rfl, hn⟩, ?_, ?_⟩
    · simp only [List.mem_append, List.mem_singleton, reduceCtorEq, or_false, isCompleted, hc,
        Bool.false_eq_true, false_and, iff_false]
      exact fun hm => absurd (hn _ hm) (by simp [terminal])
    · exact ⟨fun _ => hf, fun _ => ⟨message, by simp⟩⟩
  · refine ⟨⟨before, _, rfl, rfl, hn⟩, ?_, ?_⟩
    · exact ⟨fun _ => ⟨hc, hf⟩, fun _ => by simp⟩
    · constructor
      · rintro ⟨message, hm⟩
        simp only [List.mem_append, List.mem_singleton, reduceCtorEq, or_false] at hm
        exact absurd (hn _ hm) (by simp [terminal])
      · exact fun hfailed => absurd hf (by simpa [isFailed] using hfailed)

theorem silent_no_contract (s : CompletionStream) (events : List ProviderEvent)
    (hs : Silent s.assembly events) : ¬ TerminalContract s events := by
  rintro ⟨⟨before, last, rfl, hl, -⟩, -, -⟩
  exact absurd (hs.2 last (by simp)) (by simp [hl])

theorem run_verdict (parse : Text → Option Value) (limit : ℕ) (chunks : List Text)
    (hplain : (run parse limit chunks).1.plainBody = none) :
    ((∀ met ∈ runMet parse limit chunks, Fits parse met) ∧
        Ended (run parse limit chunks).1.assembly (run parse limit chunks).2) ∨
      ((∃ met ∈ runMet parse limit chunks, ¬ Fits parse met) ∧
        Silent (run parse limit chunks).1.assembly (run parse limit chunks).2) := by
  have hstart : Verdict parse [] (new limit).assembly [] :=
    Or.inl ⟨by simp, Or.inl ⟨⟨rfl, rfl⟩, by simp [new], by simp [Nonterminal]⟩⟩
  have hpushed := chunks_verdict parse (new limit) chunks [] [] hstart
  have hp : (pushChunks parse (new limit) chunks).1.plainBody = none := by
    rw [← finish_plain parse]
    exact hplain
  obtain ⟨hv, hover⟩ := finish_verdict parse _ _ _ hpushed hp
  rw [List.nil_append, List.nil_append] at hv
  rcases hv with ⟨hfits, hr | he⟩ | hsilent
  · simp [hr.1.1, hr.1.2] at hover
  · exact Or.inl ⟨hfits, he⟩
  · exact Or.inr hsilent

/-- A stream keeps the promise exactly when every commit it reaches finds room
for its events. -/
theorem terminal_contract_iff (parse : Text → Option Value) (limit : ℕ) (chunks : List Text)
    (hplain : (run parse limit chunks).1.plainBody = none) :
    TerminalContract (run parse limit chunks).1 (run parse limit chunks).2 ↔
      ∀ met ∈ runMet parse limit chunks,
        live met.1 → doneLine met.2 = true → commitFits parse met.1 := by
  rcases run_verdict parse limit chunks hplain with ⟨hfits, he⟩ | ⟨⟨met, hm, hnot⟩, hs⟩
  · exact ⟨fun _ => hfits, fun _ => ended_contract _ _ he⟩
  · exact ⟨fun hc => absurd hc (silent_no_contract _ _ hs), fun hfits => absurd (hfits met hm) hnot⟩

/-! A stream of 4096 one-character deltas uses up the event bound, so the commit
at `[DONE]` has no room left for `Completed`. -/

def deltaObject : Value := .object [("content".toList, .string ['x'])]
def deltaChoice : Value := .object [("delta".toList, deltaObject)]
def deltaFrame : Value := .object [("choices".toList, .array [deltaChoice])]
def deltaText : Text := "\x7b\"choices\":[\x7b\"delta\":\x7b\"content\":\"x\"\x7d\x7d]\x7d"
def deltaLine : Text := ("data:" : Text) ++ deltaText
def deltaChunk : Text := deltaLine ++ ['\n']
def finalLine : Text := "data:[DONE]"
def finalChunk : Text := finalLine ++ ['\n']

/-- The only text these chunks hand to the parser is `deltaText`. -/
def deltaParse : Text → Option Value := fun _ => some deltaFrame

theorem delta_frame :
    consumeFrame deltaFrame = (observe >>= fun _ => consumeContent deltaObject) := by
  have hreads : consumeFrame deltaFrame =
      (observe >>= fun _ =>
        (consumeContent deltaObject >>= fun _ => pure ()) >>= fun _ => pure ()) := rfl
  rw [hreads]
  simp only [bind_pure_unit]

theorem delta_line (a : Assembly) (hl : live a) (hc : a.eventCount < maxStreamEvents) :
    (consumeLine deltaParse deltaLine).run a =
      (some (), { a with content := a.content ++ ['x'], eventCount := a.eventCount + 1 },
        [.event (.textDelta ['x'])]) := by
  have hline : consumeLine deltaParse deltaLine =
      (observe >>= fun a => if a.failed || a.completed then leave else
        observe >>= fun a => ensure (!a.completed) "provider SSE frame arrived after [DONE]" >>=
          fun _ => consumeFrame deltaFrame) := rfl
  have hopen : ¬ (a.failed || a.completed) = true := by simp [hl.1, hl.2]
  have hpass : ensure (!a.completed) "provider SSE frame arrived after [DONE]" = pure () := by
    rw [hl.2]
    rfl
  rw [hline, observe_bind, if_neg hopen, observe_bind, hpass, pure_bind, delta_frame, observe_bind]
  exact emit_event_under (.event (.textDelta ['x'])) { a with content := a.content ++ ['x'] } hc

structure Flooded (s : CompletionStream) (n : ℕ) : Prop where
  live : live s.assembly
  pending : s.pending = []
  plain : s.plainBody = none
  limit : s.limit = maxResponseBytes
  bytes : s.bytes = 45 * n
  count : s.assembly.eventCount = n
  calls : s.assembly.calls = []
  content : n = 0 ∨ s.assembly.content ≠ []

theorem flooded_route (s : CompletionStream) (n : ℕ) (chunk : Text) (hs : Flooded s n)
    (hn : n ≤ maxStreamEvents) (hlen : utf8Len chunk ≤ 45) : route s chunk = probe [] chunk := by
  have hbytes := hs.bytes
  have hlimit := hs.limit
  simp only [maxStreamEvents, maxResponseBytes] at hn hlimit
  rw [route, if_neg (by simp [hs.live.1, hs.live.2]), if_neg (by omega), hs.pending, hs.plain]

theorem flooded_step (s : CompletionStream) (n : ℕ) (hs : Flooded s n)
    (hn : n < maxStreamEvents) : Flooded (pushChunk deltaParse s deltaChunk).1 (n + 1) := by
  have hlen : utf8Len deltaChunk = 45 := by decide
  have hprobe : probe [] deltaChunk = .lines deltaChunk := by decide
  have hcut : cutLines deltaChunk = ([deltaLine], []) := by decide
  have htrim : trimEndMatches '\r' deltaLine = deltaLine := by decide
  have hline := delta_line s.assembly hs.live (by rw [hs.count]; exact hn)
  have hpush : (pushChunk deltaParse s deltaChunk).1 = { accept s deltaChunk with
      pending := []
      assembly := { s.assembly with
        content := s.assembly.content ++ ['x'], eventCount := s.assembly.eventCount + 1 } } := by
    rw [pushChunk, flooded_route s n deltaChunk hs (by omega) (by omega), hprobe]
    simp [pushLines, hcut, consumeLines, htrim, hline, accept, hs.live.1]
  rw [hpush]
  constructor
  case live => exact hs.live
  case pending => rfl
  case plain => exact hs.plain
  case limit => exact hs.limit
  case bytes =>
    have hbytes := hs.bytes
    simp only [accept]
    omega
  case count =>
    have hcount := hs.count
    simp only
    omega
  case calls => exact hs.calls
  case content => exact Or.inr (by simp)

theorem flooded_run (s : CompletionStream) (n k : ℕ) (hs : Flooded s n)
    (hk : n + k ≤ maxStreamEvents) :
    Flooded (pushChunks deltaParse s (List.replicate k deltaChunk)).1 (n + k) := by
  induction k generalizing s n with
  | zero => exact hs
  | succ k ih =>
    rw [List.replicate_succ, pushChunks]
    have hstep := ih _ (n + 1) (flooded_step s n hs (by omega)) (by omega)
    rwa [Nat.add_right_comm, Nat.add_assoc] at hstep

def floodChunks (n : ℕ) : List Text := List.replicate n deltaChunk ++ [finalChunk]

theorem flood_silent (n : ℕ) (hn : n = maxStreamEvents) :
    (run deltaParse maxResponseBytes (floodChunks n)).1.plainBody = none ∧
      ¬ TerminalContract (run deltaParse maxResponseBytes (floodChunks n)).1
        (run deltaParse maxResponseBytes (floodChunks n)).2 := by
  have hstart : Flooded (new maxResponseBytes) 0 := by
    constructor <;> first | rfl | exact ⟨rfl, rfl⟩ | exact Or.inl rfl
  have hflood := flooded_run _ 0 n hstart (by omega)
  rw [Nat.zero_add] at hflood
  have hlen : utf8Len finalChunk ≤ 45 := by decide
  have hprobe : probe [] finalChunk = .lines finalChunk := by decide
  have hcut : cutLines finalChunk = ([finalLine], []) := by decide
  have htrim : trimEndMatches '\r' finalLine = finalLine := by decide
  have hdone : doneLine finalLine = true := by decide
  have hroute := flooded_route _ _ finalChunk hflood (by omega) hlen
  have hplain : (run deltaParse maxResponseBytes (floodChunks n)).1.plainBody = none := by
    rw [run, finish_plain, floodChunks, push_chunks_append]
    simp only [pushChunks, pushChunk, hroute, hprobe]
    exact hflood.plain
  refine ⟨hplain, ?_⟩
  rcases run_verdict deltaParse maxResponseBytes (floodChunks n) hplain with ⟨hfits, -⟩ | ⟨-, hs⟩
  · set s := (pushChunks deltaParse (new maxResponseBytes) (List.replicate n deltaChunk)).1
    have hmet : (s.assembly, finalLine) ∈ runMet deltaParse maxResponseBytes (floodChunks n) := by
      rw [runMet, floodChunks, chunks_met_append, chunksMet, chunkMet, hroute, hprobe]
      simp [hcut, linesMet, htrim, s]
    have hneeds := hfits _ hmet hflood.live hdone
    unfold commitFits commitNeeds at hneeds
    rw [hflood.calls, hflood.count] at hneeds
    have hcontent : s.assembly.content ≠ [] :=
      hflood.content.resolve_left (by rw [hn, maxStreamEvents]; omega)
    have husable : usable s.assembly = true := by simp [usable, hcontent]
    simp only [readyEvents, refusal, husable, Option.isNone_none, Bool.and_self, if_true,
      List.length_nil] at hneeds
    omega
  · exact silent_no_contract _ _ hs

/-- Every delta fits the bound, the commit does not: the turn ends without a
terminal event although `[DONE]` arrived. -/
theorem terminal_contract_fails :
    ∃ (parse : Text → Option Value) (limit : ℕ) (chunks : List Text),
      (run parse limit chunks).1.plainBody = none ∧
        ¬ TerminalContract (run parse limit chunks).1 (run parse limit chunks).2 :=
  ⟨deltaParse, maxResponseBytes, floodChunks maxStreamEvents, flood_silent maxStreamEvents rfl⟩

theorem terminal_contract_one_delta :
    (run deltaParse maxResponseBytes [deltaChunk, finalChunk]).1.plainBody = none ∧
      (TerminalContract (run deltaParse maxResponseBytes [deltaChunk, finalChunk]).1
          (run deltaParse maxResponseBytes [deltaChunk, finalChunk]).2 ↔
        ∀ met ∈ runMet deltaParse maxResponseBytes [deltaChunk, finalChunk],
          live met.1 → doneLine met.2 = true → commitFits deltaParse met.1) :=
  have hplain : (run deltaParse maxResponseBytes [deltaChunk, finalChunk]).1.plainBody = none := by
    decide
  ⟨hplain, terminal_contract_iff deltaParse maxResponseBytes [deltaChunk, finalChunk] hplain⟩

end Siralos.Sse
