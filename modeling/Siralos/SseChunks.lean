import Siralos.SseCommit
import Siralos.SseSplit

/-!
# Reading a text chunk by chunk

The stream that receives a text in chunks simulates the reading of the whole
text, step by step, as long as its steps are steady.
-/

set_option autoImplicit false

namespace Siralos.Sse
open Text Json Provider Emission

section Simulation

variable (parse : Text → Option Value)

/-- What a whole text means: the final assembly, the plain body and the events. -/
def reading (whole : Text) : Assembly × Option Text × List ProviderEvent :=
  if startsJson (head whole) then ({}, some (stripMark whole), [])
  else if head whole = [] ∧ maxModeProbeBytes < utf8Len whole then
    (fail {}, none, [.failed tooAmbiguous])
  else ((readRest parse {} whole).1, none, (readRest parse {} whole).2)

/-- Before this step of an open stream: a probe that sees a JSON body comes before
any other text, and held text outgrows the probe only when all text is blank. -/
def SteadyStep (whole received : Text) (s : CompletionStream) (chunk : Text) : Prop :=
  live s.assembly → s.plainBody = none →
    (startsJson (head (s.pending ++ chunk)) = true → head received = []) ∧
      (head (s.pending ++ chunk) = [] → maxModeProbeBytes < utf8Len (s.pending ++ chunk) →
        head whole = [])

def Steady (whole : Text) : CompletionStream → Text → List Text → Prop
  | _, _, [] => True
  | s, received, chunk :: chunks =>
    SteadyStep whole received s chunk ∧
      Steady whole (pushChunk parse s chunk).1 (received ++ chunk) chunks

structure PlainMode (received : Text) (s : CompletionStream) (h : List ProviderEvent) : Prop where
  json : startsJson (head received) = true
  body : s.plainBody = some (stripMark received)
  assembly : s.assembly = {}
  pending : s.pending = []
  bytes : s.bytes = utf8Len received
  events : h = []

structure VagueMode (whole received : Text) (s : CompletionStream) (h : List ProviderEvent) :
    Prop where
  blank : head whole = []
  long : maxModeProbeBytes < utf8Len received
  plain : s.plainBody = none
  assembly : s.assembly = fail {}
  events : h = [.failed tooAmbiguous]

/-- Reading on from the held text gives what the whole text gives. -/
structure StreamMode (received : Text) (s : CompletionStream) (h : List ProviderEvent) :
    Prop where
  plain : s.plainBody = none
  notJson : startsJson (head received) = false
  rest : ∀ t, readRest parse {} (received ++ t) =
    ((readRest parse s.assembly (s.pending ++ t)).1,
      h ++ (readRest parse s.assembly (s.pending ++ t)).2)
  quiet : head received = [] →
    s.assembly = {} ∧ s.pending = received ∧ utf8Len received ≤ maxModeProbeBytes
  bytes : live s.assembly → s.bytes = utf8Len received
  held : '\n' ∉ s.pending ∨ head s.pending = []

def Tracks (whole received : Text) (s : CompletionStream) (h : List ProviderEvent) : Prop :=
  PlainMode received s h ∨ VagueMode whole received s h ∨ StreamMode parse received s h

variable {parse}

theorem json_head_ne_nil {t : Text} (h : startsJson (head t) = true) : head t ≠ [] :=
  starts_json_ne_nil _ h

theorem head_ne_nil {t : Text} (h : head t ≠ []) : t ≠ [] := by
  rintro rfl
  exact h rfl

theorem not_json_append {s t : Text} (hs : head s ≠ []) (h : startsJson (head s) = false) :
    startsJson (head (s ++ t)) = false := by
  rw [head_append s t hs, starts_json_append _ t hs, h]

theorem stream_events_nil {received : Text} {s : CompletionStream} {h : List ProviderEvent}
    (hm : StreamMode parse received s h) (hq : head received = []) : h = [] := by
  obtain ⟨ha, hp, -⟩ := hm.quiet hq
  have hrest := congrArg Prod.snd (hm.rest [])
  rw [ha, hp] at hrest
  simpa using hrest

theorem plain_step {received : Text} {s : CompletionStream} {h : List ProviderEvent}
    (chunk : Text) (hm : PlainMode received s h) (hroom : utf8Len (received ++ chunk) ≤ s.limit) :
    PlainMode (received ++ chunk) (pushChunk parse s chunk).1
      (h ++ (pushChunk parse s chunk).2) := by
  have hne := json_head_ne_nil hm.json
  have hroute : route s chunk = .morePlain (stripMark received ++ chunk) := by
    rw [utf8Len_append] at hroom
    rw [route, hm.assembly, hm.body, hm.bytes, if_neg (by simp), if_neg (by omega)]
  rw [pushChunk, hroute]
  constructor
  case json => rw [head_append _ _ hne, starts_json_append _ _ hne, hm.json]
  case body => simp [strip_mark_append _ _ (head_ne_nil hne)]
  case assembly => exact hm.assembly
  case pending => exact hm.pending
  case bytes => simp [accept, hm.bytes]
  case events => simp [hm.events]

theorem vague_step {whole received : Text} {s : CompletionStream} {h : List ProviderEvent}
    (chunk : Text) (hm : VagueMode whole received s h) :
    VagueMode whole (received ++ chunk) (pushChunk parse s chunk).1
      (h ++ (pushChunk parse s chunk).2) := by
  rw [pushChunk, route_ended s chunk (by simp [hm.assembly, fail])]
  have hlong := hm.long
  refine ⟨hm.blank, ?_, hm.plain, hm.assembly, by simp [hm.events]⟩
  rw [utf8Len_append]
  omega

theorem stream_ended_step {received : Text} {s : CompletionStream} {h : List ProviderEvent}
    (chunk : Text) (hm : StreamMode parse received s h) (he : ¬ live s.assembly) :
    StreamMode parse (received ++ chunk) (pushChunk parse s chunk).1
      (h ++ (pushChunk parse s chunk).2) := by
  have hover : (s.assembly.failed || s.assembly.completed) = true := by
    rwa [live_iff, not_not] at he
  have hne : head received ≠ [] := fun hq => he (by
    rw [(hm.quiet hq).1]
    exact ⟨rfl, rfl⟩)
  rw [pushChunk, route_ended s chunk hover]
  constructor
  case plain => exact hm.plain
  case notJson => exact not_json_append hne hm.notJson
  case rest =>
    intro t
    rw [List.append_assoc, hm.rest, read_rest_ended _ _ _ hover, read_rest_ended _ _ _ hover]
    simp
  case quiet => exact fun hq => absurd (head_nil_of_append _ _ hq) hne
  case bytes => exact fun hl => absurd hl he
  case held => exact hm.held

theorem route_probe {received : Text} {s : CompletionStream} {h : List ProviderEvent}
    {chunk : Text} (hm : StreamMode parse received s h) (hl : live s.assembly)
    (hroom : utf8Len (received ++ chunk) ≤ s.limit) : route s chunk = probe s.pending chunk := by
  rw [utf8Len_append, ← hm.bytes hl] at hroom
  rw [route, if_neg ((live_iff _).mp hl), if_neg (by omega), hm.plain]

theorem probe_cases (pending chunk : Text) (hj : startsJson (head (pending ++ chunk)) = false) :
    (head (pending ++ chunk) = [] ∧ maxModeProbeBytes < utf8Len (pending ++ chunk) ∧
        probe pending chunk = .ambiguous) ∨
      (head (pending ++ chunk) = [] ∧ utf8Len (pending ++ chunk) ≤ maxModeProbeBytes ∧
        probe pending chunk = .held (pending ++ chunk)) ∨
      (head (pending ++ chunk) ≠ [] ∧ ∃ dropped buffer, blank dropped = true ∧
        pending ++ chunk = dropped ++ buffer ∧ probe pending chunk = .lines buffer) := by
  unfold probe
  simp only
  change startsJson (trimStart (stripMark (pending ++ chunk))) = false at hj
  rw [if_neg (by simp [hj]), ← utf8Len_append]
  by_cases hq : head (pending ++ chunk) = []
  · have hempty : (trimStart (stripMark (pending ++ chunk))).isEmpty = true := by
      rw [head] at hq
      rw [hq]
      rfl
    rw [if_pos hempty]
    by_cases hlong : maxModeProbeBytes < utf8Len (pending ++ chunk)
    · exact Or.inl ⟨hq, hlong, by rw [if_pos hlong]⟩
    · exact Or.inr (Or.inl ⟨hq, by omega, by rw [if_neg hlong]⟩)
  · have hempty : ¬ (trimStart (stripMark (pending ++ chunk))).isEmpty = true := by
      simpa [head] using hq
    rw [if_neg hempty]
    refine Or.inr (Or.inr ⟨hq, ?_⟩)
    by_cases hb : (!pending.isEmpty && (trim pending).isEmpty) = true
    · rw [if_pos hb]
      simp only [Bool.and_eq_true, List.isEmpty_iff] at hb
      exact ⟨pending, chunk, (trim_eq_nil pending).mp hb.2, rfl, rfl⟩
    · rw [if_neg hb]
      exact ⟨[], pending ++ chunk, rfl, rfl, rfl⟩

theorem push_lines_rest (parse : Text → Option Value) (s : CompletionStream) (buffer t : Text) :
    readRest parse s.assembly (buffer ++ t) =
      ((readRest parse (pushLines parse s buffer).1.assembly
          ((pushLines parse s buffer).1.pending ++ t)).1,
        (pushLines parse s buffer).2 ++ (readRest parse (pushLines parse s buffer).1.assembly
          ((pushLines parse s buffer).1.pending ++ t)).2) := by
  rw [read_rest_append]
  simp only [pushLines]
  by_cases hf : (consumeLines parse (cutLines buffer).1 s.assembly).1.failed = true
  · rw [read_rest_ended _ _ _ (by simp [hf]), read_rest_ended _ _ _ (by simp [hf])]
  · rw [if_neg hf]

theorem stream_live_step {whole received : Text} {s : CompletionStream} {h : List ProviderEvent}
    (chunk more : Text) (hwhole : whole = received ++ chunk ++ more)
    (hm : StreamMode parse received s h) (hl : live s.assembly)
    (hroom : utf8Len (received ++ chunk) ≤ s.limit) (hs : SteadyStep whole received s chunk) :
    Tracks parse whole (received ++ chunk) (pushChunk parse s chunk).1
      (h ++ (pushChunk parse s chunk).2) := by
  obtain ⟨hjson, hvague⟩ := hs hl hm.plain
  have hroute := route_probe hm hl hroom
  by_cases hj : startsJson (head (s.pending ++ chunk)) = true
  · have hq := hjson hj
    obtain ⟨ha, hp, -⟩ := hm.quiet hq
    have hplain : route s chunk = .plain (stripMark (received ++ chunk)) := by
      rw [hroute, hp, probe]
      rw [hp, head] at hj
      simp [hj]
    rw [pushChunk, hplain]
    refine Or.inl ⟨by rwa [← hp], rfl, ha, rfl, ?_, by simp [stream_events_nil hm hq]⟩
    simp [accept, hm.bytes hl]
  have hj' : startsJson (head (s.pending ++ chunk)) = false := by simpa using hj
  have hnotJson : startsJson (head (received ++ chunk)) = false := by
    by_cases hq : head received = []
    · rw [← (hm.quiet hq).2.1, hj']
    · exact not_json_append hq hm.notJson
  have hback : head (received ++ chunk) = [] → head received = [] ∧
      s.pending ++ chunk = received ++ chunk := fun hq =>
    have hfirst := head_nil_of_append _ _ hq
    ⟨hfirst, by rw [(hm.quiet hfirst).2.1]⟩
  rcases probe_cases s.pending chunk hj' with ⟨hq, hlong, hprobe⟩ | ⟨hq, hshort, hprobe⟩ |
    ⟨hq, dropped, buffer, hdropped, hsplit, hprobe⟩
  · have hwhole' := hvague hq hlong
    rw [hwhole, List.append_assoc] at hwhole'
    have hfirst := head_nil_of_append _ _ hwhole'
    obtain ⟨ha, hp, -⟩ := hm.quiet hfirst
    rw [pushChunk, hroute, hprobe]
    refine Or.inr (Or.inl ⟨hvague hq hlong, ?_, hm.plain, ?_, ?_⟩)
    · rwa [← hp]
    · simp [failWith, accept, ha]
    · simp [failWith, stream_events_nil hm hfirst]
  · rw [pushChunk, hroute, hprobe]
    refine Or.inr (Or.inr ?_)
    constructor
    case plain => exact hm.plain
    case notJson => exact hnotJson
    case rest =>
      intro t
      simpa [accept] using hm.rest (chunk ++ t)
    case quiet =>
      intro hq'
      obtain ⟨hfirst, hsame⟩ := hback hq'
      exact ⟨(hm.quiet hfirst).1, hsame, by rwa [← hsame]⟩
    case bytes => exact fun _ => by simp [accept, hm.bytes hl]
    case held => exact Or.inr hq
  · rw [pushChunk, hroute, hprobe]
    refine Or.inr (Or.inr ?_)
    constructor
    case plain => exact hm.plain
    case notJson => exact hnotJson
    case rest =>
      intro t
      have hdrop : readRest parse s.assembly (s.pending ++ (chunk ++ t)) =
          readRest parse s.assembly (buffer ++ t) := by
        rw [← List.append_assoc, hsplit, List.append_assoc, read_rest_blank _ _ _ _ hdropped]
      rw [List.append_assoc, hm.rest, hdrop]
      have hread := push_lines_rest parse (accept s chunk) buffer t
      rw [show s.assembly = (accept s chunk).assembly from rfl, hread]
      simp only [List.append_assoc]
    case quiet =>
      intro hq'
      rw [(hback hq').2] at hq
      exact absurd hq' hq
    case bytes => exact fun _ => by simp [pushLines, accept, hm.bytes hl]
    case held =>
      simp only [pushLines]
      split
      · simp
      · exact Or.inl (cut_lines_rest buffer)

theorem tracks_step {whole received : Text} {s : CompletionStream} {h : List ProviderEvent}
    (chunk more : Text) (hwhole : whole = received ++ chunk ++ more)
    (hm : Tracks parse whole received s h) (hroom : utf8Len whole ≤ s.limit)
    (hs : SteadyStep whole received s chunk) :
    Tracks parse whole (received ++ chunk) (pushChunk parse s chunk).1
      (h ++ (pushChunk parse s chunk).2) := by
  have hfits : utf8Len (received ++ chunk) ≤ s.limit := by
    rw [hwhole, utf8Len_append] at hroom
    omega
  rcases hm with hm | hm | hm
  · exact Or.inl (plain_step chunk hm hfits)
  · exact Or.inr (Or.inl (vague_step chunk hm))
  · by_cases hl : live s.assembly
    · exact stream_live_step chunk more hwhole hm hl hfits hs
    · exact Or.inr (Or.inr (stream_ended_step chunk hm hl))

theorem push_chunk_limit (s : CompletionStream) (chunk : Text) :
    (pushChunk parse s chunk).1.limit = s.limit := by
  unfold pushChunk
  cases route s chunk <;> rfl

theorem tracks_run {whole : Text} (chunks : List Text) (received : Text) (s : CompletionStream)
    (h : List ProviderEvent) (hwhole : whole = received ++ chunks.flatten)
    (hm : Tracks parse whole received s h) (hroom : utf8Len whole ≤ s.limit)
    (hs : Steady parse whole s received chunks) :
    Tracks parse whole whole (pushChunks parse s chunks).1 (h ++ (pushChunks parse s chunks).2) := by
  induction chunks generalizing received s h with
  | nil =>
    rw [List.flatten_nil, List.append_nil] at hwhole
    rw [← hwhole] at hm
    simpa [pushChunks] using hm
  | cons chunk chunks ih =>
    rw [List.flatten_cons, ← List.append_assoc] at hwhole
    have hstep := tracks_step chunk chunks.flatten hwhole hm hroom hs.1
    have hrun := ih (received ++ chunk) _ _ hwhole hstep (by rwa [push_chunk_limit]) hs.2
    simpa [pushChunks, List.append_assoc] using hrun

theorem tracks_start (whole : Text) (limit : ℕ) : Tracks parse whole [] (new limit) [] := by
  refine Or.inr (Or.inr ?_)
  constructor
  case plain => rfl
  case notJson => rfl
  case rest => exact fun t => by simp [new]
  case quiet => exact fun _ => ⟨rfl, rfl, by simp⟩
  case bytes => exact fun _ => rfl
  case held => exact Or.inr rfl

theorem tracks_finish {whole : Text} {s : CompletionStream} {h : List ProviderEvent}
    (hm : Tracks parse whole whole s h) :
    reading parse whole =
      ((finish parse s).1.assembly, (finish parse s).1.plainBody, h ++ (finish parse s).2) := by
  rcases hm with hm | hm | hm
  · have hflush : flushTail parse s.assembly s.pending = (s.assembly, []) := by
      rw [hm.pending]
      rfl
    rw [reading, if_pos hm.json, finish, if_neg (by simp [hm.assembly]), hflush]
    simp [hm.assembly, hm.body, hm.events]
  · have hj : ¬ startsJson (head whole) = true := by
      rw [hm.blank]
      decide
    rw [reading, if_neg hj, if_pos ⟨hm.blank, hm.long⟩, finish, if_pos (by simp [hm.assembly, fail])]
    simp [hm.assembly, hm.plain, hm.events]
  · have hj : ¬ startsJson (head whole) = true := by simp [hm.notJson]
    have hq : ¬ (head whole = [] ∧ maxModeProbeBytes < utf8Len whole) := by
      rintro ⟨hq, hlong⟩
      have hshort := (hm.quiet hq).2.2
      omega
    have hread := hm.rest []
    rw [List.append_nil, List.append_nil] at hread
    rw [reading, if_neg hj, if_neg hq, hread, finish]
    by_cases hf : s.assembly.failed = true
    · rw [if_pos hf, read_rest_ended _ _ _ (by simp [hf]), hm.plain]
    · rw [if_neg hf, flush_read_rest parse _ _ hm.held]
      simp [hm.plain]

theorem steady_whole (parse : Text → Option Value) (whole : Text) (limit : ℕ) :
    Steady parse whole (new limit) [] [whole] :=
  ⟨fun _ _ => ⟨fun _ => rfl, fun hq _ => hq⟩, trivial⟩

theorem steady_run_reads (parse : Text → Option Value) (limit : ℕ) (chunks : List Text)
    (hroom : utf8Len chunks.flatten ≤ (new limit).limit)
    (hs : Steady parse chunks.flatten (new limit) [] chunks) :
    reading parse chunks.flatten =
      ((run parse limit chunks).1.assembly, (run parse limit chunks).1.plainBody,
        (run parse limit chunks).2) := by
  have hrun := tracks_run chunks [] (new limit) [] rfl (tracks_start _ limit) hroom hs
  have hend := tracks_finish hrun
  simpa [run] using hend

def Clear (events : List ProviderEvent) : Prop := ∀ e ∈ events, e ≠ .failed tooAmbiguous

theorem clear_append {es fs : List ProviderEvent} : Clear (es ++ fs) ↔ Clear es ∧ Clear fs := by
  simp [Clear, or_imp, forall_and]

/-- The line reader never complains about the framing. -/
def Tame (a : Assembly) (h : List ProviderEvent) : Prop :=
  (live a → a.eventCount ≤ maxStreamEvents) ∧ Clear h

theorem path_tame {start a : Assembly} {before h : List ProviderEvent}
    (hp : Path start before a h) (hb : Tame start before) : Tame a h := by
  induction hp with
  | start => exact hb
  | move hp hl hm ih =>
    obtain ⟨hc, hclear⟩ := ih
    cases hm with
    | text text hv hne hlt => exact ⟨fun _ => hlt, clear_append.mpr ⟨hclear, by simp [Clear]⟩⟩
    | reasoning text hv hne hlt =>
      exact ⟨fun _ => hlt, clear_append.mpr ⟨hclear, by simp [Clear]⟩⟩
    | _ => exact ⟨fun _ => hc hl, clear_append.mpr ⟨hclear, by simp [Clear]⟩⟩
  | refuse hp hl a' message hf hc hm ih =>
    exact ⟨fun hlive => absurd hlive.1 (by simp [hf]),
      clear_append.mpr ⟨ih.2, by simpa [Clear] using hm⟩⟩

theorem commit_tame (a : Assembly) (h : List ProviderEvent) (hl : live a) (ht : Tame a h) :
    Tame (commit parse a).1 (h ++ (commit parse a).2) := by
  have hc := ht.1 hl
  by_cases hfit : commitFits parse a
  · rcases commit_fits parse a hl hfit with ⟨n, message, hm, hcommit⟩ | ⟨-, -, hcommit⟩
    · rw [hcommit]
      exact ⟨fun hlive => absurd hlive.1 (by simp [fail]),
        clear_append.mpr ⟨ht.2, by simpa [Clear] using hm⟩⟩
    · rw [hcommit]
      refine ⟨fun hlive => absurd hlive.2 (by simp), clear_append.mpr ⟨ht.2, ?_⟩⟩
      refine clear_append.mpr ⟨fun e he => ?_, by simp [Clear]⟩
      rintro rfl
      exact absurd (ready_nonterminal parse a.calls _ he) (by simp [terminal])
  · obtain ⟨hf, hnone⟩ := commit_over parse a hl hc hfit
    rw [hnone, List.append_nil]
    exact ⟨fun hlive => absurd hlive.1 (by simp [hf]), ht.2⟩

theorem line_tame (parse : Text → Option Value) (line : Text) (a : Assembly) (h : List ProviderEvent) (ht : Tame a h) :
    Tame ((consumeLine parse line).run a).2.1 (h ++ ((consumeLine parse line).run a).2.2) := by
  by_cases hl : live a
  · cases hd : doneLine line with
    | false =>
      have hwalk := walks_line parse line hd a h a h ⟨.start, hl⟩
      rcases hrun : (consumeLine parse line).run a with ⟨_ | u, a', es⟩
      · rw [hrun] at hwalk
        exact path_tame hwalk ht
      · rw [hrun] at hwalk
        exact path_tame hwalk.1 ht
    | true =>
      rw [consume_line_done parse line a hl hd]
      exact commit_tame a h hl ht
  · rw [consume_line_ended parse line a (by rwa [live_iff, not_not] at hl)]
    simpa using ht

theorem lines_tame (parse : Text → Option Value) (lines : List Text) (a : Assembly) (h : List ProviderEvent)
    (ht : Tame a h) :
    Tame (consumeLines parse lines a).1 (h ++ (consumeLines parse lines a).2) := by
  induction lines generalizing a h with
  | nil => simpa [consumeLines] using ht
  | cons line lines ih =>
    have hline := line_tame parse (trimEndMatches '\r' line) a h ht
    rw [consumeLines]
    simp only
    split
    · exact hline
    · rw [← List.append_assoc]
      exact ih _ _ hline

theorem read_rest_clear (parse : Text → Option Value) (t : Text) : Clear (readRest parse {} t).2 := by
  have hstart : Tame {} [] := ⟨fun _ => by simp, by simp [Clear]⟩
  have hlines := lines_tame parse (cutLines t).1 {} [] hstart
  rw [List.nil_append] at hlines
  have hflush : Tame (flushTail parse (consumeLines parse (cutLines t).1 {}).1 (cutLines t).2).1
      ((consumeLines parse (cutLines t).1 {}).2 ++
        (flushTail parse (consumeLines parse (cutLines t).1 {}).1 (cutLines t).2).2) := by
    rw [flushTail]
    split
    · simpa using hlines
    · exact line_tame parse _ _ _ hlines
  rw [readRest]
  refine clear_append.mpr ⟨hflush.2, ?_⟩
  rw [endStream]
  split
  · simp only [Clear, List.mem_singleton, forall_eq, ne_eq, ProviderEvent.failed.injEq]
    exact ofString_ne (by simp)
  · simp [Clear]

theorem push_chunk_plain_body {s : CompletionStream} {body : Text} (chunk : Text)
    (hb : s.plainBody = some body) : (pushChunk parse s chunk).1.plainBody.isSome = true := by
  unfold pushChunk
  cases route s chunk <;> simp [failWith, accept, pushLines, hb]

theorem push_chunks_plain_body {s : CompletionStream} {body : Text} (chunks : List Text)
    (hb : s.plainBody = some body) : (pushChunks parse s chunks).1.plainBody.isSome = true := by
  induction chunks generalizing s body with
  | nil => simp [pushChunks, hb]
  | cons chunk chunks ih =>
    obtain ⟨body', hb'⟩ := Option.isSome_iff_exists.mp (push_chunk_plain_body chunk hb)
    exact ih hb'

theorem push_chunks_ended (s : CompletionStream) (chunks : List Text)
    (he : (s.assembly.failed || s.assembly.completed) = true) :
    pushChunks parse s chunks = (s, []) := by
  induction chunks with
  | nil => rfl
  | cons chunk chunks ih => simp [pushChunks, pushChunk, route_ended s chunk he, ih]

/-- What the two observers of a stream compare. -/
structure SameOutcome (r r' : CompletionStream × List ProviderEvent) : Prop where
  events : r.2 = r'.2
  completed : isCompleted r.1 = isCompleted r'.1
  failed : isFailed r.1 = isFailed r'.1
  plain : r.1.plainBody = r'.1.plainBody
  body : assembledBody r.1.assembly = assembledBody r'.1.assembly

/-- From its first unsteady step on a run ends apart from the reading: in a plain
body the reading does not have, or with a complaint the reading never makes. -/
theorem unsteady_run {whole : Text} (chunks : List Text) (received : Text)
    (s : CompletionStream) (h : List ProviderEvent) (hwhole : whole = received ++ chunks.flatten)
    (hm : Tracks parse whole received s h) (hroom : utf8Len whole ≤ s.limit)
    (hs : ¬ Steady parse whole s received chunks) :
    ((finish parse (pushChunks parse s chunks).1).1.plainBody.isSome = true ∧
        startsJson (head whole) = false) ∨
      (head whole ≠ [] ∧ (finish parse (pushChunks parse s chunks).1).1.plainBody = none ∧
        .failed tooAmbiguous ∈ (pushChunks parse s chunks).2) := by
  induction chunks generalizing received s h with
  | nil => exact absurd trivial hs
  | cons chunk chunks ih =>
    rw [List.flatten_cons, ← List.append_assoc] at hwhole
    simp only [pushChunks, finish_plain]
    by_cases hstep : SteadyStep whole received s chunk
    · have hrest : ¬ Steady parse whole (pushChunk parse s chunk).1 (received ++ chunk) chunks :=
        fun hrest => hs ⟨hstep, hrest⟩
      have hnext := ih (received ++ chunk) _ _ hwhole
        (tracks_step chunk chunks.flatten hwhole hm hroom hstep) (by rwa [push_chunk_limit]) hrest
      rw [finish_plain] at hnext
      rcases hnext with hnext | ⟨hq, hp, he⟩
      · exact .inl hnext
      · exact .inr ⟨hq, hp, List.mem_append_right _ he⟩
    · simp only [SteadyStep, not_forall, not_and_or] at hstep
      obtain ⟨hl, hp, hstep⟩ := hstep
      have hm' : StreamMode parse received s h := by
        rcases hm with hm | hm | hm
        · exact absurd hp (by simp [hm.body])
        · exact absurd hl.1 (by simp [hm.assembly, fail])
        · exact hm
      have hfits : utf8Len (received ++ chunk) ≤ s.limit := by
        rw [hwhole, utf8Len_append] at hroom
        omega
      have hroute := route_probe hm' hl hfits
      rcases hstep with ⟨hj, hne⟩ | ⟨hq, hlong, hne⟩
      · left
        have hplain : (pushChunk parse s chunk).1.plainBody = some (stripMark (s.pending ++ chunk)) := by
          have hj' : startsJson (trimStart (stripMark (s.pending ++ chunk))) = true := hj
          rw [pushChunk, hroute, probe]
          simp [hj']
        refine ⟨push_chunks_plain_body chunks hplain, ?_⟩
        rw [hwhole, List.append_assoc]
        exact not_json_append hne hm'.notJson
      · right
        have hj : startsJson (head (s.pending ++ chunk)) = false := by
          rw [hq]
          decide
        have hprobe : probe s.pending chunk = .ambiguous := by
          rcases probe_cases s.pending chunk hj with ⟨-, -, hprobe⟩ | ⟨-, hshort, -⟩ | ⟨hq', -⟩
          · exact hprobe
          · omega
          · exact absurd hq hq'
        have hpush : pushChunk parse s chunk = failWith (accept s chunk) tooAmbiguous := by
          rw [pushChunk, hroute, hprobe]
        rw [hpush, push_chunks_ended _ chunks (by simp [failWith, fail])]
        exact ⟨hne, hp, by simp [failWith]⟩

/-- Cutting a text into chunks changes nothing exactly when every step is steady. -/
theorem chunked_run_agrees_iff (parse : Text → Option Value) (limit : ℕ) (chunks : List Text)
    (hroom : utf8Len chunks.flatten ≤ min limit maxResponseBytes) :
    SameOutcome (run parse limit chunks) (run parse limit [chunks.flatten]) ↔
      Steady parse chunks.flatten (new limit) [] chunks := by
  have hwhole : reading parse chunks.flatten =
      ((run parse limit [chunks.flatten]).1.assembly, (run parse limit [chunks.flatten]).1.plainBody,
        (run parse limit [chunks.flatten]).2) := by
    have hone : [chunks.flatten].flatten = chunks.flatten := by simp
    have hread := steady_run_reads parse limit [chunks.flatten]
      (by rw [hone]; exact hroom) (by rw [hone]; exact steady_whole parse _ limit)
    rwa [hone] at hread
  constructor
  · intro hsame
    by_contra hs
    rcases unsteady_run chunks [] (new limit) [] rfl (tracks_start _ limit) hroom hs with
      ⟨hplain, hj⟩ | ⟨hne, hplain, hmem⟩
    · have hnone : (reading parse chunks.flatten).2.1 = none := by
        rw [List.nil_append] at hj
        rw [reading, if_neg (by simp [hj])]
        split <;> rfl
      have hsome : (run parse limit chunks).1.plainBody.isSome = true := hplain
      rw [hwhole] at hnone
      simp only [← hsame.plain] at hnone
      rw [hnone] at hsome
      exact absurd hsome (by simp)
    · have hnotPlain : ¬ startsJson (head chunks.flatten) = true := by
        intro hj
        have hsome : (reading parse chunks.flatten).2.1.isSome = true := by
          rw [reading, if_pos hj]
          rfl
        have hnone : (run parse limit chunks).1.plainBody = none := hplain
        rw [hwhole] at hsome
        simp only [← hsame.plain, hnone] at hsome
        exact absurd hsome (by simp)
      have hevents : (reading parse chunks.flatten).2.2 = (readRest parse {} chunks.flatten).2 := by
        rw [reading, if_neg hnotPlain, if_neg fun hq => hne hq.1]
      rw [hwhole, ← hsame.events] at hevents
      refine read_rest_clear parse chunks.flatten _ ?_ rfl
      rw [← hevents]
      exact List.mem_append_left _ hmem
  · intro hs
    have hread := steady_run_reads parse limit chunks hroom hs
    rw [hwhole] at hread
    simp only [Prod.mk.injEq] at hread
    obtain ⟨ha, hp, he⟩ := hread
    exact ⟨he.symm, by rw [isCompleted, isCompleted, ha], by rw [isFailed, isFailed, ha], hp.symm,
      by rw [ha]⟩

end Simulation

def NoLongBlank (t : Text) : Prop := ∀ u, u <:+: t → blank u = true → utf8Len u ≤ 4096

/-- A comment line, then a line that starts with a bracket in a chunk of its own:
the running stream turns into a plain body. -/
theorem chunked_run_disagrees :
    ∃ (parse : Text → Option Value) (limit : ℕ) (chunks : List Text),
      utf8Len chunks.flatten ≤ min limit maxResponseBytes ∧ NoLongBlank chunks.flatten ∧
        ¬ SameOutcome (run parse limit chunks) (run parse limit [chunks.flatten]) := by
  refine ⟨fun _ => none, maxResponseBytes, [[':', '\n'], ['[', 'x', '\n']], by decide, ?_, ?_⟩
  · intro u hu _
    have hlen : utf8Len u ≤ utf8Len [':', '\n', '[', 'x', '\n'] := by
      obtain ⟨s, t, hst⟩ := hu
      have hsum := congrArg utf8Len hst
      simp only [utf8Len_append] at hsum
      exact le_trans (by omega) hsum.le
    exact le_trans hlen (by decide)
  · intro hsame
    exact absurd hsame.plain (by decide)

theorem chunked_comment_agrees_iff :
    utf8Len [[':'], ['x', '\n']].flatten ≤ min maxResponseBytes maxResponseBytes ∧
      (SameOutcome (run (fun _ => none) maxResponseBytes [[':'], ['x', '\n']])
          (run (fun _ => none) maxResponseBytes [[[':'], ['x', '\n']].flatten]) ↔
        Steady (fun _ => none) [[':'], ['x', '\n']].flatten (new maxResponseBytes) []
          [[':'], ['x', '\n']]) :=
  ⟨by decide, chunked_run_agrees_iff (fun _ => none) maxResponseBytes [[':'], ['x', '\n']]
    (by decide)⟩

end Siralos.Sse
