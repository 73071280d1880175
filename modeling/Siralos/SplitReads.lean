import Siralos.TruncatedBody

/-!
# Text over several reads

What a turn shows of its bytes is compared with what it shows of the same bytes in one read. A read
that holds an invalid sequence is decoded to its end, also where the next read goes on.
-/

set_option autoImplicit false

namespace Siralos.SplitReads

open Text Streaming TruncatedBody

/-- What each read returns, and the bytes that wait for the next one. -/
def takeReads (pending : List UInt8) : List (List UInt8) → List Text × List UInt8
  | [] => ([], pending)
  | chunk :: reads =>
    let taken := takeText (pending ++ chunk)
    let later := takeReads taken.2 reads
    (taken.1 :: later.1, later.2)

/-- The text of the reads, with what waits at the end as it would be shown. -/
def shown (pending : List UInt8) (reads : List (List UInt8)) : Text :=
  (takeReads pending reads).1.flatten ++ fromUtf8Lossy 0 (takeReads pending reads).2

def SplitFree (reads : List (List UInt8)) : Prop := shown [] reads = shown [] [reads.flatten]

/-- The incomplete sequence that the bytes end in, wherever else they are invalid. -/
def openTail : ℕ → List UInt8 → List UInt8
  | _, [] => []
  | skip + 1, _ :: rest => openTail skip rest
  | 0, b :: rest =>
    match decodeHead b rest with
    | .char _ width => openTail (width - 1) rest
    | .incomplete => b :: rest
    | .invalid width => openTail (width - 1) rest

def GoesOn (tail later : List UInt8) : Prop :=
  ∃ first rest next more, tail = first :: rest ∧ later = next :: more ∧
    decodeHead first (rest ++ [next]) ≠ .invalid (rest.length + 1)

/-- The bytes of a read are invalid, and the sequence that they end in goes on behind them. -/
structure Torn (bytes later : List UInt8) : Prop where
  invalid : (fromUtf8 0 bytes).2 = .invalid
  goesOn : GoesOn (openTail 0 bytes) later

def Untorn (pending : List UInt8) (reads : List (List UInt8)) : Prop :=
  ∀ front chunk later, reads = front ++ chunk :: later →
    ¬ Torn ((takeReads pending front).2 ++ chunk) later.flatten

section Sequence

variable {first next : UInt8} {rest : List UInt8} {width : ℕ}

theorem decode_head_cases (first : UInt8) :
    (∃ read, reach read = some 1 ∧ ∀ rest, decodeHead first rest = read) ∨
      ∃ width, ∀ rest, decodeHead first rest = decodeLong width first rest := by
  by_cases hzero : charWidth first = 0
  · left
    refine ⟨.invalid 1, rfl, fun rest => ?_⟩
    simp only [decodeHead, hzero]
  · by_cases hone : charWidth first = 1
    · left
      refine ⟨.char (Char.ofNat first.toNat) 1, rfl, fun rest => ?_⟩
      simp only [decodeHead, hone]
    · right
      exact ⟨charWidth first, fun rest => decode_head_long rfl (by omega)⟩

theorem long_stable (more : List UInt8) (h : decodeLong width first rest ≠ .incomplete) :
    decodeLong width first (rest ++ more) = decodeLong width first rest := by
  match rest with
  | [] => exact absurd rfl h
  | [second] =>
    simp only [List.cons_append, List.nil_append, decodeLong] at h ⊢
    split_ifs at h ⊢ <;> trivial
  | [second, third] =>
    simp only [List.cons_append, List.nil_append, decodeLong] at h ⊢
    split_ifs at h ⊢ <;> trivial
  | second :: third :: fourth :: rest => simp only [List.cons_append, decodeLong]

theorem long_reach (read : ℕ) (h : reach (decodeLong width first rest) = some read) :
    read ≤ rest.length + 1 := by
  match rest with
  | [] => exact absurd h (by simp [decodeLong, reach])
  | [second] =>
    simp only [decodeLong] at h
    split_ifs at h <;> cases h <;> simp
  | [second, third] =>
    simp only [decodeLong] at h
    split_ifs at h <;> cases h <;> simp
  | second :: third :: fourth :: rest =>
    simp only [decodeLong] at h
    split_ifs at h <;> cases h <;> simp

theorem long_next (h : decodeLong width first rest = .incomplete) :
    decodeLong width first (rest ++ [next]) = .invalid (rest.length + 1) ∨
      continuation next = true ∧
        ((∃ c, decodeLong width first (rest ++ [next]) = .char c (rest.length + 2)) ∨
          decodeLong width first (rest ++ [next]) = .incomplete) := by
  have hsecond : secondByte first next = true → continuation next = true := by
    rw [second_byte_iff, continuation_iff]
    exact fun h => h.1
  match rest with
  | [] =>
    simp only [List.nil_append, decodeLong]
    split_ifs <;> simp_all
  | [second] =>
    simp only [List.cons_append, List.nil_append, decodeLong] at h ⊢
    split_ifs at h ⊢ <;> simp_all
  | [second, third] =>
    simp only [List.cons_append, List.nil_append, decodeLong] at h ⊢
    split_ifs at h ⊢ <;> simp_all
  | second :: third :: fourth :: rest =>
    simp only [decodeLong] at h
    split_ifs at h

theorem decode_stable (more : List UInt8) (h : decodeHead first rest ≠ .incomplete) :
    decodeHead first (rest ++ more) = decodeHead first rest := by
  rcases decode_head_cases first with ⟨read, -, hread⟩ | ⟨width, hlong⟩
  · rw [hread, hread]
  · rw [hlong, hlong]
    rw [hlong] at h
    exact long_stable more h

theorem reach_within {read : ℕ} (h : reach (decodeHead first rest) = some read) :
    read ≤ rest.length + 1 := by
  rcases decode_head_cases first with ⟨one, hone, hread⟩ | ⟨width, hlong⟩
  · rw [hread, hone] at h
    cases h
    omega
  · rw [hlong] at h
    exact long_reach read h

theorem settled {read : Decoded} (h : decodeHead first rest = read)
    (hreach : reach read = some width) :
    width ≤ rest.length + 1 ∧ ∀ more, decodeHead first (rest ++ more) = read := by
  constructor
  · rw [← h] at hreach
    exact reach_within hreach
  · intro more
    rw [decode_stable more, h]
    rw [h]
    rintro rfl
    cases hreach

theorem decode_next (next : UInt8) (h : decodeHead first rest = .incomplete) :
    decodeHead first (rest ++ [next]) = .invalid (rest.length + 1) ∨
      continuation next = true ∧
        ((∃ c, decodeHead first (rest ++ [next]) = .char c (rest.length + 2)) ∨
          decodeHead first (rest ++ [next]) = .incomplete) := by
  rcases decode_head_cases first with ⟨one, hone, hread⟩ | ⟨width, hlong⟩
  · rw [← hread rest, h] at hone
    cases hone
  · rw [hlong] at h ⊢
    exact long_next h

end Sequence

theorem lossy_char {b : UInt8} {rest : List UInt8} {c : Char} {width : ℕ}
    (h : decodeHead b rest = .char c width) :
    fromUtf8Lossy 0 (b :: rest) = c :: fromUtf8Lossy (width - 1) rest := by
  rw [fromUtf8Lossy.eq_def]
  simp only [h]

theorem lossy_invalid {b : UInt8} {rest : List UInt8} {width : ℕ}
    (h : decodeHead b rest = .invalid width) :
    fromUtf8Lossy 0 (b :: rest) = replacement :: fromUtf8Lossy (width - 1) rest := by
  rw [fromUtf8Lossy.eq_def]
  simp only [h]

theorem lossy_incomplete {b : UInt8} {rest : List UInt8}
    (h : decodeHead b rest = .incomplete) : fromUtf8Lossy 0 (b :: rest) = [replacement] := by
  rw [fromUtf8Lossy.eq_def]
  simp only [h]

theorem lossy_parts (bytes : List UInt8) (skip : ℕ) (h : skip ≤ bytes.length) :
    ∃ text, ∀ more, fromUtf8Lossy skip (bytes ++ more) =
      text ++ fromUtf8Lossy 0 (openTail skip bytes ++ more) := by
  induction bytes generalizing skip with
  | nil =>
    rw [List.length_nil, Nat.le_zero] at h
    subst h
    exact ⟨[], fun _ => rfl⟩
  | cons b rest ih =>
    cases skip with
    | succ skip => exact ih skip (Nat.le_of_succ_le_succ h)
    | zero =>
      rw [openTail.eq_def]
      cases hread : decodeHead b rest with
      | char c width =>
        obtain ⟨hwithin, hstable⟩ := settled hread rfl
        obtain ⟨text, htext⟩ := ih (width - 1) (by omega)
        refine ⟨c :: text, fun more => ?_⟩
        rw [List.cons_append, lossy_char (hstable more), htext]
        simp only [hread]
        rfl
      | incomplete => exact ⟨[], fun more => by simp only [hread]; rfl⟩
      | invalid width =>
        obtain ⟨hwithin, hstable⟩ := settled hread rfl
        obtain ⟨text, htext⟩ := ih (width - 1) (by omega)
        refine ⟨replacement :: text, fun more => ?_⟩
        rw [List.cons_append, lossy_invalid (hstable more), htext]
        simp only [hread]
        rfl

theorem open_tail_incomplete (bytes : List UInt8) (skip : ℕ) {first : UInt8} {rest : List UInt8}
    (h : openTail skip bytes = first :: rest) : decodeHead first rest = .incomplete := by
  induction bytes generalizing skip with
  | nil =>
    rw [openTail] at h
    cases h
  | cons b bytes ih =>
    cases skip with
    | succ skip => exact ih skip h
    | zero =>
      rw [openTail] at h
      cases hread : decodeHead b bytes with
      | char c width =>
        rw [hread] at h
        exact ih _ h
      | incomplete =>
        rw [hread] at h
        cases h
        exact hread
      | invalid width =>
        rw [hread] at h
        exact ih _ h

def kept : Utf8End → List UInt8
  | .incomplete tail => tail
  | _ => []

theorem valid_parts (more bytes : List UInt8) (skip : ℕ) (h : skip ≤ bytes.length)
    (hvalid : (fromUtf8 skip bytes).2 ≠ .invalid) :
    fromUtf8Lossy skip (bytes ++ more) =
      (fromUtf8 skip bytes).1 ++ fromUtf8Lossy 0 (kept (fromUtf8 skip bytes).2 ++ more) := by
  induction bytes generalizing skip with
  | nil =>
    rw [List.length_nil, Nat.le_zero] at h
    subst h
    rfl
  | cons b rest ih =>
    cases skip with
    | succ skip => exact ih skip (Nat.le_of_succ_le_succ h) hvalid
    | zero =>
      rw [fromUtf8.eq_def] at hvalid ⊢
      cases hread : decodeHead b rest with
      | char c width =>
        obtain ⟨hwithin, hstable⟩ := settled hread rfl
        simp only [hread] at hvalid ⊢
        rw [List.cons_append, lossy_char (hstable more), ih (width - 1) (by omega) hvalid]
        rfl
      | incomplete =>
        simp only [hread]
        rfl
      | invalid width =>
        simp only [hread] at hvalid
        exact absurd rfl hvalid

theorem take_valid {bytes : List UInt8} (hvalid : (fromUtf8 0 bytes).2 ≠ .invalid) :
    takeText bytes = ((fromUtf8 0 bytes).1, kept (fromUtf8 0 bytes).2) := by
  rw [takeText]
  cases h : fromUtf8 0 bytes with
  | mk text last =>
    cases last with
    | complete => rfl
    | incomplete tail => rfl
    | invalid =>
      rw [h] at hvalid
      exact absurd rfl hvalid

theorem take_invalid {bytes : List UInt8} (hinvalid : (fromUtf8 0 bytes).2 = .invalid) :
    takeText bytes = (fromUtf8Lossy 0 bytes, []) := by
  rw [takeText]
  cases h : fromUtf8 0 bytes with
  | mk text last =>
    rw [h] at hinvalid
    subst hinvalid
    rfl

theorem lossy_continuation {b : UInt8} (rest : List UInt8) (h : continuation b = true) :
    fromUtf8Lossy 0 (b :: rest) = replacement :: fromUtf8Lossy 0 rest := by
  have hread : decodeHead b rest = .invalid 1 := by
    have hwidth : charWidth b = 0 := by
      have hbyte := (continuation_iff b).mp h
      rw [char_width_eq]
      split_ifs <;> omega
    simp only [decodeHead, hwidth]
  rw [lossy_invalid hread]

section Seam

variable {first next : UInt8} {rest : List UInt8} (more : List UInt8)

theorem open_ends (hends : decodeHead first (rest ++ [next]) = .invalid (rest.length + 1)) :
    fromUtf8Lossy 0 (first :: rest ++ next :: more) =
      replacement :: fromUtf8Lossy 0 (next :: more) := by
  have hstable := (settled hends rfl).2 more
  rw [List.append_assoc, List.singleton_append] at hstable
  rw [List.cons_append, lossy_invalid hstable, Nat.add_sub_cancel, lossy_skip]

theorem open_closes {c : Char}
    (hchar : decodeHead first (rest ++ [next]) = .char c (rest.length + 2)) :
    fromUtf8Lossy 0 (first :: rest ++ next :: more) = c :: fromUtf8Lossy 0 more := by
  have hstable := (settled hchar rfl).2 more
  have hskip := lossy_skip (rest ++ [next]) more
  rw [List.append_assoc, List.singleton_append] at hstable hskip
  rw [List.cons_append, lossy_char hstable, ← hskip]
  simp

theorem open_shorter (h : decodeHead first rest = .incomplete)
    (hnext : decodeHead first (rest ++ [next]) ≠ .invalid (rest.length + 1))
    (hadds : ∀ rest, decodeHead first rest = .incomplete →
      (fromUtf8Lossy 0 (first :: rest ++ more)).length ≤ (fromUtf8Lossy 0 more).length + 1) :
    (fromUtf8Lossy 0 (first :: rest ++ next :: more)).length ≤
      (fromUtf8Lossy 0 (next :: more)).length := by
  rcases decode_next next h with hends | ⟨hcontinues, hread⟩
  · exact absurd hends hnext
  · rw [lossy_continuation more hcontinues, List.length_cons]
    rcases hread with ⟨c, hchar⟩ | hopen
    · rw [open_closes more hchar, List.length_cons]
    · have hlonger := hadds _ hopen
      rwa [List.cons_append, List.append_assoc] at hlonger

theorem open_adds (h : decodeHead first rest = .incomplete) :
    (fromUtf8Lossy 0 (first :: rest ++ more)).length ≤ (fromUtf8Lossy 0 more).length + 1 := by
  induction more generalizing rest with
  | nil =>
    rw [List.append_nil, lossy_incomplete h, List.length_singleton]
    omega
  | cons next more ih =>
    by_cases hends : decodeHead first (rest ++ [next]) = .invalid (rest.length + 1)
    · rw [open_ends more hends, List.length_cons]
    · have hshorter := open_shorter more h hends fun _ hopen => ih hopen
      omega

end Seam

/-- The texts of two parts are the text of the whole where no sequence goes on behind the first,
and longer than that where one does. -/
theorem lossy_seam (bytes later : List UInt8) :
    (¬ GoesOn (openTail 0 bytes) later →
        fromUtf8Lossy 0 (bytes ++ later) = fromUtf8Lossy 0 bytes ++ fromUtf8Lossy 0 later) ∧
      (GoesOn (openTail 0 bytes) later → (fromUtf8Lossy 0 (bytes ++ later)).length <
        (fromUtf8Lossy 0 bytes ++ fromUtf8Lossy 0 later).length) := by
  obtain ⟨text, htext⟩ := lossy_parts bytes 0 (Nat.zero_le _)
  have hbytes := htext []
  rw [List.append_nil, List.append_nil] at hbytes
  rw [htext later, hbytes]
  cases htail : openTail 0 bytes with
  | nil =>
    constructor
    · intro _
      rw [fromUtf8Lossy, List.append_nil]
      rfl
    · rintro ⟨_, _, _, _, hcons, -⟩
      cases hcons
  | cons first rest =>
    have hopen := open_tail_incomplete bytes 0 htail
    rw [lossy_incomplete hopen]
    cases later with
    | nil =>
      constructor
      · intro _
        rw [List.append_nil, lossy_incomplete hopen, fromUtf8Lossy, List.append_nil]
      · rintro ⟨_, _, _, _, -, hnil, -⟩
        cases hnil
    | cons next more =>
      constructor
      · intro hnot
        have hends : decodeHead first (rest ++ [next]) = .invalid (rest.length + 1) := by
          by_contra hgoes
          exact hnot ⟨first, rest, next, more, rfl, rfl, hgoes⟩
        rw [open_ends more hends, List.append_assoc]
        rfl
      · rintro ⟨_, _, _, _, htail, hlater, hgoes⟩
        cases htail
        cases hlater
        have hshorter := open_shorter more hopen hgoes fun _ h => open_adds more h
        simp only [List.length_append, List.length_singleton]
        omega

theorem untorn_cons (pending chunk : List UInt8) (reads : List (List UInt8)) :
    Untorn pending (chunk :: reads) ↔ ¬ Torn (pending ++ chunk) reads.flatten ∧
      Untorn (takeText (pending ++ chunk)).2 reads := by
  constructor
  · intro h
    refine ⟨h [] chunk reads rfl, ?_⟩
    intro front next later hreads
    exact h (chunk :: front) next later (by rw [hreads]; rfl)
  · rintro ⟨hfirst, hrest⟩ front next later hreads
    cases front with
    | nil =>
      cases hreads
      exact hfirst
    | cons other front =>
      obtain ⟨rfl, hsame⟩ := List.cons.inj hreads
      exact hrest front next later hsame

theorem shown_cons (pending chunk : List UInt8) (reads : List (List UInt8)) :
    shown pending (chunk :: reads) =
      (takeText (pending ++ chunk)).1 ++ shown (takeText (pending ++ chunk)).2 reads := by
  simp [shown, takeReads]

theorem shown_from (reads : List (List UInt8)) (pending : List UInt8) :
    (Untorn pending reads →
        shown pending reads = fromUtf8Lossy 0 (pending ++ reads.flatten)) ∧
      (fromUtf8Lossy 0 (pending ++ reads.flatten)).length ≤ (shown pending reads).length ∧
      ((shown pending reads).length = (fromUtf8Lossy 0 (pending ++ reads.flatten)).length →
        Untorn pending reads) := by
  induction reads generalizing pending with
  | nil =>
    have hnone : shown pending [] = fromUtf8Lossy 0 (pending ++ [].flatten) := by
      simp [shown, takeReads]
    refine ⟨fun _ => hnone, by rw [hnone], fun _ => ?_⟩
    intro front chunk later hreads
    simp at hreads
  | cons chunk reads ih =>
    rw [untorn_cons, shown_cons, List.flatten_cons, ← List.append_assoc]
    generalize hbytes : pending ++ chunk = bytes
    by_cases hinvalid : (fromUtf8 0 bytes).2 = .invalid
    · obtain ⟨hsame, hleast, hlong⟩ := ih []
      rw [List.nil_append] at hsame hleast hlong
      obtain ⟨hclosed, hopen⟩ := lossy_seam bytes reads.flatten
      rw [take_invalid hinvalid]
      simp only [List.length_append] at hopen ⊢
      by_cases hgoes : GoesOn (openTail 0 bytes) reads.flatten
      · have hmore := hopen hgoes
        refine ⟨fun h => absurd ⟨hinvalid, hgoes⟩ h.1, by omega, fun h => by omega⟩
      · rw [hclosed hgoes, List.length_append]
        refine ⟨fun h => by rw [hsame h.2], by omega, fun h => ?_⟩
        exact ⟨fun htorn => hgoes htorn.goesOn, hlong (by omega)⟩
    · have hparts := valid_parts reads.flatten bytes 0 (Nat.zero_le _) hinvalid
      obtain ⟨hsame, hleast, hlong⟩ := ih (kept (fromUtf8 0 bytes).2)
      rw [take_valid hinvalid, hparts]
      simp only [List.length_append]
      refine ⟨fun h => by rw [hsame h.2], by omega, fun h => ?_⟩
      exact ⟨fun htorn => hinvalid htorn.invalid, hlong (by omega)⟩

theorem shown_whole (bytes : List UInt8) : shown [] [bytes] = fromUtf8Lossy 0 bytes := by
  have huntorn : Untorn [] [bytes] := by
    rw [untorn_cons]
    constructor
    · rintro ⟨-, _, _, _, _, -, hnil, -⟩
      cases hnil
    · intro front chunk later hreads
      simp at hreads
  have hwhole := (shown_from [bytes] []).1 huntorn
  rwa [List.nil_append, List.flatten_singleton] at hwhole

/-- The text depends on how the bytes are split exactly where a read is torn. -/
theorem split_free_iff (reads : List (List UInt8)) : SplitFree reads ↔ Untorn [] reads := by
  obtain ⟨hsame, -, hlong⟩ := shown_from reads []
  rw [List.nil_append] at hsame hlong
  rw [SplitFree, shown_whole]
  constructor
  · intro h
    exact hlong (congrArg List.length h)
  · exact hsame

/-- Behind the byte `FF` a character of two bytes is replaced twice. -/
theorem split_torn : ¬ SplitFree [[0xFF, 0xC3], [0xA9]] := by
  rw [SplitFree]
  decide

end Siralos.SplitReads
