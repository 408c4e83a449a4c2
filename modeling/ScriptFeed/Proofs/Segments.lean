import ScriptFeed.Proofs.Physical

namespace ScriptFeed.LineReader

def segments : Bytes → List Bytes
  | [] => []
  | b :: r =>
    if b = newline then [b] :: segments r
    else
      match segments r with
      | [] => [[b]]
      | s :: rest => (b :: s) :: rest

structure Cut (source : Bytes) (lines : List Bytes) : Prop where
  whole : lines.flatten = source
  filled : ∀ s ∈ lines, s ≠ []
  unbroken : ∀ s ∈ lines, newline ∉ s.dropLast
  ended : ∀ s ∈ lines.dropLast, s.getLast? = some newline

variable {fs : Files} {r r' : LineReader} {lines : List Bytes} {source : Bytes}

theorem segments_eq_nil : segments source = [] ↔ source = [] := by
  cases source with
  | nil => simp [segments]
  | cons b r =>
    unfold segments
    split
    · simp
    · cases segments r <;> simp

theorem Cut.newline (h : Cut source lines) : Cut (newline :: source) ([newline] :: lines) := by
  refine ⟨by simp [h.whole], ?_, ?_, ?_⟩
  · simpa using h.filled
  · simpa using h.unbroken
  · cases lines with
    | nil => simp
    | cons s rest => simpa using h.ended

theorem Cut.longer {b : UInt8} {s : Bytes} (hb : b ≠ LineReader.newline)
    (h : Cut source (s :: lines)) : Cut (b :: source) ((b :: s) :: lines) := by
  have hs : s ≠ [] := h.filled s (by simp)
  refine ⟨by simp [← h.whole], ?_, ?_, ?_⟩
  · exact List.forall_mem_cons.mpr ⟨List.cons_ne_nil b s, (List.forall_mem_cons.mp h.filled).2⟩
  · obtain ⟨hfirst, hrest⟩ := List.forall_mem_cons.mp h.unbroken
    refine List.forall_mem_cons.mpr ⟨?_, hrest⟩
    rw [List.dropLast_cons_of_ne_nil hs, List.mem_cons, not_or]
    exact ⟨hb.symm, hfirst⟩
  · cases lines with
    | nil => simp
    | cons u rest =>
      obtain ⟨hfirst, hrest⟩ := List.forall_mem_cons.mp h.ended
      refine List.forall_mem_cons.mpr ⟨?_, hrest⟩
      rw [List.getLast?_cons_of_ne_nil hs]
      exact hfirst

theorem segments_cut (source : Bytes) : Cut source (segments source) := by
  induction source with
  | nil => exact ⟨rfl, by simp [segments], by simp [segments], by simp [segments]⟩
  | cons b r ih =>
    unfold segments
    by_cases hb : b = newline
    · rw [if_pos hb]
      exact hb ▸ ih.newline
    · rw [if_neg hb]
      cases hs : segments r with
      | nil =>
        obtain rfl := segments_eq_nil.mp hs
        exact ⟨rfl, by simp, by simp, by simp⟩
      | cons s rest =>
        rw [hs] at ih
        exact ih.longer hb

theorem segments_splitLine (h : source ≠ []) :
    segments source = (splitLine source).1 :: segments (splitLine source).2 := by
  induction source with
  | nil => exact absurd rfl h
  | cons b r ih =>
    rw [segments, splitLine]
    by_cases hb : b = newline
    · rw [if_pos hb, if_pos hb]
    · rw [if_neg hb, if_neg hb]
      by_cases hr : r = []
      · subst hr
        rfl
      · rw [ih hr]

theorem splitLine_more {b : Bytes} (h : b.contains newline = true) (rest : Bytes) :
    splitLine (b ++ rest) = ((splitLine b).1, (splitLine b).2 ++ rest) := by
  induction b with
  | nil => simp at h
  | cons x b ih =>
    rw [List.cons_append, splitLine, splitLine]
    by_cases hx : x = newline
    · simp [hx]
    · have hb : b.contains newline = true := by
        simp only [List.contains_cons, Bool.or_eq_true, beq_iff_eq] at h
        exact h.resolve_left (Ne.symm hx)
      simp [hx, ih hb]

theorem segments_length (source : Bytes) : (segments source).length ≤ source.length := by
  have hcut := segments_cut source
  calc (segments source).length
    _ = ((segments source).map fun _ => 1).sum := by simp
    _ ≤ ((segments source).map List.length).sum := by
      apply List.sum_le_sum
      intro s hs
      exact List.length_pos_iff.mpr (hcut.filled s hs)
    _ = source.length := by rw [← List.length_flatten, hcut.whole]

def textOf (line : Bytes) : Text := Text.trim (Utf8.decodeLine line)

structure At (fs : Files) (lines : List Bytes) (r : LineReader) : Prop where
  readable : r.stream ≠ .directory
  rest : segments (r.pending fs) = lines.drop r.line
  within : r.line ≤ lines.length
  ended : r.ended = true → r.line = lines.length

theorem fetch_readable (fs : Files) (h : r.stream ≠ .directory) : ∃ r', r.fetch fs = .ok r' ∧
    r'.stream ≠ .directory ∧ r'.buffer = r.pending fs ∧ r'.unfetched fs = [] ∧ r'.path = r.path ∧
    r'.line = r.line ∧ r'.ended = r.ended := by
  have hsome : ∃ r', r.fetch fs = .ok r' ∧ r'.stream ≠ .directory := by
    unfold fetch
    cases hs : r.stream with
    | memory => exact ⟨r, rfl, by simp [hs]⟩
    | directory => exact absurd hs h
    | file id position => exact ⟨_, rfl, by simp⟩
  obtain ⟨r', hf, hstream⟩ := hsome
  obtain ⟨hreads, hbuffer⟩ := fetch_pending hf
  obtain ⟨hended, hline⟩ := fetch_keeps hf
  have hnil : r'.unfetched fs = [] := by
    have hle := hreads.pending.length_le
    rw [LineReader.pending, hbuffer, List.length_append] at hle
    exact List.eq_nil_of_length_eq_zero (by omega)
  exact ⟨r', hf, hstream, hbuffer, hnil, hreads.path, hline, hended⟩

theorem prepare_readable (fs : Files) (h : r.stream ≠ .directory) : ∃ r', r.prepare fs = .ok r' ∧
    r'.stream ≠ .directory ∧ (splitLine r'.buffer).1 = (splitLine (r.pending fs)).1 ∧
    (splitLine r'.buffer).2 ++ r'.unfetched fs = (splitLine (r.pending fs)).2 ∧
    (r'.buffer = [] ↔ r.pending fs = []) ∧ r'.pending fs = r.pending fs ∧ r'.path = r.path ∧
    r'.line = r.line ∧ r'.ended = r.ended := by
  unfold prepare
  by_cases hc : r.buffer.contains newline = true
  · have hsplit := splitLine_more hc (r.unfetched fs)
    refine ⟨r, by rw [if_pos hc], h, ?_, ?_, ?_, rfl, rfl, rfl, rfl⟩
    · rw [LineReader.pending, hsplit]
    · rw [LineReader.pending, hsplit]
    · have hne : r.buffer ≠ [] := by
        intro hnil
        simp [hnil] at hc
      simp [LineReader.pending, hne]
  · obtain ⟨r', hf, hstream, hbuffer, hnil, hpath, hline, hended⟩ := fetch_readable fs h
    refine ⟨r', by rw [if_neg hc, hf], hstream, ?_, ?_, ?_, ?_, hpath, hline, hended⟩
    · rw [hbuffer]
    · rw [hbuffer, hnil, List.append_nil]
    · rw [hbuffer]
    · rw [LineReader.pending, hbuffer, hnil, List.append_nil]

theorem At.next_line (h : At fs lines r) {line : Bytes} (hl : lines[r.line]? = some line) :
    ∃ r', r.next fs = .ok (some (textOf line), r') ∧ At fs lines r' ∧ r'.path = r.path ∧
      r'.line = r.line + 1 := by
  obtain ⟨hlt, hget⟩ := List.getElem?_eq_some_iff.mp hl
  have hnotEnded : r.ended = false := by
    cases he : r.ended with
    | false => rfl
    | true =>
      have := h.ended he
      omega
  have hrest := h.rest
  rw [List.drop_eq_getElem_cons hlt, hget] at hrest
  have hne : r.pending fs ≠ [] := by
    intro hnil
    rw [hnil] at hrest
    simp [segments] at hrest
  obtain ⟨r₁, hp, hstream, hline, htail, hempty, -, hpath, hcount, hended⟩ :=
    prepare_readable fs h.readable
  rw [segments_splitLine hne, List.cons.injEq] at hrest
  refine ⟨{ r₁ with buffer := (splitLine r₁.buffer).2, line := r₁.line + 1 }, ?_, ?_, hpath, ?_⟩
  · have hbuffer : r₁.buffer ≠ [] := fun hnil => hne (hempty.mp hnil)
    unfold LineReader.next
    simp only [hnotEnded, hp, hbuffer, Bool.false_eq_true, if_false]
    rw [hline, hrest.1, textOf]
  · refine ⟨hstream, ?_, ?_, ?_⟩
    · change segments ((splitLine r₁.buffer).2 ++ r₁.unfetched fs) = lines.drop (r₁.line + 1)
      rw [htail, hrest.2, hcount]
    · change r₁.line + 1 ≤ lines.length
      omega
    · intro he
      exact absurd (hended.symm.trans he) (by simp [hnotEnded])
  · change r₁.line + 1 = r.line + 1
    omega

theorem At.pending_nil (h : At fs lines r) (hl : lines[r.line]? = none) : r.pending fs = [] := by
  have hrest := h.rest
  rw [List.drop_eq_nil_of_le (List.getElem?_eq_none_iff.mp hl)] at hrest
  exact segments_eq_nil.mp hrest

theorem At.next_end (h : At fs lines r) (hl : lines[r.line]? = none) :
    ∃ r', r.next fs = .ok (none, r') ∧ At fs lines r' ∧ r'.path = r.path ∧ r'.line = r.line := by
  have hlength : r.line = lines.length := le_antisymm h.within (List.getElem?_eq_none_iff.mp hl)
  cases he : r.ended with
  | true => exact ⟨r, by simp [LineReader.next, he], h, rfl, rfl⟩
  | false =>
    obtain ⟨r₁, hp, hstream, -, -, hempty, hpending, hpath, hcount, hended⟩ :=
      prepare_readable fs h.readable
    have hbuffer : r₁.buffer = [] := hempty.mpr (h.pending_nil hl)
    refine ⟨{ r₁ with ended := true }, ?_, ⟨hstream, ?_, ?_, ?_⟩, hpath, hcount⟩
    · simp [LineReader.next, he, hp, hbuffer]
    · change segments (r₁.pending fs) = lines.drop r₁.line
      rw [hpending, hcount, h.rest]
    · change r₁.line ≤ lines.length
      omega
    · intro _
      exact hcount.trans hlength

def joined : Text → List Text → Text × Nat
  | t, [] => (t, 0)
  | t, u :: rest =>
    if continues t then ((joined (continued t u) rest).1, (joined (continued t u) rest).2 + 1)
    else (t, 0)

theorem At.gatherWithin (h : At fs lines r) (t : Text) (fuel : Nat)
    (hfuel : lines.length < r.line + fuel) :
    ∃ r', LineReader.gatherWithin fs continues continued fuel t r =
        .ok ((joined t ((lines.drop r.line).map textOf)).1, r') ∧ At fs lines r' ∧
      r'.path = r.path ∧ r'.line = r.line + (joined t ((lines.drop r.line).map textOf)).2 := by
  induction fuel generalizing t r with
  | zero =>
    have := h.within
    omega
  | succ fuel ih =>
    unfold LineReader.gatherWithin
    cases hl : lines[r.line]? with
    | none =>
      have hnil : lines.drop r.line = [] := List.drop_eq_nil_of_le (List.getElem?_eq_none_iff.mp hl)
      obtain ⟨r', hn, hat, hpath, hline⟩ := h.next_end hl
      rw [hnil, List.map_nil, joined]
      split
      · exact ⟨r', by rw [hn], hat, hpath, hline⟩
      · exact ⟨r, rfl, h, rfl, rfl⟩
    | some line =>
      obtain ⟨hlt, hget⟩ := List.getElem?_eq_some_iff.mp hl
      rw [List.drop_eq_getElem_cons hlt, hget, List.map_cons, joined]
      by_cases hmore : continues t = true
      · obtain ⟨r₁, hn, hat, hpath, hline⟩ := h.next_line hl
        obtain ⟨r', hg, hat', hpath', hline'⟩ := ih hat (continued t (textOf line)) (by omega)
        rw [hline] at hg hline'
        rw [if_pos hmore, if_pos hmore, hn]
        exact ⟨r', hg, hat', hpath'.trans hpath, by dsimp only; omega⟩
      · rw [if_neg hmore, if_neg hmore]
        exact ⟨r, rfl, h, rfl, rfl⟩

theorem At.gather (h : At fs lines r) (t : Text) :
    ∃ r', r.gather fs continues continued t =
        .ok ((joined t ((lines.drop r.line).map textOf)).1, r') ∧ At fs lines r' ∧
      r'.path = r.path ∧ r'.line = r.line + (joined t ((lines.drop r.line).map textOf)).2 := by
  apply h.gatherWithin
  have hlength := segments_length (r.pending fs)
  rw [h.rest, List.length_drop] at hlength
  omega

theorem atEnd_again (fs : Files) (r : LineReader) :
    (r.atEnd fs).2.atEnd fs = r.atEnd fs := by
  by_cases he : r.ended = true
  · simp [atEnd, he]
  · by_cases hb : r.buffer = []
    · cases hf : r.fetch fs with
      | error e => simp [atEnd, he, hb, hf]
      | ok r₁ =>
        have hended : r₁.ended = false := by simpa [he] using (fetch_keeps hf).1
        have hagain := fetch_fetch hf
        by_cases hb₁ : r₁.buffer = [] <;> simp [atEnd, he, hb, hf, hended, hb₁, hagain]
    · simp [atEnd, he, hb]

theorem At.atEnd (h : At fs lines r) : (r.atEnd fs).1 = decide (lines.length ≤ r.line) ∧
    At fs lines (r.atEnd fs).2 ∧ (r.atEnd fs).2.path = r.path ∧ (r.atEnd fs).2.line = r.line ∧
    (r.atEnd fs).2.ended = r.ended ∧ (r.atEnd fs).2.pending fs = r.pending fs := by
  have hend : r.pending fs = [] ↔ lines.length ≤ r.line := by
    rw [← segments_eq_nil, h.rest, List.drop_eq_nil_iff]
  unfold LineReader.atEnd
  by_cases he : r.ended = true
  · rw [if_pos he]
    exact ⟨by simp [h.ended he], h, rfl, rfl, rfl, rfl⟩
  · rw [if_neg he]
    by_cases hb : r.buffer = []
    · obtain ⟨r₁, hf, hstream, hbuffer, hnil, hpath, hline, hended⟩ :=
        fetch_readable fs h.readable
      have hpending : r₁.pending fs = r.pending fs := by
        rw [LineReader.pending, hbuffer, hnil, List.append_nil]
      rw [if_neg (by simpa using hb), hf]
      refine ⟨?_, ⟨hstream, ?_, ?_, ?_⟩, hpath, hline, hended, hpending⟩
      · rw [Bool.eq_iff_iff, List.isEmpty_iff, hbuffer, hend, decide_eq_true_iff]
      · rw [hpending, hline, h.rest]
      · rw [hline]
        exact h.within
      · intro he₁
        exact absurd (hended.symm.trans he₁) he
    · rw [if_pos hb]
      have hne : ¬ lines.length ≤ r.line := by
        rw [← hend]
        simp [LineReader.pending, hb]
      exact ⟨by simp [hne], h, rfl, rfl, rfl, rfl⟩

inductive Query where
  | physical
  | logical (marked : Marked)
  | atEnd

inductive Reply where
  | physical (t : Option Text)
  | logical (l : Option LogicalLine)
  | atEnd (ended : Bool)
deriving DecidableEq, Repr

namespace Query

def ask (fs : Files) (r : LineReader) : Query → Except Fault (Reply × LineReader)
  | physical => (r.next fs).map fun x => (.physical x.1, x.2)
  | logical marked => (r.nextLogical fs marked).map fun x => (.logical x.1, x.2)
  | atEnd => .ok (.atEnd (r.atEnd fs).1, (r.atEnd fs).2)

def askAll (fs : Files) : List Query → LineReader → Except Fault (List Reply × LineReader)
  | [], r => .ok ([], r)
  | q :: queries, r => do
    let (reply, r) ← q.ask fs r
    let (replies, r) ← askAll fs queries r
    .ok (reply :: replies, r)

/-- What a cursor behind the first `k` lines of the script at a path replies, and where it moves. -/
def answer (path : Path) (lines : List Bytes) (k : Nat) : Query → Reply × Nat
  | physical => (.physical (lines[k]?.map textOf), min (k + 1) lines.length)
  | logical marked =>
    match (lines.drop k).map textOf with
    | [] => (.logical none, k)
    | t :: rest =>
      let text := (joined t rest).1
      (.logical (some ⟨if marked path (k + 1) then mark text else text, k + 1⟩),
        k + 1 + (joined t rest).2)
  | atEnd => (.atEnd (lines.length ≤ k), k)

def answers (path : Path) (lines : List Bytes) : List Query → Nat → List Reply × Nat
  | [], k => ([], k)
  | q :: queries, k =>
    let (reply, k) := q.answer path lines k
    let (replies, k) := answers path lines queries k
    (reply :: replies, k)

theorem ask_logical (h : At fs lines r) (marked : Marked) :
    ∃ r', (logical marked).ask fs r = .ok (((logical marked).answer r.path lines r.line).1, r') ∧
      At fs lines r' ∧ r'.path = r.path ∧
      r'.line = ((logical marked).answer r.path lines r.line).2 := by
  cases hl : lines[r.line]? with
  | none =>
    have hnil : lines.drop r.line = [] := List.drop_eq_nil_of_le (List.getElem?_eq_none_iff.mp hl)
    obtain ⟨r', hn, hat, hpath, hline⟩ := h.next_end hl
    refine ⟨r', ?_, hat, hpath, ?_⟩
    · simp [ask, nextLogical, hn, answer, hnil, Except.map]
    · simp [answer, hnil, hline]
  | some line =>
    obtain ⟨hlt, hget⟩ := List.getElem?_eq_some_iff.mp hl
    obtain ⟨r₁, hn, hat, hpath, hline⟩ := h.next_line hl
    obtain ⟨r', hg, hat', hpath', hline'⟩ := hat.gather (textOf line)
    rw [hline] at hg hline'
    have hdrop : (lines.drop r.line).map textOf =
        textOf line :: (lines.drop (r.line + 1)).map textOf := by
      rw [List.drop_eq_getElem_cons hlt, hget, List.map_cons]
    refine ⟨r', ?_, hat', hpath'.trans hpath, ?_⟩
    · simp only [ask, nextLogical, hn, hg, answer, hdrop, hpath, hline]
      rfl
    · simp only [answer, hdrop, hline']

theorem ask_at (h : At fs lines r) (q : Query) :
    ∃ r', q.ask fs r = .ok ((q.answer r.path lines r.line).1, r') ∧ At fs lines r' ∧
      r'.path = r.path ∧ r'.line = (q.answer r.path lines r.line).2 := by
  cases q with
  | physical =>
    cases hl : lines[r.line]? with
    | none =>
      obtain ⟨r', hn, hat, hpath, hline⟩ := h.next_end hl
      have hlength := List.getElem?_eq_none_iff.mp hl
      have hwithin := h.within
      exact ⟨r', by
        simp [ask, hn, answer, hl, Except.map], hat, hpath, by simp only [answer]; omega⟩
    | some line =>
      obtain ⟨r', hn, hat, hpath, hline⟩ := h.next_line hl
      have hwithin := hat.within
      exact ⟨r', by
        simp [ask, hn, answer, hl, Except.map], hat, hpath, by simp only [answer]; omega⟩
  | logical marked => exact ask_logical h marked
  | atEnd =>
    obtain ⟨hended, hat, hpath, hline, -⟩ := h.atEnd
    exact ⟨(r.atEnd fs).2, by simp only [ask, answer, hended], hat, hpath, hline⟩

theorem askAll_at (h : At fs lines r) (queries : List Query) :
    ∃ r', askAll fs queries r = .ok ((answers r.path lines queries r.line).1, r') ∧
      At fs lines r' ∧ r'.path = r.path ∧ r'.line = (answers r.path lines queries r.line).2 := by
  induction queries generalizing r with
  | nil => exact ⟨r, rfl, h, rfl, rfl⟩
  | cons q queries ih =>
    obtain ⟨r₁, hask, hat, hpath, hline⟩ := ask_at h q
    obtain ⟨r', hall, hat', hpath', hline'⟩ := ih hat
    rw [hpath, hline] at hall hline'
    refine ⟨r', ?_, hat', hpath'.trans hpath, hline'⟩
    rw [askAll, hask]
    change (askAll fs queries r₁ >>= _) = _
    rw [hall]
    rfl

theorem ask_atEnd (fs : Files) (r : LineReader) (q : Query) :
    q.ask fs (r.atEnd fs).2 = q.ask fs r := by
  cases q with
  | physical => simp only [ask, next_atEnd]
  | logical marked => simp only [ask, nextLogical_atEnd]
  | atEnd => simp only [ask, atEnd_again]

theorem answer_bounds (path : Path) (lines : List Bytes) {k : Nat} (hk : k ≤ lines.length)
    (q : Query) : k ≤ (q.answer path lines k).2 ∧ (q.answer path lines k).2 ≤ lines.length := by
  have hjoined (t : Text) (rest : List Text) : (joined t rest).2 ≤ rest.length := by
    induction rest generalizing t with
    | nil => simp [joined]
    | cons u rest ih =>
      unfold joined
      split
      · simpa using ih (continued t u)
      · simp
  cases q with
  | physical =>
    simp only [answer]
    omega
  | logical marked =>
    unfold answer
    dsimp only
    split
    · exact ⟨le_rfl, hk⟩
    next t rest hdrop =>
      have hlength := congrArg List.length hdrop
      have := hjoined t rest
      simp only [List.length_map, List.length_drop, List.length_cons] at hlength
      dsimp only
      omega
  | atEnd => exact ⟨le_rfl, hk⟩

theorem answers_bounds (path : Path) (lines : List Bytes) {k : Nat} (hk : k ≤ lines.length)
    (queries : List Query) :
    k ≤ (answers path lines queries k).2 ∧ (answers path lines queries k).2 ≤ lines.length := by
  induction queries generalizing k with
  | nil => exact ⟨le_rfl, hk⟩
  | cons q queries ih =>
    obtain ⟨hle, hlength⟩ := answer_bounds path lines hk q
    obtain ⟨hle', hlength'⟩ := ih hlength
    exact ⟨hle.trans hle', hlength'⟩

end Query

/-- A reader that has just been opened replies to all queries like a cursor in the list of the lines
of its source. What it has read are the first lines, as many as it counted; looking for the end
changes nothing, and finds it exactly where there is no next line. -/
theorem reader_partitions (fs : Files) (r : LineReader) (queries : List Query)
    (hreadable : r.stream ≠ .directory) (hline : r.line = 0) (hended : r.ended = false) :
    let source := r.pending fs
    let lines := segments source
    Cut source lines ∧ ∃ r', Query.askAll fs queries r =
        .ok ((Query.answers r.path lines queries 0).1, r') ∧
      r'.line = (Query.answers r.path lines queries 0).2 ∧
      (lines.take r'.line).flatten ++ r'.pending fs = source ∧
      (∀ q : Query, q.ask fs (r'.atEnd fs).2 = q.ask fs r') ∧
      ((r'.atEnd fs).2.line = r'.line ∧ (r'.atEnd fs).2.pending fs = r'.pending fs) ∧
      ((r'.atEnd fs).1 = true ↔ ∃ x, r'.next fs = .ok (none, x)) ∧
      ((r'.atEnd fs).1 = true → ∀ more, ∃ replies x, Query.askAll fs more r' = .ok (replies, x) ∧
        x.line = r'.line) := by
  intro source lines
  have hcut := segments_cut source
  have hat : At fs lines r :=
    ⟨hreadable, by rw [hline, List.drop_zero], by omega, fun h => by simp [hended] at h⟩
  obtain ⟨r', hall, hat', hpath, hcount⟩ := Query.askAll_at hat queries
  rw [hline] at hall hcount
  obtain ⟨hat₁, -, -, hline₁, -, hpending₁⟩ := hat'.atEnd
  refine ⟨hcut, r', hall, hcount, ?_, Query.ask_atEnd fs r', ⟨hline₁, hpending₁⟩, ?_, ?_⟩
  · rw [← (segments_cut (r'.pending fs)).whole, hat'.rest, ← List.flatten_append,
      List.take_append_drop, hcut.whole]
  · rw [hat₁, decide_eq_true_iff]
    constructor
    · intro hle
      obtain ⟨x, hx, -⟩ := hat'.next_end (List.getElem?_eq_none_iff.mpr hle)
      exact ⟨x, hx⟩
    · rintro ⟨x, hx⟩
      by_contra hlt
      obtain ⟨x', hx', -⟩ := hat'.next_line (List.getElem?_eq_getElem (by omega))
      simp [hx] at hx'
  · intro hend more
    rw [hat₁, decide_eq_true_iff] at hend
    obtain ⟨x, hx, -, -, hlinex⟩ := Query.askAll_at hat' more
    have hbounds := Query.answers_bounds r'.path lines hat'.within more
    exact ⟨_, x, hx, by omega⟩

def joinedSource : LineReader := ofBytes ⟨['s']⟩ (Utf8.encode "a \\\\\nb\nc".toList)

theorem reader_partitions_joined :
    ∃ r', Query.askAll { } [.logical fun _ _ => false, .atEnd, .physical,
    .atEnd, .physical, .logical fun _ _ => true] joinedSource =
      .ok ([.logical (some ⟨"a b".toList, 1⟩), .atEnd false, .physical (some ['c']), .atEnd true,
        .physical none, .logical none], r') ∧ r'.line = 3 := by
  obtain ⟨-, r', hall, hline, -⟩ := reader_partitions { } joinedSource [.logical fun _ _ => false,
    .atEnd, .physical, .atEnd, .physical, .logical fun _ _ => true] (by decide) rfl rfl
  have hanswers : Query.answers joinedSource.path (segments (joinedSource.pending { }))
      [.logical fun _ _ => false, .atEnd, .physical, .atEnd, .physical,
        .logical fun _ _ => true] 0 =
      ([.logical (some ⟨"a b".toList, 1⟩), .atEnd false, .physical (some ['c']), .atEnd true,
        .physical none, .logical none], 3) := by decide +kernel
  rw [hanswers] at hall hline
  exact ⟨r', hall, hline⟩

end ScriptFeed.LineReader
