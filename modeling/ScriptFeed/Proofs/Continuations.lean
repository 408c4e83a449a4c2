import ScriptFeed.Proofs.Encoding

namespace ScriptFeed.LineReader

variable {fs : Files} {r : LineReader} {first f t : Text} {more lines ts : List Text}
  {source rest : Bytes}

def spread (first : Text) : List Text → List Text
  | [] => [first]
  | f :: more => (first ++ continuation) :: spread f more

/-- Fragments of one line each whose edges survive the trimming of lines. -/
structure Fragments (first : Text) (more : List Text) : Prop where
  filled : first ≠ []
  unbroken : ∀ f ∈ first :: more, '\n' ∉ f
  flush : ∀ f ∈ first :: more, ∀ c, f.head? = some c → Text.isBlank c = false
  tight : ∀ c, (more.getLastD first).getLast? = some c → Text.isBlank c = false
  finished : ¬continuation <:+ (first :: more).flatten

/-- A source begins with these lines, and `rest` comes behind them. At the end of the source, a line
that is not empty needs no line feed. -/
def Leads (lines : List Text) (rest source : Bytes) : Prop :=
  source = written lines ++ rest ∨
    rest = [] ∧ source ++ [newline] = written lines ∧ lines.getLast? ≠ some []

theorem continues_of_mark (h : t ≠ []) : continues (t ++ continuation) = true := by
  have hpos := Text.utf8Size_pos h
  have hsize : Text.utf8Size continuation = 2 := by decide
  have hends : Text.endsWith continuation (t ++ continuation) = true := by
    rw [Text.endsWith, List.reverse_append]
    exact Text.startsWith_iff.mpr ⟨_, rfl⟩
  rw [continues, hends, Text.utf8Size_append, hsize, Bool.and_true, decide_eq_true_eq, continuation,
    List.length_cons, List.length_singleton]
  omega

theorem continues_of_finished (h : ¬continuation <:+ t) : continues t = false := by
  apply continues_of_endsWith
  rw [← Bool.not_eq_true, Text.endsWith, Text.startsWith_iff]
  rintro ⟨u, hu⟩
  exact h ⟨u.reverse, by rw [← List.reverse_inj, hu]; simp⟩

theorem continued_mark (t next : Text) : continued (t ++ continuation) next = t ++ next := by
  simp [continued, continuation]

theorem joined_single (h : continues t = false) (ts : List Text) : joined t ts = (t, 0) := by
  cases ts with
  | nil => rfl
  | cons u ts => rw [joined, h, if_neg Bool.false_ne_true]

theorem joined_spread (text : Text) (hne : text ++ first ≠ [])
    (h : ¬continuation <:+ text ++ (first :: more).flatten) (ts : List Text) :
    ∃ line lines, spread first more = line :: lines ∧
      joined (text ++ line) (lines ++ ts) = (text ++ (first :: more).flatten, more.length) := by
  induction more generalizing text first with
  | nil =>
    rw [List.flatten_singleton] at h ⊢
    exact ⟨first, [], rfl, joined_single (continues_of_finished h) _⟩
  | cons f more ih =>
    rw [List.flatten_cons, ← List.append_assoc] at h ⊢
    obtain ⟨line, lines, hlines, hjoined⟩ :=
      ih (text ++ first) (List.append_ne_nil_of_left_ne_nil hne f) h
    refine ⟨first ++ continuation, line :: lines, by rw [spread, hlines], ?_⟩
    rw [List.cons_append, joined, ← List.append_assoc, if_pos (continues_of_mark hne),
      continued_mark, hjoined]
    rfl

theorem spread_length (first : Text) (more : List Text) :
    (spread first more).length = more.length + 1 := by
  induction more generalizing first with
  | nil => rfl
  | cons f more ih => rw [spread, List.length_cons, ih, List.length_cons]

theorem trimmed_mark (h : ∀ c, t.head? = some c → Text.isBlank c = false) :
    Text.Trimmed (t ++ continuation) := by
  rw [Text.trimmed_iff, List.getLast?_append_of_ne_nil t (by decide)]
  refine ⟨fun c hc => ?_, fun c hc => ?_⟩
  · cases t with
    | nil =>
      obtain rfl : '\\' = c := Option.some.inj hc
      decide
    | cons d t => exact h c hc
  · obtain rfl : '\\' = c := Option.some.inj hc
    decide

theorem Fragments.spread_trimmed (h : Fragments first more) :
    ∀ t ∈ spread first more, Text.Trimmed t := by
  obtain ⟨-, -, hflush, htight, -⟩ := h
  induction more generalizing first with
  | nil =>
    intro t ht
    obtain rfl := List.mem_singleton.mp ht
    exact Text.trimmed_iff.mpr ⟨hflush t List.mem_cons_self, htight⟩
  | cons f more ih =>
    obtain ⟨hfirst, hmore⟩ := List.forall_mem_cons.mp hflush
    rw [List.getLastD_cons] at htight
    exact List.forall_mem_cons.mpr ⟨trimmed_mark hfirst, ih hmore htight⟩

theorem Fragments.spread_unbroken (h : Fragments first more) :
    ∀ t ∈ spread first more, '\n' ∉ t := by
  have hunbroken := h.unbroken
  clear h
  induction more generalizing first with
  | nil => exact hunbroken
  | cons f more ih =>
    obtain ⟨hfirst, hmore⟩ := List.forall_mem_cons.mp hunbroken
    refine List.forall_mem_cons.mpr ⟨fun hn => ?_, ih hmore⟩
    rcases List.mem_append.mp hn with hn | hn
    · exact hfirst hn
    · exact absurd hn (by decide)

theorem Leads.segments (h : Leads lines rest source) (hlines : ∀ t ∈ lines, '\n' ∉ t) :
    ∃ pieces, LineReader.segments source = pieces ++ LineReader.segments rest ∧
      pieces.map textOf = lines.map Text.trim := by
  rcases h with rfl | ⟨rfl, hsource, hlast⟩
  · exact ⟨_, segments_written_append hlines rest, map_textOf_written lines⟩
  · rcases List.eq_nil_or_concat lines with rfl | ⟨init, last, rfl⟩
    · exact absurd hsource (by simp [written, Utf8.encode])
    · -- the last line lacks its line feed
      rw [List.concat_eq_append] at *
      rw [List.getLast?_concat] at hlast
      have hinit : ∀ t ∈ init, '\n' ∉ t := fun t ht => hlines t (List.mem_append_left _ ht)
      have hnew : newline ∉ Utf8.encode last :=
        fun hn => hlines last (by simp) (Utf8.newline_mem_encode.mp hn)
      have hbytes : source = written init ++ Utf8.encode last := by
        rw [written_append, written_cons, ← List.append_assoc] at hsource
        exact List.append_cancel_right hsource
      have hne : Utf8.encode last ≠ [] := Utf8.encode_ne_nil fun hnil => hlast (by rw [hnil])
      refine ⟨init.map (Utf8.encode · ++ [newline]) ++ [Utf8.encode last], ?_, ?_⟩
      · rw [hbytes, segments_written_append hinit, segments_unbroken hnew hne, LineReader.segments,
          List.append_nil]
      · rw [List.map_append, map_textOf_written, List.map_append, List.map_singleton, textOf,
          Utf8.decodeLine_encode, List.map_singleton]

/-- Fragments on lines of their own come back as the text that they are fragments of, under the
number of the first line. All of their lines are counted, and what is behind them is left. -/
theorem continuation_rejoins (h : Fragments first more) (hreadable : r.stream ≠ .directory)
    (hended : r.ended = false) (hsource : Leads (spread first more) rest (r.pending fs)) :
    ∃ r', r.nextLogical fs (fun _ _ => false) =
        .ok (some ⟨(first :: more).flatten, r.line + 1⟩, r') ∧
      r'.line = r.line + (more.length + 1) ∧ r'.pending fs = rest ∧
      Offers fs ((segments rest).map textOf) r' := by
  obtain ⟨pieces, hpieces, htexts⟩ := hsource.segments h.spread_unbroken
  obtain ⟨line, lines, hlines, hjoined⟩ := joined_spread [] h.filled h.finished
    ((segments rest).map textOf)
  have htrim : (spread first more).map Text.trim = spread first more :=
    (List.map_congr_left h.spread_trimmed).trans (List.map_id _)
  rw [htrim, hlines] at htexts
  obtain ⟨piece, pieces, rfl, hpiece, hmore⟩ := List.map_eq_cons_iff.mp htexts
  have hcount : pieces.length = more.length := by
    have hlength := spread_length first more
    rw [hlines, List.length_cons, ← hmore, List.length_map] at hlength
    omega
  have hat := at_counted fs hreadable hended
  rw [hpieces, List.cons_append] at hat
  have hfirst : (List.replicate r.line [] ++ piece :: (pieces ++ segments rest))[r.line]? =
      some piece := by
    simp
  obtain ⟨r₁, hn, hat₁, -, hline₁⟩ := hat.next_line hfirst
  obtain ⟨r', hg, hat', -, hline'⟩ := hat₁.gather line
  have hahead :
      ((List.replicate r.line [] ++ piece :: (pieces ++ segments rest)).drop r₁.line).map textOf =
      lines ++ (segments rest).map textOf := by
    rw [hline₁, ← hmore, ← List.map_append]
    simp [List.drop_append]
  rw [List.nil_append, List.nil_append] at hjoined
  rw [hahead, hjoined] at hg hline'
  have hline : r'.line = r.line + (more.length + 1) := by
    rw [hline', hline₁]
    omega
  have hleft : (List.replicate r.line [] ++ piece :: (pieces ++ segments rest)).drop r'.line =
      segments rest := by
    rw [hline, ← hcount]
    simp [List.drop_append]
  refine ⟨r', ?_, hline, ?_, ?_⟩
  · rw [nextLogical, hn, hpiece]
    dsimp only
    rw [hg, hline₁]
    rfl
  · rw [← (segments_cut (r'.pending fs)).whole, hat'.rest, hleft, (segments_cut rest).whole]
  · rw [← hleft]
    exact hat'.offers

def splitSource : LineReader :=
  ofBytes ⟨['s']⟩ (written (spread "x\\".toList [[], "é".toList]) ++ [0xFF, newline])

theorem splitSource_fragments : Fragments "x\\".toList [[], "é".toList] := by
  refine ⟨by decide, ?_, ?_, Text.trimEnd_eq_self.mp (by decide), by decide⟩
  · simp only [List.forall_mem_cons]
    decide
  · simp only [List.forall_mem_cons, ← Text.trimStart_eq_self]
    decide

theorem continuation_rejoins_splitSource :
    Fragments "x\\".toList [[], "é".toList] ∧ splitSource.stream ≠ .directory ∧
    Leads (spread "x\\".toList [[], "é".toList]) [0xFF, newline] (splitSource.pending { }) ∧
    ∃ r', splitSource.nextLogical { } (fun _ _ => false) = .ok (some ⟨"x\\é".toList, 1⟩, r') ∧
      r'.line = 3 ∧ r'.pending { } = [0xFF, newline] := by
  have hleads : Leads (spread "x\\".toList [[], "é".toList]) [0xFF, newline]
      (splitSource.pending { }) := .inl (List.append_nil _)
  obtain ⟨r', hnext, hline, hpending, -⟩ :=
    continuation_rejoins splitSource_fragments (by decide) rfl hleads
  exact ⟨splitSource_fragments, by decide, hleads, r', hnext, hline, hpending⟩

end ScriptFeed.LineReader
