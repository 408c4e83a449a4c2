import ScriptFeed.Proofs.Encoding

namespace ScriptFeed

namespace LineReader

variable {fs : Files} {r r' m : LineReader} {t last : Text} {ts us : List Text} {stop : Text → Bool}
  {e : Fault}

theorem Yields.concat (h : Yields fs ts r m) (hn : m.next fs = .ok (some last, r')) :
    Yields fs (ts ++ [last]) r r' := by
  induction h with
  | nil r => exact .cons hn (.nil r')
  | cons hnext _ ih => exact .cons hnext (ih hn)

theorem Yields.offers (h : Yields fs ts r m) (ho : Offers fs us r) : ∃ us', Offers fs us' m := by
  induction h generalizing us with
  | nil r => exact ⟨us, ho⟩
  | cons hnext _ ih =>
    cases ho with
    | done hn =>
      rw [hnext] at hn
      simp at hn
    | line hn hs =>
      rw [hnext] at hn
      obtain ⟨-, rfl⟩ := Prod.mk.inj (Except.ok.inj hn)
      exact ih hs

theorem Yields.directory (h : Yields fs ts r m) (he : m.next fs = .error e) :
    r.stream = .directory := by
  by_contra hstream
  obtain ⟨us, hoffers⟩ : ∃ us, Offers fs us r := by
    cases hended : r.ended with
    | false => exact ⟨_, offers_texts fs hstream hended⟩
    | true => exact ⟨[], offers_of_ended hended⟩
  obtain ⟨us', hm⟩ := h.offers hoffers
  cases hm with
  | done hn =>
    rw [he] at hn
    simp at hn
  | line hn _ =>
    rw [he] at hn
    simp at hn

theorem Yields.through_rest (h : Yields fs ts r m) (hts : ∀ t ∈ ts, stop t = false) :
    ∃ fuel, r.through fs stop = gatherWithin fs (!·.closed)
      (fun p t => ⟨p.lines ++ [t], stop t⟩) (fuel + 1) (⟨ts, false⟩ : Passage) m := by
  have hlength := h.length
  obtain ⟨fuel, hfuel⟩ : ∃ fuel, (r.pending fs).length + 1 = ts.length + (fuel + 1) :=
    ⟨(r.pending fs).length - ts.length, by omega⟩
  refine ⟨fuel, ?_⟩
  unfold LineReader.through gather
  rw [hfuel, h.passage hts, List.nil_append]

theorem Yields.through_end (h : Yields fs ts r m) (hts : ∀ t ∈ ts, stop t = false)
    (hn : m.next fs = .ok (none, r')) : r.through fs stop = .ok (⟨ts, false⟩, r') := by
  obtain ⟨fuel, hthrough⟩ := h.through_rest hts
  rw [hthrough, gatherWithin, hn]
  rfl

theorem Yields.through_error (h : Yields fs ts r m) (hts : ∀ t ∈ ts, stop t = false)
    (he : m.next fs = .error e) : r.through fs stop = .error e := by
  obtain ⟨fuel, hthrough⟩ := h.through_rest hts
  rw [hthrough, gatherWithin, he]
  rfl

theorem first_stop (fs : Files) (stop : Text → Bool) (r : LineReader) :
    ∃ ts m, Yields fs ts r m ∧ (∀ t ∈ ts, stop t = false) ∧
      ((∃ last r', m.next fs = .ok (some last, r') ∧ stop last = true) ∨
        (∃ r', m.next fs = .ok (none, r')) ∨ ∃ e, m.next fs = .error e) := by
  induction hn : (r.pending fs).length using Nat.strong_induction_on generalizing r with
  | _ n ih =>
    cases hnext : r.next fs with
    | error e => exact ⟨[], r, .nil r, by simp, .inr (.inr ⟨e, hnext⟩)⟩
    | ok x =>
      obtain ⟨o, r₁⟩ := x
      cases o with
      | none => exact ⟨[], r, .nil r, by simp, .inr (.inl ⟨r₁, hnext⟩)⟩
      | some t =>
        cases ht : stop t with
        | true => exact ⟨[], r, .nil r, by simp, .inl ⟨t, r₁, hnext, ht⟩⟩
        | false =>
          obtain ⟨-, hlt, -⟩ := next_some hnext
          obtain ⟨ts, m, hyields, hts, hend⟩ := ih _ (by omega) r₁ rfl
          exact ⟨t :: ts, m, .cons hnext hyields, List.forall_mem_cons.mpr ⟨ht, hts⟩, hend⟩

theorem Yields.lines (h : Yields fs ts r r') : ∀ t ∈ ts, Text.Trimmed t ∧ '\n' ∉ t := by
  induction h with
  | nil r => simp
  | cons hn _ ih => exact List.forall_mem_cons.mpr ⟨⟨next_trimmed hn, next_unbroken hn⟩, ih⟩

end LineReader

namespace Layout

variable {line u : Text} {lines before after : List Text} {n : Nat} {l : Layout}

theorem upToEnd_plain (h : ¬endKeyword <:+: line) : upToEnd line = (line, false) := by
  rw [upToEnd, Text.cut_eq_none.mpr h]

theorem upToEnd_cut (h : ¬endKeyword <:+: u) (v : Text) :
    upToEnd (u ++ endKeyword ++ v) = (u ++ endKeyword, true) := by
  have hcut : Text.cut endKeyword (u ++ (endKeyword ++ v)) = some (u, v) :=
    Text.cut_first (by decide) h v
  rw [upToEnd, List.append_assoc, hcut]

theorem split_end (h : endKeyword <:+: line) :
    ∃ u v, line = u ++ endKeyword ++ v ∧ ¬endKeyword <:+: u := by
  obtain ⟨⟨u, v⟩, hcut⟩ := Option.isSome_iff_exists.mp (Text.contains_iff.mpr h)
  exact ⟨u, v, Text.cut_eq_some hcut, Text.cut_free (by decide) hcut⟩

def shown (line : Text) : Text := (upToEnd line).1

theorem shown_cases (line : Text) : shown line = line ∧ ¬endKeyword <:+: line ∨
    ∃ u v, line = u ++ endKeyword ++ v ∧ ¬endKeyword <:+: u ∧ shown line = u ++ endKeyword := by
  by_cases h : endKeyword <:+: line
  · obtain ⟨u, v, rfl, hu⟩ := split_end h
    exact .inr ⟨u, v, rfl, hu, by rw [shown, upToEnd_cut hu]⟩
  · exact .inl ⟨by rw [shown, upToEnd_plain h], h⟩

theorem shown_shown (line : Text) : shown (shown line) = shown line := by
  rcases shown_cases line with ⟨hself, -⟩ | ⟨u, v, -, hu, hshown⟩
  · rw [hself, hself]
  · have hagain := upToEnd_cut hu []
    rw [List.append_nil] at hagain
    rw [hshown, shown, hagain]

theorem shown_begins (line : Text) : shown line <+: line := by
  rcases shown_cases line with ⟨hself, -⟩ | ⟨u, v, rfl, -, hshown⟩
  · rw [hself]
  · rw [hshown]
    exact List.prefix_append _ v

theorem contains_shown (line : Text) :
    Text.contains endKeyword (shown line) = Text.contains endKeyword line := by
  rcases shown_cases line with ⟨hself, -⟩ | ⟨u, v, rfl, -, hshown⟩
  · rw [hself]
  · rw [hshown, Text.contains_iff.mpr ⟨u, [], by simp⟩, Text.contains_iff.mpr ⟨u, v, rfl⟩]

theorem startsWith_shown {pat : Text} (hpat : pat.length ≤ endKeyword.length) (line : Text) :
    Text.startsWith pat (shown line) = Text.startsWith pat line := by
  rcases shown_cases line with ⟨hself, -⟩ | ⟨u, v, hline, -, hshown⟩
  · rw [hself]
  · -- What is cut off stands behind the end keyword, too far to make out how the line begins.
    have hlength : pat.length ≤ (shown line).length := by
      rw [hshown, List.length_append]
      omega
    rw [Bool.eq_iff_iff, Text.startsWith_iff, Text.startsWith_iff]
    constructor
    · rintro ⟨w, hw⟩
      obtain ⟨w', hw'⟩ := shown_begins line
      exact ⟨w ++ w', by rw [← hw', hw, List.append_assoc]⟩
    · rintro ⟨w, hw⟩
      have hbegins : pat <+: line := ⟨w, hw.symm⟩
      obtain ⟨w', hw'⟩ := List.prefix_of_prefix_length_le hbegins (shown_begins line) hlength
      exact ⟨w', hw'.symm⟩

theorem trimmed_shown (h : Text.Trimmed line) : Text.Trimmed (shown line) := by
  rcases shown_cases line with ⟨hself, -⟩ | ⟨u, v, rfl, -, hshown⟩
  · rwa [hself]
  · have hne : u ++ endKeyword ≠ [] := List.append_ne_nil_of_right_ne_nil u (by decide)
    rw [hshown, Text.trimmed_iff]
    rw [Text.trimmed_iff, List.head?_append_of_ne_nil _ hne] at h
    refine ⟨h.1, fun c hc => ?_⟩
    rw [List.getLast?_append_of_ne_nil u (by decide)] at hc
    obtain rfl : 't' = c := Option.some.inj hc
    decide

theorem indentBefore_shown (n : Nat) (line : Text) :
    indentBefore n (shown line) = indentBefore n line := by
  rw [indentBefore, indentBefore, startsWith_shown (by decide), startsWith_shown (Nat.le_refl _)]

theorem indentAfter_shown (n : Nat) (line : Text) :
    indentAfter n (shown line) = indentAfter n line := by
  rw [indentAfter, indentAfter, startsWith_shown (by decide), indentBefore_shown]

theorem indented_shown (n : Nat) (lines : List Text) :
    indented n (lines.map shown) = indented n lines := by
  induction lines generalizing n with
  | nil => rfl
  | cons line lines ih =>
    rw [List.map_cons, indented, indented, indentBefore_shown, indentAfter_shown,
      ih, ← shown, ← shown, shown_shown]

theorem indented_trim (n : Nat) (h : ∀ line ∈ lines, Text.Trimmed line) :
    (indented n lines).map Text.trim = lines.map shown := by
  have htabs (k : Nat) (t : Text) : Text.trim (List.replicate k '\t' ++ t) = Text.trim t := by
    induction k with
    | zero => rfl
    | succ k ih => rw [List.replicate_succ, List.cons_append, Text.trim_cons_blank (by decide), ih]
  induction lines generalizing n with
  | nil => rfl
  | cons line lines ih =>
    obtain ⟨hline, hlines⟩ := List.forall_mem_cons.mp h
    have hshown : Text.trim (shown line) = shown line := trimmed_shown hline
    rw [indented, List.map_cons, List.map_cons, htabs, ← shown, hshown, ih _ hlines]

theorem indented_unbroken (n : Nat) (h : ∀ line ∈ lines, '\n' ∉ line) :
    ∀ t ∈ indented n lines, '\n' ∉ t := by
  induction lines generalizing n with
  | nil => simp [indented]
  | cons line lines ih =>
    obtain ⟨hline, hlines⟩ := List.forall_mem_cons.mp h
    refine List.forall_mem_cons.mpr ⟨?_, ih _ hlines⟩
    rw [List.mem_append, not_or]
    refine ⟨fun hmem => ?_, fun hmem => hline ((shown_begins line).subset hmem)⟩
    exact absurd (List.eq_of_mem_replicate hmem) (by decide)

theorem indented_append (n : Nat) (before after : List Text) :
    indented n (before ++ after) =
      indented n before ++ indented (before.foldl indentAfter n) after := by
  induction before generalizing n with
  | nil => rfl
  | cons line before ih =>
    rw [List.cons_append, indented, indented, ih, List.foldl_cons, List.cons_append]

theorem indented_length (n : Nat) (lines : List Text) :
    (indented n lines).length = lines.length := by
  induction lines generalizing n with
  | nil => rfl
  | cons line lines ih => rw [indented, List.length_cons, List.length_cons, ih]

def closes (line : Text) : Bool :=
  Text.startsWith "endgroup".toList line || Text.startsWith "endlayout".toList line

def opens (line : Text) : Bool := Text.startsWith "group".toList line

def level (lines : List Text) : Nat :=
  lines.foldl (fun n line => (if closes line then n - 1 else n) + if opens line then 1 else 0) 1

def tabs (before : List Text) (line : Text) : Nat :=
  if closes line then level before - 1 else level before

theorem level_eq (lines : List Text) : level lines = lines.foldl indentAfter 1 := by
  have hstep : (fun n line => (if closes line then n - 1 else n) + if opens line then 1 else 0) =
      indentAfter := by
    funext n line
    change indentBefore n line + _ = _
    unfold indentAfter opens
    split <;> rfl
  rw [level, hstep]

structure Lays (lines body : List Text) : Prop where
  length : body.length = lines.length
  plain : ∀ before line after, lines = before ++ line :: after → ¬endKeyword <:+: line →
    body[before.length]? = some (List.replicate (tabs before line) '\t' ++ line)
  cut : ∀ before u v after, lines = before ++ (u ++ endKeyword ++ v) :: after → ¬endKeyword <:+: u →
    body[before.length]? =
      some (List.replicate (tabs before (u ++ endKeyword ++ v)) '\t' ++ u ++ endKeyword)

theorem indented_lays (lines : List Text) : Lays lines (indented 1 lines) := by
  have hline (before : List Text) (line : Text) (after : List Text) :
      (indented 1 (before ++ line :: after))[before.length]? =
        some (List.replicate (tabs before line) '\t' ++ shown line) := by
    have hlength := indented_length 1 before
    rw [indented_append, List.getElem?_append_right (by omega), hlength, Nat.sub_self, ← level_eq]
    rfl
  refine ⟨indented_length 1 lines, ?_, ?_⟩
  · rintro before line after rfl hend
    rw [hline, shown, upToEnd_plain hend]
  · rintro before u v after rfl hu
    rw [hline, shown, upToEnd_cut hu]
    exact congrArg some (List.append_assoc _ _ _).symm

open LineReader

/-- These lines lie between two places in a source: up to and with the first line that holds the end
keyword, or up to the end if there is none. -/
inductive Spans (fs : Files) :
    (complete : Bool) → (lines : List Text) → LineReader → LineReader → Prop
  | found {ts : List Text} {last : Text} {r r' : LineReader} (h : Yields fs (ts ++ [last]) r r')
      (hts : ∀ t ∈ ts, ¬endKeyword <:+: t) (hlast : endKeyword <:+: last) :
      Spans fs true (ts ++ [last]) r r'
  | ended {ts : List Text} {r m r' : LineReader} (h : Yields fs ts r m)
      (hts : ∀ t ∈ ts, ¬endKeyword <:+: t) (hn : m.next fs = .ok (none, r')) :
      Spans fs false ts r r'

variable {fs fs' : Files} {r r' : LineReader} {complete : Bool}

theorem Spans.tidy (h : Spans fs complete lines r r') : ∀ t ∈ lines, Text.Trimmed t ∧ '\n' ∉ t := by
  cases h with
  | found h _ _ => exact h.lines
  | ended h _ _ => exact h.lines

theorem Spans.through (h : Spans fs complete lines r r') :
    r.through fs (Text.contains endKeyword) = .ok (⟨lines, complete⟩, r') := by
  cases h with
  | found h hts hlast =>
    exact h.through (fun t ht => Text.contains_eq_false.mpr (hts t ht))
      (Text.contains_iff.mpr hlast)
  | ended h hts hn => exact h.through_end (fun t ht => Text.contains_eq_false.mpr (hts t ht)) hn

theorem Spans.passed (h : Spans fs complete lines r r') :
    (passedWith (Text.contains endKeyword) (lines.map shown)).1 = ⟨lines.map shown, complete⟩ := by
  have hfree {ts : List Text} (hts : ∀ t ∈ ts, ¬endKeyword <:+: t) :
      ∀ t ∈ ts.map shown, Text.contains endKeyword t = false := by
    intro t ht
    obtain ⟨u, hu, rfl⟩ := List.mem_map.mp ht
    rw [contains_shown]
    exact Text.contains_eq_false.mpr (hts u hu)
  cases h with
  | found h hts hlast =>
    rw [List.map_append, List.map_singleton, passedWith_found (hfree hts)]
    rw [contains_shown]
    exact Text.contains_iff.mpr hlast
  | ended h hts hn => rw [passedWith_missing (hfree hts)]

theorem readBody_spans (h : Spans fs complete lines r r') (hl : l.complete = false) :
    l.readBody fs r = .ok ({ l with body := l.body ++ indented 1 lines, complete }, r') := by
  rw [readBody, hl, if_neg Bool.false_ne_true, h.through]

def Stable (complete : Bool) (body : List Text) : Prop :=
  ∀ (fs : Files) (l : Layout) (r : LineReader), l.complete = false → l.body = [] →
    r.stream ≠ .directory → r.ended = false →
    r.pending fs = Utf8.encode (body.flatMap (· ++ ['\n'])) →
    ∃ r', l.readBody fs r = .ok ({ l with body, complete }, r')

theorem Spans.stable (h : Spans fs complete lines r r') : Stable complete (indented 1 lines) := by
  intro fs l r hl hbody hstream hended hpending
  -- The tabs are trimmed away again, so the reader offers what the body shows of the lines.
  have hoffers := offers_written hstream hended hpending
    (indented_unbroken 1 fun t ht => (h.tidy t ht).2)
  rw [indented_trim 1 fun t ht => (h.tidy t ht).1] at hoffers
  obtain ⟨r', hthrough, -⟩ := hoffers.through (Text.contains endKeyword)
  rw [h.passed] at hthrough
  refine ⟨r', ?_⟩
  rw [readBody, hl, if_neg Bool.false_ne_true, hthrough]
  dsimp only
  rw [hbody, List.nil_append, indented_shown]

/-- Reading goes up to the first end of a layout and keeps every line; what it keeps is read back
as it is. Only a directory in the place of a file cannot be read. -/
theorem layout_body_read_back (fs : Files) (l : Layout) (r : LineReader) (hl : l.complete = false) :
    (∃ ts m e, Yields fs ts r m ∧ (∀ t ∈ ts, ¬endKeyword <:+: t) ∧ m.next fs = .error e ∧
      r.stream = .directory ∧ l.readBody fs r = .error e) ∨
    ∃ complete lines r' body, Spans fs complete lines r r' ∧ Lays lines body ∧
      l.readBody fs r = .ok ({ l with body := l.body ++ body, complete }, r') ∧
      Stable complete body := by
  obtain ⟨ts, m, hyields, hstop, hend⟩ := first_stop fs (Text.contains endKeyword) r
  have hts (t : Text) (ht : t ∈ ts) : ¬endKeyword <:+: t := Text.contains_eq_false.mp (hstop t ht)
  rcases hend with ⟨last, r', hn, hlast⟩ | ⟨r', hn⟩ | ⟨e, hn⟩
  · have h : Spans fs true (ts ++ [last]) r r' :=
      .found (hyields.concat hn) hts (Text.contains_iff.mp hlast)
    exact .inr ⟨_, _, r', _, h, indented_lays _, readBody_spans h hl, h.stable⟩
  · have h : Spans fs false ts r r' := .ended hyields hts hn
    exact .inr ⟨_, _, r', _, h, indented_lays _, readBody_spans h hl, h.stable⟩
  · refine .inl ⟨ts, m, e, hyields, hts, hn, hyields.directory hn, ?_⟩
    rw [readBody, hl, if_neg Bool.false_ne_true, hyields.through_error hstop hn]

def begun : Layout := ⟨['w'], keyword, [], false⟩

def unbalanced : LineReader :=
  ofBytes ⟨['s']⟩
    (Utf8.encode " group -a\n\nendgroup\nendgroup\nendgroup\ngroup\n b endlayout c\nz".toList)

def unbalancedBody : List Text :=
  ["\tgroup -a", "\t\t", "\tendgroup", "endgroup", "endgroup", "group", "\tb endlayout"].map
    String.toList

theorem layout_body_read_back_unbalanced :
    begun.complete = false ∧
      ∃ r r', begun.readBody {} unbalanced =
          .ok ({ begun with body := unbalancedBody, complete := true }, r) ∧
        begun.readBody {} (ofBytes ⟨['t']⟩ (Utf8.encode (unbalancedBody.flatMap (· ++ ['\n'])))) =
          .ok ({ begun with body := unbalancedBody, complete := true }, r') := by
  have hread : (begun.readBody {} unbalanced).map (·.1) =
      .ok { begun with body := unbalancedBody, complete := true } := by decide +kernel
  rcases layout_body_read_back {} begun unbalanced rfl with
    ⟨-, -, e, -, -, -, hdirectory, -⟩ | ⟨complete, lines, r, body, -, -, hbody, hstable⟩
  · exact absurd hdirectory (by decide)
  · rw [hbody] at hread
    obtain rfl : body = unbalancedBody := congrArg Layout.body (Except.ok.inj hread)
    obtain rfl : complete = true := congrArg Layout.complete (Except.ok.inj hread)
    obtain ⟨r', hagain⟩ := hstable {} begun (ofBytes ⟨['t']⟩ _) rfl rfl (by decide) rfl
      (List.append_nil _)
    exact ⟨rfl, r, r', hbody, hagain⟩

end Layout

end ScriptFeed
