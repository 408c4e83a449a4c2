import ScriptFeed.Proofs.Passing
import ScriptFeed.Proofs.Serving

namespace ScriptFeed.Processor

open Package Comment

variable {p q u v : Processor} {i j : Inclusion} {r r₁ rM : LineReader} {t : Text} {notes : Notes}
  {cs : List Text} {es : List Failure} {fs : Files}

def inlined (r : LineReader) (p : Processor) : Processor :=
  { p with inclusion := none, session := some ⟨r, false⟩ }

/-- An included file is read, `rM` is the place behind its marker, and files, marks and packages are
those of `b`. -/
structure Midst (b : Processor) (rM : LineReader) (i : Inclusion) (p : Processor) : Prop where
  session : p.session = some ⟨rM, false⟩
  inclusion : p.inclusion = some i
  installMode : p.installMode = false
  files : p.files = b.files
  marked : p.marked = b.marked
  installation : p.installation = b.installation

theorem passed_inlined {b : Processor} (h : Midst b rM i u) (hm : ∀ path n, b.marked path n = false)
    (hi : i.next b.files b.marked = .ok (some t, j)) (hr : r.next b.files = .ok (some t, r₁))
    (hpath : r₁.path = rM.path) (ht : t.Plain) :
    ∃ u', Midst b rM j u' ∧
      ((∃ e, turn {} u = .error e u' ∧ turn {} (inlined r u) = .error e (inlined r₁ u')) ∨
        (turn {} u = .ok (.more {}) u' ∧ turn {} (inlined r u) = .ok (.more {}) (inlined r₁ u')) ∨
        ∃ c, turn {} u = .ok (.command c) u' ∧
          turn {} (inlined r u) = .ok (.command c) (inlined r₁ u')) := by
  obtain ⟨hne, hprocedure, hcommand⟩ := accepted_command (Inclusion.next_accepts hi)
  obtain ⟨hdirective, hmarker⟩ := hcommand (inlined r₁ u) h.installMode
  let passed : Processor := { u with inclusion := some j }
  have hpassed : turn {} u = handed (command? (u.expandThis t) passed) :=
    turn_passed h.inclusion (by rw [h.files, h.marked]; exact hi) {}
  have hline : readLine {} (inlined r u) = .ok (.line t) (inlined r₁ u) := by
    rw [readLine_single (p := inlined r u) rfl (fun path n => by rw [← hm path n, ← h.marked]; rfl)
      (show r.next u.files = _ by rw [h.files]; exact hr)
      (LineReader.continues_of_endsWith ht.continuation) hne]
    exact readText_plain rfl ht (LineReader.next_trimmed hr) hne hdirective hprocedure {}
  have hexpand : (inlined r₁ u).expandThis t = u.expandThis t := by
    simp only [expandThis, directory, inlined, h.session, Option.map_some, hpath]
  have hinlined : turn {} (inlined r u) = handed (command? (u.expandThis t) (inlined r₁ u)) := by
    rw [turn_handed rfl hline, scriptCommand?, hmarker, hexpand]
  have hmidst (functions : LocalFunctions) (e : Event) :
      Midst b rM j ({ passed with functions }.emit e) :=
    ⟨h.session, rfl, h.installMode, h.files, h.marked, h.installation⟩
  have hmidst' : Midst b rM j passed :=
    ⟨h.session, rfl, h.installMode, h.files, h.marked, h.installation⟩
  rw [hpassed, hinlined]
  rcases command?_cases (u := passed) (v := inlined r₁ u) h.installMode h.installMode rfl
      (u.expandThis t) with ⟨e, hu, hv⟩ | ⟨functions, e, hu, hv⟩ | ⟨c, hu, hv⟩
  · exact ⟨passed, hmidst', .inl ⟨e, by rw [hu]; rfl, by rw [hv]; rfl⟩⟩
  · exact ⟨_, hmidst functions e, .inr (.inl ⟨by rw [hu]; rfl, by rw [hv]; rfl⟩)⟩
  · exact ⟨passed, hmidst', .inr (.inr ⟨c, by rw [hu]; rfl, by rw [hv]; rfl⟩)⟩

theorem ended_inlined {b : Processor} (h : Midst b rM i u) (hm : ∀ path n, b.marked path n = false)
    (hi : i.next b.files b.marked = .ok (none, j)) (n : Nat) :
    Comes u cs es fs ↔ Comes (inlined { rM with line := n } u) cs es fs := by
  obtain ⟨events, hturn⟩ :=
    turn_included_end h.inclusion (by rw [h.files, h.marked]; exact hi) {}
  let behind : Processor := { u with inclusion := none }
  have hbehind : behind = inlined rM u := by simp [behind, inlined, h.session]
  calc Comes u cs es fs
    _ ↔ Comes { behind with events } cs es fs :=
      comes_turn (isOpen_of_session h.session) (isOpen_of_session h.session) hturn
    _ ↔ Comes behind cs es fs := comes_events (p := behind) (isOpen_of_session h.session) events
    _ ↔ Comes (inlined rM u) cs es fs := by rw [hbehind]
    _ ↔ _ := comes_counter (p := inlined rM u)
      (fun path n => by rw [← hm path n, ← h.marked]; rfl) rfl n

theorem close_shut (hp : p.isOpen = true) (hq : q.isOpen = true) (h : p.shut = q.shut) :
    close p = close q := by
  unfold close
  rw [bind_ok (get_run p), bind_ok (get_run q), if_pos hp, if_pos hq, bind_run, bind_run,
    modify_run, modify_run, h]

theorem turn_congr (hp : p.inclusion = none) (hq : q.inclusion = none)
    (h : readLine notes p = readLine notes q) : turn notes p = turn notes q := by
  rw [turn, bind_ok (get_run p), bind_ok (get_run q), hp, hq]
  dsimp only
  rw [bind_run, bind_run, h]

theorem abort_inlined (e : Failure) (h : r₁.line = r.line) (u : Processor) :
    (inlined r₁ u).abort e = (inlined r u).abort e := by
  have hshut (r : LineReader) : (inlined r u).abort e =
      ((inlined r u).emit (.scriptAborted e r.line)).shut.teardown := (teardown_shut _).symm
  rw [hshut, hshut, h]
  rfl

theorem teardown_files (hi : q.installation = p.installation) (hf : q.files = p.files) :
    q.teardown.files = p.teardown.files := by
  have hr : q.record? = p.record? := by rw [record?, record?, hi]
  unfold teardown closeRecord
  rw [hr]
  cases p.record? with
  | none => exact hf
  | some r => exact congrArg (r.write (.closed false)) hf

theorem readLine_inlined (r : LineReader) (u : Processor) (notes : Notes) :
    readLine notes (inlined r u) = match r.nextLogical u.files u.marked with
      | .error e => .error (.files e) (inlined r u)
      | .ok (none, r₁) => .ok .stop (inlined r₁ u)
      | .ok (some l, r₁) =>
        if l.text = [] then .ok (.nothing notes) (inlined r₁ u)
        else readText l.text notes (inlined r₁ u) := by
  rw [readLine_run (s := ⟨r, false⟩) rfl]
  rfl

theorem next?_peeked (r : LineReader) (u : Processor) :
    (inlined (r.atEnd u.files).2 u).next? = (inlined r u).next? := by
  have hlogical := LineReader.nextLogical_atEnd u.files u.marked r
  cases hl : r.nextLogical u.files u.marked with
  | error e =>
    -- the run is given up, and the readers differ no more once they are gone
    have hfailed (r : LineReader) (hl : r.nextLogical u.files u.marked = .error e) :
        (inlined r u).next? = some (.error (.files e) ((inlined r u).abort (.files e))) := by
      have hturn : turn {} (inlined r u) = .error (.files e) (inlined r u) := by
        rw [turn, bind_ok (get_run _)]
        apply bind_error
        rw [readLine_inlined, hl]
      exact next?_of_feed rfl (feed?_last (r := .error (.files e) (inlined r u)) hturn)
    rw [hfailed r hl, hfailed _ (hlogical.trans hl), abort_inlined _ (LineReader.atEnd_line _ _)]
  | ok x =>
    have hsame : readLine {} (inlined (r.atEnd u.files).2 u) = readLine {} (inlined r u) := by
      rw [readLine_inlined, readLine_inlined, hlogical, hl]
      obtain ⟨_ | l, r₁⟩ := x <;> rfl
    have hfeed := feed?_congr (turn_congr rfl rfl hsame)
    exact congrArg (Option.map settle) hfeed

theorem next?_atEnd (h : (r.atEnd u.files).1 = true) :
    (inlined r u).next? = some (settle (.ok [] (inlined r u))) := by
  obtain ⟨r₁, hnext⟩ := LineReader.next_of_atEnd h
  have hended : (r₁.atEnd u.files).1 = true := by
    simp [LineReader.atEnd, (LineReader.next_none hnext).2]
  have hturn : turn {} (inlined r u) = .ok (.command []) (inlined r₁ u) := by
    have hread : readLine {} (inlined r u) = .ok .stop (inlined r₁ u) := by
      rw [readLine_inlined, LineReader.nextLogical, hnext]
    rw [turn, bind_ok (get_run _)]
    exact bind_ok hread _
  have hclose : closeAtEnd (inlined r₁ u) = closeAtEnd (inlined r u) := by
    have hdone : (inlined r u).isDone = true := h
    have hdone₁ : (inlined r₁ u).isDone = true := hended
    rw [closeAtEnd_eq, closeAtEnd_eq, if_pos hdone, if_pos hdone₁]
    exact close_shut rfl rfl rfl
  rw [next?_of_feed rfl (feed?_last (r := .ok [] (inlined r₁ u)) hturn), settle, hclose, settle]

def ComesWith (lost : List Text) (p q : Processor) : Prop :=
  ∀ cs es fs, Comes p cs es fs ↔ ∃ cs', cs = cs' ++ lost ∧ Comes q cs' es fs

theorem comesWith_nil (h : ∀ cs es fs, Comes p cs es fs ↔ Comes q cs es fs) : ComesWith [] p q := by
  intro cs es fs
  rw [h]
  constructor
  · exact fun hq => ⟨cs, (List.append_nil cs).symm, hq⟩
  · rintro ⟨cs', rfl, hq⟩
    rwa [List.append_nil]

/-- What is lost is one command at most, and only if the script ends behind the included lines and
the next package cannot be opened. -/
structure Forfeits (p : Processor) (r : LineReader) (lost : List Text) : Prop where
  single : lost.length ≤ 1
  obstacle : lost ≠ [] → (r.atEnd p.files).1 = true ∧
    ∃ path, p.upcoming? = some path ∧ p.files.exists path = false

theorem forfeits_nil (p : Processor) (r : LineReader) : Forfeits p r [] :=
  ⟨Nat.zero_le 1, fun hne => absurd rfl hne⟩

theorem Midst.isOpen {b : Processor} (h : Midst b rM i u) : u.isOpen = true :=
  isOpen_of_session h.session

theorem Midst.given {b : Processor} {c : Text} (h : Midst b rM i u) (h' : Midst b rM j v)
    (ht : turn {} u = .ok (.command c) v) : u.next? = some (.ok c v) := by
  -- the end of the script is not looked for while an included file is read
  have hclose : closeAtEnd v = .ok ⟨⟩ v := by
    rw [closeAtEnd_eq]
    simp [isDone, isIncluding, peeked, h'.inclusion]
  rw [next?_of_feed h.isOpen (feed?_last (r := .ok c v) ht), settle, hclose]

theorem failed_inlined {b : Processor} {e : Failure} (h : Midst b rM i u)
    (hp : turn {} u = .error e v) (hq : turn {} (inlined r u) = .error e (inlined r₁ v)) :
    ComesWith [] u (inlined r u) := by
  have hu := next?_of_feed h.isOpen (feed?_last (r := .error e v) hp)
  have hinlined := next?_of_feed (p := inlined r u) rfl
    (feed?_last (r := .error e (inlined r₁ v)) hq)
  have hfiles : ((inlined r₁ v).abort e).files = (v.abort e).files := teardown_files rfl rfl
  refine comesWith_nil fun cs es fs => ?_
  rw [comes_failed h.isOpen hu rfl, comes_failed rfl hinlined rfl, hfiles]

theorem command_inlined {b : Processor} {c : Text} {lost : List Text} (h : Midst b rM i u)
    (h' : Midst b rM j v) (hp : turn {} u = .ok (.command c) v)
    (hq : turn {} (inlined r u) = .ok (.command c) (inlined r₁ v))
    (hend : (r₁.atEnd b.files).1 = false) (hrest : ComesWith lost v (inlined r₁ v)) :
    ComesWith lost u (inlined r u) := by
  have hfed := next?_of_feed (p := inlined r u) rfl (feed?_last (r := .ok c (inlined r₁ v)) hq)
  have hinlined : (inlined r u).next? = some (.ok c (inlined (r₁.atEnd v.files).2 v)) := by
    have hdone : (inlined r₁ v).isDone = false := by
      change (r₁.atEnd v.files).1 = false
      rwa [h'.files]
    rw [hfed, settle, closeAtEnd_eq, hdone]
    rfl
  have hpeeked (cs : List Text) (es : List Failure) (fs : Files) :
      Comes (inlined (r₁.atEnd v.files).2 v) cs es fs ↔ Comes (inlined r₁ v) cs es fs :=
    comes_congr rfl rfl (next?_peeked r₁ v)
  intro cs es fs
  rw [comes_given h.isOpen (h.given h' hp)]
  constructor
  · rintro ⟨cs', rfl, hv⟩
    obtain ⟨cs'', rfl, hr⟩ := (hrest _ _ _).mp hv
    refine ⟨_, (List.append_assoc _ _ _).symm, ?_⟩
    exact (comes_given rfl hinlined).mpr ⟨cs'', rfl, (hpeeked _ _ _).mpr hr⟩
  · rintro ⟨cs', rfl, hr⟩
    obtain ⟨cs'', rfl, hv⟩ := (comes_given rfl hinlined).mp hr
    exact ⟨_, List.append_assoc _ _ _, (hrest _ _ _).mpr ⟨cs'', rfl, (hpeeked _ _ _).mp hv⟩⟩

theorem last_inlined {b : Processor} {c : Text} (h : Midst b rM i u) (h' : Midst b rM j v)
    (hp : turn {} u = .ok (.command c) v)
    (hq : turn {} (inlined r u) = .ok (.command c) (inlined r₁ v))
    (hend : (r₁.atEnd b.files).1 = true)
    (hrest : ∀ cs es fs, Comes v cs es fs ↔ Comes (inlined r₁ v) cs es fs) :
    ∃ lost, Forfeits b r₁ lost ∧ ComesWith lost u (inlined r u) := by
  have hend' : (r₁.atEnd v.files).1 = true := by rwa [h'.files]
  have hnext := next?_atEnd hend'
  have hfed := next?_of_feed (p := inlined r u) rfl (feed?_last (r := .ok c (inlined r₁ v)) hq)
  have hdone : (inlined r₁ v).isDone = true := hend'
  rw [settle, closeAtEnd_eq, hdone, if_pos rfl] at hnext hfed
  let last : Processor := { (inlined r₁ v).peeked with lastServed := true }
  cases hclose : close last with
  | ok x w =>
    -- the script behind the include answers with the empty command
    rw [hclose] at hnext hfed
    refine ⟨[], forfeits_nil _ _, comesWith_nil fun cs es fs => ?_⟩
    rw [comes_given h.isOpen (h.given h' hp), comes_given rfl hfed]
    refine exists_congr fun cs' => and_congr_right fun _ => ?_
    rw [hrest, comes_given rfl hnext]
    simp [executed?]
  | error e w =>
    rw [hclose] at hnext hfed
    have hup := Ends.error (close_upcoming (p := last) rfl) hclose
    obtain ⟨-, path, -, hpath, hmissing⟩ := hup
    refine ⟨(executed? (.ok c v)).toList, ⟨?_, fun _ => ⟨hend, path, ?_, ?_⟩⟩, fun cs es fs => ?_⟩
    · unfold executed?
      split <;> simp
    · have hchain : last.upcoming? = v.upcoming? := rfl
      rw [← hpath, hchain, upcoming?, upcoming?, h'.installation]
    · have hfiles : last.files = v.files := rfl
      rw [← h'.files, ← hfiles]
      exact hmissing
    · rw [comes_given h.isOpen (h.given h' hp)]
      constructor
      · rintro ⟨cs', rfl, hv⟩
        rw [hrest, comes_failed rfl hnext rfl] at hv
        obtain ⟨rfl, rfl, rfl⟩ := hv
        exact ⟨[], by simp, (comes_failed rfl hfed rfl).mpr ⟨rfl, rfl, rfl⟩⟩
      · rintro ⟨cs', rfl, hv⟩
        rw [comes_failed rfl hfed rfl] at hv
        obtain ⟨rfl, rfl, rfl⟩ := hv
        exact ⟨[], by simp, (hrest _ _ _).mpr ((comes_failed rfl hnext rfl).mpr ⟨rfl, rfl, rfl⟩)⟩

theorem lines_inlined {b : Processor} {lines : List Text} {n : Nat}
    (hm : ∀ path n, b.marked path n = false)
    (hreturns : Inclusion.Returns b.files b.marked i lines) (hplain : ∀ t ∈ lines, t.Plain)
    (h : Midst b rM i u) (hyields : r.Yields b.files lines { rM with line := n }) :
    ∃ lost, Forfeits b { rM with line := n } lost ∧ ComesWith lost u (inlined r u) := by
  obtain ⟨e, hexhausts⟩ := hreturns
  -- on the lines that pass: `Midst` holds of the including side, `inlined` gives the other one
  induction hexhausts generalizing u r with
  | done hi =>
    cases hyields
    refine ⟨[], forfeits_nil _ _, comesWith_nil fun cs es fs => ?_⟩
    exact ended_inlined h hm hi n
  | @line i j k t ts hi hrest ih =>
    obtain ⟨r₁, hr, hyields₁⟩ := hyields.next
    have hpath : r₁.path = rM.path := hyields₁.path.symm
    obtain ⟨v, hv, hturns⟩ :=
      passed_inlined h hm hi hr hpath (hplain t List.mem_cons_self)
    have hplain₁ : ∀ t ∈ ts, t.Plain := fun t ht => hplain t (List.mem_cons_of_mem _ ht)
    rcases hturns with ⟨e, hp, hq⟩ | ⟨hp, hq⟩ | ⟨c, hp, hq⟩
    · exact ⟨[], forfeits_nil _ _, failed_inlined h hp hq⟩
    · obtain ⟨lost, hlost, hsame⟩ := ih hplain₁ hv hyields₁
      refine ⟨lost, hlost, fun cs es fs => ?_⟩
      rw [comes_turn h.isOpen hv.isOpen hp, hsame]
      exact exists_congr fun cs' => and_congr_right fun _ => (comes_turn rfl rfl hq).symm
    · cases hend : (r₁.atEnd b.files).1 with
      | false =>
        obtain ⟨lost, hlost, hsame⟩ := ih hplain₁ hv hyields₁
        exact ⟨lost, hlost, command_inlined h hv hp hq hend hsame⟩
      | true =>
        -- at the end of the script no line is left
        obtain ⟨_, hnone⟩ := LineReader.next_of_atEnd hend
        cases hyields₁ with
        | cons hsome _ => exact absurd (hnone.symm.trans hsome) (by simp)
        | nil =>
          cases hrest with
          | done hj =>
            exact last_inlined h hv hp hq hend fun cs es fs => ended_inlined hv hm hj n

/-- An include is the inlining of the lines that pass. Outside install mode, where no line is
marked, draining from a marker comes to the same as draining from those lines in its place; but
the command of the last of them is lost when it ends the script and the next package cannot be
opened. -/
theorem include_inlined (p : Processor) (r rM r' : LineReader) (rest : Text) (m : Marker)
    (i : Inclusion) (lines : List Text) (n : Nat) (hs : p.session = some ⟨r, false⟩)
    (hi : p.inclusion = none) (hmode : p.installMode = false)
    (hm : ∀ path n, p.marked path n = false)
    (hfirst : r.next p.files = .ok (some ('@' :: rest), rM)) (hplain : Text.Plain ('@' :: rest))
    (hmarker : Marker.parse? (p.expandThis ('@' :: rest)) = some m) (hname : m.name ≠ [])
    (hopen : Inclusion.open p.files p.settings.roots m = .ok i)
    (hreturns : Inclusion.Returns p.files p.marked i lines) (hlines : ∀ t ∈ lines, t.Plain)
    (hyields : r'.Yields p.files lines { rM with line := n }) :
    ∃ lost : List Text, lost.length ≤ 1 ∧
      (lost ≠ [] → (rM.atEnd p.files).1 = true ∧
        ∃ path, p.upcoming? = some path ∧ p.files.exists path = false) ∧
      ∀ cs es fs, Comes p cs es fs ↔
        ∃ cs', cs = cs' ++ lost ∧ Comes { p with session := some ⟨r', false⟩ } cs' es fs := by
  let u : Processor := { p with session := some ⟨rM, false⟩, inclusion := some i }.emit
    (.includeOpened i.reader.path i.scope)
  have hturn : turn {} p = .ok (.more {}) u :=
    turn_opens hs hi hmode hm hfirst hplain hmarker hname hopen
  have hu : Midst p rM i u := ⟨rfl, rfl, hmode, rfl, rfl, rfl⟩
  obtain ⟨lost, hlost, hsame⟩ := lines_inlined hm hreturns hlines hu hyields
  let q : Processor := { p with session := some ⟨r', false⟩ }
  have hq : inlined r' u = q.emit (.includeOpened i.reader.path i.scope) := by
    simp [u, q, inlined, emit, hi]
  refine ⟨lost, hlost.single, ?_, fun cs es fs => ?_⟩
  · intro hne
    obtain ⟨hend, hpath⟩ := hlost.obstacle hne
    exact ⟨(LineReader.atEnd_counter p.files rM n).symm.trans hend, hpath⟩
  · rw [comes_turn (isOpen_of_session hs) rfl hturn, hsame, hq]
    exact exists_congr fun cs' => and_congr_right fun _ => comes_events (p := q) rfl _

def borrowing : Processor :=
  openedMain false [("main.nscr", "@inc:defines\nf(1)\n"),
    ("inc.nscr", "define x ## c\nglobal y\n#* lclfunc f(x) := h x *#\nlclfunc f(x) := g x\nb\n")]

theorem include_inlined_borrowing : ∃ (i : Inclusion) (r' rM : LineReader),
    Inclusion.open borrowing.files borrowing.settings.roots ⟨"inc".toList, .defines⟩ = .ok i ∧
    Inclusion.Returns borrowing.files borrowing.marked i
      ["define x".toList, "lclfunc f(x) := g x".toList] ∧
    r'.Yields borrowing.files ["define x".toList, "lclfunc f(x) := g x".toList] rM ∧
    rM.buffer = Utf8.encode "f(1)\n".toList ∧
    Comes borrowing ["define x".toList, "(g (1))".toList] [] borrowing.files ∧
    Comes { borrowing with session := some ⟨r', false⟩ } ["define x".toList, "(g (1))".toList] []
      borrowing.files := by
  let r : LineReader := { path := ⟨"s/main.nscr".toList⟩, stream := .file 0 0 }
  let rM : LineReader :=
    { r with stream := .file 0 18, buffer := Utf8.encode "f(1)\n".toList, line := 1 }
  let r' : LineReader :=
    { rM with buffer := Utf8.encode "define x\nlclfunc f(x) := g x\nf(1)\n".toList }
  let i : Inclusion :=
    { reader := { path := ⟨"s/inc.nscr".toList⟩, stream := .file 1 0 }, scope := .defines }
  let lines : List Text := ["define x".toList, "lclfunc f(x) := g x".toList]
  have hreturns : Inclusion.Returns borrowing.files borrowing.marked i lines :=
    Inclusion.returns_of_returned? 9 (by decide +kernel)
  have hyields : r'.Yields borrowing.files lines { rM with line := 3 } :=
    LineReader.yields_of_lines? (n := 2) (by decide +kernel)
  have hdrain : Comes borrowing ["define x".toList, "(g (1))".toList] [] borrowing.files :=
    comes_of_drainWithin 9 (by decide +kernel)
  have hopen : Inclusion.open borrowing.files borrowing.settings.roots ⟨"inc".toList, .defines⟩ =
      .ok i := by decide +kernel
  obtain ⟨lost, -, hlost, hsame⟩ := include_inlined borrowing r rM r' "inc:defines".toList
    ⟨"inc".toList, .defines⟩ i lines 3 (by decide +kernel) (by decide +kernel) (by decide +kernel)
    (fun _ _ => rfl) (by decide +kernel) (by decide +kernel) (by decide +kernel)
    (by decide +kernel) hopen hreturns (by decide +kernel) hyields
  obtain rfl : lost = [] := by
    by_contra hne
    exact absurd (hlost hne).1 (by decide +kernel)
  obtain ⟨cs, hcs, hinlined⟩ := (hsame _ _ _).mp hdrain
  obtain rfl : _ = cs := hcs.trans (List.append_nil cs)
  exact ⟨i, r', { rM with line := 3 }, hopen, hreturns, hyields, rfl, hdrain, hinlined⟩

def trailing : Processor :=
  let p := openedMain true [("main.nscr", "<info>requirepackages=b<endinfo>\na\n@inc"),
    ("inc.nscr", "define x")]
  { final (p.called 9) p with installMode := false }

theorem last_line_lost : ∃ (r rM r' : LineReader) (i : Inclusion),
    trailing.session = some ⟨r, false⟩ ∧ r.next trailing.files = .ok (some "@inc".toList, rM) ∧
    Inclusion.open trailing.files trailing.settings.roots ⟨"inc".toList, .all⟩ = .ok i ∧
    Inclusion.Returns trailing.files trailing.marked i ["define x".toList] ∧
    r'.Yields trailing.files ["define x".toList] rM ∧
    Comes trailing ["define x".toList] [.scriptNotFound [] ⟨"s/b.nscr".toList⟩] trailing.files ∧
    ∀ es fs, ¬ Comes { trailing with session := some ⟨r', false⟩ } ["define x".toList] es fs := by
  let r : LineReader :=
    { path := ⟨"s/main.nscr".toList⟩, stream := .file 0 39, buffer := Utf8.encode "@inc".toList
      line := 2 }
  let i : Inclusion :=
    { reader := { path := ⟨"s/inc.nscr".toList⟩, stream := .file 1 0 }, scope := .all }
  let rM : LineReader := { r with buffer := [], line := 3 }
  let r' : LineReader := { r with buffer := Utf8.encode "define x".toList }
  let missing : Failure := .scriptNotFound [] ⟨"s/b.nscr".toList⟩
  let shown (x : List (Outcome Text) × Processor) :=
    (commands x.1, x.1.filterMap failure?, x.2.files)
  -- one evaluation for both processors
  have hstate : trailing.session = some ⟨r, false⟩ ∧
      r.next trailing.files = .ok (some "@inc".toList, rM) ∧
      Inclusion.open trailing.files trailing.settings.roots ⟨"inc".toList, .all⟩ = .ok i ∧
      Inclusion.returned? trailing.files trailing.marked 9 i = some ["define x".toList] ∧
      LineReader.lines? trailing.files 1 r' = some (["define x".toList], rM) ∧
      (drainWithin 9 trailing).map shown = some (["define x".toList], [missing], trailing.files) ∧
      (drainWithin 9 { trailing with session := some ⟨r', false⟩ }).map shown =
        some ([], [missing], trailing.files) := by decide +kernel
  obtain ⟨hs, hnext, hopen, hreturned, hlines, hdrain, hinlined⟩ := hstate
  refine ⟨r, rM, r', i, hs, hnext, hopen, Inclusion.returns_of_returned? 9 hreturned,
    LineReader.yields_of_lines? hlines, comes_of_drainWithin 9 hdrain, fun es fs h => ?_⟩
  exact absurd ((comes_of_drainWithin 9 hinlined).unique h).1 (by simp)

end ScriptFeed.Processor
