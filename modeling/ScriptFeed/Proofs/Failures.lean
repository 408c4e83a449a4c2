import ScriptFeed.Proofs.Footers

namespace ScriptFeed.Processor

open Package Comment

variable {p q r : Processor} {e : Failure} {notes : Notes}

structure Blank (p : Processor) : Prop where
  session : p.isOpen = false
  valid : p.valid = false
  inclusion : p.isIncluding = false
  installation : p.isInstalling = false
  installMode : p.installMode = false
  autoStart : p.autoStart = false
  functions : p.functions = {}
  packages : p.packages = []

theorem teardown_blank (p : Processor) : Blank p.teardown :=
  ⟨rfl, rfl, rfl, rfl, rfl, rfl, rfl, rfl⟩

/-- Where the failure of a call comes up: the last turn begins at `q`, and `r` is the processor when
reading fails, or when the script is closed behind its last line. -/
inductive Raises (p : Processor) (e : Failure) : Notes → Processor → Processor → Prop
  | reading {notes : Notes} {q r : Processor} (hf : Feeds {} p notes q)
      (ht : turn notes q = .error e r) : Raises p e notes q r
  | closing {notes : Notes} {t : Text} {q r r' : Processor} (hf : Feeds {} p notes q)
      (ht : turn notes q = .ok (.command t) r) (hc : closeAtEnd r = .error e r') :
      Raises p e notes q r

theorem Raises.feeds (h : Raises p e notes q r) :
    Feeds {} p notes q ∧ stateOf (turn notes q) = r := by
  cases h with
  | reading hf ht => exact ⟨hf, by rw [ht]; rfl⟩
  | closing hf ht hc => exact ⟨hf, by rw [ht]; rfl⟩

/-- From `p` to `q` nothing happens outside the processor but that messages are shown, none of them
the start of an installation. -/
structure Idle (p q : Processor) : Prop where
  files : q.files = p.files
  entries : q.entries = p.entries
  record : q.record? = p.record?
  header : q.header = p.header
  actions : q.actions = p.actions
  output : ∃ said, q.output = p.output ++ said ∧ startMessage ∉ said

/-- As `Idle`, but that the open record is closed as a failure. -/
structure Failed (p q : Processor) : Prop where
  files : q.files = (p.closeRecord false).2.files
  entries : q.entries = p.entries ++ if p.record?.isSome then [.closed false] else []
  record : q.record? = none
  header : q.header = p.header
  actions : q.actions = p.actions
  output : ∃ said, q.output = p.output ++ said ∧ startMessage ∉ said

theorem said_nothing (h : q.output = p.output) :
    ∃ said, q.output = p.output ++ said ∧ startMessage ∉ said :=
  ⟨[], by rw [h, List.append_nil], List.not_mem_nil⟩

theorem said_trans (h : ∃ said, q.output = p.output ++ said ∧ startMessage ∉ said)
    (h' : ∃ said, r.output = q.output ++ said ∧ startMessage ∉ said) :
    ∃ said, r.output = p.output ++ said ∧ startMessage ∉ said := by
  obtain ⟨said, hs, hn⟩ := h
  obtain ⟨said', hs', hn'⟩ := h'
  exact ⟨said ++ said', by rw [hs', hs, List.append_assoc], by simp [hn, hn']⟩

theorem Idle.refl (p : Processor) : Idle p p := ⟨rfl, rfl, rfl, rfl, rfl, said_nothing rfl⟩

theorem Idle.trans (h : Idle p q) (h' : Idle q r) : Idle p r :=
  ⟨h'.files.trans h.files, h'.entries.trans h.entries, h'.record.trans h.record,
    h'.header.trans h.header, h'.actions.trans h.actions, said_trans h.output h'.output⟩

theorem Idle.emit (h : Idle p q) {x : Event} (hn : x.entry? = none) : Idle p (q.emit x) :=
  h.trans ⟨rfl, entries_note hn, rfl, rfl, rfl, said_nothing rfl⟩

theorem closeRecord_failed (p : Processor) : Failed p (p.closeRecord false).2 := by
  refine ⟨rfl, closeRecord_entries p false, closeRecord_record? p false, ?_, ?_, said_nothing ?_⟩
  all_goals
    unfold closeRecord
    split <;> rfl

theorem Failed.footers (h : Failed p q) : q.footers = p.footers ++ p.footer false :=
  closed_footers h.entries

theorem Failed.idle (h : Failed p q) (h' : Idle q r) : Failed p r :=
  ⟨h'.files.trans h.files, h'.entries.trans h.entries, h'.record.trans h.record,
    h'.header.trans h.header, h'.actions.trans h.actions, said_trans h.output h'.output⟩

theorem Idle.failed (h : Idle p q) (h' : Failed q r) : Failed p r := by
  refine ⟨?_, ?_, h'.record, h'.header.trans h.header, h'.actions.trans h.actions,
    said_trans h.output h'.output⟩
  · rw [h'.files]
    unfold closeRecord
    rw [h.record]
    split
    · exact h.files
    · simp only [Processor.emit, recordIn, h.files]
  · rw [h'.entries, h.entries, h.record]

theorem Failed.again (h : Failed p q) (h' : Failed q r) : Failed p r := by
  have hidle : (q.closeRecord false).2 = q := by
    unfold closeRecord
    rw [h.record]
  refine ⟨?_, ?_, h'.record, h'.header.trans h.header, h'.actions.trans h.actions,
    said_trans h.output h'.output⟩
  · rw [h'.files, hidle, h.files]
  · rw [h'.entries, h.record, h.entries]
    simp

theorem teardown_failed (p : Processor) : Failed p p.teardown := by
  have h := closeRecord_failed p
  exact ⟨h.files, h.entries, rfl, h.header, h.actions, h.output⟩

theorem unopened_failed (path : Path) (cause : Fault) (p : Processor) :
    Failed p (p.unopened path cause) := by
  have h := ((Idle.refl p).emit (x := .scriptUnreadable path cause) rfl).failed (teardown_failed _)
  unfold unopened
  dsimp only
  split
  · exact h
  · exact ⟨h.files, h.entries, h.record, h.header, h.actions, h.output⟩

theorem abort_failed (e : Failure) (p : Processor) : Failed p (p.abort e) :=
  ((Idle.refl p).emit rfl).failed (teardown_failed _)

theorem advanceChain_idle (p : Processor) : Idle p p.advanceChain.2 := by
  unfold advanceChain
  cases hi : p.installation with
  | none => exact .refl p
  | some i =>
    have hr : i.record = p.record? := by simp [record?, hi]
    dsimp only
    split
    · exact ⟨rfl, entries_note rfl, hr, rfl, rfl, said_nothing rfl⟩
    · exact ⟨rfl, rfl, hr, rfl, rfl, said_nothing rfl⟩

theorem opened_idle (path : Path) (r : LineReader) (p : Processor) : Idle p (p.opened path r) :=
  ⟨rfl, opened_entries path r p, opened_record? path r p, rfl, rfl, said_nothing rfl⟩

theorem close_failed (ho : p.isOpen = true) :
    Ends close p (fun _ q => Failed p q) (fun _ q => Failed p q) := by
  have hshut : Failed p (p.shut.closeRecord false).2 :=
    Idle.failed (q := p.shut) ⟨rfl, rfl, rfl, rfl, rfl, said_nothing rfl⟩ (closeRecord_failed _)
  refine close_ends ho ?_ ?_
  · intro p₁ ha
    have hmoved := hshut.idle (advanceChain_idle _)
    rw [ha] at hmoved
    exact (hmoved.again (teardown_failed p₁)).idle ((Idle.refl _).emit rfl)
  · intro path p₁ ha
    have hmoved := hshut.idle (advanceChain_idle _)
    rw [ha] at hmoved
    have hnext : Failed p ({ p₁ with lastServed := false }.emit (.nextPackage path)).shut := by
      refine hmoved.idle ?_
      exact ⟨rfl, entries_note (p := { p₁ with lastServed := false }) rfl, rfl, rfl, rfl,
        said_nothing rfl⟩
    refine openPath_ends (fun r _ => ?_) fun cause _ => ?_
    · exact hnext.idle (opened_idle path r _)
    · exact hnext.again (unopened_failed path cause _)

theorem closeAtEnd_failed (h : closeAtEnd p = .error e q) : Failed p q := by
  have hends : Ends closeAtEnd p (fun _ _ => True) (fun _ q => Failed p q) := by
    rw [closeAtEnd, ends_bind, ends_get]
    split
    · trivial
    · cases hs : p.session with
      | none => trivial
      | some s =>
        dsimp only
        generalize s.reader.atEnd p.files = x
        obtain ⟨ended, reader⟩ := x
        have ho : (p.setReader reader).isOpen = true :=
          isOpen_of_session (session_setReader hs reader)
        rw [ends_bind, ends_set]
        split
        · rw [ends_bind, ends_modify]
          refine ends_of_run (fun _ _ _ => trivial) fun e r hr => ?_
          have hread : Idle p { p.setReader reader with lastServed := true } :=
            ⟨rfl, rfl, rfl, rfl, rfl, said_nothing rfl⟩
          have hclose := close_failed (p := { p.setReader reader with lastServed := true }) ho
          exact hread.failed (Ends.error hclose hr)
        · trivial
  exact Ends.error hends h

theorem next?_of_error (h : next p = .error e q) : p.next? = some (.error e q) := by
  unfold next at h
  cases hn : p.next? with
  | none => simp [hn] at h
  | some o => rw [← h, hn, Option.getD_some]

theorem next_error (h : next p = .error e q) : ∃ notes q₀ r, Raises p e notes q₀ r ∧ Blank q ∧
    Failed r q := by
  have hsome := next?_of_error h
  unfold next? at hsome
  split at hsome
  · obtain ⟨o, hfeed, hsettle⟩ := Option.map_eq_some_iff.mp hsome
    obtain ⟨notes, q₀, hf, ht⟩ := feed?_eq_some.mp hfeed
    cases o with
    | error e' r =>
      simp only [settle, EStateM.Result.error.injEq] at hsettle
      obtain ⟨rfl, rfl⟩ := hsettle
      exact ⟨notes, q₀, r, .reading hf ht, teardown_blank _, abort_failed e' r⟩
    | ok t r =>
      cases hc : closeAtEnd r with
      | ok u r' => simp [settle, hc] at hsettle
      | error e' r' =>
        simp only [settle, hc, EStateM.Result.error.injEq] at hsettle
        obtain ⟨rfl, rfl⟩ := hsettle
        exact ⟨notes, q₀, r, .closing hf ht hc, teardown_blank _,
          (closeAtEnd_failed hc).again (abort_failed e' r')⟩
  · simp at hsome

def Call.opens : Call → Bool
  | .openScript _ => true
  | .reopen => true
  | .restart => true
  | _ => false

theorem next_closed (h : p.isOpen = false) : next p = .ok [] p := by
  simp [next, next?, h]

theorem Call.run_closed {c : Call} (hc : c.opens = false) (h : p.isOpen = false) :
    (c.run p).isOpen = false := by
  cases c with
  | openScript name => simp [Call.opens] at hc
  | reopen => simp [Call.opens] at hc
  | restart => simp [Call.opens] at hc
  | close =>
    change (stateOf (Processor.close p)).isOpen = false
    rw [close_run h]
    exact h
  | returnFrom =>
    change (stateOf (Processor.returnFrom p)).isOpen = false
    rw [returnFrom_run, h]
    exact h
  | next =>
    change (stateOf (Processor.next p)).isOpen = false
    rw [next_closed h]
    exact h
  | _ => exact h

theorem after_closed {later : List Call} (hl : ∀ c ∈ later, c.opens = false)
    (h : p.isOpen = false) : (after later p).isOpen = false := by
  induction later generalizing p with
  | nil => exact h
  | cons c later ih =>
    exact ih (fun d hd => hl d (List.mem_cons_of_mem c hd))
      (Call.run_closed (hl c List.mem_cons_self) h)

/-- A call for a command that fails leaves nothing of the run. The record that is open when the
failure comes up gets the footer of a failure, and so does every record that the last turn closed,
but at the end of its section. -/
theorem failure_resets (settings : Settings) (files : Files) (calls : List Call) (e : Failure)
    (q : Processor) (h : next (after calls { settings, files }) = .error e q) :
    Blank q ∧ q.headers = q.footers.length ∧
    (∃ notes q₀ r, Raises (after calls { settings, files }) e notes q₀ r ∧
      (∀ x, r.record? = some x → q.files = x.write (.closed false) r.files ∧
        q.footers = r.footers ++ [false]) ∧
      ((q₀.inclusion = none → ∀ q₁, ¬EndsSection notes q₀ q₁) → Failing q₀ q)) ∧
    (∀ later, (∀ c ∈ later, c.opens = false) → (after later q).isOpen = false) ∧
    ∀ later, (after later q).isOpen = false → next (after later q) = .ok [] (after later q) := by
  have hc : Coherent (after calls { settings, files }) :=
    after_coherent calls (fresh_coherent settings files)
  have hb : Balanced (after calls { settings, files }) :=
    after_balanced calls (fresh_coherent settings files) (fresh_balanced settings files)
  generalize after calls { settings, files } = p at h hc hb ⊢
  obtain ⟨notes, q₀, r, hraises, hblank, hfailed⟩ := next_error h
  obtain ⟨hfeeds, hstate⟩ := hraises.feeds
  have hm := hfeeds.moves hc
  have hturn := turn_moves (Moves.coherent hm hc) notes
  rw [hstate] at hturn
  refine ⟨hblank, ?_, ⟨notes, q₀, r, hraises, ?_, ?_⟩, ?_, fun _ => next_closed⟩
  · have hbq : Balanced q := (Moves.accounted (next?_moves hc (next?_of_error h))).balanced hb
    rwa [Balanced, hfailed.record] at hbq
  · intro x hx
    refine ⟨?_, ?_⟩
    · rw [hfailed.files, closeRecord, hx]
      rfl
    · rw [hfailed.footers, footer, hx]
      rfl
  · intro hends
    have h₁ := turn_failing (Moves.coherent hm hc) hends
    rw [hstate] at h₁
    exact h₁.trans (footer_failing hfailed.footers)
  · intro later hl
    exact after_closed hl hblank.session

def needy : Processor :=
  openedMain true [("main.nscr", "<install><info>requirepackages=b<endinfo>\na")]

theorem failure_resets_needy : ∃ q, next needy = .error (.scriptNotFound [] ⟨"s/b.nscr".toList⟩) q ∧
    Blank q ∧ q.headers = q.footers.length ∧
    ∀ later, (∀ c ∈ later, c.opens = false) → (after later q).isOpen = false := by
  obtain ⟨q, hnext⟩ := next?_failed (p := needy) (e := .scriptNotFound [] ⟨"s/b.nscr".toList⟩) 9
    (by decide +kernel) (by decide +kernel)
  have hq : next needy = .error (.scriptNotFound [] ⟨"s/b.nscr".toList⟩) q := by
    rw [next, hnext, Option.getD_some]
  rw [needy, openedMain_eq] at hq ⊢
  obtain ⟨hblank, hbalance, -, hlater, -⟩ := failure_resets _ _ _ _ q hq
  exact ⟨q, hq, hblank, hbalance, hlater⟩

end ScriptFeed.Processor
