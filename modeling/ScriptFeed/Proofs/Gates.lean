import ScriptFeed.Proofs.Failures
import ScriptFeed.Proofs.Serial

namespace ScriptFeed

theorem Text.lower_ne_nil {t : Text} (h : t ≠ []) : Text.lower t ≠ [] := by
  cases t with
  | nil => exact absurd rfl h
  | cons c r =>
    have hchar : Text.lowerChar c ≠ [] := by
      unfold Text.lowerChar
      dsimp only
      split
      · simp
      · split
        · simp
        · split <;> simp
    unfold Text.lower Text.lowerFrom
    dsimp only
    split
    · simp
    · simp [hchar]

namespace Processor

open Package Comment

variable {p q r : Processor} {notes n : Notes} {line t : Text} {h : Header} {k : Nat}

def Arrives (notes : Notes) (p : Processor) (t : Text) (n : Notes) (q : Processor) : Prop :=
  p.inclusion = none ∧ ∃ s l x t₁ n₁, p.session = some s ∧
    s.reader.nextLogical p.files p.marked = .ok (some l, x) ∧ l.text ≠ [] ∧
    leaveComment l.text notes (p.setReader x) = .ok (some t₁, n₁) q ∧
    q.dropLineComment t₁ n₁ = (some t, n)

/-- In install mode, a turn from `p` comes to a header that begins on a line, at `q`: behind the
mark that begins a section, or where the line begins with the mark of a header. -/
inductive Meets (notes : Notes) (p : Processor) : Text → Notes → Processor → Prop
  | behind {t : Text} {n : Notes} {q : Processor} {x : Record} {files : Files}
      (ha : Arrives notes p t n q) (hm : q.installMode = true)
      (ht : Text.startsWith installOpen t = true)
      (hx : Record.start q.settings.log q.now q.files = .ok (x, files))
      (hi : Text.contains infoOpen (Text.trim (t.drop installOpen.length)) = true) :
      Meets notes p (Text.trim (t.drop installOpen.length)) n (q.begin x files)
  | alone {t u : Text} {n : Notes} {q r : Processor} (ha : Arrives notes p t n q)
      (hs : enterSection t q = .ok (some u) r) (hm : r.installMode = true)
      (hu : Text.startsWith infoOpen u = true) : Meets notes p u n r

def Heads (line : Text) (p : Processor) (h : Header) : Prop :=
  ∃ t q header rest, assemble line p = .ok t q ∧ splitInfo? t = some (header, rest) ∧
    h = Header.parse header

def Outdated (p : Processor) (h : Header) : Prop :=
  ∃ v, h.required = some v ∧ p.settings.version < v

def Declines (p : Processor) (h : Header) : Prop :=
  ∃ license, h.license = some license ∧
    p.accepts (p.ask (licenseMessage h.name license)).1 = false

def Unanswered (p : Processor) (h : Header) : Prop :=
  ∃ license, h.license = some license ∧
    ∀ f, p.prompt = some f → Text.trim (f p.asked (licenseMessage h.name license)) = []

theorem Unanswered.declines (hu : Unanswered p h) (hy : p.settings.yes ≠ []) : Declines p h := by
  obtain ⟨license, hl, ha⟩ := hu
  refine ⟨license, hl, ?_⟩
  have hblank : Text.trim (p.ask (licenseMessage h.name license)).1 = [] := by
    unfold ask
    cases hf : p.prompt with
    | none => rfl
    | some f => exact ha f hf
  unfold accepts
  rw [hblank]
  cases hlow : Text.lower p.settings.yes with
  | nil => exact absurd hlow (Text.lower_ne_nil hy)
  | cons c r => rfl

structure Weighs (p q : Processor) : Prop where
  idle : Idle p q
  settings : q.settings = p.settings
  prompt : q.prompt = p.prompt
  asked : q.asked = p.asked
  isOpen : q.isOpen = p.isOpen
  serial : p.serial ≤ q.serial

theorem Weighs.refl (p : Processor) : Weighs p p := ⟨.refl p, rfl, rfl, rfl, rfl, le_rfl⟩

theorem Weighs.trans (h : Weighs p q) (h' : Weighs q r) : Weighs p r :=
  ⟨h.idle.trans h'.idle, h'.settings.trans h.settings, h'.prompt.trans h.prompt,
    h'.asked.trans h.asked, h'.isOpen.trans h.isOpen, h.serial.trans h'.serial⟩

theorem setReader_weighs (p : Processor) (x : LineReader) : Weighs p (p.setReader x) := by
  refine ⟨⟨rfl, rfl, rfl, rfl, rfl, said_nothing rfl⟩, rfl, rfl, rfl, ?_, le_rfl⟩
  cases hs : p.session <;> simp [isOpen, setReader, hs]

theorem assemble_weighs (ha : assemble line p = .ok t q) : Weighs p q := by
  have hends : Ends (assemble line) p (fun _ q => Weighs p q) (fun _ _ => True) := by
    unfold assemble
    split
    · exact Weighs.refl p
    · rw [ends_bind, ends_get]
      split
      · exact Weighs.refl p
      next s hs =>
        cases s.reader.through p.files (fun t => Text.contains infoClose (stripLine t false)) with
        | error e => trivial
        | ok x => exact setReader_weighs p x.2
  exact Ends.ok hends ha

theorem queue_weighs (p : Processor) (path : Path) : Weighs p (p.queue path) := by
  have hr : p.current.record = p.record? := (record?_eq_current p).symm
  unfold queue
  dsimp only
  split
  · exact ⟨⟨rfl, entries_note rfl, hr, rfl, rfl, said_nothing rfl⟩, rfl, rfl, rfl, rfl,
      (emit_extends p _).serial_le⟩
  · exact ⟨⟨rfl, rfl, hr, rfl, rfl, said_nothing rfl⟩, rfl, rfl, rfl, rfl, le_rfl⟩

theorem foldl_queue_weighs (paths : List Path) (h : Weighs p q) :
    Weighs p (paths.foldl queue q) := by
  induction paths generalizing q with
  | nil => exact h
  | cons path paths ih => exact ih (h.trans (queue_weighs q path))

theorem Outdated.of_weighs (hw : Weighs p q) : Outdated q h ↔ Outdated p h := by
  simp only [Outdated, hw.settings]

theorem ask_answer (hp : q.prompt = p.prompt) (ha : q.asked = p.asked) (question : Text) :
    (q.ask question).1 = (p.ask question).1 := by
  unfold ask
  rw [hp, ha]
  cases p.prompt <;> rfl

theorem Declines.of_weighs (hw : Weighs p q) : Declines q h ↔ Declines p h := by
  simp only [Declines, accepts, ask_answer hw.prompt hw.asked, hw.settings]

theorem licenseMessage_head (name license : Text) :
    (licenseMessage name license).head? = some 'P' := by
  have hpackage : "Package \"".toList = 'P' :: "ackage \"".toList := by decide
  unfold licenseMessage
  rw [hpackage]
  simp only [List.cons_append, List.head?_cons]

theorem startMessage_ne_license (name license : Text) :
    startMessage ≠ licenseMessage name license := by
  intro h
  have hhead := congrArg List.head? h
  rw [licenseMessage_head] at hhead
  exact absurd hhead (by decide)

theorem say_idle (p : Processor) {t : Text} (ht : startMessage ≠ t) : Idle p (p.say t) :=
  ⟨rfl, rfl, rfl, rfl, rfl, [t], rfl, by simpa using ht⟩

theorem asked_idle (p : Processor) {question : Text} (hq : startMessage ≠ question) :
    let q := ((p.say question).ask question).2
    Idle p q ∧ q.isOpen = p.isOpen ∧ q.serial = p.serial := by
  have hsay := say_idle p hq
  dsimp only
  unfold ask
  split
  · exact ⟨hsay.trans ⟨rfl, rfl, rfl, rfl, rfl, said_nothing rfl⟩, rfl, rfl⟩
  · exact ⟨hsay, rfl, rfl⟩

theorem refuse_idle (h : Header) (p : Processor) :
    Idle p (p.refuse h) ∧ (p.refuse h).isOpen = p.isOpen ∧ p.serial ≤ (p.refuse h).serial :=
  ⟨(say_idle p (by decide)).emit rfl, rfl, (emit_extends (p.say abortMessage) _).serial_le⟩

theorem declines_iff {license : Text} (hl : h.license = some license) :
    Declines p h ↔ p.accepts (p.ask (licenseMessage h.name license)).1 = false := by
  constructor
  · rintro ⟨license', hl', hno⟩
    obtain rfl : license = license' := by simpa using hl.symm.trans hl'
    exact hno
  · exact fun hno => ⟨license, hl, hno⟩

theorem outdated_iff (h : Header) (p : Processor) :
    h.required.any (p.settings.version < ·) = true ↔ Outdated p h := by
  rw [Outdated]
  cases h.required <;> simp

theorem assemble_enlist_weighs (ha : assemble line p = .ok t q) (h : Header) :
    Weighs p (q.enlist h) := by
  apply foldl_queue_weighs
  apply (assemble_weighs ha).trans
  have hrecord : q.current.record = q.record? := (record?_eq_current q).symm
  exact ⟨⟨rfl, rfl, hrecord, rfl, rfl, said_nothing rfl⟩, rfl, rfl, rfl, rfl, le_rfl⟩

theorem readHeader_gates (ho : p.isOpen = true) (hh : Heads line p h) :
    Ends (readHeader line) p
      (fun rest q => ¬Outdated p h ∧ (Declines p h → rest = none ∧ Failed p q ∧ Past p.serial q))
      (fun e q => (Outdated p h → Weighs p q ∧
          e = .versionTooLow line (h.required.getD 0) p.settings.version) ∧
        (¬Outdated p h → Declines p h → Failed p q ∧ Past p.serial q)) := by
  obtain ⟨t, q, header, rest, ha, hs, rfl⟩ := hh
  let h := Header.parse header
  have hw : Weighs p (q.enlist h) := assemble_enlist_weighs ha h
  have hout : h.required.any ((q.enlist h).settings.version < ·) = true ↔ Outdated p h :=
    (outdated_iff h _).trans (Outdated.of_weighs hw)
  have hnew (hv : h.required.any ((q.enlist h).settings.version < ·) = false) : ¬Outdated p h :=
    fun hold => Bool.false_ne_true (hv.symm.trans (hout.mpr hold))
  rw [Ends, readHeader_run ha hs]
  apply weigh_ends
  · exact fun hv => ⟨fun _ => ⟨hw, by rw [hw.settings]⟩, fun hn => absurd (hout.mp hv) hn⟩
  · intro hv hl
    refine ⟨hnew hv, ?_⟩
    rintro ⟨license, hl', -⟩
    exact absurd (hl.symm.trans hl') (by simp)
  · intro license hv hl question r
    have hdeclines : Declines p h ↔ (q.enlist h).accepts ((q.enlist h).ask question).1 = false :=
      (Declines.of_weighs hw).symm.trans (declines_iff hl)
    refine ⟨fun hyes => ⟨hnew hv, fun hd => ?_⟩, fun _ => ?_⟩
    · exact absurd (hyes.symm.trans (hdeclines.mp hd)) (by simp)
    · obtain ⟨hidle, hopen, hserial⟩ :=
        asked_idle (q.enlist h) (startMessage_ne_license h.name license)
      obtain ⟨hrefuse, hopen', hserial'⟩ := refuse_idle h r
      have hx : Idle p (r.refuse h) := (hw.idle.trans hidle).trans hrefuse
      have hox : (r.refuse h).isOpen = true := hopen'.trans (hopen.trans (hw.isOpen.trans ho))
      have hsx : p.serial ≤ (r.refuse h).serial := (hw.serial.trans hserial.ge).trans hserial'
      rw [ends_bind]
      refine ((close_failed hox).and (close_past hox hsx)).mono ?_ ?_
      · rintro - y ⟨hf, hp⟩
        exact ⟨hnew hv, fun _ => ⟨rfl, hx.failed hf, hp⟩⟩
      · rintro e y ⟨hf, hp⟩
        exact ⟨fun hold => absurd hold (hnew hv), fun _ _ => ⟨hx.failed hf, hp⟩⟩

theorem Arrives.start (ha : Arrives notes p t n q) : p.isOpen = true := by
  obtain ⟨-, s, -, -, -, -, hs, -⟩ := ha
  exact isOpen_of_session hs

theorem Meets.start (hm : Meets notes p line n q) : p.isOpen = true := by
  cases hm with
  | behind ha => exact ha.start
  | alone ha => exact ha.start

theorem Arrives.isOpen (ha : Arrives notes p t n q) : q.isOpen = true := by
  obtain ⟨-, s, l, x, t₁, n₁, hs, -, -, hleave, -⟩ := ha
  have hchanging := leaveComment_changing (W := Allowed.all.whole) (p := p.setReader x) l.text notes
  rw [(Ends.ok hchanging hleave).2.1]
  exact isOpen_of_session (session_setReader hs x)

theorem Meets.isOpen (hm : Meets notes p line n q) : q.isOpen = true := by
  cases hm with
  | behind ha hm ht hx hi =>
    rw [Processor.isOpen, begin_session]
    exact ha.isOpen
  | @alone t _ _ _ _ ha hs hm hu =>
    have hchanging := enterSection_changing (W := Allowed.all.whole) ha.isOpen trivial
      (fun _ => trivial) t fun _ _ => trivial
    exact ((Ends.ok hchanging hs).2 _ rfl).1

theorem Arrives.turn_ends {Q : Notes → Processor → Prop} {E : Failure → Processor → Prop}
    (ha : Arrives notes p t n q)
    (hs : Ends (enterSection t >>= fun rest => match rest with
      | some t => enterHeader t
      | none => pure none) q (fun rest r => rest = none ∧ Q n r) E) :
    Ends (turn notes) p (fun x r => ∃ n, x = .more n ∧ Q n r) E := by
  obtain ⟨hi, s, l, x, t₁, n₁, hsess, hl, hne, hleave, hdrop⟩ := ha
  apply turn_script hi
  unfold Ends
  rw [readLine_run hsess, hl]
  dsimp only
  rw [if_neg hne]
  change Ends (readText l.text notes) (p.setReader x) _ _
  rw [readText, ends_bind, enterLine, ends_bind]
  apply ends_of_ok hleave
  dsimp only
  rw [ends_bind, ends_get, hdrop]
  dsimp only
  rw [ends_bind] at hs ⊢
  refine hs.mono ?_ (fun _ _ h => h)
  intro rest r hr
  cases rest with
  | none => exact ⟨n, rfl, hr.2⟩
  | some u =>
    dsimp only at hr ⊢
    rw [ends_bind]
    refine Ends.mono hr ?_ (fun _ _ h => h)
    rintro rest r' ⟨rfl, hQ⟩
    exact ⟨n, rfl, hQ⟩

theorem startInstall_header {Q : Option Text → Processor → Prop} {E : Failure → Processor → Prop}
    {x : Record} {files : Files}
    (hx : Record.start p.settings.log p.now p.files = .ok (x, files))
    (hi : Text.contains infoOpen (Text.trim (t.drop installOpen.length)) = true)
    (hr : Ends (readHeader (Text.trim (t.drop installOpen.length))) (p.begin x files) Q E) :
    Ends (startInstall t) p Q E := by
  rw [startInstall, ends_bind, ends_get, hx]
  dsimp only
  rw [ends_bind, ends_set, if_pos hi]
  exact hr

theorem Meets.turn_ends {Q : Processor → Prop} {E : Failure → Processor → Prop}
    (hm : Meets notes p line n q)
    (hr : Ends (readHeader line) q (fun rest r => rest = none ∧ Q r) E) :
    Ends (turn notes) p (fun x r => ∃ n, x = .more n ∧ Q r) E := by
  cases hm with
  | behind ha hm ht hx hi =>
    apply ha.turn_ends (Q := fun _ r => Q r)
    rw [ends_bind, enterSection, if_pos ht, ends_bind, ends_get, if_pos hm]
    apply startInstall_header hx hi
    refine hr.mono ?_ (fun _ _ h => h)
    rintro rest r ⟨rfl, hQ⟩
    exact ⟨rfl, hQ⟩
  | alone ha hs hm hu =>
    apply ha.turn_ends (Q := fun _ r => Q r)
    rw [ends_bind]
    apply ends_of_ok hs
    dsimp only
    rw [enterHeader, ends_bind, ends_get, hm, hu, Bool.and_self, if_pos rfl]
    exact hr

theorem Meets.gates (hm : Meets notes p line n q) (hh : Heads line q h)
    (hg : Outdated q h ∨ Declines q h) :
    Ends (turn notes) p (fun x r => ∃ n, x = .more n ∧ Failed q r ∧ Past q.serial r)
      (fun e r => Failed q (r.abort e) ∧ q.serial ≤ r.serial) := by
  apply hm.turn_ends
  refine (readHeader_gates hm.isOpen hh).mono ?_ ?_
  · rintro rest r ⟨hnew, hdeclined⟩
    exact hdeclined (hg.resolve_left hnew)
  · rintro e r ⟨hold, hdeclined⟩
    by_cases hv : Outdated q h
    · obtain ⟨hw, -⟩ := hold hv
      exact ⟨hw.idle.failed (abort_failed e r), hw.serial⟩
    · obtain ⟨hf, hp⟩ := hdeclined hv (hg.resolve_left hv)
      exact ⟨hf.again (abort_failed e r), hp.le⟩

theorem Meets.outdated (hm : Meets notes p line n q) (hh : Heads line q h) (hv : Outdated q h) :
    ∃ r, turn notes p = .error (.versionTooLow line (h.required.getD 0) q.settings.version) r ∧
      r.asked = q.asked := by
  have hends := hm.turn_ends (Q := fun _ => False)
    (E := fun e r => Weighs q r ∧ e = .versionTooLow line (h.required.getD 0) q.settings.version) <|
    (readHeader_gates hm.isOpen hh).mono (fun _ _ hr => absurd hv hr.1) (fun _ _ hr => hr.1 hv)
  cases hx : turn notes p with
  | ok x r =>
    obtain ⟨-, -, hfalse⟩ := Ends.ok hends hx
    exact hfalse.elim
  | error e r =>
    obtain ⟨hw, rfl⟩ := Ends.error hends hx
    exact ⟨r, rfl, hw.asked⟩

/-- The turns that begin after a turn with this outcome, in the same call or in a later one. -/
inductive Ensues (x : Outcome Turn) (notes : Notes) (q : Processor) : Prop
  | call {n : Notes} {r : Processor} (hx : x = .ok (.more n) r) (hf : Feeds n r notes q)
  | later {o : Outcome Text} (hx : x = lastTurn o ∨ ∃ n r, x = .ok (.more n) r ∧ Fed n r o)
      (calls : List Call) (hf : Feeds {} (after calls (stateOf (settle o))) notes q)

theorem Ensues.past {x : Outcome Turn} (he : Ensues x notes q) (hc : Coherent (stateOf x))
    (hmore : ∀ t r, x = .ok t r → (∃ n, t = .more n) ∧ Past k r)
    (herror : ∀ e r, x = .error e r → k ≤ r.serial) : Past k q := by
  cases he with
  | call hx hf =>
    subst hx
    exact hf.past hc (hmore _ _ rfl).2
  | @later o hx calls hf =>
    have hend : Coherent (stateOf (settle o)) ∧ Past k (stateOf (settle o)) := by
      rcases hx with rfl | ⟨n, r, rfl, notes', q', hfeeds, ht⟩
      · cases o with
        | ok t r => obtain ⟨⟨n, hn⟩, -⟩ := hmore _ _ rfl; cases hn
        | error e r =>
          have hm : Moves .all r (r.abort e) := (abort_changes e r).moves
          exact ⟨hm.coherent hc, past_of_closed ((herror e r rfl).trans hm.extends.serial_le) rfl⟩
      · have hm := (hfeeds.moves hc).trans (turn_moves (Moves.coherent (hfeeds.moves hc) hc) notes')
        rw [ht, stateOf_lastTurn] at hm
        have hs := hm.trans (settle_moves o)
        exact ⟨Moves.coherent hs hc, Moves.past hs (hmore _ _ rfl).2⟩
    exact hf.past (after_coherent calls hend.1) (after_past calls hend.1 hend.2)

theorem teardown_asked (p : Processor) : p.teardown.asked = p.asked := by
  change (p.closeRecord false).2.asked = p.asked
  unfold closeRecord
  split <;> rfl

theorem next_of_feeds {x : Failure} (ho : p.isOpen = true) (hf : Feeds {} p notes q)
    (ht : turn notes q = .error x r) : next p = .error x (r.abort x) := by
  have hfeed : feed? {} p = some (.error x r) := feed?_eq_some.mpr ⟨notes, q, hf, ht⟩
  simp [next, next?, ho, hfeed, settle]

/-- A header that asks for a newer version or whose license is not accepted is turned away: from
where it begins, nothing happens but that the open record is closed as a failure and that questions
are shown, and whatever script is read later was opened later. -/
theorem header_gates (settings : Settings) (files : Files) (calls : List Call) (notes n : Notes)
    (p q : Processor) (line : Text) (h : Header)
    (hf : Feeds {} (after calls { settings, files }) notes p) (hm : Meets notes p line n q)
    (hh : Heads line q h) :
    (Outdated q h ∨ Declines q h →
      Ends (turn notes) p (fun x r => (∃ n, x = .more n) ∧ Failed q r)
        (fun e r => next (after calls { settings, files }) = .error e (r.abort e) ∧
          Failed q (r.abort e)) ∧
      ∀ notes' r, Ensues (turn notes p) notes' r → r.isOpen = true → q.serial < r.serial) ∧
    (Outdated q h → ∃ r, next (after calls { settings, files }) =
      .error (.versionTooLow line (h.required.getD 0) q.settings.version) r ∧ r.asked = q.asked) ∧
    (Unanswered q h → q.settings.yes ≠ [] → Declines q h) := by
  have hc : Coherent (after calls { settings, files }) :=
    after_coherent calls (fresh_coherent settings files)
  generalize after calls { settings, files } = p₀ at hf hc ⊢
  have hcp : Coherent p := Moves.coherent (hf.moves hc) hc
  have ho : p₀.isOpen = true := Moves.isOpen (hf.moves hc) hm.start
  refine ⟨fun hg => ?_, fun hv => ?_, fun hu hy => hu.declines hy⟩
  · have hends := hm.gates hh hg
    refine ⟨ends_of_run ?_ ?_, ?_⟩
    · intro x r hx
      obtain ⟨n, hn, hfailed, -⟩ := Ends.ok hends hx
      exact ⟨⟨n, hn⟩, hfailed⟩
    · intro e r hx
      exact ⟨next_of_feeds ho hf hx, (Ends.error hends hx).1⟩
    · intro notes' r he
      refine (he.past (Moves.coherent (turn_moves hcp notes) hcp) ?_ ?_).lt
      · intro t r hx
        obtain ⟨n, hn, -, hp⟩ := Ends.ok hends hx
        exact ⟨⟨n, hn⟩, hp⟩
      · intro e r hx
        exact (Ends.error hends hx).2
  · obtain ⟨r, hx, hasked⟩ := hm.outdated hh hv
    exact ⟨_, next_of_feeds ho hf hx, (teardown_asked _).trans hasked⟩

def firstLine? (p : Processor) : Option Text :=
  p.session.bind fun s =>
    match s.inComment, s.reader.nextLogical p.files p.marked with
    | false, .ok (some l, _) => some l.text
    | _, _ => none

theorem meets_firstLine (t header rest : Text) (hi : p.inclusion = none) (hm : p.installMode = true)
    (hl : p.firstLine? = some t) (hc : Text.contains lineMark t = false)
    (hs : Text.startsWith installOpen t = false) (hu : Text.startsWith infoOpen t = true)
    (he : Text.contains infoClose t = true) (hsplit : splitInfo? t = some (header, rest)) :
    ∃ x, Meets {} p t {} (p.setReader x) ∧ Heads t (p.setReader x) (Header.parse header) := by
  obtain ⟨s, hsess, hfirst⟩ := Option.bind_eq_some_iff.mp hl
  split at hfirst
  next l x hin hread =>
    obtain rfl := Option.some.inj hfirst
    have hne : l.text ≠ [] := by
      intro hnil
      rw [hnil] at hu
      exact absurd hu (by decide)
    have hleave : leaveComment l.text {} (p.setReader x) =
        .ok (some l.text, {}) (p.setReader x) := by
      unfold leaveComment
      simp only [bind_run, get_run, session_setReader hsess x, hin]
      rfl
    refine ⟨x,
      .alone (t := l.text) ⟨hi, s, l, x, l.text, {}, hsess, hread, hne, hleave, ?_⟩ ?_ hm hu,
      l.text, p.setReader x, header, rest, ?_, hsplit, rfl⟩
    · simp [dropLineComment, hc]
    · simp [enterSection, hs, pure_run]
    · simp [assemble, he, pure_run]
  · simp at hfirst

def conditional (condition : String) : Processor :=
  openedMain true [("main.nscr", "<info>name=n " ++ condition ++ "<endinfo> a\nb")]

theorem header_gates_conditional :
    (∃ q h, Outdated q h ∧ ∃ r, next (conditional "requireversion=0.1.1") =
      .error (.versionTooLow "<info>name=n requireversion=0.1.1<endinfo> a".toList 11 10) r ∧
      r.asked = q.asked) ∧
    ∃ q h, Declines q h ∧ ∀ notes r, Ensues (turn {} (conditional "license=l")) notes r →
      r.isOpen = true → q.serial < r.serial := by
  constructor
  · obtain ⟨x, hm, hh⟩ := meets_firstLine (p := conditional "requireversion=0.1.1")
      "<info>name=n requireversion=0.1.1<endinfo> a".toList "name=n requireversion=0.1.1".toList
      " a".toList rfl rfl (by decide +kernel) (by decide +kernel) (by decide +kernel)
      (by decide +kernel) (by decide +kernel) (by decide +kernel)
    have hrequired : (Header.parse "name=n requireversion=0.1.1".toList).required = some 11 := by
      decide +kernel
    have hversion : (conditional "requireversion=0.1.1").settings.version = 10 := by decide +kernel
    have hold : Outdated ((conditional "requireversion=0.1.1").setReader x)
        (Header.parse "name=n requireversion=0.1.1".toList) :=
      ⟨11, hrequired, hversion.trans_lt (by decide)⟩
    rw [conditional, openedMain_eq] at hm hh hold hversion ⊢
    obtain ⟨r, hr, hasked⟩ := (header_gates _ _ _ _ _ _ _ _ _ (.refl _ _) hm hh).2.1 hold
    rw [hrequired] at hr
    exact ⟨_, _, hold, r, hr.trans (by rw [← hversion]; rfl), hasked⟩
  · obtain ⟨x, hm, hh⟩ := meets_firstLine (p := conditional "license=l")
      "<info>name=n license=l<endinfo> a".toList "name=n license=l".toList " a".toList rfl rfl
      (by decide +kernel) (by decide +kernel) (by decide +kernel) (by decide +kernel)
      (by decide +kernel) (by decide +kernel)
    have hlicense : Unanswered ((conditional "license=l").setReader x)
        (Header.parse "name=n license=l".toList) := by
      refine ⟨"l".toList, by decide +kernel, ?_⟩
      have hprompt : (conditional "license=l").prompt.isNone = true := by decide +kernel
      intro f hf
      have := Option.isNone_iff_eq_none.mp hprompt
      exact absurd (this.symm.trans hf) (by simp)
    have hyes : (conditional "license=l").settings.yes = ['y'] := by decide +kernel
    rw [conditional, openedMain_eq] at hm hh hlicense hyes ⊢
    have hgates := header_gates _ _ _ _ _ _ _ _ _ (.refl _ _) hm hh
    have hno := hgates.2.2 hlicense (by rw [setReader, hyes]; simp)
    exact ⟨_, _, hno, (hgates.1 (.inr hno)).2⟩

end Processor

end ScriptFeed
