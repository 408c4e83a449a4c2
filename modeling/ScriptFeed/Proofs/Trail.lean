import ScriptFeed.Proofs.Brackets

/-!
What a run leaves behind. Files only grow and events only follow earlier ones; from the events after
a point one knows which files were opened and which were written to since.
-/

namespace ScriptFeed

namespace Event

def opened? : Event → Option Path
  | .scriptOpened path => some path
  | .includeOpened path _ => some path
  | _ => none

def session? : Event → Option Path
  | .scriptOpened path => some path
  | _ => none

def written? : Event → Option Path
  | .recorded path _ => some path
  | .documentationWritten path => some path
  | .layoutWritten path _ => some path
  | _ => none

end Event

namespace Processor

open Package Comment

variable {N : Allowed} {p q r : Processor}

/-- Later in a run: settings and time stay, files grow, events follow. -/
structure Extends (p q : Processor) : Prop where
  settings : q.settings = p.settings
  now : q.now = p.now
  files : p.files.Grows q.files
  events : p.events <+: q.events

theorem Extends.refl (p : Processor) : Extends p p := ⟨rfl, rfl, .refl _, List.prefix_rfl⟩

theorem Extends.trans (h : Extends p q) (h' : Extends q r) : Extends p r :=
  ⟨h'.settings.trans h.settings, h'.now.trans h.now, h.files.trans h'.files,
    h.events.trans h'.events⟩

theorem emit_extends (p : Processor) (e : Event) : Extends p (p.emit e) :=
  ⟨rfl, rfl, .refl _, List.prefix_append _ _⟩

theorem recordIn_extends (p : Processor) (r : Record) (e : Entry) : Extends p (p.recordIn r e) :=
  ⟨rfl, rfl, Record.write_grows r e p.files, List.prefix_append _ _⟩

theorem record_extends (p : Processor) (e : Entry) : Extends p (p.record e) := by
  unfold record
  split
  · exact recordIn_extends p _ e
  · exact .refl p

theorem closeRecord_extends (p : Processor) (b : Bool) : Extends p (p.closeRecord b).2 := by
  unfold closeRecord
  cases p.record? with
  | none => exact .refl p
  | some r =>
    refine (recordIn_extends p r (.closed b)).trans ?_
    exact ⟨rfl, rfl, .refl _, List.prefix_append _ _⟩

theorem teardown_extends (p : Processor) : Extends p p.teardown :=
  (closeRecord_extends p false).trans ⟨rfl, rfl, .refl _, List.prefix_rfl⟩

theorem queue_extends (p : Processor) (path : Path) : Extends p (p.queue path) := by
  unfold queue
  dsimp only
  split
  · exact ⟨rfl, rfl, .refl _, List.prefix_append _ _⟩
  · exact ⟨rfl, rfl, .refl _, List.prefix_rfl⟩

def recording (r : Record) (files : Files) (p : Processor) : Processor :=
  ({ p with files }.emit (.recorded r.path (.opened p.now))).emit (.recordOpened r.path)

theorem begin_eq (r : Record) (files : Files) (p : Processor) : p.begin r files =
    ({ (p.recording r files).record (.closed false) with
      installation := some (((p.recording r files).record (.closed false)).current.take r) }).emit
      (.installationStarted ((p.recording r files).record (.closed false)).shortName) := rfl

theorem recording_extends {r : Record} {files : Files}
    (h : Record.start p.settings.log p.now p.files = .ok (r, files)) :
    Extends p (p.recording r files) := by
  refine ⟨rfl, rfl, (Record.start_find h).2.1, ?_⟩
  exact (List.prefix_append _ _).trans (List.prefix_append _ _)

theorem begin_extends {r : Record} {files : Files}
    (h : Record.start p.settings.log p.now p.files = .ok (r, files)) :
    Extends p (p.begin r files) := by
  rw [begin_eq]
  refine (recording_extends h).trans ((record_extends _ (.closed false)).trans ?_)
  exact ⟨rfl, rfl, .refl _, List.prefix_append _ _⟩

theorem Move.extends (hm : Move N p q) : Extends p q := by
  cases hm with
  | tell e he => exact emit_extends p e
  | enclose path scope r ho hr => exact ⟨rfl, rfl, .refl _, List.prefix_append _ _⟩
  | directories path =>
    exact ⟨rfl, rfl, (Files.createDirectories_grows p.files path).1, List.prefix_rfl⟩
  | document path b files hw =>
    exact ⟨rfl, rfl, (Files.write_find hw).1, List.prefix_append _ _⟩
  | layout path b files n hw => exact ⟨rfl, rfl, (Files.write_find hw).1, List.prefix_append _ _⟩
  | queue name path ho hn hp => exact queue_extends p path
  | write e he => exact record_extends p e
  | begin r files hN ho hr => exact begin_extends hr
  | finish b hb => exact closeRecord_extends p b
  | advance i path chain r ho hi ha hr => exact ⟨rfl, rfl, .refl _, List.prefix_append _ _⟩
  | down => exact teardown_extends p
  | _ => exact ⟨rfl, rfl, .refl _, List.prefix_rfl⟩

theorem Moves.extends (hm : Moves N p q) : Extends p q := by
  induction hm with
  | refl => exact .refl p
  | tail _ hstep ih => exact ih.trans hstep.extends

def trail (n : Nat) (p : Processor) : List Event := p.events.drop n

theorem trail_mono {n : Nat} (h : Extends p q) (hn : n ≤ p.events.length) :
    trail n p <+: trail n q := by
  obtain ⟨ev, hev⟩ := h.events
  rw [trail, trail, ← hev, List.drop_append_of_le_length hn]
  exact List.prefix_append _ _

theorem trail_append {n : Nat} {ev : List Event} (he : q.events = p.events ++ ev)
    (hn : n ≤ p.events.length) : trail n q = trail n p ++ ev := by
  rw [trail, he, List.drop_append_of_le_length hn, trail]

def opens (n : Nat) (p : Processor) : List Path := (trail n p).filterMap Event.opened?

def writes (n : Nat) (p : Processor) : List Path := (trail n p).filterMap Event.written?

theorem opens_subset {n : Nat} (h : Extends p q) (hn : n ≤ p.events.length) :
    opens n p ⊆ opens n q := ((trail_mono h hn).filterMap _).subset

theorem writes_subset {n : Nat} (h : Extends p q) (hn : n ≤ p.events.length) :
    writes n p ⊆ writes n q := ((trail_mono h hn).filterMap _).subset

def Knows (n : Nat) (p : Processor) (r : LineReader) : Prop :=
  r.path ∈ opens n p ∧ ∀ id, r.file? = some id → p.files.find r.path = .ok (.file id)

def Wrote (n : Nat) (p : Processor) (id : Nat) : Prop :=
  ∃ path ∈ writes n p, p.files.find path = .ok (.file id)

theorem Knows.mono {n : Nat} {x : LineReader} (h : Extends p q) (hn : n ≤ p.events.length)
    (hx : Knows n p x) : Knows n q x :=
  ⟨opens_subset h hn hx.1, fun id hid => h.files.find (hx.2 id hid)⟩

theorem Knows.of_reads {n : Nat} {fs : Files} {x y : LineReader} (hx : Knows n p x)
    (h : x.Reads fs y) : Knows n p y := by
  unfold Knows
  rw [h.path, h.file]
  exact hx

theorem Wrote.mono {n id : Nat} (h : Extends p q) (hn : n ≤ p.events.length)
    (hw : Wrote n p id) : Wrote n q id := by
  obtain ⟨path, hp, hf⟩ := hw
  exact ⟨path, writes_subset h hn hp, h.files.find hf⟩

/-- What is known of the files `p` works with, in a run that began with the files `fs`. -/
structure Contents (fs : Files) (n : Nat) (p : Processor) : Prop where
  length : n ≤ p.events.length
  changed : ∀ id, p.files.bytes id ≠ fs.bytes id → Wrote n p id
  session : ∀ s, p.session = some s → Knows n p s.reader
  inclusion : ∀ i, p.inclusion = some i → Knows n p i.reader
  record : ∀ r, p.record? = some r → p.files.find r.path = .ok (.file r.file)

variable {fs : Files} {n : Nat}

theorem Contents.step (h : Contents fs n p) (hE : Extends p q)
    (hw : ∀ id, q.files.bytes id ≠ p.files.bytes id → Wrote n q id)
    (hs : ∀ s, q.session = some s → (∃ s', p.session = some s' ∧ s.reader = s'.reader) ∨
      Knows n q s.reader)
    (hi : ∀ i, q.inclusion = some i → p.inclusion = some i ∨ Knows n q i.reader)
    (hr : ∀ r, q.record? = some r → p.record? = some r ∨
      q.files.find r.path = .ok (.file r.file)) : Contents fs n q where
  length := h.length.trans hE.events.length_le
  changed := by
    intro id hid
    by_cases hpq : q.files.bytes id = p.files.bytes id
    · exact (h.changed id (hpq ▸ hid)).mono hE h.length
    · exact hw id hpq
  session := by
    intro s hs'
    rcases hs s hs' with ⟨s', hp, he⟩ | hk
    · exact he ▸ (h.session s' hp).mono hE h.length
    · exact hk
  inclusion := by
    intro i hi'
    rcases hi i hi' with hp | hk
    · exact (h.inclusion i hp).mono hE h.length
    · exact hk
  record := by
    intro r hr'
    rcases hr r hr' with hp | hf
    · exact hE.files.find (h.record r hp)
    · exact hf

theorem Contents.congr (h : Contents fs n p) (hE : Extends p q) (hf : q.files = p.files)
    (hs : q.session = p.session) (hi : q.inclusion = p.inclusion) (hr : q.record? = p.record?) :
    Contents fs n q :=
  h.step hE (fun _ hne => absurd (by rw [hf]) hne) (fun s hs' => .inl ⟨s, hs ▸ hs', rfl⟩)
    (fun _ hi' => .inl (hi ▸ hi')) (fun _ hr' => .inl (hr ▸ hr'))

end Processor

end ScriptFeed
