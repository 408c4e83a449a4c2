import Mathlib.Data.List.Forall2
import ScriptFeed.Processor.Feed
import ScriptFeed.Proofs.Growth
import ScriptFeed.Proofs.Marks
import ScriptFeed.Proofs.Reader

/-!
Two processors that read the same scripts, one with breakpoints and one without. They agree in
everything but the marks in front of commands, where these are echoed in an install log, and in
the text of a failure. As long as no log is read, both readers read the same lines.
-/

namespace ScriptFeed

open Package

def Together {α : Type} (R : α → α → Prop) (x y : Except Fault α) : Prop :=
  (∃ e, x = .error e ∧ y = .error e) ∨ ∃ a b, x = .ok a ∧ y = .ok b ∧ R a b

def Text.Bears (t t' : Text) : Prop := t = t' ∨ t' ≠ [] ∧ t = Keyword.withMark t'

theorem Text.bears_markedIf {b : Bool} {t : Text} (h : b = true → t ≠ []) :
    (Keyword.markedIf b t).Bears t := by
  cases b with
  | false => exact .inl rfl
  | true => exact .inr ⟨h rfl, rfl⟩

theorem Text.Bears.nonempty {t t' : Text} (h : t.Bears t') (ht : t' ≠ []) : t ≠ [] := by
  rcases h with rfl | ⟨-, rfl⟩
  · exact ht
  · exact List.cons_ne_nil _ _

inductive Package.Entry.Bears : Entry → Entry → Prop
  | refl (e : Entry) : Bears e e
  | evaluating {t t' : Text} (h : t.Bears t') : Bears (.evaluating t) (.evaluating t')
  | copying {t t' : Text} (h : t.Bears t') : Bears (.copying t) (.copying t')

inductive Failure.Bears : Failure → Failure → Prop
  | refl (e : Failure) : Bears e e
  | procedure {t t' : Text} (h : t.Bears t') :
      Bears (.procedureOutsideInstall t) (.procedureOutsideInstall t')
  | definition {t t' : Text} (cause : LocalFunction.Mistake) (h : t.Bears t') :
      Bears (.badDefinition t cause) (.badDefinition t' cause)

inductive Event.Bears : Event → Event → Prop
  | refl (e : Event) : Bears e e
  | recorded (path : Path) {e e' : Entry} (h : e.Bears e') :
      Bears (.recorded path e) (.recorded path e')
  | aborted {e e' : Failure} (line : Nat) (h : e.Bears e') :
      Bears (.scriptAborted e line) (.scriptAborted e' line)

inductive Echoes : Bytes → Bytes → Prop
  | refl (b : Bytes) : Echoes b b
  | entry {b b' : Bytes} {e e' : Entry} (h : Echoes b b') (he : e.Bears e') :
      Echoes (b ++ Utf8.encode e.text) (b' ++ Utf8.encode e'.text)

namespace Files

variable {D : Nat → Prop} {fs fs' : Files}

/-- The same files under the same names, with marks in the logs `D` at most. -/
structure Alike (D : Nat → Prop) (fs fs' : Files) : Prop where
  directories : fs'.directories = fs.directories
  names : fs'.names = fs.names
  here : fs'.here = fs.here
  length : fs'.contents.length = fs.contents.length
  bytes : ∀ id, Echoes (fs.bytes id) (fs'.bytes id)
  outside : ∀ id, ¬ D id → fs'.bytes id = fs.bytes id

namespace Alike

theorem refl (D : Nat → Prop) (fs : Files) : Alike D fs fs :=
  ⟨rfl, rfl, rfl, rfl, fun _ => .refl _, fun _ _ => rfl⟩

variable (h : Alike D fs fs')
include h

theorem node? (loc : Location) : fs'.node? loc = fs.node? loc := by
  rw [Files.node?, h.directories, h.names, Files.node?]

theorem follow (loc : Location) (steps : List Text) :
    fs'.follow loc steps = fs.follow loc steps := by
  induction steps generalizing loc with
  | nil => rfl
  | cons s steps ih =>
    rw [Files.follow, h.node?, Files.follow]
    cases fs.node? loc with
    | none => rfl
    | some x =>
      cases x with
      | file id => rfl
      | directory =>
        dsimp only
        rw [ih]

theorem start (p : Path) : fs'.start p = fs.start p := by
  rw [Files.start, h.here, Files.start]

theorem find (p : Path) : fs'.find p = fs.find p := by
  unfold Files.find
  simp only [h.start, h.follow, h.node?]

theorem isFile (p : Path) : fs'.isFile p = fs.isFile p := by
  rw [Files.isFile, h.find, Files.isFile]

theorem isDirectory (p : Path) : fs'.isDirectory p = fs.isDirectory p := by
  rw [Files.isDirectory, h.find, Files.isDirectory]

theorem parentOf (p : Path) : fs'.parentOf p = fs.parentOf p := by
  unfold Files.parentOf
  simp only [h.start, h.follow, h.node?]

theorem entry (dir : Location) (name : Text) : fs'.entry dir name = fs.entry dir name := by
  rw [Files.entry, h.node?, Files.entry]

theorem openFile (p : Path) : LineReader.openFile fs' p = LineReader.openFile fs p := by
  rw [LineReader.openFile, h.find, LineReader.openFile]

theorem addFile (loc : Location) (id : Nat) :
    Alike D { fs with names := fs.names ++ [(loc, id)], contents := fs.contents ++ [[]] }
      { fs' with names := fs'.names ++ [(loc, id)], contents := fs'.contents ++ [[]] } := by
  refine ⟨h.directories, by rw [h.names], h.here, by simp [h.length], fun j => ?_, fun j hj => ?_⟩
  · rw [addFile_bytes, addFile_bytes]
    exact h.bytes j
  · rw [addFile_bytes, addFile_bytes]
    exact h.outside j hj

theorem openWrite (p : Path) : Together (fun x y => x.1 = y.1 ∧ Alike D x.2 y.2)
    (fs.openWrite p) (fs'.openWrite p) := by
  unfold Files.openWrite
  rw [h.parentOf]
  cases fs.parentOf p with
  | error e => exact .inl ⟨e, rfl, rfl⟩
  | ok o =>
    cases o with
    | none => exact .inl ⟨_, rfl, rfl⟩
    | some x =>
      obtain ⟨dir, name⟩ := x
      simp only [bind, Except.bind]
      by_cases hd : (isDots name || namesDirectory p) = true
      · rw [if_pos hd, if_pos hd]
        exact .inl ⟨_, rfl, rfl⟩
      · rw [if_neg hd, if_neg hd, h.entry]
        cases fs.entry dir name with
        | error e => exact .inl ⟨e, rfl, rfl⟩
        | ok y =>
          cases y with
          | none =>
            dsimp only
            rw [h.length]
            exact .inr ⟨_, _, rfl, rfl, rfl, h.addFile _ _⟩
          | some y =>
            cases y with
            | directory => exact .inl ⟨_, rfl, rfl⟩
            | file id => exact .inr ⟨_, _, rfl, rfl, rfl, h⟩

theorem set (id : Nat) (b : Bytes) : Alike D { fs with contents := fs.contents.set id b }
    { fs' with contents := fs'.contents.set id b } := by
  have hset (g : Files) (j : Nat) : Files.bytes { g with contents := g.contents.set id b } j =
      if j = id ∧ id < g.contents.length then b else g.bytes j := by
    simp only [Files.bytes, List.getD_eq_getElem?_getD, List.getElem?_set]
    by_cases hj : id = j
    · subst hj
      by_cases hl : id < g.contents.length <;> simp [hl]
    · simp [hj, Ne.symm hj]
  refine ⟨h.directories, h.names, h.here, by simp [h.length], fun j => ?_, fun j hj => ?_⟩
  · rw [hset, hset, h.length]
    split
    · exact .refl b
    · exact h.bytes j
  · rw [hset, hset, h.length, h.outside j hj]

theorem write (p : Path) (b : Bytes) : Together (Alike D) (fs.write p b) (fs'.write p b) := by
  unfold Files.write
  rcases h.openWrite p with ⟨e, hx, hy⟩ | ⟨⟨id, g⟩, ⟨id', g'⟩, hx, hy, rfl, hg⟩
  · rw [hx, hy]
    exact .inl ⟨e, rfl, rfl⟩
  · rw [hx, hy]
    exact .inr ⟨_, _, rfl, rfl, hg.set id b⟩

theorem append {e e' : Entry} (he : e.Bears e') {id : Nat} (hid : e = e' ∨ D id) :
    Alike D (fs.append id (Utf8.encode e.text)) (fs'.append id (Utf8.encode e'.text)) := by
  refine ⟨h.directories, h.names, h.here, by simp [Files.append, h.length], fun j => ?_,
    fun j hj => ?_⟩
  · rw [bytes_append, bytes_append, h.length]
    split
    · exact (h.bytes j).entry he
    · exact h.bytes j
  · rw [bytes_append, bytes_append, h.length, h.outside j hj]
    by_cases hjd : j = id ∧ id < fs.contents.length
    · obtain rfl : e = e' := hid.resolve_right fun hD => hj (hjd.1 ▸ hD)
      rfl
    · rw [if_neg hjd, if_neg hjd]

theorem createDirectory (p : Path) :
    Together (Alike D) (fs.createDirectory p) (fs'.createDirectory p) := by
  unfold Files.createDirectory
  rw [h.parentOf]
  cases fs.parentOf p with
  | error e => exact .inl ⟨e, rfl, rfl⟩
  | ok o =>
    cases o with
    | none => exact .inl ⟨_, rfl, rfl⟩
    | some x =>
      obtain ⟨dir, name⟩ := x
      simp only [bind, Except.bind]
      by_cases hd : isDots name = true
      · rw [if_pos hd, if_pos hd]
        exact .inl ⟨_, rfl, rfl⟩
      · rw [if_neg hd, if_neg hd, h.entry]
        cases fs.entry dir name with
        | error e => exact .inl ⟨e, rfl, rfl⟩
        | ok y =>
          cases y with
          | none =>
            exact .inr ⟨_, _, rfl, rfl, by rw [h.directories], h.names, h.here, h.length, h.bytes,
              h.outside⟩
          | some y => exact .inl ⟨_, rfl, rfl⟩

theorem ensureDirectory (p : Path) : (fs'.ensureDirectory p).1 = (fs.ensureDirectory p).1 ∧
    Alike D (fs.ensureDirectory p).2 (fs'.ensureDirectory p).2 := by
  unfold Files.ensureDirectory
  rcases h.createDirectory p with ⟨e, hx, hy⟩ | ⟨g, g', hx, hy, hg⟩
  · rw [hx, hy, h.isDirectory]
    exact ⟨rfl, h⟩
  · rw [hx, hy]
    exact ⟨rfl, hg⟩

theorem createDownTo (depth : Nat) (p : Path) :
    (Files.createDownTo depth fs' p).1 = (Files.createDownTo depth fs p).1 ∧
      Alike D (Files.createDownTo depth fs p).2 (Files.createDownTo depth fs' p).2 := by
  induction depth generalizing p with
  | zero => exact ⟨rfl, h⟩
  | succ depth ih =>
    unfold Files.createDownTo
    split
    · exact ⟨rfl, h⟩
    · rcases h.createDirectory p with ⟨e, hx, hy⟩ | ⟨g, g', hx, hy, hg⟩
      · rw [hx, hy]
        by_cases he : e = .notFound
        · subst he
          dsimp only
          cases p.parent? with
          | none => exact ⟨rfl, h⟩
          | some q =>
            obtain ⟨ho, hq⟩ := ih q
            dsimp only
            generalize Files.createDownTo depth fs q = x at ho hq ⊢
            generalize Files.createDownTo depth fs' q = y at ho hq ⊢
            obtain ⟨o, g⟩ := x
            obtain ⟨o', g'⟩ := y
            obtain rfl : o' = o := ho
            cases o' with
            | error e => exact ⟨rfl, hq⟩
            | ok u => exact ensureDirectory hq p
        · cases e with
          | notFound => exact absurd rfl he
          | _ => exact h.ensureDirectory p
      · rw [hx, hy]
        exact h.ensureDirectory p

theorem createDirectories (p : Path) : (fs'.createDirectories p).1 = (fs.createDirectories p).1 ∧
    Alike D (fs.createDirectories p).2 (fs'.createDirectories p).2 :=
  h.createDownTo _ p

end Alike

end Files

def LogicalLine.markedBy (m : Marked) (path : Path) (l : LogicalLine) : LogicalLine :=
  { l with text := if m path l.line then LineReader.mark l.text else l.text }

def LogicalLine.breaks (m : Marked) (path : Path) (inComment : Bool) (l : LogicalLine) : Bool :=
  m path l.line && !inComment && !Text.startsWith Keyword.breakMark l.text

namespace LineReader

variable {fs fs' : Files} {r r' : LineReader}

def Sees (fs fs' : Files) (r : LineReader) : Prop :=
  ∀ id, r.file? = some id → fs'.bytes id = fs.bytes id

theorem Sees.of_reads (h : Sees fs fs' r) (hr : Reads fs r r') : Sees fs fs' r' :=
  fun id hid => h id (hr.file ▸ hid)

theorem fetch_congr (h : Sees fs fs' r) : r.fetch fs' = r.fetch fs := by
  rw [fetch, pending_congr h, unfetched_congr h, fetch]

theorem next_congr (h : Sees fs fs' r) : r.next fs' = r.next fs := by
  rw [next, prepare, fetch_congr h, next, prepare]

theorem atEnd_congr (h : Sees fs fs' r) : r.atEnd fs' = r.atEnd fs := by
  rw [atEnd, fetch_congr h, atEnd]

section Gathering

variable {σ : Type} {more : σ → Bool} {add : σ → Text → σ}

theorem gatherWithin_congr (h : Sees fs fs' r) (fuel : Nat) (s : σ) :
    gatherWithin fs' more add fuel s r = gatherWithin fs more add fuel s r := by
  induction fuel generalizing s r with
  | zero => rfl
  | succ fuel ih =>
    rw [gatherWithin, next_congr h, gatherWithin]
    split
    · cases hn : r.next fs with
      | error e => rfl
      | ok x =>
        obtain ⟨o, r₁⟩ := x
        cases o with
        | none => rfl
        | some t => exact ih (h.of_reads (next_reads hn)) (add s t)
    · rfl

theorem gather_congr (h : Sees fs fs' r) (s : σ) :
    r.gather fs' more add s = r.gather fs more add s := by
  rw [gather, pending_congr h, gatherWithin_congr h, gather]

end Gathering

theorem through_congr (h : Sees fs fs' r) (stop : Text → Bool) :
    r.through fs' stop = r.through fs stop := gather_congr h _

theorem nextLogical_marked (h : Sees fs fs' r) (m : Marked) : r.nextLogical fs m =
    (r.nextLogical fs' fun _ _ => false).map fun x => (x.1.map (·.markedBy m r.path), x.2) := by
  unfold nextLogical
  rw [next_congr h]
  cases hn : r.next fs with
  | error e => rfl
  | ok x =>
    obtain ⟨o, r₁⟩ := x
    have hreads := next_reads hn
    cases o with
    | none => rfl
    | some t =>
      dsimp only
      rw [gather_congr (h.of_reads hreads)]
      cases r₁.gather fs continues continued t with
      | error e => rfl
      | ok y =>
        obtain ⟨t', r₂⟩ := y
        simp only [Except.map, Option.map_some, LogicalLine.markedBy, hreads.path]
        rfl

end LineReader

namespace Processor

variable {m : Marked} {D : Nat → Prop} {p q : Processor}

def plainOver (fs : Files) (es : List Event) (p : Processor) : Processor :=
  { p with marked := fun _ _ => false, files := fs, events := es }

/-- `q` has no breakpoints where `p` has those of `m`. For the rest they agree, up to marks in the
logs `D` and in the events. -/
def Alike (m : Marked) (D : Nat → Prop) (p q : Processor) : Prop :=
  ∃ fs es, q = p.plainOver fs es ∧ p.marked = m ∧ p.files.Alike D fs ∧
    List.Forall₂ Event.Bears p.events es

def Away (D : Nat → Prop) (p : Processor) : Prop :=
  ∀ s, p.session = some s → ∀ id, s.reader.file? = some id → ¬ D id

theorem Away.of_session (h : Away D p) (hs : q.session = p.session) : Away D q := by
  rwa [Away, hs]

theorem Away.setReader {s : Session} {reader : LineReader} {fs : Files} (h : Away D p)
    (hs : p.session = some s) (hr : s.reader.Reads fs reader) : Away D (p.setReader reader) := by
  intro s' hs' id hid
  simp only [Processor.setReader, hs, Option.map_some, Option.some.injEq] at hs'
  subst hs'
  exact h s hs id (hr.file ▸ hid)

namespace Alike

theorem update (h : Alike m D p q) (f : Processor → Processor)
    (hover : ∀ fs es, f (p.plainOver fs es) = (f p).plainOver fs es)
    (hfiles : (f p).files = p.files)
    (hevents : (f p).events = p.events) (hmarked : (f p).marked = p.marked) :
    Alike m D (f p) (f q) := by
  obtain ⟨fs, es, rfl, hm, hf, he⟩ := h
  exact ⟨fs, es, hover fs es, hmarked.trans hm, hfiles ▸ hf, hevents ▸ he⟩

variable (h : Alike m D p q)
include h

theorem files : p.files.Alike D q.files := by
  obtain ⟨fs, es, rfl, -, hf, -⟩ := h
  exact hf

theorem marked : p.marked = m ∧ q.marked = fun _ _ => false := by
  obtain ⟨fs, es, rfl, hm, -⟩ := h
  exact ⟨hm, rfl⟩

theorem session : q.session = p.session := by
  obtain ⟨fs, es, rfl, -⟩ := h
  rfl

theorem inclusion : q.inclusion = p.inclusion := by
  obtain ⟨fs, es, rfl, -⟩ := h
  rfl

theorem installation : q.installation = p.installation := by
  obtain ⟨fs, es, rfl, -⟩ := h
  rfl

theorem installMode : q.installMode = p.installMode := by
  obtain ⟨fs, es, rfl, -⟩ := h
  rfl

theorem settings : q.settings = p.settings := by
  obtain ⟨fs, es, rfl, -⟩ := h
  rfl

theorem script : q.script = p.script := by
  obtain ⟨fs, es, rfl, -⟩ := h
  rfl

theorem functions : q.functions = p.functions := by
  obtain ⟨fs, es, rfl, -⟩ := h
  rfl

theorem actions : q.actions = p.actions := by
  obtain ⟨fs, es, rfl, -⟩ := h
  rfl

theorem isOpen : q.isOpen = p.isOpen := by
  rw [Processor.isOpen, h.session, Processor.isOpen]

theorem record? : q.record? = p.record? := by
  rw [Processor.record?, h.installation, Processor.record?]

theorem current : q.current = p.current := by
  rw [Processor.current, h.installation, Processor.current]

theorem line : q.line = p.line := by
  rw [Processor.line, h.inclusion, h.session, Processor.line]

theorem sees {s : Session} (ha : Away D p) (hs : p.session = some s) :
    s.reader.Sees p.files q.files :=
  fun id hid => h.files.outside id (ha s hs id hid)

theorem withFiles {fs fs' : Files} (hf : fs.Alike D fs') :
    Alike m D { p with files := fs } { q with files := fs' } := by
  obtain ⟨fs₁, es, rfl, hm, -, he⟩ := h
  exact ⟨fs', es, rfl, hm, hf, he⟩

theorem emit {e e' : Event} (he : e.Bears e') : Alike m D (p.emit e) (q.emit e') := by
  obtain ⟨fs, es, rfl, hm, hf, hes⟩ := h
  exact ⟨fs, es ++ [e'], rfl, hm, hf, List.rel_append hes (.cons he .nil)⟩

theorem tell (e : Event) : Alike m D (p.emit e) (q.emit e) := h.emit (.refl e)

theorem say (t : Text) : Alike m D (p.say t) (q.say t) :=
  h.update (Processor.say t) (fun _ _ => rfl) rfl rfl rfl

theorem request (a : HostAction) : Alike m D (p.request a) (q.request a) :=
  h.update (Processor.request a) (fun _ _ => rfl) rfl rfl rfl

theorem setReader (reader : LineReader) : Alike m D (p.setReader reader) (q.setReader reader) :=
  h.update (Processor.setReader reader) (fun _ _ => rfl) rfl rfl rfl

theorem withSession (o : Option Session) :
    Alike m D { p with session := o } { q with session := o } :=
  h.update (fun p => { p with session := o }) (fun _ _ => rfl) rfl rfl rfl

theorem install (f : Option Installation → Option Installation) :
    Alike m D { p with installation := f p.installation }
      { q with installation := f q.installation } :=
  h.update (fun p => { p with installation := f p.installation }) (fun _ _ => rfl) rfl rfl rfl

theorem recordIn (r : Record) {e e' : Entry} (he : e.Bears e') (hid : e = e' ∨ D r.file) :
    Alike m D (p.recordIn r e) (q.recordIn r e') :=
  (h.withFiles (h.files.append he hid)).emit (.recorded r.path he)

theorem recordBears {e e' : Entry} (he : e.Bears e')
    (hid : e = e' ∨ ∀ r, p.record? = some r → D r.file) :
    Alike m D (p.record e) (q.record e') := by
  rw [Processor.record, Processor.record, h.record?]
  cases hr : p.record? with
  | none => exact h
  | some r => exact h.recordIn r he (hid.imp_right fun hD => hD r hr)

theorem record (e : Entry) : Alike m D (p.record e) (q.record e) :=
  h.recordBears (.refl e) (.inl rfl)

theorem closeRecord (b : Bool) : (q.closeRecord b).1 = (p.closeRecord b).1 ∧
    Alike m D (p.closeRecord b).2 (q.closeRecord b).2 := by
  rw [Processor.closeRecord, Processor.closeRecord, h.record?]
  cases p.record? with
  | none => exact ⟨rfl, h⟩
  | some r =>
    have hr := h.recordIn r (.refl (.closed b)) (.inl rfl)
    exact ⟨rfl, (hr.install _).tell _⟩

theorem teardown : Alike m D p.teardown q.teardown :=
  (h.closeRecord false).2.update (fun p => { p with
    inclusion := none, session := none, installation := none
    script := (p.installation.bind (·.chain.origin?)).or p.script
    valid := false, autoStart := false, installMode := false, functions := {} })
    (fun _ _ => rfl) rfl rfl rfl

theorem shut : Alike m D p.shut q.shut := h.update Processor.shut (fun _ _ => rfl) rfl rfl rfl

theorem opened (path : Path) (reader : LineReader) :
    Alike m D (p.opened path reader) (q.opened path reader) :=
  (h.update (fun p => { p with
    script := some path, session := some { reader }
    valid := true, autoStart := false, functions := {}
    installation := p.installation.map Installation.forPackage }) (fun _ _ => rfl) rfl rfl rfl).tell
      _

theorem unopened (path : Path) (cause : Fault) :
    Alike m D (p.unopened path cause) (q.unopened path cause) := by
  have he := h.tell (.scriptUnreadable path cause)
  have hchained : (q.emit (.scriptUnreadable path cause)).isChained =
      (p.emit (.scriptUnreadable path cause)).isChained := by
    rw [isChained, he.installation, isChained]
  unfold Processor.unopened
  dsimp only
  rw [hchained]
  split
  · exact he.teardown
  · exact he.teardown.update (fun p => { p with script := none }) (fun _ _ => rfl) rfl rfl rfl

theorem advanceChain : (q.advanceChain).1 = (p.advanceChain).1 ∧
    Alike m D (p.advanceChain).2 (q.advanceChain).2 := by
  rw [Processor.advanceChain, Processor.advanceChain, h.installation]
  cases p.installation with
  | none => exact ⟨rfl, h⟩
  | some i =>
    dsimp only
    refine ⟨rfl, ?_⟩
    split
    · exact (h.tell _).install fun _ => some { i with chain := i.chain.advance.2 }
    · exact h.install fun _ => some { i with chain := i.chain.advance.2 }

theorem abort {e e' : Failure} (he : e.Bears e') : Alike m D (p.abort e) (q.abort e') := by
  rw [Processor.abort, Processor.abort, h.line]
  exact (h.emit (.aborted p.line he)).teardown

end Alike

end Processor

end ScriptFeed
