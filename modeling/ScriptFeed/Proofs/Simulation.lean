import ScriptFeed.Proofs.Counters
import ScriptFeed.Proofs.Trail

/-!
The same action on two processors that read the same script. A simulation is a relation between
processors that the single changes of the stages of a line keep; the stages are then taken abreast,
up to the point where the script is left.
-/

namespace ScriptFeed

def Package.Installation.apart (i : Package.Installation) : Package.Installation :=
  { i with chain := {} }

namespace Processor

open Package Comment

variable {α β γ : Type} {k : Nat} {C : Processor → Prop} {D : Nat → Prop}
  {R F P : Processor → Processor → Prop} {p q : Processor}

/-- Both actions fail in the same way, or succeed with the same result, or each has left the script
in its own way and comes to a result for which nothing is left to do. -/
def Abreast (F P : Processor → Processor → Prop) (x y : Action α) (p q : Processor) (L : α → Prop)
    (Q : α → Processor → Processor → Prop) : Prop :=
  (∃ e p' q', x p = .error e p' ∧ y q = .error e q' ∧ F p' q') ∨
  (∃ a p' q', x p = .ok a p' ∧ y q = .ok a q' ∧ Q a p' q') ∨
  P (stateOf (x p)) (stateOf (y q)) ∧ Ends x p (fun a _ => L a) (fun _ _ => True) ∧
    Ends y q (fun a _ => L a) (fun _ _ => True)

def Never : α → Prop := fun _ => False

namespace Abreast

variable {x y : Action α} {L : α → Prop} {Q Q' : α → Processor → Processor → Prop}

theorem mono (h : Abreast F P x y p q L Q) (hQ : ∀ a p' q', Q a p' q' → Q' a p' q') :
    Abreast F P x y p q L Q' := by
  rcases h with he | ⟨a, p', q', hx, hy, ha⟩ | hleft
  · exact .inl he
  · exact .inr (.inl ⟨a, p', q', hx, hy, hQ a p' q' ha⟩)
  · exact .inr (.inr hleft)

theorem left_bind {f : α → Action β} {L' : β → Prop}
    (h : Ends x p (fun a _ => L a) (fun _ _ => True))
    (hf : ∀ a, L a → ∃ b, L' b ∧ f a = Pure.pure b) :
    stateOf ((x >>= f) p) = stateOf (x p) ∧
      Ends (x >>= f) p (fun b _ => L' b) (fun _ _ => True) := by
  unfold Ends at h ⊢
  rw [bind_run]
  cases hx : x p with
  | error e p' => exact ⟨rfl, trivial⟩
  | ok a p' =>
    simp only [hx] at h
    obtain ⟨b, hb, he⟩ := hf a h
    simp only [he, pure_run]
    exact ⟨rfl, hb⟩

theorem bind {f g : α → Action β} {L' : β → Prop} {R : β → Processor → Processor → Prop}
    (h : Abreast F P x y p q L Q)
    (hf : ∀ a p' q', Q a p' q' → Abreast F P (f a) (g a) p' q' L' R)
    (hL : ∀ a, L a → ∃ b, L' b ∧ f a = Pure.pure b ∧ g a = Pure.pure b) :
    Abreast F P (x >>= f) (y >>= g) p q L' R := by
  rcases h with ⟨e, p', q', hx, hy, he⟩ | ⟨a, p', q', hx, hy, ha⟩ | ⟨hP, hx, hy⟩
  · exact .inl ⟨e, p', q', bind_error hx f, bind_error hy g, he⟩
  · unfold Abreast Ends
    rw [bind_ok hx, bind_ok hy]
    exact hf a p' q' ha
  · obtain ⟨hsx, hex⟩ := left_bind (f := f) hx fun a ha =>
      (hL a ha).imp fun b hb => ⟨hb.1, hb.2.1⟩
    obtain ⟨hsy, hey⟩ := left_bind (f := g) hy fun a ha =>
      (hL a ha).imp fun b hb => ⟨hb.1, hb.2.2⟩
    refine .inr (.inr ⟨?_, hex, hey⟩)
    rw [hsx, hsy]
    exact hP

theorem next {f g : α → Action β} {L : β → Prop} {R : β → Processor → Processor → Prop}
    (h : Abreast F P x y p q Never Q)
    (hf : ∀ a p' q', Q a p' q' → Abreast F P (f a) (g a) p' q' L R) :
    Abreast F P (x >>= f) (y >>= g) p q L R :=
  h.bind hf fun _ ha => ha.elim

theorem pure {a : α} (h : Q a p q) : Abreast F P (pure a) (pure a) p q L Q :=
  .inr (.inl ⟨a, p, q, rfl, rfl, h⟩)

theorem throw (e : Failure) (h : F p q) : Abreast F P (throw e : Action α) (throw e) p q L Q :=
  .inl ⟨e, p, q, rfl, rfl, h⟩

theorem get {f g : Processor → Action α} (h : Abreast F P (f p) (g q) p q L Q) :
    Abreast F P (get >>= f) (get >>= g) p q L Q := h

theorem set {p' q' : Processor} {L : PUnit → Prop} {Q : PUnit → Processor → Processor → Prop}
    (h : Q ⟨⟩ p' q') : Abreast F P (set p') (set q') p q L Q :=
  .inr (.inl ⟨⟨⟩, p', q', rfl, rfl, h⟩)

theorem modify {f g : Processor → Processor} {L : PUnit → Prop}
    {Q : PUnit → Processor → Processor → Prop} (h : Q ⟨⟩ (f p) (g q)) :
    Abreast F P (modify f) (modify g) p q L Q :=
  .inr (.inl ⟨⟨⟩, f p, g q, rfl, rfl, h⟩)

theorem lift_map {x : Except Fault α} (g : α → γ) {f : α → Action β} {f' : γ → Action β}
    {L : β → Prop} {Q : β → Processor → Processor → Prop} (h : F p q)
    (hx : ∀ a, x = .ok a → Abreast F P (f a) (f' (g a)) p q L Q) :
    Abreast F P (lift x >>= f) (lift (x.map g) >>= f') p q L Q := by
  cases x with
  | error e => exact .inl ⟨.files e, p, q, rfl, rfl, h⟩
  | ok a => exact hx a rfl

theorem lift {x : Except Fault α} {f g : α → Action β} {L : β → Prop}
    {Q : β → Processor → Processor → Prop} (h : F p q)
    (hx : ∀ a, x = .ok a → Abreast F P (f a) (g a) p q L Q) :
    Abreast F P (lift x >>= f) (lift x >>= g) p q L Q := by
  cases x with
  | error e => exact .inl ⟨.files e, p, q, rfl, rfl, h⟩
  | ok a => exact hx a rfl

end Abreast

/-- `R` relates processors while they read the same script, `F` after the same failure, `P` when
each has left the script in its own way. The counter of the second may be ahead by `k`, and files
may differ in the logs `D`; `C` allows a script to be closed, and holds when a license was
declined. -/
structure Simulation (k : Nat) (C : Processor → Prop) (D : Nat → Prop)
    (R F P : Processor → Processor → Prop) : Prop where
  failed : ∀ {p q}, R p q → F p q
  session : ∀ {p q}, R p q → q.session = p.session.map (Session.ahead k)
  inclusion : ∀ {p q}, R p q → q.inclusion = p.inclusion
  installMode : ∀ {p q}, R p q → q.installMode = p.installMode
  settings : ∀ {p q}, R p q → q.settings = p.settings
  now : ∀ {p q}, R p q → q.now = p.now
  current : ∀ {p q}, R p q → q.current.apart = p.current.apart
  files : ∀ {p q}, R p q → p.files.Alike D q.files
  sees : ∀ {p q s}, R p q → p.session = some s → s.reader.Sees p.files q.files
  emit : ∀ {p q e}, R p q → e.session? = none → R (p.emit e) (q.emit e)
  started : ∀ {p q}, R p q → R (p.emit (.installationStarted p.shortName))
    (q.emit (.installationStarted q.shortName))
  skipped : ∀ {p q} n, R p q →
    R (p.emit (.sectionSkipped n)) (q.emit (.sectionSkipped (n + k)))
  say : ∀ {p q} t, R p q → R (p.say t) (q.say t)
  request : ∀ {p q} a, R p q → R (p.request a) (q.request a)
  remember : ∀ {p q} t, R p q → R { p with header := t } { q with header := t }
  read : ∀ {p q s r} b, R p q → p.session = some s → s.reader.Reads p.files r →
    R { p with session := some ⟨r, b⟩ } { q with session := some ⟨r.ahead k, b⟩ }
  serve : ∀ {p q} b, R p q → R { p with lastServed := b } { q with lastServed := b }
  «include» : ∀ {p q} i, R p q → R { p with inclusion := i } { q with inclusion := i }
  install : ∀ {p q} (i : Installation), R p q →
    R { p with installation := some { i with chain := p.current.chain } }
      { q with installation := some { i with chain := q.current.chain } }
  leaveProcedure : ∀ {p q}, R p q → R (p.setInProcedure false) (q.setInProcedure false)
  queue : ∀ {p q} path, R p q → R (p.queue path) (q.queue path)
  ask : ∀ {p q} question, R p q →
    (q.ask question).2.accepts (q.ask question).1 =
        (p.ask question).2.accepts (p.ask question).1 ∧
      R (p.ask question).2 (q.ask question).2
  write : ∀ {p q fs fs'}, R p q → fs.Alike D fs' → R { p with files := fs } { q with files := fs' }
  declined : ∀ {p q} name, R p q → C (p.emit (.licenseDeclined name))
  close : ∀ {p q}, C p → R p q → Abreast F P close close p q (fun _ => True) (fun _ => F)

theorem installation_of_record {r : Record} (h : p.record? = some r) :
    p.installation = some p.current := by
  cases hi : p.installation with
  | none => simp [record?, hi] at h
  | some i => simp [current, hi]

theorem any_quiet (p : Processor) : p.installation.any (·.quiet) = p.current.quiet := by
  unfold current
  cases p.installation <;> rfl

theorem any_inProcedure (p : Processor) :
    p.installation.any (·.inProcedure) = p.current.inProcedure := by
  unfold current
  cases p.installation <;> rfl

theorem bind_echo? (p : Processor) (t : Text) :
    p.installation.bind (·.echo? t) = p.current.apart.echo? t := by
  unfold current
  cases p.installation <;> rfl

namespace Simulation

variable (S : Simulation k C D R F P)
include S

theorem record? (h : R p q) : q.record? = p.record? := by
  have hrecord := congrArg Installation.record (S.current h)
  rw [record?_eq_current, record?_eq_current]
  exact hrecord

theorem quiet (h : R p q) : q.installation.any (·.quiet) = p.installation.any (·.quiet) := by
  have hquiet := congrArg Installation.quiet (S.current h)
  rw [any_quiet, any_quiet]
  exact hquiet

theorem keepsDocs (h : R p q) : q.keepsDocs = p.keepsDocs := by
  have hin : q.current.inProcedure = p.current.inProcedure := by
    have hin := congrArg Installation.inProcedure (S.current h)
    exact hin
  unfold Processor.keepsDocs
  rw [any_inProcedure, any_inProcedure, S.installMode h, hin]

theorem noted (h : R p q) (docMark t : Text) (notes : Notes) :
    q.noted docMark t notes = p.noted docMark t notes := by
  rw [Processor.noted, S.installMode h, Processor.noted]

theorem dropLineComment (h : R p q) (t : Text) (notes : Notes) :
    q.dropLineComment t notes = p.dropLineComment t notes := by
  rw [Processor.dropLineComment, S.noted h, S.keepsDocs h, Processor.dropLineComment]

theorem packagePath? (h : R p q) : q.packagePath? = p.packagePath? := by
  funext name
  simp only [Processor.packagePath?, S.settings h, (S.files h).isFile]

theorem adjust (f : Installation → Installation) (hc : ∀ i, (f i).chain = i.chain)
    (hf : ∀ i, (f i).apart = (f i.apart).apart) (h : R p q) :
    R { p with installation := some (f p.current) }
      { q with installation := some (f q.current) } := by
  have hp (i : Installation) : { (f i).apart with chain := i.chain } = f i := by
    rw [← hc i]
    rfl
  have hq : (f q.current).apart = (f p.current).apart := by rw [hf, S.current h, ← hf]
  have hset := S.install (f p.current).apart h
  rw [hp] at hset
  rwa [← hq, hp] at hset

theorem setReader {s : Session} {r : LineReader} (h : R p q) (hs : p.session = some s)
    (hr : s.reader.Reads p.files r) : R (p.setReader r) (q.setReader (r.ahead k)) := by
  have hset := S.read s.inComment h hs hr
  unfold Processor.setReader
  rwa [S.session h, hs]

theorem record (h : R p q) (e : Entry) : R (p.record e) (q.record e) := by
  unfold Processor.record
  rw [S.record? h]
  cases p.record? with
  | none => exact h
  | some r =>
    exact S.emit (S.write h ((S.files h).append (.refl e) (.inl rfl))) rfl

theorem closeRecord (h : R p q) (b : Bool) : (q.closeRecord b).1 = (p.closeRecord b).1 ∧
    R (p.closeRecord b).2 (q.closeRecord b).2 := by
  have hrec := S.record? h
  unfold Processor.closeRecord
  rw [hrec]
  cases hr : p.record? with
  | none => exact ⟨rfl, h⟩
  | some r =>
    refine ⟨rfl, ?_⟩
    have hwritten : R (p.recordIn r (.closed b)) (q.recordIn r (.closed b)) :=
      S.emit (S.write h ((S.files h).append (.refl _) (.inl rfl))) rfl
    have hset :=
      S.adjust (fun i => { i with record := none }) (fun _ => rfl) (fun _ => rfl) hwritten
    have hp : (p.recordIn r (.closed b)).installation = some p.current := installation_of_record hr
    have hq : (q.recordIn r (.closed b)).installation = some q.current :=
      installation_of_record (hrec.trans hr)
    dsimp only
    rw [hp, hq]
    exact S.emit hset rfl

theorem concludeRecord (h : R p q) (b : Bool) :
    R (p.concludeRecord b) (q.concludeRecord b) := by
  obtain ⟨hclosed, hR⟩ := S.closeRecord h b
  unfold Processor.concludeRecord
  dsimp only
  rw [hclosed, S.quiet hR]
  split
  · exact S.say _ hR
  · exact hR

theorem foldl_queue (packages : List Path) (h : R p q) :
    R (packages.foldl Processor.queue p) (packages.foldl Processor.queue q) := by
  induction packages generalizing p q with
  | nil => exact h
  | cons package packages ih => exact ih (S.queue package h)

theorem admitHeader (header : Header) (h : R p q) :
    R (p.admitHeader header) (q.admitHeader header) := by
  have hset := S.adjust (fun i => i.apply header) (fun _ => rfl) (fun _ => rfl) h
  have hquiet : (q.current.apply header).quiet = (p.current.apply header).quiet :=
    congrArg (fun i => (i.apply header).quiet) (S.current h)
  unfold Processor.admitHeader
  dsimp only
  rw [hquiet]
  split
  · exact S.remember _ hset
  · split
    · exact S.remember _ (S.request _ (S.record hset _))
    · exact S.remember _ (S.request _ (S.record (S.say _ hset) _))

theorem recording (r : Record) {fs fs' : Files} (h : R p q) (hf : fs.Alike D fs') :
    R (p.recording r fs) (q.recording r fs') := by
  have hstamp : Event.recorded r.path (.opened q.now) = .recorded r.path (.opened p.now) := by
    rw [S.now h]
  unfold Processor.recording
  rw [hstamp]
  exact S.emit (S.emit (S.write h hf) rfl) rfl

theorem begin (r : Record) {fs fs' : Files} (h : R p q) (hf : fs.Alike D fs') :
    R (p.begin r fs) (q.begin r fs') := by
  have hclosed := S.record (S.recording r h hf) (.closed false)
  have htaken := S.adjust (fun i => i.take r) (fun _ => rfl) (fun _ => rfl) hclosed
  rw [begin_eq, begin_eq]
  exact S.started htaken

theorem enterProcedure (h : R p q) (hr : p.record?.isSome = true) :
    R (p.setInProcedure true) (q.setInProcedure true) := by
  obtain ⟨r, hr⟩ := Option.isSome_iff_exists.mp hr
  have hset := S.adjust (fun i => { i with inProcedure := true }) (fun _ => rfl) (fun _ => rfl) h
  unfold setInProcedure
  rw [installation_of_record hr, installation_of_record ((S.record? h).trans hr)]
  exact hset

theorem announce (h : R p q) (hr : p.record?.isSome = true) (t : Text) :
    R (p.announce t) (q.announce t) := by
  unfold Processor.announce
  cases Keyword.procedureName? t with
  | none => exact h
  | some name =>
    have hrec := S.record (S.enterProcedure h hr) (.installing name)
    dsimp only
    rw [S.quiet hrec]
    split
    · exact hrec
    · exact S.say _ hrec

theorem recordEcho (h : R p q) (t : Text) : R (p.recordEcho t) (q.recordEcho t) := by
  have hecho : q.installation.bind (·.echo? t) = p.installation.bind (·.echo? t) := by
    rw [bind_echo?, bind_echo?]
    exact congrArg (·.echo? t) (S.current h)
  unfold Processor.recordEcho
  rw [hecho]
  split
  · exact S.record h _
  · exact h

theorem echoLine (h : R p q) (t : Text) : R (p.echoLine t) (q.echoLine t) := by
  unfold Processor.echoLine
  rw [S.record? h]
  cases hr : p.record? with
  | none => exact h
  | some r =>
    have hecho := S.recordEcho (S.announce h (by simp [hr]) t) t
    simp only [Option.isNone_some, Bool.false_eq_true, if_false]
    split
    · exact S.leaveProcedure hecho
    · exact hecho

theorem leaveSection (h : R p q) (t : Text) : (q.leaveSection t).1 = (p.leaveSection t).1 ∧
    R (p.leaveSection t).2 (q.leaveSection t).2 := by
  have hleft := S.leaveProcedure (S.concludeRecord h true)
  unfold Processor.leaveSection
  split
  · dsimp only
    split <;> exact ⟨rfl, hleft⟩
  · exact ⟨rfl, h⟩

theorem dropBlockComments (h : R p q) (t : Text) (notes : Notes) :
    (q.dropBlockComments t notes).1 = (p.dropBlockComments t notes).1 ∧
      (q.dropBlockComments t notes).2.1 = (p.dropBlockComments t notes).2.1 ∧
      R (p.dropBlockComments t notes).2.2 (q.dropBlockComments t notes).2.2 := by
  unfold Processor.dropBlockComments
  rw [S.noted h, S.session h, S.keepsDocs h]
  split
  · cases hs : p.session with
    | none => exact ⟨rfl, rfl, h⟩
    | some s => exact ⟨rfl, rfl, S.read _ h hs (.refl _ _)⟩
  · exact ⟨rfl, rfl, h⟩

theorem leaveLine (h : R p q) (t : Text) (notes : Notes) :
    (q.leaveLine t notes).1 = (p.leaveLine t notes).1 ∧
      R (p.leaveLine t notes).2 (q.leaveLine t notes).2 := by
  obtain ⟨hrest, hleft⟩ := S.leaveSection h t
  unfold Processor.leaveLine
  generalize p.leaveSection t = x at hrest hleft ⊢
  generalize q.leaveSection t = y at hrest hleft ⊢
  obtain ⟨rest, p₁⟩ := x
  obtain ⟨rest', q₁⟩ := y
  obtain rfl : rest' = rest := hrest
  cases rest' with
  | none => exact ⟨rfl, hleft⟩
  | some u =>
    obtain ⟨htext, hnotes, hdropped⟩ := S.dropBlockComments hleft u notes
    dsimp only at htext hnotes ⊢
    rw [htext, hnotes]
    exact ⟨rfl, hdropped⟩

end Simulation

theorem recordStart_together {fs fs' : Files} (h : fs.Alike D fs') (path : Path) (stamp : Text) :
    Together (fun x y => x.1 = y.1 ∧ x.2.Alike D y.2) (Record.start path stamp fs)
      (Record.start path stamp fs') := by
  unfold Record.start
  rcases h.openWrite path with ⟨e, hx, hy⟩ | ⟨⟨id, g⟩, ⟨id', g'⟩, hx, hy, rfl, hg⟩
  · rw [hx, hy]
    exact .inl ⟨e, rfl, rfl⟩
  · rw [hx, hy]
    exact .inr ⟨_, _, rfl, rfl, rfl, hg.append (.refl _) (.inl rfl)⟩

theorem article_readBody_congr {fs fs' : Files} {r : LineReader} (h : r.Sees fs fs') (line : Text) :
    Article.readBody fs' line r = Article.readBody fs line r := by
  unfold Article.readBody
  rw [LineReader.through_congr h]

theorem layout_readBody_congr {fs fs' : Files} {r : LineReader} (h : r.Sees fs fs') (l : Layout) :
    l.readBody fs' r = l.readBody fs r := by
  unfold Layout.readBody
  rw [LineReader.through_congr h]

theorem save_alike {fs fs' : Files} (h : fs.Alike D fs') (docs : Path) (id document : Text) :
    (Article.save fs' docs id document).1 = (Article.save fs docs id document).1 ∧
      (Article.save fs docs id document).2.Alike D (Article.save fs' docs id document).2 := by
  obtain ⟨ho, hdirs⟩ := h.createDirectories docs
  unfold Article.save
  generalize fs.createDirectories docs = x at ho hdirs ⊢
  generalize fs'.createDirectories docs = y at ho hdirs ⊢
  obtain ⟨o, g⟩ := x
  obtain ⟨o', g'⟩ := y
  obtain rfl : o' = o := ho
  cases o' with
  | error e => exact ⟨rfl, hdirs⟩
  | ok u =>
    dsimp only at hdirs ⊢
    rcases hdirs.write (Article.pathOf docs id) (Utf8.encode document) with
      ⟨e, hx, hy⟩ | ⟨a, b, hx, hy, hab⟩
    · rw [hx, hy]
      exact ⟨rfl, hdirs⟩
    · rw [hx, hy]
      exact ⟨rfl, hab⟩

section Stages

variable (S : Simulation k C D R F P)
include S

theorem assemble_abreast (h : R p q) (line : Text) :
    Abreast F P (assemble line) (assemble line) p q Never (fun _ => R) := by
  unfold assemble
  split
  · exact .pure h
  · apply Abreast.get
    rw [S.session h]
    cases hs : p.session with
    | none => exact .pure h
    | some s =>
      dsimp only [Option.map_some, Session.ahead_reader]
      rw [LineReader.through_ahead, LineReader.through_congr (S.sees h hs)]
      apply Abreast.lift_map _ (S.failed h)
      rintro ⟨passage, reader⟩ hx
      apply Abreast.next (Q := fun _ => R)
      · exact .modify (S.setReader h hs (LineReader.through_reads hx))
      · rintro - p q h
        exact .pure h

theorem agree_abreast (h : R p q) (header : Header) :
    Abreast F P (agree header) (agree header) p q Never (fun _ => R) := by
  unfold agree
  cases header.license with
  | none => exact .pure h
  | some license =>
    apply Abreast.next (Q := fun _ => R)
    · exact .modify (S.say _ h)
    · rintro - p q h
      apply Abreast.get
      let question := licenseMessage header.name license
      obtain ⟨haccepts, hasked⟩ := S.ask question h
      apply Abreast.next (Q := fun _ => R)
      · exact .set hasked
      · rintro - p' q' h
        change Abreast F P (pure ((p.ask question).2.accepts (p.ask question).1))
          (pure ((q.ask question).2.accepts (q.ask question).1)) p' q' _ _
        rw [haccepts]
        exact .pure h

theorem readHeader_abreast (h : R p q) (line : Text) :
    Abreast F P (readHeader line) (readHeader line) p q (· = none)
      (fun rest p' q' => F p' q' ∧ (rest.isSome = true → R p' q')) := by
  unfold readHeader
  apply (assemble_abreast S h line).next
  rintro t p q h
  cases splitInfo? t with
  | none => exact .throw _ (S.failed h)
  | some x =>
    obtain ⟨header, rest⟩ := x
    let packages := (Header.parse header).packages.filterMap p.packagePath?
    have hqueued : R (packages.foldl Processor.queue { p with installation := some p.current })
        (packages.foldl Processor.queue { q with installation := some q.current }) :=
      S.foldl_queue packages (S.adjust id (fun _ => rfl) (fun _ => rfl) h)
    apply Abreast.next (Q := fun _ => R)
    · apply Abreast.modify
      rw [S.packagePath? h]
      exact hqueued
    · rintro - p q h
      apply Abreast.get
      rw [S.settings h]
      dsimp only
      split
      · exact .throw _ (S.failed h)
      · apply (agree_abreast S h _).next
        intro accepted p q h
        split
        · apply Abreast.next (Q := fun _ => R)
          · exact .modify (S.admitHeader _ h)
          · rintro - p q h
            exact .pure ⟨S.failed h, fun _ => h⟩
        · have hsaid := S.say abortMessage h
          apply Abreast.next (Q := fun _ p q => C p ∧ R p q)
          · exact .modify ⟨S.declined _ hsaid, S.emit hsaid rfl⟩
          · rintro - p q ⟨hC, h⟩
            apply (S.close hC h).bind
            · rintro - p q h
              exact .pure ⟨h, by simp⟩
            · rintro - -
              exact ⟨none, rfl, rfl, rfl⟩

theorem startInstall_abreast (h : R p q) (line : Text) :
    Abreast F P (startInstall line) (startInstall line) p q (· = none)
      (fun rest p' q' => F p' q' ∧ (rest.isSome = true → R p' q')) := by
  unfold startInstall
  apply Abreast.get
  rw [S.settings h, S.now h]
  rcases recordStart_together (S.files h) p.settings.log p.now with
    ⟨e, hx, hy⟩ | ⟨⟨r, fs⟩, ⟨r', fs'⟩, hx, hy, rfl, hf⟩
  · rw [hx, hy]
    exact .throw _ (S.failed h)
  · rw [hx, hy]
    have hset : Abreast F P (set (p.begin r fs)) (set (q.begin r fs')) p q Never (fun _ => R) :=
      .set (S.begin r h hf)
    apply hset.next
    intro _ p q h
    dsimp only
    split
    · exact readHeader_abreast S h _
    · exact .pure ⟨S.failed h, by simp⟩

theorem skipSection_abreast (h : R p q) :
    Abreast F P skipSection skipSection p q Never (fun _ => R) := by
  unfold skipSection
  apply Abreast.get
  rw [S.session h]
  cases hs : p.session with
  | none => exact .pure h
  | some s =>
    dsimp only [Option.map_some, Session.ahead_reader]
    rw [LineReader.through_ahead, LineReader.through_congr (S.sees h hs)]
    apply Abreast.lift_map _ (S.failed h)
    rintro ⟨passage, reader⟩ hx
    exact .modify (S.skipped reader.line (S.setReader h hs (LineReader.through_reads hx)))

theorem enterSection_abreast (h : R p q) (t : Text) :
    Abreast F P (enterSection t) (enterSection t) p q (· = none)
      (fun rest p' q' => F p' q' ∧ (rest.isSome = true → R p' q')) := by
  unfold enterSection
  split
  · apply Abreast.get
    rw [S.installMode h]
    split
    · exact startInstall_abreast S h t
    · apply (skipSection_abreast S h).next
      rintro - p q h
      exact .pure ⟨S.failed h, by simp⟩
  · exact .pure ⟨S.failed h, fun _ => h⟩

theorem enterHeader_abreast (h : R p q) (t : Text) :
    Abreast F P (enterHeader t) (enterHeader t) p q (· = none)
      (fun rest p' q' => F p' q' ∧ (rest.isSome = true → R p' q')) := by
  unfold enterHeader
  apply Abreast.get
  rw [S.installMode h]
  split
  · exact readHeader_abreast S h t
  · exact .pure ⟨S.failed h, fun _ => h⟩

theorem writeHelp_abreast (h : R p q) (line : Text) :
    Abreast F P (writeHelp line) (writeHelp line) p q Never (fun _ => R) := by
  unfold writeHelp
  apply Abreast.get
  rw [S.session h]
  cases hs : p.session with
  | none => exact .pure h
  | some s =>
    dsimp only [Option.map_some, Session.ahead_reader]
    rw [Article.readBody_ahead, article_readBody_congr (S.sees h hs)]
    apply Abreast.lift_map _ (S.failed h)
    rintro ⟨body, reader⟩ hx
    dsimp only [Prod.map_apply, id_eq]
    apply Abreast.next (Q := fun _ => R)
    · exact .modify (S.setReader h hs (article_readBody_reads hx))
    · rintro - p q h
      apply Abreast.get
      have hid : q.current.id = p.current.id := by
        have hid := congrArg Installation.id (S.current h)
        exact hid
      have hhelp : q.current.help = p.current.help := by
        have hhelp := congrArg Installation.help (S.current h)
        exact hhelp
      have hdocs : q.settings.docs = p.settings.docs := by rw [S.settings h]
      rw [hid]
      split
      · exact .set (S.emit h rfl)
      next id _ =>
        rw [hdocs]
        obtain ⟨hout, hsaved⟩ := save_alike (S.files h) p.settings.docs id
          (Article.collect body p.current.id).document
        have hfiles := S.write h hsaved
        apply Abreast.next (Q := fun _ => R)
        · exact .set hfiles
        · rintro - p' q' h'
          rw [hout]
          split
          · exact .throw _ (S.failed h')
          · have hlink : (Processor.current { q with files := (Article.save q.files p.settings.docs
                id (Article.collect body p.current.id).document).2 }).help.getD id =
                p.current.help.getD id := congrArg (·.getD id) hhelp
            have hset := S.adjust (fun i => { i with help := some (p.current.help.getD id) })
              (fun _ => rfl) (fun _ => rfl) hfiles
            apply Abreast.set
            rw [hlink]
            exact S.request _ (S.request _ (S.emit hset rfl))

theorem saveLayout_abreast (h : R p q) (line : Text) (layout : Layout) :
    Abreast F P (saveLayout line layout) (saveLayout line layout) p q Never (fun _ => R) := by
  unfold saveLayout
  have hnotice : R (if layout.complete then p else p.emit (.layoutOpen layout.file))
      (if layout.complete then q else q.emit (.layoutOpen layout.file)) := by
    split
    · exact h
    · exact S.emit h rfl
  apply Abreast.next (Q := fun _ => R)
  · exact .modify hnotice
  · rintro - p q h
    apply Abreast.get
    have hpath : layout.path q.settings.roots = layout.path p.settings.roots := by rw [S.settings h]
    rw [hpath]
    dsimp only
    rcases (S.files h).write (layout.path p.settings.roots) (Utf8.encode layout.render) with
      ⟨e, hx, hy⟩ | ⟨fs, fs', hx, hy, hf⟩
    · rw [hx, hy]
      exact .throw _ (S.failed h)
    · rw [hx, hy]
      apply Abreast.next (Q := fun _ => R)
      · exact .set (S.emit (S.write h hf) rfl)
      · rintro - p q h
        exact .pure h

theorem writeLayout_abreast (h : R p q) (line : Text) :
    Abreast F P (writeLayout line) (writeLayout line) p q Never (fun _ => R) := by
  unfold writeLayout
  cases Layout.parse? line with
  | none => exact .pure h
  | some layout =>
    apply Abreast.get
    rw [S.session h]
    cases hs : p.session with
    | none =>
      apply (saveLayout_abreast S h line layout).next
      rintro command p q h
      exact .pure h
    | some s =>
      dsimp only [Option.map_some, Session.ahead_reader]
      rw [Layout.readBody_ahead, layout_readBody_congr (S.sees h hs)]
      apply Abreast.lift_map _ (S.failed h)
      rintro ⟨layout', reader⟩ hx
      apply Abreast.next (Q := fun _ => R)
      · exact .modify (S.setReader h hs (layout_readBody_reads hx))
      · rintro - p q h
        apply (saveLayout_abreast S h line layout').next
        rintro command p q h
        exact .pure h

theorem leaveComment_abreast (h : R p q) (t : Text) (notes : Notes) :
    Abreast F P (leaveComment t notes) (leaveComment t notes) p q Never (fun _ => R) := by
  unfold leaveComment
  apply Abreast.get
  rw [S.session h]
  cases hs : p.session with
  | none => exact .pure h
  | some s =>
    dsimp only [Option.map_some, Session.ahead]
    split
    · apply Abreast.next (Q := fun _ => R)
      · exact .set (S.read _ h hs (.refl _ _))
      · rintro - p q h
        exact .pure h
    · exact .pure h

theorem writeFiles_abreast {L : Entered → Prop} (h : R p q) (t : Text) (notes : Notes) :
    Abreast F P (writeFiles t notes) (writeFiles t notes) p q L
      (fun x p' q' => R p' q' ∧ x ≠ .used .stop) := by
  unfold writeFiles
  apply Abreast.get
  rw [S.installMode h]
  dsimp only
  split
  · apply (writeHelp_abreast S h t).next
    rintro - p q h
    exact .pure ⟨h, by simp⟩
  · split
    · apply (writeLayout_abreast S h t).next
      rintro command p q h
      cases command with
      | none => exact .pure ⟨h, by simp⟩
      | some c => exact .pure ⟨h, by simp⟩
    · exact .pure ⟨h, by simp⟩

theorem enterLine_abreast (h : R p q) (t : Text) (notes : Notes) :
    Abreast F P (enterLine t notes) (enterLine t notes) p q (fun x => ∃ n, x = .used (.nothing n))
      (fun x p' q' => F p' q' ∧ (x.goesOn = true → R p' q') ∧ x ≠ .used .stop) := by
  have hused {p q : Processor} (h : F p q) (n : Notes) : Abreast F P
      (pure (.used (.nothing n)) : Action Entered) (pure (.used (.nothing n))) p q
      (fun x => ∃ n, x = .used (.nothing n))
      (fun x p' q' => F p' q' ∧ (x.goesOn = true → R p' q') ∧ x ≠ .used .stop) :=
    .pure ⟨h, by simp [Entered.goesOn], by simp⟩
  unfold enterLine
  apply (leaveComment_abreast S h t notes).next
  rintro ⟨rest, notes₁⟩ p q h
  dsimp only
  cases rest with
  | none => exact hused (S.failed h) notes₁
  | some t₁ =>
    apply Abreast.get
    rw [S.dropLineComment h]
    cases p.dropLineComment t₁ notes₁ with
    | mk rest notes₂ =>
      cases rest with
      | none => exact hused (S.failed h) notes₂
      | some t₂ =>
        apply (enterSection_abreast S h t₂).bind
        · rintro rest p q ⟨hF, hR⟩
          cases rest with
          | none => exact hused hF notes₂
          | some t₃ =>
            apply (enterHeader_abreast S (hR rfl) t₃).bind
            · rintro rest p q ⟨hF, hR⟩
              cases rest with
              | none => exact hused hF notes₂
              | some t₄ =>
                exact (writeFiles_abreast S (hR rfl) t₄ notes₂).mono fun _ _ _ h =>
                  ⟨S.failed h.1, fun _ => h.1, h.2⟩
            · rintro rest rfl
              exact ⟨_, ⟨notes₂, rfl⟩, rfl, rfl⟩
        · rintro rest rfl
          exact ⟨_, ⟨notes₂, rfl⟩, rfl, rfl⟩

theorem readText_abreast (h : R p q) (t : Text) (notes : Notes) :
    Abreast F P (readText t notes) (readText t notes) p q (fun r => ∃ n, r = .nothing n)
      (fun r p' q' => F p' q' ∧ ((∀ n, r ≠ .nothing n) → R p' q')) := by
  unfold readText
  apply (enterLine_abreast S h t notes).bind
  · rintro x p q ⟨hF, hR, hstop⟩
    cases x with
    | used r =>
      refine .pure ⟨hF, fun hr => hR ?_⟩
      cases r with
      | nothing n => exact absurd rfl (hr n)
      | line u => rfl
      | stop => exact absurd rfl hstop
    | text u notes =>
      apply Abreast.get
      obtain ⟨hread, hleft⟩ := S.leaveLine (hR rfl) u notes
      dsimp only
      rw [hread]
      apply Abreast.next (Q := fun _ => R)
      · exact .set hleft
      · rintro - p q h
        exact .pure ⟨S.failed h, fun _ => h⟩
  · rintro x ⟨n, rfl⟩
    exact ⟨.nothing n, ⟨n, rfl⟩, rfl, rfl⟩

theorem openInclusion_abreast (h : R p q) (m : Marker) (line : Text) :
    Abreast F P (openInclusion m line) (openInclusion m line) p q Never (fun _ => R) := by
  have hroots : q.settings.roots = p.settings.roots := by rw [S.settings h]
  have hopen : Inclusion.open q.files q.settings.roots m =
      Inclusion.open p.files p.settings.roots m := by
    rw [Inclusion.open, Inclusion.open, hroots, (S.files h).openFile]
  unfold openInclusion
  apply Abreast.get
  rw [hopen]
  cases Inclusion.open p.files p.settings.roots m with
  | error e =>
    dsimp only
    rw [hroots]
    exact .throw _ (S.failed h)
  | ok i => exact .set (S.emit (S.include (some i) h) rfl)

theorem closeAtEnd_abreast (hC : ∀ p, C p) (h : R p q) :
    Abreast F P closeAtEnd closeAtEnd p q (fun _ => True) (fun _ => F) := by
  have hincluding : q.isIncluding = p.isIncluding := by
    rw [isIncluding, S.inclusion h, isIncluding]
  unfold closeAtEnd
  apply Abreast.get
  rw [hincluding, S.session h]
  split
  · exact .pure (S.failed h)
  · cases hs : p.session with
    | none => exact .pure (S.failed h)
    | some s =>
      have hend : (s.ahead k).reader.atEnd q.files =
          ((s.reader.atEnd p.files).1, (s.reader.atEnd p.files).2.ahead k) := by
        rw [Session.ahead_reader, LineReader.atEnd_ahead, LineReader.atEnd_congr (S.sees h hs)]
      simp only [Option.map_some, hend]
      apply Abreast.next (Q := fun _ => R)
      · exact .set (S.setReader h hs (LineReader.atEnd_reads _ _))
      · rintro - p q h
        split
        · apply Abreast.next (Q := fun _ => R)
          · exact .modify (S.serve true h)
          · rintro - p q h
            exact S.close (hC p) h
        · exact .pure (S.failed h)

end Stages

end Processor

end ScriptFeed
