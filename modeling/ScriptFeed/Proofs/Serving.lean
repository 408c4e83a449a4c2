import ScriptFeed.Proofs.Beside
import ScriptFeed.Proofs.Failures

namespace ScriptFeed

theorem Files.Grows.exists {fs fs' : Files} (h : fs.Grows fs') {path : Path}
    (he : fs.exists path = true) : fs'.exists path = true := by
  unfold Files.exists at he ⊢
  cases hf : fs.find path with
  | error e => simp [hf] at he
  | ok x => rw [h.find hf]

theorem LineReader.openFile_exists {fs : Files} {path : Path} {r : LineReader}
    (h : LineReader.openFile fs path = .ok r) : fs.exists path = true := by
  unfold Files.exists
  cases hf : fs.find path with
  | error e => simp [LineReader.openFile, hf, bind, Except.bind] at h
  | ok x => rfl

theorem LineReader.openFile_missing {fs : Files} {path : Path} {cause : Fault}
    (h : LineReader.openFile fs path = .error cause) : fs.exists path = false := by
  unfold Files.exists
  cases hf : fs.find path with
  | error e => rfl
  | ok x =>
    simp only [LineReader.openFile, hf, bind, Except.bind] at h
    split at h <;> simp at h

namespace Processor

open Package Comment

variable {b c p q p' q' : Processor} {notes notes' : Notes} {t : Text}

structure Answer where
  command : Text
  output : List Text
  actions : List HostAction

structure Answers (p : Processor) (a : Answer) (q : Processor) : Prop where
  next : p.next? = some (.ok a.command q)
  output : q.output = p.output ++ a.output
  actions : q.actions = p.actions ++ a.actions

structure Remains (p q : Processor) : Prop where
  isOpen : q.isOpen = true
  serial : q.serial = p.serial

inductive Serves : Processor → List Answer → Processor → Prop
  | refl (p : Processor) : Serves p [] p
  | tail {p q r : Processor} {as : List Answer} {a : Answer} (h : Serves p as q)
      (ha : Answers q a r) (hr : Remains q r) : Serves p (as ++ [a]) r

def isDone (p : Processor) : Bool :=
  !p.isIncluding && p.session.any fun s => (s.reader.atEnd p.files).1

def upcoming? (p : Processor) : Option Path := p.installation.bind fun i => i.chain.advance.1

/-- The package that is to be opened behind the last line and cannot be. -/
def obstacle? (p : Processor) : Option Path :=
  if p.isDone then p.upcoming?.filter fun path => !p.files.exists path else none

def peeked (p : Processor) : Processor :=
  match p.inclusion, p.session with
  | none, some s => p.setReader (s.reader.atEnd p.files).2
  | _, _ => p

structure Silent (p q : Processor) : Prop where
  output : q.output = p.output
  actions : q.actions = p.actions

theorem Silent.trans (h : Silent p q) (h' : Silent q p') : Silent p p' :=
  ⟨h'.output.trans h.output, h'.actions.trans h.actions⟩

theorem closeRecord_silent (p : Processor) (success : Bool) :
    Silent p (p.closeRecord success).2 := by
  unfold closeRecord
  split <;> exact ⟨rfl, rfl⟩

theorem teardown_silent (p : Processor) : Silent p p.teardown := by
  have h := closeRecord_silent p false
  exact ⟨h.output, h.actions⟩

theorem unopened_silent (path : Path) (cause : Fault) (p : Processor) :
    Silent p (p.unopened path cause) := by
  have h := teardown_silent (p.emit (.scriptUnreadable path cause))
  unfold unopened
  dsimp only
  split
  · exact ⟨h.output, h.actions⟩
  · exact ⟨h.output, h.actions⟩

theorem advanceChain_silent (p : Processor) : Silent p p.advanceChain.2 := by
  unfold advanceChain
  split
  · exact ⟨rfl, rfl⟩
  · dsimp only
    split <;> exact ⟨rfl, rfl⟩

theorem abort_silent (e : Failure) (p : Processor) : Silent p (p.abort e) := by
  have h := teardown_silent (p.emit (.scriptAborted e p.line))
  exact ⟨h.output, h.actions⟩

theorem closeRecord_upcoming? (p : Processor) (success : Bool) :
    (p.closeRecord success).2.upcoming? = p.upcoming? := by
  unfold closeRecord
  split
  · rfl
  · cases hi : p.installation with
    | none => simp [upcoming?, emit, recordIn, hi]
    | some i => simp [upcoming?, emit, recordIn, hi]

theorem closeRecord_exists (p : Processor) (success : Bool) (path : Path) :
    (p.closeRecord success).2.files.exists path = p.files.exists path := by
  unfold closeRecord
  cases p.record? with
  | none => rfl
  | some r =>
    have hgrows := Record.write_grows r (.closed success) p.files
    have hback : (r.write (.closed success) p.files).Grows p.files := ⟨rfl, id⟩
    exact Bool.eq_iff_iff.mpr ⟨hback.exists, hgrows.exists⟩

theorem advanceChain_upcoming? (p : Processor) : p.advanceChain.1 = p.upcoming? := by
  unfold advanceChain upcoming?
  cases p.installation <;> rfl

theorem close_upcoming (ho : p.isOpen = true) : Ends close p
    (fun _ q => Silent p q ∧ ∀ path, p.upcoming? = some path → p.files.exists path = true)
    (fun e q => Silent p q ∧ ∃ path, e = .scriptNotFound [] path ∧ p.upcoming? = some path ∧
      p.files.exists path = false) := by
  let p₁ := (p.shut.closeRecord false).2
  have hshut : Silent p p₁ :=
    Silent.trans (q := p.shut) ⟨rfl, rfl⟩ (closeRecord_silent p.shut false)
  have hmoved := hshut.trans (advanceChain_silent p₁)
  have hnext : p₁.advanceChain.1 = p.upcoming? :=
    (advanceChain_upcoming? p₁).trans (closeRecord_upcoming? p.shut false)
  refine close_ends ho ?_ ?_
  · intro p₂ ha
    rw [ha] at hmoved hnext
    have hdown := hmoved.trans (teardown_silent p₂)
    refine ⟨⟨hdown.output, hdown.actions⟩, ?_⟩
    intro path hpath
    exact absurd (hnext.trans hpath) (by simp)
  · intro path p₂ ha
    have hfiles : p₂.files = p₁.files := by
      obtain ⟨i, chain, -, -, rfl⟩ := advanceChain_some ha
      rfl
    have hexists : p₂.files.exists path = p.files.exists path := by
      rw [hfiles]
      exact closeRecord_exists p.shut false path
    rw [ha] at hmoved hnext
    refine openPath_ends ?_ ?_
    · intro r hr
      refine ⟨⟨hmoved.output, hmoved.actions⟩, ?_⟩
      intro path' hpath
      obtain rfl : path = path' := Option.some.inj (hnext.trans hpath)
      exact hexists.symm.trans (LineReader.openFile_exists hr)
    · intro cause hcause
      refine ⟨?_, path, rfl, hnext.symm, hexists.symm.trans (LineReader.openFile_missing hcause)⟩
      have hsilent := unopened_silent path cause
        ({ p₂ with lastServed := false }.emit (.nextPackage path)).shut
      exact ⟨hsilent.output.trans hmoved.output, hsilent.actions.trans hmoved.actions⟩

theorem closeAtEnd_eq (p : Processor) : closeAtEnd p =
    if p.isDone then close { p.peeked with lastServed := true } else .ok ⟨⟩ p.peeked := by
  rw [closeAtEnd, bind_run, get_run]
  dsimp only
  cases hi : p.inclusion with
  | some i =>
    have hin : p.isIncluding = true := by simp [isIncluding, hi]
    rw [if_pos hin]
    simp [isDone, peeked, hin, hi, pure_run]
  | none =>
    have hin : p.isIncluding = false := by simp [isIncluding, hi]
    rw [if_neg (by simp [hin])]
    cases hs : p.session with
    | none => simp [isDone, peeked, hin, hi, hs, pure_run]
    | some s =>
      have hdone : p.isDone = (s.reader.atEnd p.files).1 := by simp [isDone, hin, hs]
      have hpeeked : p.peeked = p.setReader (s.reader.atEnd p.files).2 := by simp [peeked, hi, hs]
      rw [hdone, hpeeked]
      dsimp only
      rw [bind_run, set_run]
      dsimp only
      split <;> rfl

theorem peeked_isOpen (p : Processor) : p.peeked.isOpen = p.isOpen := by
  unfold peeked
  split
  next s _ hs => rw [isOpen_of_session (session_setReader hs _), isOpen_of_session hs]
  · rfl

theorem peeked_silent (p : Processor) : Silent p p.peeked := by
  unfold peeked
  split <;> exact ⟨rfl, rfl⟩

/-- The command `t`, read up to `q`, is handed over by a call from `p`, unless the next package is
in the way. -/
structure Hands (p : Processor) (t : Text) (q : Processor) : Prop where
  given : q.obstacle? = none → ∃ r, p.next? = some (.ok t r) ∧ Silent q r
  lost : ∀ path, q.obstacle? = some path →
    ∃ r, p.next? = some (.error (.scriptNotFound [] path) r) ∧ Silent q r

theorem hands_of_feed (ho : p.isOpen = true) (hf : feed? {} p = some (.ok t q))
    (hq : q.isOpen = true) : Hands p t q := by
  have hnext := next?_of_feed ho hf
  rw [settle, closeAtEnd_eq] at hnext
  cases hd : q.isDone with
  | false =>
    rw [hd] at hnext
    refine ⟨fun _ => ⟨q.peeked, hnext, peeked_silent q⟩, ?_⟩
    intro path hpath
    simp [obstacle?, hd] at hpath
  | true =>
    rw [hd, if_pos rfl] at hnext
    -- what is closed has the files and the chain of `q`
    let q₁ : Processor := { q.peeked with lastServed := true }
    have hkept : q₁.upcoming? = q.upcoming? ∧ q₁.files = q.files := by
      unfold q₁ peeked
      split <;> exact ⟨rfl, rfl⟩
    have hsilent : Silent q q₁ := ⟨(peeked_silent q).output, (peeked_silent q).actions⟩
    have hends := close_upcoming (p := q₁) ((peeked_isOpen q).trans hq)
    rw [hkept.1, hkept.2] at hends
    cases hclose : close q₁ with
    | ok u r =>
      obtain ⟨hr, hexists⟩ := Ends.ok hends hclose
      rw [hclose] at hnext
      refine ⟨fun _ => ⟨r, hnext, hsilent.trans hr⟩, ?_⟩
      intro path hpath
      simp only [obstacle?, hd, if_true, Option.filter_eq_some_iff] at hpath
      simp [hexists path hpath.1] at hpath
    | error e r =>
      obtain ⟨hr, path, rfl, hup, hmissing⟩ := Ends.error hends hclose
      rw [hclose] at hnext
      have hobstacle : q.obstacle? = some path := by
        simp [obstacle?, hd, hup, Option.filter, hmissing]
      refine ⟨?_, ?_⟩
      · intro hnone
        simp [hobstacle] at hnone
      · intro path' hpath
        obtain rfl := Option.some.inj (hobstacle.symm.trans hpath)
        exact ⟨_, hnext, (hsilent.trans hr).trans (abort_silent _ r)⟩

theorem next?_ok {r : Processor} (ho : p.isOpen = true) (h : p.next? = some (.ok t r)) :
    ∃ q, feed? {} p = some (.ok t q) ∧ closeAtEnd q = .ok ⟨⟩ r := by
  rw [next?, if_pos ho] at h
  obtain ⟨o, hfeed, hsettle⟩ := Option.map_eq_some_iff.mp h
  cases o with
  | error e q => simp [settle] at hsettle
  | ok u q =>
    cases hc : closeAtEnd q with
    | error e q' => simp [settle, hc] at hsettle
    | ok x q' =>
      simp only [settle, hc, EStateM.Result.ok.injEq] at hsettle
      obtain ⟨rfl, rfl⟩ := hsettle
      exact ⟨q, hfeed, hc⟩

theorem Remains.not_past (h : Remains b p) : ¬Past b.serial p := by
  intro hpast
  have hlt := hpast.lt h.isOpen
  have hserial := h.serial
  omega

theorem Beside.remains (h : Beside b c p q) : Remains b p ∧ Remains c q :=
  ⟨⟨h.isOpen, h.serial.1⟩, h.isOpen_right, h.serial.2⟩

theorem Beside.isDone (h : Beside b c p q) : q.isDone = p.isDone := by
  rw [Processor.isDone, isIncluding, h.inclusion, h.session, h.files, Processor.isDone, isIncluding]

theorem Beside.peeked (h : Beside b c p q) : Beside b c p.peeked q.peeked := by
  unfold Processor.peeked
  rw [h.inclusion, h.session, h.files]
  split
  next s _ hs => exact (beside_simulation b c).setReader h hs (LineReader.atEnd_reads _ _)
  · exact h

theorem Feeds.beside (hf : Feeds notes p notes' p') (hc : Coherent p) (h : Beside b c p q)
    (hstay : ¬Left b p') : ∃ q', Feeds notes q notes' q' ∧ Beside b c p' q' := by
  induction hf with
  | refl => exact ⟨q, .refl _ q, h⟩
  | @tail notes₁ notes₂ p p₁ p₂ hf ht ih =>
    have hm := turn_moves (Moves.coherent (hf.moves hc) hc) notes₁
    rw [ht] at hm
    -- a script that is left stays left, so it was open before this turn
    obtain ⟨q₁, hq, h₁⟩ := ih hc h fun hleft => hstay (hleft.moves hm)
    rcases turn_beside h₁ notes₁ with
      ⟨e, p', q', hp, -, -⟩ | ⟨x, p', q', hp, hq', h'⟩ | ⟨hleft, -, -⟩
    · rw [ht] at hp
      simp at hp
    · rw [ht] at hp
      obtain ⟨rfl, rfl⟩ := EStateM.Result.ok.inj hp
      exact ⟨q', hq.tail hq', h'⟩
    · rw [ht] at hleft
      exact absurd hleft.1 hstay

theorem feed?_beside (hc : Coherent p) (h : Beside b c p q) (hf : feed? {} p = some (.ok t p'))
    (hstay : ¬Left b p') : ∃ q', feed? {} q = some (.ok t q') ∧ Beside b c p' q' := by
  obtain ⟨notes, p₁, hfeeds, hp⟩ := feed?_eq_some.mp hf
  have hm := turn_moves (Moves.coherent (hfeeds.moves hc) hc) notes
  rw [hp] at hm
  obtain ⟨q₁, hq, h₁⟩ := hfeeds.beside hc h fun hleft => hstay (hleft.moves hm)
  rcases turn_beside h₁ notes with
    ⟨e, p₂, q₂, hp₂, -, -⟩ | ⟨x, p₂, q₂, hp₂, hq₂, h₂⟩ | ⟨hleft, -, -⟩
  · rw [hp] at hp₂
    simp [lastTurn] at hp₂
  · rw [hp] at hp₂
    obtain ⟨rfl, rfl⟩ := EStateM.Result.ok.inj hp₂
    exact ⟨q₂, feed?_eq_some.mpr ⟨notes, q₁, hq, hq₂⟩, h₂⟩
  · rw [hp] at hleft
    exact absurd hleft.1 hstay

theorem closeAtEnd_past {k : Nat} (ho : p.isOpen = true) (hs : k ≤ p.serial)
    (hd : p.isDone = true) :
    Past k (stateOf (closeAtEnd p)) := by
  have hserial : ({ p.peeked with lastServed := true } : Processor).serial = p.serial := by
    unfold peeked
    split <;> rfl
  rw [closeAtEnd_eq, if_pos hd]
  exact Ends.state (close_past ((peeked_isOpen p).trans ho) (hs.trans hserial.ge))

theorem Answers.read {a : Answer} (ha : Answers p a p') (hc : Coherent p) (h : Beside p q p q)
    (hstay : ¬Left p p') : ∃ p₂ q₂, closeAtEnd p₂ = .ok ⟨⟩ p' ∧
      feed? {} q = some (.ok a.command q₂) ∧ Beside p q p₂ q₂ ∧
      q₂.output = q.output ++ a.output ∧ q₂.actions = q.actions ++ a.actions := by
  obtain ⟨p₂, hfeed, hclose⟩ := next?_ok h.isOpen ha.next
  have hm : Moves .all p₂ p' := (Ends.ok closeAtEnd_moving hclose).1
  obtain ⟨q₂, hq, h₂⟩ := feed?_beside hc h hfeed fun hleft => hstay (hleft.moves hm)
  have hsilent : Silent p₂ p' := by
    have hhands := hands_of_feed h.isOpen hfeed h₂.isOpen
    have hgiven := ha.next
    cases hobstacle : p₂.obstacle? with
    | none =>
      obtain ⟨r, hr, hsilent⟩ := hhands.given hobstacle
      obtain rfl : p' = r := by simpa [hr] using hgiven.symm
      exact hsilent
    | some path =>
      obtain ⟨r, hr, -⟩ := hhands.lost path hobstacle
      simp [hr] at hgiven
  obtain ⟨said, hp, hsaid⟩ := h₂.output
  obtain ⟨asked, hp', hasked⟩ := h₂.actions
  obtain rfl : said = a.output := by
    rw [← hsilent.output, ha.output] at hp
    exact (List.append_cancel_left hp).symm
  obtain rfl : asked = a.actions := by
    rw [← hsilent.actions, ha.actions] at hp'
    exact (List.append_cancel_left hp').symm
  exact ⟨p₂, q₂, hclose, hq, h₂, hsaid, hasked⟩

theorem Answers.beside {a : Answer} (ha : Answers p a p') (hc : Coherent p) (h : Beside p q p q)
    (hr : Remains p p') : ∃ q', Answers q a q' ∧ Remains q q' ∧ Beside p' q' p' q' := by
  obtain ⟨p₂, q₂, hclose, hq, h₂, hsaid, hasked⟩ := ha.read hc h fun hleft => hr.not_past hleft.past
  -- at its end the script would have been closed
  have hd : p₂.isDone = false := by
    by_contra hd
    have hpast := closeAtEnd_past h₂.isOpen h₂.serial.1.ge (by simpa using hd)
    rw [hclose] at hpast
    exact hr.not_past hpast
  have hopen (r : Processor) (hd : r.isDone = false) : closeAtEnd r = .ok ⟨⟩ r.peeked := by
    rw [closeAtEnd_eq, hd]
    rfl
  obtain rfl : p₂.peeked = p' := by simpa [hopen p₂ hd] using hclose
  have hnext : q.next? = some (.ok a.command q₂.peeked) := by
    rw [next?_of_feed h.isOpen_right hq, settle, hopen q₂ (h₂.isDone.trans hd)]
  refine ⟨q₂.peeked, ⟨hnext, ?_, ?_⟩, h₂.peeked.remains.2, h₂.peeked.rebase⟩
  · rw [(peeked_silent q₂).output, hsaid]
  · rw [(peeked_silent q₂).actions, hasked]

theorem Answers.coherent {a : Answer} (ha : Answers p a p') (hc : Coherent p) : Coherent p' :=
  Moves.coherent (next?_moves hc ha.next) hc

theorem Serves.coherent {as : List Answer} (hs : Serves p as p') (hc : Coherent p) :
    Coherent p' := by
  induction hs with
  | refl => exact hc
  | tail _ ha _ ih => exact ha.coherent ih

theorem Serves.beside {as : List Answer} (hs : Serves p as p') (hc : Coherent p)
    (h : Beside p q p q) : ∃ q', Serves q as q' ∧ Beside p' q' p' q' := by
  induction hs with
  | refl => exact ⟨q, .refl q, h⟩
  | tail hs ha hr ih =>
    obtain ⟨q₁, hq, h₁⟩ := ih
    obtain ⟨q', haq, hrq, h'⟩ := ha.beside (hs.coherent hc) h₁ hr
    exact ⟨q', hq.tail haq hrq, h'⟩

end Processor

end ScriptFeed
