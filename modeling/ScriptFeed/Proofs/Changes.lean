import ScriptFeed.Proofs.Moves

/-!
What each change does, in full: what is read and asked, which permission it needs, and what it
leaves behind. The stages of a line are gone through once, in changes; what else is said of a run
follows from them step by step, the moves first of all.
-/

namespace ScriptFeed

def Event.isAside : Event → Bool
  | .licenseDeclined _ => false
  | e => e.isNote

theorem Event.isNote_of_isAside {e : Event} (h : e.isAside = true) : e.isNote = true := by
  cases e with
  | licenseDeclined package => cases h
  | _ => exact h

namespace Processor

open Package Comment

/-- What changes may do beside moves: the names of the layouts that they write, whether they may
do what belongs to an installation, and whether a script may be opened by a call. -/
structure Permit extends Allowed where
  layout : Text → Prop
  install : Prop
  call : Prop

def Allowed.whole (N : Allowed) : Permit :=
  { N with layout := fun _ => True, install := True, call := False }

def Permit.all : Permit :=
  { Allowed.all with layout := fun _ => True, install := True, call := True }

inductive Change (W : Permit) : Processor → Processor → Prop
  | tell (p : Processor) (e : Event) (he : e.isAside = true) : Change W p (p.emit e)
  | serve (p : Processor) (b : Bool) : Change W p { p with lastServed := b }
  | read (p : Processor) (s : Session) (r : LineReader) (b : Bool) (hs : p.session = some s)
      (hr : s.reader.Reads p.files r) : Change W p { p with session := some ⟨r, b⟩ }
  | enclose (p : Processor) (path : Path) (scope : Scope) (r : LineReader)
      (ho : p.isOpen = true) (hr : LineReader.openFile p.files path = .ok r) :
      Change W p ({ p with inclusion := some ⟨r, scope, false⟩ }.emit (.includeOpened r.path scope))
  | readOn (p : Processor) (i i' : Inclusion) (hi : p.inclusion = some i)
      (hr : i.reader.Reads p.files i'.reader) : Change W p { p with inclusion := some i' }
  | leave (p : Processor) : Change W p { p with inclusion := none }
  | layout (p : Processor) (l : Layout) (b : Bytes) (files : Files) (n : Nat) (hl : W.layout l.file)
      (hw : p.files.write (l.path p.settings.roots) b = .ok files) :
      Change W p ({ p with files }.emit (.layoutWritten (l.path p.settings.roots) n))
  | directories (p : Processor) (path : Path) (hI : W.install) :
      Change W p { p with files := (p.files.createDirectories path).2 }
  | document (p : Processor) (path : Path) (b : Bytes) (files : Files) (hI : W.install)
      (hw : p.files.write path b = .ok files) :
      Change W p ({ p with files }.emit (.documentationWritten path))
  | request (p : Processor) (a : HostAction) (hI : W.install) : Change W p (p.request a)
  | accord (p : Processor) (question : Text) (hI : W.install)
      (hyes : p.accepts (p.ask question).1 = true) : Change W p ((p.say question).ask question).2
  | decline (p : Processor) (question package : Text) (hI : W.install)
      (hno : p.accepts (p.ask question).1 = false) :
      Change W p ((((p.say question).ask question).2.say abortMessage).emit
        (.licenseDeclined package))
  | adjust (p : Processor) (i : Installation) (ho : p.isOpen = true) (hI : W.install)
      (hc : i.chain = p.current.chain) (hr : i.record = p.current.record)
      (hf : i.fullLogging = p.current.fullLogging) (hb : i.inProcedure = p.current.inProcedure) :
      Change W p { p with installation := some i }
  | queue (p : Processor) (name : Text) (path : Path) (ho : p.isOpen = true) (hI : W.install)
      (hn : W.queue name) (hp : p.packagePath? name = some path) : Change W p (p.queue path)
  | accept (p : Processor) (h : Header) (ho : p.isOpen = true) (hI : W.install)
      (hh : h = .ofText h.text) : Change W p (p.admitHeader h)
  | begin (p : Processor) (r : Record) (files : Files) (hN : W.start) (ho : p.isOpen = true)
      (hI : W.install) (hr : Record.start p.settings.log p.now p.files = .ok (r, files)) :
      Change W p (p.begin r files)
  | conclude (p : Processor) (b : Bool) (hb : b = true → W.succeed) :
      Change W p (p.concludeRecord b)
  | leaveProcedure (p : Processor) (ho : p.isOpen = true) (hr : p.record? = none) :
      Change W p (p.setInProcedure false)
  | finish (p : Processor) (b : Bool) (hb : b = true → W.succeed) : Change W p (p.closeRecord b).2
  | advance (p : Processor) (i : Installation) (path : Path) (chain : Chain) (r : LineReader)
      (ho : p.isOpen = true) (hi : p.installation = some i)
      (ha : i.chain.advance = (some path, chain)) (hr : LineReader.openFile p.files path = .ok r) :
      Change W p ({ p with inclusion := none, installation := some { i with chain } }.opened path r)
  | down (p : Processor) : Change W p p.teardown
  -- what is done by a call from outside only
  | name (p : Processor) (script : Option Path) (hC : W.call) : Change W p { p with script }
  | stream (p : Processor) (session : Option Session) (inclusion : Option Inclusion) (hC : W.call) :
      Change W p { p with session, inclusion }
  | define (p : Processor) (functions : LocalFunctions) (hC : W.call) :
      Change W p { p with functions }
  | opened (p : Processor) (path : Path) (r : LineReader) (hC : W.call) :
      Change W p (p.opened path r)

abbrev Changes (W : Permit) : Processor → Processor → Prop := Relation.ReflTransGen (Change W)

abbrev Changing {α : Type} (W : Permit) (x : Action α) (p : Processor)
    (Q : α → Processor → Prop) : Prop := Stepping (Change W) x p Q

variable {N : Allowed} {W : Permit} {p q : Processor}

theorem changes_setReader {s : Session} {r : LineReader} (hs : p.session = some s)
    (hr : s.reader.Reads p.files r) : Changes W p (p.setReader r) := by
  have he : p.setReader r = { p with session := some ⟨r, s.inComment⟩ } := by simp [setReader, hs]
  rw [he]
  exact .single (.read p s r s.inComment hs hr)

theorem ask_moves (p : Processor) (question : Text) :
    Moves N p (p.ask question).2 ∧ (p.ask question).2.session = p.session ∧
      (p.ask question).2.files = p.files := by
  unfold ask
  split
  · exact ⟨.single (.ask p), rfl, rfl⟩
  · exact ⟨.refl, rfl, rfl⟩

theorem asked_eq (p : Processor) (question : Text) : ∃ asked,
    ((p.say question).ask question).2 = { p with output := p.output ++ [question], asked } := by
  unfold ask
  split
  · exact ⟨_, rfl⟩
  · exact ⟨p.asked, rfl⟩

theorem admitHeader_moves (ho : p.isOpen = true) (h : Header) : Moves N p (p.admitHeader h) := by
  let p₁ : Processor := { p with installation := some (p.current.apply h) }
  have h₁ : Moves N p p₁ := .single (.adjust p _ ho rfl rfl)
  have hdone (q : Processor) (hq : Moves N p q) : Moves N p { q with header := h.text } :=
    hq.tail (.remember q h.text)
  unfold admitHeader
  dsimp only
  by_cases ht : h.text = []
  · rw [if_pos ht]
    exact hdone p₁ h₁
  · rw [if_neg ht]
    have h₂ : Moves N p (if (p.current.apply h).quiet then p₁ else p₁.say startMessage) := by
      split
      · exact h₁
      · exact h₁.tail (.say p₁ _)
    exact hdone _ ((h₂.tail (.write _ (.info h.text) rfl)).tail (.request _ _))

theorem setInProcedure_moves (ho : p.isOpen = true) (b : Bool) :
    Moves N p (p.setInProcedure b) := by
  unfold setInProcedure
  cases hi : p.installation with
  | none =>
    have he : { p with installation := none } = p := by rw [← hi]
    rw [Option.map_none, he]
  | some i => exact .single (.adjust p _ ho (by simp [current, hi]) (by simp [current, hi]))

theorem concludeRecord_moves {b : Bool} (hS : b = true → N.succeed) (p : Processor) :
    Moves N p (p.concludeRecord b) := by
  have hm : Moves N p (p.closeRecord b).2 := .single (.finish p b hS)
  unfold concludeRecord
  dsimp only
  split
  · exact hm.tail (.say _ _)
  · exact hm

theorem Change.moves (hm : Change W p q) (hW : ¬W.call) : Moves W.toAllowed p q := by
  cases hm with
  | tell e he => exact .single (.tell p e (Event.isNote_of_isAside he))
  | serve b => exact .single (.serve p b)
  | read s r b hs hr => exact .single (.read p s r b hs hr)
  | enclose path scope r ho hr => exact .single (.enclose p path scope r ho hr)
  | readOn i i' hi hr => exact .single (.readOn p i i' hi hr)
  | leave => exact .single (.leave p)
  | layout l b files n hl hw => exact .single (.layout p _ b files n hw)
  | directories path hI => exact .single (.directories p path)
  | document path b files hI hw => exact .single (.document p path b files hw)
  | request a hI => exact .single (.request p a)
  | accord question hI hyes => exact .head (.say p question) (ask_moves _ question).1
  | decline question package hI hno =>
    have hasked : Moves W.toAllowed p ((p.say question).ask question).2 :=
      .head (.say p question) (ask_moves _ question).1
    exact (hasked.tail (.say _ abortMessage)).tail (.tell _ _ rfl)
  | adjust i ho hI hc hr hf hb => exact .single (.adjust p i ho hc hr)
  | queue name path ho hI hn hp => exact .single (.queue p name path ho hn hp)
  | accept h ho hI hh => exact admitHeader_moves ho h
  | begin r files hN ho hI hr => exact .single (.begin p r files hN ho hr)
  | conclude b hb => exact concludeRecord_moves hb p
  | leaveProcedure ho hr => exact setInProcedure_moves ho false
  | finish b hb => exact .single (.finish p b hb)
  | advance i path chain r ho hi ha hr => exact .single (.advance p i path chain r ho hi ha hr)
  | down => exact .single (.down p)
  | name script hC => exact absurd hC hW
  | stream session inclusion hC => exact absurd hC hW
  | define functions hC => exact absurd hC hW
  | opened path r hC => exact absurd hC hW

theorem Changing.moving {α : Type} {x : Action α} {Q : α → Processor → Prop}
    (h : Changing N.whole x p Q) : Moving N x p Q :=
  Stepping.lower h fun _ _ hm => hm.moves id

theorem Changes.moves (h : Changes N.whole p q) : Moves N p q :=
  Relation.reflTransGen_closed (fun _ _ hm => hm.moves id) _ _ h

end Processor

end ScriptFeed
