import Mathlib.Logic.Relation
import ScriptFeed.Proofs.Actions
import ScriptFeed.Proofs.Growth

/-!
What an action can do to a processor. `Move` lists the single changes, each with what has been
checked before it. Every action on a script is a sequence of moves, so an invariant of moves is an
invariant of the feed.
-/

namespace ScriptFeed

def Event.isNote : Event → Bool
  | .scriptOpened _ => false
  | .includeOpened _ _ => false
  | .packageQueued _ => false
  | .documentationWritten _ => false
  | .layoutWritten _ _ => false
  | .recorded _ _ => false
  | _ => true

def Package.Entry.isInner : Package.Entry → Bool
  | .opened _ => false
  | .closed _ => false
  | _ => true

namespace Processor

open Package Comment

/-- What moves may do: the names of the packages that they queue, and whether they may open a
record and close one with success. -/
structure Allowed where
  queue : Text → Prop
  start : Prop
  succeed : Prop

inductive Move (N : Allowed) : Processor → Processor → Prop
  | tell (p : Processor) (e : Event) (he : e.isNote = true) : Move N p (p.emit e)
  | say (p : Processor) (t : Text) : Move N p (p.say t)
  | request (p : Processor) (a : HostAction) : Move N p (p.request a)
  | remember (p : Processor) (t : Text) : Move N p { p with header := t }
  | ask (p : Processor) : Move N p { p with asked := p.asked + 1 }
  | serve (p : Processor) (b : Bool) : Move N p { p with lastServed := b }
  | read (p : Processor) (s : Session) (r : LineReader) (b : Bool) (hs : p.session = some s)
      (hr : s.reader.Reads p.files r) : Move N p { p with session := some ⟨r, b⟩ }
  | enclose (p : Processor) (path : Path) (scope : Scope) (r : LineReader)
      (ho : p.isOpen = true) (hr : LineReader.openFile p.files path = .ok r) :
      Move N p ({ p with inclusion := some ⟨r, scope, false⟩ }.emit (.includeOpened r.path scope))
  | readOn (p : Processor) (i i' : Inclusion) (hi : p.inclusion = some i)
      (hr : i.reader.Reads p.files i'.reader) : Move N p { p with inclusion := some i' }
  | leave (p : Processor) : Move N p { p with inclusion := none }
  | define (p : Processor) (fs : LocalFunctions) (ho : p.isOpen = true) :
      Move N p { p with functions := fs }
  | directories (p : Processor) (path : Path) :
      Move N p { p with files := (p.files.createDirectories path).2 }
  | document (p : Processor) (path : Path) (b : Bytes) (files : Files)
      (hw : p.files.write path b = .ok files) :
      Move N p ({ p with files }.emit (.documentationWritten path))
  | layout (p : Processor) (path : Path) (b : Bytes) (files : Files) (n : Nat)
      (hw : p.files.write path b = .ok files) :
      Move N p ({ p with files }.emit (.layoutWritten path n))
  | adjust (p : Processor) (i : Installation) (ho : p.isOpen = true)
      (hc : i.chain = p.current.chain) (hr : i.record = p.current.record) :
      Move N p { p with installation := some i }
  | queue (p : Processor) (name : Text) (path : Path) (ho : p.isOpen = true) (hn : N.queue name)
      (hp : p.packagePath? name = some path) : Move N p (p.queue path)
  | write (p : Processor) (e : Entry) (he : e.isInner = true) : Move N p (p.record e)
  | begin (p : Processor) (r : Record) (files : Files) (hN : N.start) (ho : p.isOpen = true)
      (hr : Record.start p.settings.log p.now p.files = .ok (r, files)) :
      Move N p (p.begin r files)
  | finish (p : Processor) (b : Bool) (hb : b = true → N.succeed) : Move N p (p.closeRecord b).2
  | advance (p : Processor) (i : Installation) (path : Path) (chain : Chain) (r : LineReader)
      (ho : p.isOpen = true) (hi : p.installation = some i)
      (ha : i.chain.advance = (some path, chain)) (hr : LineReader.openFile p.files path = .ok r) :
      Move N p ({ p with inclusion := none, installation := some { i with chain } }.opened path r)
  | down (p : Processor) : Move N p p.teardown

def Allowed.all : Allowed := ⟨fun _ => True, True, True⟩

abbrev Moves (N : Allowed) : Processor → Processor → Prop := Relation.ReflTransGen (Move N)

section Stepping

variable {α β : Type} {R R' : Processor → Processor → Prop} {p q : Processor} {x : Action α}
  {Q Q' : α → Processor → Prop}

/-- The action takes steps only, whether it ends or fails; `Q` holds when it ends. -/
def Stepping (R : Processor → Processor → Prop) (x : Action α) (p : Processor)
    (Q : α → Processor → Prop) : Prop :=
  Ends x p (fun a q => Relation.ReflTransGen R p q ∧ Q a q) (fun _ q => Relation.ReflTransGen R p q)

theorem Stepping.mono (h : Stepping R x p Q) (hQ : ∀ a q, Q a q → Q' a q) : Stepping R x p Q' :=
  Ends.mono h (fun a q h => ⟨h.1, hQ a q h.2⟩) (fun _ _ h => h)

theorem Stepping.lower (h : Stepping R x p Q)
    (hR : ∀ p q, R p q → Relation.ReflTransGen R' p q) : Stepping R' x p Q :=
  Ends.mono h (fun _ _ h => ⟨Relation.reflTransGen_closed hR _ _ h.1, h.2⟩)
    (fun _ _ h => Relation.reflTransGen_closed hR _ _ h)

theorem Stepping.run (h : Stepping R x p Q) : Stepping R x p (fun a q => Q a q ∧ x p = .ok a q) :=
  ends_of_run (fun _ _ hx => ⟨(Ends.ok h hx).1, (Ends.ok h hx).2, hx⟩)
    (fun _ _ hx => Ends.error h hx)

theorem Stepping.bind {f : α → Action β} {Q' : β → Processor → Prop} (hx : Stepping R x p Q)
    (hf : ∀ a q, Q a q → Stepping R (f a) q Q') : Stepping R (x >>= f) p Q' := by
  rw [Stepping, ends_bind]
  refine Ends.mono hx ?_ (fun _ _ h => h)
  rintro a q ⟨hpq, hq⟩
  exact Ends.mono (hf a q hq) (fun _ _ h => ⟨hpq.trans h.1, h.2⟩) (fun _ _ h => hpq.trans h)

theorem Stepping.pure {a : α} (h : Q a p) : Stepping R (pure a) p Q := ⟨.refl, h⟩

theorem Stepping.throw (e : Failure) : Stepping R (throw e : Action α) p Q := .refl

theorem Stepping.get {f : Processor → Action α} (h : Stepping R (f p) p Q) :
    Stepping R (get >>= f) p Q := by
  rw [Stepping, ends_bind, ends_get]
  exact h

theorem Stepping.set {f : PUnit → Action α} (h : Relation.ReflTransGen R p q)
    (hf : Stepping R (f ⟨⟩) q Q) : Stepping R (set q >>= f) p Q :=
  Stepping.bind (Q := fun _ r => r = q) ⟨h, rfl⟩ fun _ _ hr => hr ▸ hf

theorem Stepping.modify {g : Processor → Processor} {f : PUnit → Action α}
    (h : Relation.ReflTransGen R p (g p)) (hf : Stepping R (f ⟨⟩) (g p) Q) :
    Stepping R (modify g >>= f) p Q :=
  Stepping.bind (Q := fun _ r => r = g p) ⟨h, rfl⟩ fun _ _ hr => hr ▸ hf

theorem Stepping.lift {a : Except Fault α} {f : α → Action β} {Q : β → Processor → Prop}
    (h : ∀ v, a = .ok v → Stepping R (f v) p Q) : Stepping R (lift a >>= f) p Q := by
  cases a with
  | ok v => exact h v rfl
  | error e => exact .refl

end Stepping

abbrev Moving {α : Type} (N : Allowed) (x : Action α) (p : Processor)
    (Q : α → Processor → Prop) : Prop := Stepping (Move N) x p Q

variable {N : Allowed} {p q : Processor}

def unread (p : Processor) : Nat :=
  (p.session.map fun s => (s.reader.pending p.files).length).getD 0

theorem unread_of_session {s : Session} (h : p.session = some s) :
    p.unread = (s.reader.pending p.files).length := by simp [unread, h]

theorem isOpen_of_session {s : Session} (h : p.session = some s) : p.isOpen = true := by
  simp [isOpen, h]

theorem session_of_isOpen (h : p.isOpen = true) : ∃ s, p.session = some s :=
  Option.isSome_iff_exists.mp h

theorem moves_setReader {s : Session} {r : LineReader} (hs : p.session = some s)
    (hr : s.reader.Reads p.files r) : Moves N p (p.setReader r) := by
  have he : p.setReader r = { p with session := some ⟨r, s.inComment⟩ } := by simp [setReader, hs]
  rw [he]
  exact .single (.read p s r s.inComment hs hr)

theorem session_setReader {s : Session} (hs : p.session = some s) (r : LineReader) :
    (p.setReader r).session = some ⟨r, s.inComment⟩ := by simp [setReader, hs]

end Processor

end ScriptFeed
