import ScriptFeed.Proofs.Beside
import ScriptFeed.Proofs.Observation

/-!
Processors that go on in the same way. What was shown, asked of the host and told before, the
counter of the script where no line is marked, and the spelling of the name of the script have no
part in what is read: kindred processors answer every call alike, whatever else they hold.
-/

namespace ScriptFeed

theorem Path.components_getD {o o' : Option Path}
    (h : o'.map Path.components = o.map Path.components) (path : Path) :
    (o'.getD path).components = (o.getD path).components := by
  have hget (x : Option Path) :
      (x.getD path).components = (x.map Path.components).getD path.components := by
    cases x <;> rfl
  rw [hget, hget, h]

namespace Package.Chain

variable {c d : Chain} {path path' package : Path}

structure Kin (c d : Chain) : Prop where
  cursor : d.cursor = c.cursor
  packages : d.entries.tail = c.entries.tail
  components : d.entries.map Path.components = c.entries.map Path.components

theorem Kin.refl (c : Chain) : Kin c c := ⟨rfl, rfl, rfl⟩

theorem Kin.length (h : Kin c d) : d.entries.length = c.entries.length := by
  simpa using congrArg List.length h.components

theorem Kin.isEmpty (h : Kin c d) : d.isEmpty = c.isEmpty := by
  rw [Chain.isEmpty, Chain.isEmpty, Bool.eq_iff_iff, List.isEmpty_iff_length_eq_zero,
    List.isEmpty_iff_length_eq_zero, h.length]

theorem Kin.origin? (h : Kin c d) :
    d.origin?.map Path.components = c.origin?.map Path.components := by
  rw [Chain.origin?, Chain.origin?, ← List.head?_map, ← List.head?_map, h.components]

theorem Kin.contains (h : Kin c d) (package : Path) : d.contains package = c.contains package := by
  have hany (l : List Path) : l.any (·.same package) =
      (l.map Path.components).any (· == package.components) := by
    rw [List.any_map]
    rfl
  rw [Chain.contains, Chain.contains, hany, hany, h.components]

theorem Kin.seed (h : Kin c d) (hp : path'.components = path.components) :
    Kin (c.seed path) (d.seed path') := by
  have hnil : d.entries = [] ↔ c.entries = [] := by
    rw [← List.length_eq_zero_iff, ← List.length_eq_zero_iff, h.length]
  unfold Chain.seed
  by_cases hc : c.entries = []
  · rw [if_pos hc, if_pos (hnil.mpr hc)]
    exact ⟨h.cursor, rfl, by simp [hp]⟩
  · rw [if_neg hc, if_neg (mt hnil.mp hc)]
    exact h

theorem seed_ne_nil (c : Chain) (path : Path) : (c.seed path).entries ≠ [] := by
  unfold Chain.seed
  by_cases hc : c.entries = [] <;> simp [hc]

theorem Kin.enqueue (h : Kin c d) (hp : path'.components = path.components) (package : Path) :
    Kin (c.enqueue path package).2 (d.enqueue path' package).2 := by
  have hseed := h.seed hp
  unfold Chain.enqueue
  dsimp only
  rw [hseed.contains]
  split
  · exact hseed
  · refine ⟨hseed.cursor, ?_, by simp [hseed.components]⟩
    rw [List.tail_append_of_ne_nil (seed_ne_nil d path'),
      List.tail_append_of_ne_nil (seed_ne_nil c path), hseed.packages]

theorem Kin.advance (h : Kin c d) : d.advance.1 = c.advance.1 ∧ Kin c.advance.2 d.advance.2 := by
  have hnext (x : Chain) : x.entries[x.cursor + 1]? = x.entries.tail[x.cursor]? := by
    rw [List.getElem?_tail]
  unfold Chain.advance
  rw [hnext, hnext, h.packages, h.cursor]
  cases c.entries.tail[c.cursor]? with
  | none => exact ⟨rfl, h.length, h.packages, h.components⟩
  | some x => exact ⟨rfl, rfl, h.packages, h.components⟩

end Package.Chain

namespace Processor

open Package Comment

variable {k : Nat} {p q p' q' : Processor} {L : PUnit → Prop}

def bare (p : Processor) : Processor where
  settings := p.settings
  files := p.files
  now := p.now
  marked := p.marked
  inclusion := p.inclusion
  installMode := p.installMode
  functions := p.functions
  installation := some p.current.apart

/-- From here on both go on in the same way; the counter of `q` is ahead by `k`. -/
structure KindredBy (k : Nat) (p q : Processor) : Prop where
  bare : q.bare = p.bare
  session : q.session = p.session.map (Session.ahead k)
  chain : p.current.chain.Kin q.current.chain
  script : q.script.map Path.components = p.script.map Path.components
  consents : ∀ n question, q.consents n question = p.consents n question
  counted : LineReader.Counted k p.marked
  including : p.isIncluding = true → p.isOpen = true

def Kindred (p q : Processor) : Prop := ∃ k, KindredBy k p q

structure Keeps (p q : Processor) : Prop where
  session : q.session = p.session
  inclusion : q.inclusion = p.inclusion
  script : q.script = p.script
  consents : ∀ n question, q.consents n question = p.consents n question
  marked : q.marked = p.marked

namespace KindredBy

theorem congr (h : KindredBy k p q) (hbare : q'.bare = p'.bare)
    (hchain : p'.current.chain.Kin q'.current.chain) (hp : Keeps p p') (hq : Keeps q q') :
    KindredBy k p' q' where
  bare := hbare
  session := by rw [hq.session, hp.session, h.session]
  chain := hchain
  script := by rw [hq.script, hp.script, h.script]
  consents n question := by rw [hp.consents, hq.consents, h.consents]
  counted := hp.marked ▸ h.counted
  including := by
    rw [isIncluding, hp.inclusion, isOpen, hp.session]
    exact h.including

theorem update (h : KindredBy k p q) (f g : Processor → Processor)
    (hbare : ∀ p, (f p).bare = g p.bare) (hchain : ∀ p, (f p).current.chain = p.current.chain)
    (hk : ∀ p, Keeps p (f p)) : KindredBy k (f p) (f q) := by
  refine h.congr (by rw [hbare, hbare, h.bare]) ?_ (hk p) (hk q)
  rw [hchain, hchain]
  exact h.chain

section Fields

variable (h : KindredBy k p q)
include h

theorem settings : q.settings = p.settings := (congrArg Processor.settings h.bare :)

theorem files : q.files = p.files := (congrArg Processor.files h.bare :)

theorem marked : q.marked = p.marked := (congrArg Processor.marked h.bare :)

theorem inclusion : q.inclusion = p.inclusion := (congrArg Processor.inclusion h.bare :)

theorem installMode : q.installMode = p.installMode := (congrArg Processor.installMode h.bare :)

theorem functions : q.functions = p.functions := (congrArg Processor.functions h.bare :)

theorem current : q.current.apart = p.current.apart :=
  Option.some.inj (congrArg Processor.installation h.bare)

theorem isOpen : q.isOpen = p.isOpen := by
  rw [Processor.isOpen, h.session, Option.isSome_map, Processor.isOpen]

theorem record? : q.record? = p.record? := by
  have hrecord := congrArg Installation.record h.current
  rw [record?_eq_current, record?_eq_current]
  exact hrecord

theorem expandThis (ho : p.isOpen = true) : q.expandThis = p.expandThis := by
  obtain ⟨s, hs⟩ := Option.isSome_iff_exists.mp ho
  funext t
  rw [Processor.expandThis, directory, h.session, hs, Processor.expandThis, directory, hs]
  rfl

end Fields

theorem emit (h : KindredBy k p q) (e e' : Event) : KindredBy k (p.emit e) (q.emit e') :=
  h.congr h.bare h.chain ⟨rfl, rfl, rfl, fun _ _ => rfl, rfl⟩ ⟨rfl, rfl, rfl, fun _ _ => rfl, rfl⟩

theorem closeRecord (h : KindredBy k p q) (b : Bool) :
    KindredBy k (p.closeRecord b).2 (q.closeRecord b).2 := by
  unfold Processor.closeRecord
  rw [h.record?]
  cases hr : p.record? with
  | none => exact h
  | some r =>
    have hp : p.installation = some p.current := installation_of_record hr
    have hq : q.installation = some q.current := installation_of_record (h.record?.trans hr)
    have hset := h.update (fun p => ({ p with
        files := r.write (.closed b) p.files
        installation := some { p.current with record := none } }))
      (fun o => { o with
        files := r.write (.closed b) o.files
        installation := some { o.current with record := none } })
      (fun _ => rfl) (fun _ => rfl) fun _ => ⟨rfl, rfl, rfl, fun _ _ => rfl, rfl⟩
    simp only [recordIn, Processor.emit, hp, hq, Option.map_some]
    exact (hset.emit (.recorded r.path (.closed b)) (.recorded r.path (.closed b))).emit _ _

theorem shut (h : KindredBy k p q) : KindredBy k p.shut q.shut where
  bare := congrArg (fun o => { o with inclusion := none }) h.bare
  session := rfl
  chain := h.chain
  script := h.script
  consents := h.consents
  counted := h.counted
  including := nofun

theorem teardown (h : KindredBy k p q) : KindredBy k p.teardown q.teardown := by
  have hr := h.closeRecord false
  have hbare (p : Processor) : p.teardown.bare = { (p.closeRecord false).2.bare with
      inclusion := none, installation := some {}, installMode := false, functions := {} } := rfl
  have horigin (p : Processor) : p.teardown.script =
      ((p.closeRecord false).2.current.chain.origin?).or (p.closeRecord false).2.script := by
    have hbind (o : Option Installation) (path : Option Path) :
        (o.bind (·.chain.origin?)).or path = ((o.getD {}).chain.origin?).or path := by
      cases o <;> rfl
    exact hbind _ _
  refine ⟨by rw [hbare, hbare, hr.bare], rfl, .refl _, ?_, hr.consents, hr.counted, nofun⟩
  rw [horigin, horigin, Option.map_or, Option.map_or, hr.chain.origin?, hr.script]

theorem unopened (h : KindredBy k p q) (path : Path) (cause : Fault) :
    KindredBy k (p.unopened path cause) (q.unopened path cause) := by
  have hchained (p : Processor) : p.isChained = !p.current.chain.isEmpty := by
    unfold isChained Processor.current
    cases p.installation <;> rfl
  have htold := h.emit (.scriptUnreadable path cause) (.scriptUnreadable path cause)
  have hdown := htold.teardown
  unfold Processor.unopened
  dsimp only
  rw [hchained, hchained, htold.chain.isEmpty]
  split
  · exact hdown
  · exact ⟨hdown.bare, hdown.session, hdown.chain, rfl, hdown.consents, hdown.counted, nofun⟩

theorem opened (h : KindredBy k p q) (path : Path) (reader : LineReader) :
    KindredBy 0 (p.opened path reader) (q.opened path reader) := by
  have hcurrent (p : Processor) :
      (p.opened path reader).current = p.current.forPackage := by
    unfold Processor.opened Processor.current
    cases p.installation <;> rfl
  have hbare (p : Processor) : (p.opened path reader).bare =
      { p.bare with functions := {}, installation := some p.current.apart.forPackage } := by
    unfold Processor.bare
    rw [hcurrent]
    rfl
  refine ⟨by rw [hbare, hbare, h.bare, h.current], rfl, ?_, rfl, h.consents, .inl rfl, fun _ => rfl⟩
  rw [hcurrent, hcurrent]
  exact h.chain

theorem advanceChain (h : KindredBy k p q) :
    q.advanceChain.1 = p.advanceChain.1 ∧ KindredBy k p.advanceChain.2 q.advanceChain.2 := by
  have hadvance (p : Processor) : p.advanceChain.1 = p.current.chain.advance.1 ∧
      p.advanceChain.2.current.chain = p.current.chain.advance.2 ∧
      p.advanceChain.2.bare = p.bare ∧ Keeps p p.advanceChain.2 := by
    cases hi : p.installation with
    | none =>
      have hcurrent : p.current = {} := by simp [Processor.current, hi]
      have hnone : p.advanceChain = (none, p) := by simp [Processor.advanceChain, hi]
      rw [hnone, hcurrent]
      exact ⟨rfl, rfl, rfl, rfl, rfl, rfl, fun _ _ => rfl, rfl⟩
    | some i =>
      have hcurrent : p.current = i := by simp [Processor.current, hi]
      have hbare : p.bare = { p.bare with installation := some i.apart } := by
        rw [← hcurrent]
        rfl
      rw [hcurrent, hbare]
      unfold Processor.advanceChain
      rw [hi]
      dsimp only
      split <;> exact ⟨rfl, rfl, rfl, rfl, rfl, rfl, fun _ _ => rfl, rfl⟩
  obtain ⟨hp, hpc, hpb, hpk⟩ := hadvance p
  obtain ⟨hq, hqc, hqb, hqk⟩ := hadvance q
  obtain ⟨hnext, hchain⟩ := h.chain.advance
  refine ⟨by rw [hp, hq, hnext], h.congr (by rw [hpb, hqb, h.bare]) ?_ hpk hqk⟩
  rw [hpc, hqc]
  exact hchain

theorem abort (h : KindredBy k p q) (e : Failure) : KindredBy k (p.abort e) (q.abort e) :=
  (h.emit (.scriptAborted e p.line) (.scriptAborted e q.line)).teardown

theorem queue (h : KindredBy k p q) (path : Path) : KindredBy k (p.queue path) (q.queue path) := by
  have hqueue (p : Processor) : (p.queue path).bare = p.bare ∧ Keeps p (p.queue path) ∧
      (p.queue path).current.chain = (p.current.chain.enqueue (p.script.getD ⟨[]⟩) path).2 := by
    unfold Processor.queue
    dsimp only
    split <;> exact ⟨rfl, ⟨rfl, rfl, rfl, fun _ _ => rfl, rfl⟩, rfl⟩
  obtain ⟨hpb, hpk, hpc⟩ := hqueue p
  obtain ⟨hqb, hqk, hqc⟩ := hqueue q
  refine h.congr (by rw [hpb, hqb, h.bare]) ?_ hpk hqk
  rw [hpc, hqc]
  exact h.chain.enqueue (Path.components_getD h.script ⟨[]⟩) path

theorem leaveProcedure (h : KindredBy k p q) :
    KindredBy k (p.setInProcedure false) (q.setInProcedure false) := by
  have hleave (p : Processor) : (p.setInProcedure false).current =
      { p.current with inProcedure := false } := by
    unfold setInProcedure Processor.current
    cases p.installation <;> rfl
  refine h.update (fun p => p.setInProcedure false)
    (fun o => { o with installation := some { o.current.apart with inProcedure := false } })
    (fun p => ?_) (fun p => ?_) fun _ => ⟨rfl, rfl, rfl, fun _ _ => rfl, rfl⟩
  · unfold Processor.bare
    rw [hleave]
    rfl
  · rw [hleave]

theorem ask (h : KindredBy k p q) (question : Text) :
    (q.ask question).2.accepts (q.ask question).1 = (p.ask question).2.accepts (p.ask question).1 ∧
      KindredBy k (p.ask question).2 (q.ask question).2 := by
  have hasked (p : Processor) : (p.ask question).2.bare = p.bare ∧
      (p.ask question).2.session = p.session ∧ (p.ask question).2.inclusion = p.inclusion ∧
      (p.ask question).2.script = p.script ∧ (p.ask question).2.current = p.current := by
    unfold Processor.ask
    split <;> exact ⟨rfl, rfl, rfl, rfl, rfl⟩
  obtain ⟨hp, hpk⟩ := ask_consents p question
  obtain ⟨hq, hqk⟩ := ask_consents q question
  obtain ⟨hpb, hps, hpi, hpn, hpc⟩ := hasked p
  obtain ⟨hqb, hqs, -, hqn, hqc⟩ := hasked q
  refine ⟨by rw [hp, hq, h.consents], by rw [hpb, hqb, h.bare], by rw [hps, hqs, h.session], ?_,
    by rw [hpn, hqn, h.script], ?_, ?_, ?_⟩
  · rw [hpc, hqc]
    exact h.chain
  · intro n t
    rw [hpk, hqk, h.consents]
  · have hmarked : (p.ask question).2.marked = p.marked := (congrArg Processor.marked hpb :)
    rw [hmarked]
    exact h.counted
  · rw [Processor.isIncluding, hpi, Processor.isOpen, hps]
    exact h.including

end KindredBy

theorem openPath_kindred (h : KindredBy k p q) (path : Path) :
    Abreast Kindred (fun _ _ => False) (openPath path) (openPath path) p q L
      (fun _ => Kindred) := by
  unfold openPath
  apply Abreast.next (Q := fun _ => KindredBy k)
  · exact .modify h.shut
  · rintro - p q h
    apply Abreast.get
    rw [h.files]
    cases LineReader.openFile p.files path with
    | error cause =>
      apply Abreast.next (Q := fun _ => KindredBy k)
      · exact .set (h.unopened path cause)
      · rintro - p q h
        exact .throw _ ⟨k, h⟩
    | ok reader => exact .set ⟨0, h.opened path reader⟩

theorem close_kindred (h : KindredBy k p q) :
    Abreast Kindred (fun _ _ => False) close close p q L (fun _ => Kindred) := by
  unfold close
  apply Abreast.get
  rw [h.isOpen]
  split
  · apply Abreast.next (Q := fun _ => KindredBy k)
    · exact .modify (h.shut.closeRecord false)
    · rintro - p q h
      apply Abreast.get
      obtain ⟨hnext, hmoved⟩ := h.advanceChain
      dsimp only
      rw [hnext]
      cases p.advanceChain.1 with
      | none => exact .set ⟨k, hmoved.teardown.emit _ _⟩
      | some path =>
        have hleft := hmoved.update (fun p => { p with lastServed := false }) id (fun _ => rfl)
          (fun _ => rfl) fun _ => ⟨rfl, rfl, rfl, fun _ _ => rfl, rfl⟩
        apply Abreast.next (Q := fun _ => KindredBy k)
        · exact .set (hleft.emit (.nextPackage path) (.nextPackage path))
        · rintro - p q h
          exact openPath_kindred h path
  · exact .pure ⟨k, h⟩

structure Active (k : Nat) (p q : Processor) : Prop extends KindredBy k p q where
  isOpen : p.isOpen = true

theorem KindredBy.active (h : KindredBy k p q) (ho : p.isOpen = true) : Active k p q := ⟨h, ho⟩

theorem active_simulation (k : Nat) : Simulation k (fun _ => True) (fun _ => False) (Active k)
    Kindred (fun _ _ => False) where
  failed h := ⟨k, h.toKindredBy⟩
  session h := h.session
  inclusion h := h.inclusion
  installMode h := h.installMode
  settings h := h.settings
  now h := (congrArg Processor.now h.bare :)
  current h := h.current
  files h := by
    rw [h.files]
    exact .refl _ _
  sees h _ := by
    intro id _
    rw [h.files]
  emit h _ := (h.emit _ _).active h.isOpen
  started h := (h.emit _ _).active h.isOpen
  skipped _ h := (h.emit _ _).active h.isOpen
  say t h := (h.update (fun p => p.say t) id (fun _ => rfl) (fun _ => rfl)
    fun _ => ⟨rfl, rfl, rfl, fun _ _ => rfl, rfl⟩).active h.isOpen
  request a h := (h.update (fun p => p.request a) id (fun _ => rfl) (fun _ => rfl)
    fun _ => ⟨rfl, rfl, rfl, fun _ _ => rfl, rfl⟩).active h.isOpen
  remember t h := (h.update (fun p => { p with header := t }) id (fun _ => rfl) (fun _ => rfl)
    fun _ => ⟨rfl, rfl, rfl, fun _ _ => rfl, rfl⟩).active h.isOpen
  read b h _ _ := ⟨⟨h.bare, rfl, h.chain, h.script, h.consents, h.counted, fun _ => rfl⟩, rfl⟩
  serve b h := (h.update (fun p => { p with lastServed := b }) id (fun _ => rfl) (fun _ => rfl)
    fun _ => ⟨rfl, rfl, rfl, fun _ _ => rfl, rfl⟩).active h.isOpen
  «include» i h := ⟨⟨congrArg (fun o => { o with inclusion := i }) h.bare, h.session, h.chain,
    h.script, h.consents, h.counted, fun _ => h.isOpen⟩, h.isOpen⟩
  install i h := (h.update
    (fun p => { p with installation := some { i with chain := p.current.chain } })
    (fun o => { o with installation := some i.apart }) (fun _ => rfl) (fun _ => rfl)
    fun _ => ⟨rfl, rfl, rfl, fun _ _ => rfl, rfl⟩).active h.isOpen
  leaveProcedure h := h.leaveProcedure.active h.isOpen
  queue path h := (h.queue path).active ((queue_carries _ path).1.isOpen.trans h.isOpen)
  ask question h := by
    obtain ⟨haccepts, hasked⟩ := h.ask question
    exact ⟨haccepts, hasked, (ask_own _ question).2.1.trans h.isOpen⟩
  write {p q fs fs'} h hf := by
    obtain rfl := hf.eq_of_none
    exact (h.update (fun p => { p with files := fs' }) (fun o => { o with files := fs' })
      (fun _ => rfl) (fun _ => rfl) fun _ => ⟨rfl, rfl, rfl, fun _ _ => rfl, rfl⟩).active h.isOpen
  declined _ _ := trivial
  close _ h := close_kindred h.toKindredBy

theorem active_turnSimulation (k : Nat) :
    TurnSimulation k (fun _ => True) (Active k) Kindred (fun _ _ => False) where
  toSimulation := active_simulation k
  marked h := h.marked
  counted h := h.counted
  functions h := h.functions
  expandThis h := h.toKindredBy.expandThis h.isOpen
  define functions h := (h.update (fun p => { p with functions }) (fun o => { o with functions })
    (fun _ => rfl) (fun _ => rfl) fun _ => ⟨rfl, rfl, rfl, fun _ _ => rfl, rfl⟩).active h.isOpen

def Tallies {α : Type} (x y : Outcome α) : Prop :=
  (∃ e p q, x = .error e p ∧ y = .error e q ∧ Kindred p q) ∨
    ∃ a p q, x = .ok a p ∧ y = .ok a q ∧ Kindred p q

theorem Abreast.tallies {α : Type} {x y : Action α} {L : α → Prop}
    {Q : α → Processor → Processor → Prop}
    (h : Abreast Kindred (fun _ _ => False) x y p q L Q) (hQ : ∀ a p q, Q a p q → Kindred p q) :
    Tallies (x p) (y q) := by
  rcases h with he | ⟨a, p', q', hx, hy, ha⟩ | ⟨hfalse, -⟩
  · exact .inl he
  · exact .inr ⟨a, p', q', hx, hy, hQ a p' q' ha⟩
  · exact hfalse.elim

theorem Tallies.state {α : Type} {x y : Outcome α} (h : Tallies x y) :
    Kindred (stateOf x) (stateOf y) := by
  rcases h with ⟨e, p, q, rfl, rfl, h⟩ | ⟨a, p, q, rfl, rfl, h⟩
  · exact h
  · exact h

theorem settle_active (h : Active k p q) (t : Text) :
    Tallies (settle (.ok t p)) (settle (.ok t q)) := by
  have hclose := closeAtEnd_abreast (active_simulation k) (fun _ => trivial) h
  unfold settle
  rcases hclose.tallies (fun _ _ _ h => h) with ⟨e, p', q', hx, hy, hk⟩ | ⟨u, p', q', hx, hy, hk⟩
  · obtain ⟨j, hk⟩ := hk
    simp only [hx, hy]
    exact .inl ⟨e, _, _, rfl, rfl, j, hk.abort e⟩
  · simp only [hx, hy]
    exact .inr ⟨t, p', q', rfl, rfl, hk⟩

theorem settle_idle (hi : p.inclusion = none) (hs : p.session = none) (t : Text) :
    settle (.ok t p) = .ok t p := by
  simp only [settle, closeAtEnd_closed (by simp [isIncluding, hi]) hs]

theorem KindredBy.idle (h : KindredBy k p q) (ho : p.isOpen = false) :
    p.inclusion = none ∧ p.session = none := by
  have hi : p.isIncluding = false := by
    by_contra hi
    exact absurd (h.including (by simpa using hi)) (by simp [ho])
  exact ⟨by simpa [Processor.isIncluding] using hi, by simpa [Processor.isOpen] using ho⟩

theorem kindred_paired :
    Paired (fun _ => Kindred) (fun _ _ o o' => Tallies (settle o) (settle o')) := by
  rintro notes p q ⟨k, h⟩
  cases ho : p.isOpen with
  | false =>
    obtain ⟨hpi, hps⟩ := h.idle ho
    have hqi : q.inclusion = none := h.inclusion.trans hpi
    have hqs : q.session = none := by rw [h.session, hps]; rfl
    refine .inr ⟨.ok [] p, .ok [] q, turn_idle hpi hps notes, turn_idle hqi hqs notes, ?_⟩
    exact .inr ⟨[], p, q, settle_idle hpi hps [], settle_idle hqi hqs [], k, h⟩
  | true =>
    rcases turn_abreast (active_turnSimulation k) (h.active ho) notes with
      ⟨e, p', q', hp, hq, j, hk⟩ | ⟨x, p', q', hp, hq, hk, hactive⟩ | ⟨hfalse, -⟩
    · exact .inr ⟨.error e p', .error e q', hp, hq, .inl ⟨e, _, _, rfl, rfl, j, hk.abort e⟩⟩
    · cases x with
      | more n => exact .inl ⟨n, p', q', hp, hq, hk⟩
      | command t =>
        exact .inr ⟨.ok t p', .ok t q', hp, hq, settle_active (hactive t rfl) t⟩
    · exact hfalse.elim

theorem Kindred.next? (h : Kindred p q) : (p.next? = none ∧ q.next? = none) ∨
    ∃ o o', p.next? = some o ∧ q.next? = some o' ∧ Tallies o o' := by
  have ho : q.isOpen = p.isOpen := h.elim fun _ hk => hk.isOpen
  unfold Processor.next?
  rw [ho]
  split
  · rcases kindred_paired.feed? {} h with
      ⟨hp, hq⟩ | ⟨-, -, -, o, o', hp, hq, -, -, -, hR⟩
    · rw [hp, hq]
      exact .inl ⟨rfl, rfl⟩
    · rw [hp, hq]
      exact .inr ⟨_, _, rfl, rfl, hR⟩
  · exact .inr ⟨_, _, rfl, rfl, .inr ⟨[], p, q, rfl, rfl, h⟩⟩

end Processor

end ScriptFeed
