import ScriptFeed.Proofs.Serial
import ScriptFeed.Proofs.TurnsAbreast

/-!
Two runs that read the same script. Processors beside each other hold the same for the script and
differ in what belongs to the rest of their runs: the chain, who answers questions, and what was
shown, asked of the host and told before. What the script comes to does not depend on the rest.
-/

namespace ScriptFeed

namespace Processor

open Package Comment

variable {b c p q p' q' : Processor} {notes notes' : Notes} {t : Text} {ts : List Text}

def own (p : Processor) : Processor :=
  { p with
    prompt := none, asked := 0, installation := some p.current.apart, lastServed := false
    header := [], output := [], actions := [], events := [] }

def consents (k : Nat) (question : Text) (p : Processor) : Bool :=
  p.accepts (match p.prompt with
    | some f => f (p.asked + k) question
    | none => [])

/-- From `b` and `c` on, `p` and `q` have read the same script in the same way. -/
structure Beside (b c p q : Processor) : Prop where
  own : q.own = p.own
  isOpen : p.isOpen = true
  consents : ∀ k question, q.consents k question = p.consents k question
  output : ∃ l, p.output = b.output ++ l ∧ q.output = c.output ++ l
  actions : ∃ l, p.actions = b.actions ++ l ∧ q.actions = c.actions ++ l
  serial : p.serial = b.serial ∧ q.serial = c.serial
  events : b.events <+: p.events

structure Carries (p q : Processor) : Prop where
  isOpen : q.isOpen = p.isOpen
  consents : ∀ k question, q.consents k question = p.consents k question
  output : q.output = p.output
  actions : q.actions = p.actions
  serial : q.serial = p.serial
  events : p.events <+: q.events

theorem emit_serial {e : Event} (h : e.session? = none) : (p.emit e).serial = p.serial := by
  have hs := serial_append (p := p) (q := p.emit e) (l := [e]) rfl
  simpa [h] using hs

theorem emit_carries {e : Event} (h : e.session? = none) : Carries p (p.emit e) :=
  ⟨rfl, fun _ _ => rfl, rfl, rfl, emit_serial h, List.prefix_append _ _⟩

theorem queue_carries (p : Processor) (path : Path) :
    Carries p (p.queue path) ∧ (p.queue path).own = p.own := by
  unfold queue
  dsimp only
  split
  · exact ⟨⟨rfl, fun _ _ => rfl, rfl, rfl, emit_serial (p := { p with installation := _ }) rfl,
      List.prefix_append _ _⟩, rfl⟩
  · exact ⟨⟨rfl, fun _ _ => rfl, rfl, rfl, rfl, List.prefix_rfl⟩, rfl⟩

theorem leaveProcedure_own (p : Processor) : (p.setInProcedure false).own =
    { p.own with installation := some { p.current.apart with inProcedure := false } } := by
  unfold setInProcedure own current
  cases p.installation <;> rfl

theorem ask_consents (p : Processor) (question : Text) :
    (p.ask question).2.accepts (p.ask question).1 = p.consents 0 question ∧
      ∀ k t, (p.ask question).2.consents k t = p.consents (k + 1) t := by
  unfold ask consents
  cases hp : p.prompt with
  | none => exact ⟨rfl, fun k t => by simp [hp]⟩
  | some f =>
    refine ⟨rfl, fun k t => ?_⟩
    have hk : p.asked + 1 + k = p.asked + (k + 1) := by omega
    simp only [hk]
    rfl

theorem ask_own (p : Processor) (question : Text) : (p.ask question).2.own = p.own ∧
    (p.ask question).2.isOpen = p.isOpen ∧ (p.ask question).2.output = p.output ∧
    (p.ask question).2.actions = p.actions ∧ (p.ask question).2.serial = p.serial ∧
    (p.ask question).2.events = p.events := by
  unfold ask
  split <;> exact ⟨rfl, rfl, rfl, rfl, rfl, rfl⟩

namespace Beside

theorem congr (h : Beside b c p q) (hown : q'.own = p'.own) (hp : Carries p p')
    (hq : Carries q q') : Beside b c p' q' where
  own := hown
  isOpen := hp.isOpen.trans h.isOpen
  consents k question := by rw [hp.consents, hq.consents, h.consents]
  output := by rw [hp.output, hq.output]; exact h.output
  actions := by rw [hp.actions, hq.actions]; exact h.actions
  serial := by rw [hp.serial, hq.serial]; exact h.serial
  events := h.events.trans hp.events

theorem update (h : Beside b c p q) (f g : Processor → Processor)
    (hown : ∀ p, (f p).own = g p.own) (hc : ∀ p, Carries p (f p)) : Beside b c (f p) (f q) :=
  h.congr (by rw [hown, hown, h.own]) (hc p) (hc q)

theorem start (hown : q.own = p.own) (ho : p.isOpen = true)
    (hconsents : ∀ k question, q.consents k question = p.consents k question) : Beside p q p q :=
  ⟨hown, ho, hconsents, ⟨[], by simp, by simp⟩, ⟨[], by simp, by simp⟩, ⟨rfl, rfl⟩, List.prefix_rfl⟩

theorem rebase (h : Beside b c p q) : Beside p q p q := start h.own h.isOpen h.consents

section Fields

variable (h : Beside b c p q)
include h

theorem session : q.session = p.session := (congrArg Processor.session h.own :)

theorem inclusion : q.inclusion = p.inclusion := (congrArg Processor.inclusion h.own :)

theorem installMode : q.installMode = p.installMode := (congrArg Processor.installMode h.own :)

theorem settings : q.settings = p.settings := (congrArg Processor.settings h.own :)

theorem files : q.files = p.files := (congrArg Processor.files h.own :)

theorem marked : q.marked = p.marked := (congrArg Processor.marked h.own :)

theorem script : q.script = p.script := (congrArg Processor.script h.own :)

theorem functions : q.functions = p.functions := (congrArg Processor.functions h.own :)

theorem current : q.current.apart = p.current.apart :=
  Option.some.inj (congrArg Processor.installation h.own)

theorem isOpen_right : q.isOpen = true := by
  rw [Processor.isOpen, h.session]
  exact h.isOpen

theorem expandThis : q.expandThis = p.expandThis := by
  funext t
  rw [Processor.expandThis, directory, h.session, h.script, Processor.expandThis, directory]

end Fields

end Beside

def Declined (b p : Processor) : Prop :=
  ∃ name l, .licenseDeclined name ∈ l ∧ p.events = b.events ++ l

theorem Declined.extends (h : Declined b p) (hq : Extends p q) : Declined b q := by
  obtain ⟨name, l, hname, hl⟩ := h
  obtain ⟨l', hl'⟩ := hq.events
  refine ⟨name, l ++ l', List.mem_append_left l' hname, ?_⟩
  rw [← hl', hl, List.append_assoc]

structure Left (b p : Processor) : Prop where
  declined : Declined b p
  past : Past b.serial p

theorem Left.moves {N : Allowed} (h : Left b p) (hm : Moves N p q) : Left b q :=
  ⟨h.declined.extends hm.extends, hm.past h.past⟩

def Departed (b c p q : Processor) : Prop := Left b p ∧ Past c.serial q

theorem close_departed (hd : Declined b p) (h : Beside b c p q) : Abreast (Beside b c)
    (Departed b c) close close p q (fun _ => True) (fun _ => Beside b c) := by
  have hp := Ends.state (close_past h.isOpen h.serial.1.ge)
  have hq := Ends.state (close_past h.isOpen_right h.serial.2.ge)
  have hleft : Extends p (stateOf (close p)) := Moves.extends (N := .all) (close_moves p)
  refine .inr (.inr ⟨⟨⟨hd.extends hleft, hp⟩, hq⟩, ?_, ?_⟩)
  · exact ends_of_run (fun _ _ _ => trivial) (fun _ _ _ => trivial)
  · exact ends_of_run (fun _ _ _ => trivial) (fun _ _ _ => trivial)

theorem beside_simulation (b c : Processor) :
    Simulation 0 (Declined b) (fun _ => False) (Beside b c) (Beside b c) (Departed b c) where
  failed := id
  session h := h.session.trans (Session.map_ahead_zero _).symm
  inclusion := Beside.inclusion
  installMode := Beside.installMode
  settings := Beside.settings
  now h := (congrArg Processor.now h.own :)
  current := Beside.current
  files h := by
    rw [h.files]
    exact .refl _ _
  sees h _ := by
    intro id _
    rw [h.files]
  emit h he := h.congr h.own (emit_carries he) (emit_carries he)
  started h := h.congr h.own (emit_carries rfl) (emit_carries rfl)
  skipped _ h := h.congr h.own (emit_carries rfl) (emit_carries rfl)
  say t h := by
    obtain ⟨l, hp, hq⟩ := h.output
    refine ⟨h.own, h.isOpen, h.consents, ⟨l ++ [t], ?_, ?_⟩, h.actions, h.serial, h.events⟩
    · simp [say, hp]
    · simp [say, hq]
  request a h := by
    obtain ⟨l, hp, hq⟩ := h.actions
    refine ⟨h.own, h.isOpen, h.consents, h.output, ⟨l ++ [a], ?_, ?_⟩, h.serial, h.events⟩
    · simp [request, hp]
    · simp [request, hq]
  remember t h := h.update (fun p => { p with header := t }) id (fun _ => rfl)
    fun _ => ⟨rfl, fun _ _ => rfl, rfl, rfl, rfl, List.prefix_rfl⟩
  read {p q s r} x h hs hr := by
    refine h.congr ?_ ⟨(isOpen_of_session hs).symm, fun _ _ => rfl, rfl, rfl, rfl, List.prefix_rfl⟩
      ⟨(isOpen_of_session (h.session.trans hs)).symm, fun _ _ => rfl, rfl, rfl, rfl,
        List.prefix_rfl⟩
    exact congrArg (fun o => { o with session := some ⟨r, x⟩ }) h.own
  serve x h := h.update (fun p => { p with lastServed := x }) id (fun _ => rfl)
    fun _ => ⟨rfl, fun _ _ => rfl, rfl, rfl, rfl, List.prefix_rfl⟩
  «include» i h :=
    h.update (fun p => { p with inclusion := i }) (fun o => { o with inclusion := i })
    (fun _ => rfl) fun _ => ⟨rfl, fun _ _ => rfl, rfl, rfl, rfl, List.prefix_rfl⟩
  install i h := h.update
    (fun p => { p with installation := some { i with chain := p.current.chain } })
    (fun o => { o with installation := some i.apart }) (fun _ => rfl)
    fun _ => ⟨rfl, fun _ _ => rfl, rfl, rfl, rfl, List.prefix_rfl⟩
  leaveProcedure {p q} h := by
    have hcarries (p : Processor) : Carries p (p.setInProcedure false) :=
      ⟨rfl, fun _ _ => rfl, rfl, rfl, rfl, List.prefix_rfl⟩
    refine h.congr ?_ (hcarries p) (hcarries q)
    rw [leaveProcedure_own p, leaveProcedure_own q, h.own, h.current]
  queue path h := by
    obtain ⟨hp, hpo⟩ := queue_carries _ path
    obtain ⟨hq, hqo⟩ := queue_carries _ path
    exact h.congr (by rw [hqo, hpo, h.own]) hp hq
  ask question h := by
    obtain ⟨hp, hpk⟩ := ask_consents _ question
    obtain ⟨hq, hqk⟩ := ask_consents _ question
    obtain ⟨hpo, hpopen, hpout, hpact, hpser, hpev⟩ := ask_own _ question
    obtain ⟨hqo, -, hqout, hqact, hqser, -⟩ := ask_own _ question
    refine ⟨by rw [hp, hq, h.consents], by rw [hqo, hpo, h.own], hpopen.trans h.isOpen, ?_, ?_, ?_,
      ?_, ?_⟩
    · intro k t
      rw [hpk, hqk, h.consents]
    · rw [hpout, hqout]
      exact h.output
    · rw [hpact, hqact]
      exact h.actions
    · rw [hpser, hqser]
      exact h.serial
    · rw [hpev]
      exact h.events
  write {p q fs fs'} h hf := by
    obtain rfl := hf.eq_of_none
    exact h.update (fun p => { p with files := fs' }) (fun o => { o with files := fs' })
      (fun _ => rfl) fun _ => ⟨rfl, fun _ _ => rfl, rfl, rfl, rfl, List.prefix_rfl⟩
  declined name h := by
    obtain ⟨l, hl⟩ := h.events
    refine ⟨name, l ++ [.licenseDeclined name], by simp, ?_⟩
    rw [emit, ← hl, List.append_assoc]
  close := close_departed

theorem beside_turnSimulation (b c : Processor) :
    TurnSimulation 0 (Declined b) (Beside b c) (Beside b c) (Departed b c) where
  toSimulation := beside_simulation b c
  marked := Beside.marked
  counted _ := .inl rfl
  functions := Beside.functions
  expandThis := Beside.expandThis
  define functions h := h.update (fun p => { p with functions }) (fun o => { o with functions })
    (fun _ => rfl) fun _ => ⟨rfl, fun _ _ => rfl, rfl, rfl, rfl, List.prefix_rfl⟩

theorem turn_beside (h : Beside b c p q) (notes : Notes) :
    Abreast (Beside b c) (Departed b c) (turn notes) (turn notes) p q (fun x => ∃ n, x = .more n)
      (fun _ => Beside b c) :=
  (turn_abreast (beside_turnSimulation b c) h notes).mono fun _ _ _ hx => hx.1

end Processor

end ScriptFeed
