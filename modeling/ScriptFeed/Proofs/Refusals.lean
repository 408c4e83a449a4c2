import ScriptFeed.Proofs.Gates
import ScriptFeed.Proofs.Queueing
import ScriptFeed.Proofs.TurnsAbreast

namespace ScriptFeed.Processor

open Package Comment

variable {α : Type} {b p q r : Processor} {notes n : Notes} {line t : Text} {rest : Option Text}
  {h : Header}

def place (p : Processor) : Option Path := p.session.map (·.reader.path)

theorem isOpen_eq_place (p : Processor) : p.isOpen = p.place.isSome := by
  rw [isOpen, place, Option.isSome_map]

def Opens (p : Processor) (paths : List Path) (q : Processor) : Prop :=
  ∃ l, q.events = p.events ++ l ∧ l.filterMap Event.session? = paths

theorem Opens.of_eq (h : q.events = p.events) : Opens p [] q :=
  ⟨[], by rw [h, List.append_nil], rfl⟩

theorem Opens.trans {paths paths' : List Path} (h : Opens p paths q) (h' : Opens q paths' r) :
    Opens p (paths ++ paths') r := by
  obtain ⟨l, hl, rfl⟩ := h
  obtain ⟨l', hl', rfl⟩ := h'
  exact ⟨l ++ l', by rw [hl', hl, List.append_assoc], List.filterMap_append⟩

theorem opens_emit (p : Processor) (e : Event) : Opens p e.session?.toList (p.emit e) := by
  refine ⟨[e], rfl, ?_⟩
  cases h : e.session? <;> simp [h]

structure Stays (b p : Processor) : Prop where
  isOpen : p.isOpen = true
  place : p.place = b.place
  opens : Opens b [] p
  cursor : p.current.chain.cursor = b.current.chain.cursor
  entries : b.current.chain.entries <+: p.current.chain.entries

theorem Stays.refl (ho : p.isOpen = true) : Stays p p :=
  ⟨ho, rfl, .of_eq rfl, rfl, List.prefix_rfl⟩

theorem Stays.congr (h : Stays b p) (hs : q.place = p.place) (he : q.events = p.events)
    (hc : q.current.chain = p.current.chain) : Stays b q := by
  refine ⟨?_, hs.trans h.place, h.opens.trans (.of_eq he), hc ▸ h.cursor, hc ▸ h.entries⟩
  rw [isOpen_eq_place, hs, ← isOpen_eq_place]
  exact h.isOpen

theorem Stays.emit (h : Stays b p) {e : Event} (he : e.session? = none) : Stays b (p.emit e) := by
  refine ⟨h.isOpen, h.place, ?_, h.cursor, h.entries⟩
  have hopens := opens_emit p e
  rw [he] at hopens
  exact h.opens.trans hopens

theorem Stays.queue (h : Stays b p) (path : Path) : Stays b (p.queue path) := by
  have hchain := queue_chain p path
  have hset : Stays b { p with installation := (p.queue path).installation } := by
    have hcurrent : ({ p with installation := (p.queue path).installation } : Processor).current =
        (p.queue path).current := rfl
    refine ⟨h.isOpen, h.place, h.opens, ?_, ?_⟩
    · rw [hcurrent, hchain, enqueue_cursor]
      exact h.cursor
    · rw [hcurrent, hchain]
      exact h.entries.trans (Chain.enqueue_begins _ _ _)
  unfold Processor.queue at hset ⊢
  dsimp only at hset ⊢
  cases hnew : (p.current.chain.enqueue (p.script.getD ⟨[]⟩) path).1 with
  | true =>
    rw [hnew] at hset
    exact hset.emit rfl
  | false =>
    rw [hnew] at hset
    exact hset

def Alone (b p q : Processor) : Prop := q = p ∧ Stays b p

theorem Alone.update (h : Alone b p q) (f : Processor → Processor)
    (hf : Stays b p → Stays b (f p)) : Alone b (f p) (f q) := ⟨congrArg f h.1, hf h.2⟩

theorem alone_simulation (b : Processor) :
    TurnSimulation 0 (fun _ => True) (Alone b) (Alone b) (fun _ _ => True) where
  failed := id
  session h := by rw [h.1, Session.map_ahead_zero]
  inclusion h := by rw [h.1]
  installMode h := by rw [h.1]
  settings h := by rw [h.1]
  now h := by rw [h.1]
  current h := by rw [h.1]
  files h := by
    rw [h.1]
    exact .refl _ _
  sees h _ := by
    intro id _
    rw [h.1]
  emit {_ _ e} h he := h.update (Processor.emit e) fun h => h.emit he
  started h := h.update (fun p => p.emit (.installationStarted p.shortName)) fun h => h.emit rfl
  skipped n h := h.update (Processor.emit (.sectionSkipped n)) fun h => h.emit rfl
  say t h := h.update (Processor.say t) fun h => h.congr rfl rfl rfl
  request a h := h.update (Processor.request a) fun h => h.congr rfl rfl rfl
  remember t h := h.update (fun p => { p with header := t }) fun h => h.congr rfl rfl rfl
  read {p _ s r} x h hs hr := h.update (fun p => { p with session := some ⟨r, x⟩ }) fun h => by
    refine h.congr ?_ rfl rfl
    rw [place, place, hs]
    exact congrArg some hr.path
  serve x h := h.update (fun p => { p with lastServed := x }) fun h => h.congr rfl rfl rfl
  «include» i h := h.update (fun p => { p with inclusion := i }) fun h => h.congr rfl rfl rfl
  install i h := h.update
    (fun p => { p with installation := some { i with chain := p.current.chain } })
    fun h => h.congr rfl rfl rfl
  leaveProcedure {p _} h := h.update (Processor.setInProcedure false) fun h =>
    h.congr rfl rfl (setInProcedure_frame p false).current
  queue path h := h.update (fun p => p.queue path) fun h => h.queue path
  ask {p _} question h := by
    refine ⟨by rw [h.1], h.update (fun p => (p.ask question).2) fun h => ?_⟩
    unfold Processor.ask
    split
    · exact h.congr rfl rfl rfl
    · exact h
  write {_ _ _ fs} h hf := by
    obtain rfl := hf.eq_of_none
    exact h.update (fun p => { p with files := fs }) fun h => h.congr rfl rfl rfl
  declined _ _ := trivial
  close _ _ := .inr (.inr ⟨trivial, ends_of_run (fun _ _ _ => trivial) (fun _ _ _ => trivial),
    ends_of_run (fun _ _ _ => trivial) (fun _ _ _ => trivial)⟩)
  marked h := by rw [h.1]
  counted _ := .inl rfl
  functions h := by rw [h.1]
  expandThis h := by rw [h.1]
  define functions h := h.update (fun p => { p with functions }) fun h => h.congr rfl rfl rfl

theorem Abreast.stays {x : Action α} {a : α}
    (h : Abreast (Alone b) (fun _ _ => True) x x p p Never fun _ => Alone b) (hx : x p = .ok a q) :
    Stays b q := by
  rcases h with ⟨e, p', q', hx', -⟩ | ⟨a', p', q', hx', -, ha⟩ | ⟨-, hnever, -⟩
  · exact absurd (hx.symm.trans hx') (by simp)
  · obtain ⟨rfl, rfl⟩ := EStateM.Result.ok.inj (hx.symm.trans hx')
    exact ha.2
  · exact (Ends.ok hnever hx).elim

def endsHeader (t : Text) : Bool := Text.contains infoClose (stripLine t false)

theorem assemble_cases (ha : assemble line p = .ok t q) : (q = p ∧ t = line) ∨
    ∃ s passage x, p.session = some s ∧ Text.contains infoClose line = false ∧
      s.reader.through p.files endsHeader = .ok (passage, x) ∧ q = p.setReader x ∧
      t = line ++ passage.lines.flatMap fun u => ' ' :: stripLine u false := by
  rw [assemble] at ha
  by_cases hclose : Text.contains infoClose line = true
  · rw [if_pos hclose] at ha
    obtain ⟨rfl, rfl⟩ := EStateM.Result.ok.inj ha
    exact .inl ⟨rfl, rfl⟩
  · rw [if_neg hclose, bind_ok (get_run p)] at ha
    cases hs : p.session with
    | none =>
      simp only [hs] at ha
      obtain ⟨rfl, rfl⟩ := EStateM.Result.ok.inj ha
      exact .inl ⟨rfl, rfl⟩
    | some s =>
      simp only [hs] at ha
      change (lift (s.reader.through p.files endsHeader) >>= _) p = _ at ha
      cases hx : s.reader.through p.files endsHeader with
      | error e =>
        rw [hx] at ha
        cases ha
      | ok y =>
        obtain ⟨passage, x⟩ := y
        rw [hx] at ha
        obtain ⟨rfl, rfl⟩ := EStateM.Result.ok.inj ha
        exact .inr ⟨s, passage, x, rfl, by simpa using hclose, hx, rfl, rfl⟩

theorem Stays.enlist (hb : Stays b p) (h : Header) : Stays b (p.enlist h) := by
  have hset : Alone b { p with installation := some p.current }
      { p with installation := some p.current } := ⟨rfl, hb.congr rfl rfl rfl⟩
  exact ((alone_simulation b).foldl_queue _ hset).2

theorem Stays.refuse (hb : Stays b p) (h : Header) : Stays b (p.refuse h) :=
  (hb.congr (q := p.say abortMessage) rfl rfl rfl).emit rfl

theorem agree_run (h : Header) (p : Processor) : ∃ ok output asked,
    agree h p = .ok ok { p with output, asked } ∧ (ok = false ↔ Declines p h) := by
  cases hl : h.license with
  | none => exact ⟨true, p.output, p.asked, agree_free hl p, by simp [Declines, hl]⟩
  | some license =>
    let question := licenseMessage h.name license
    obtain ⟨asked, hasked⟩ := asked_eq p question
    refine ⟨_, p.output ++ [question], asked, ?_, (declines_iff hl).symm⟩
    rw [agree_asked hl, hasked]

theorem readHeader_ok (hr : readHeader line p = .ok rest q) :
    ∃ t p₁ header tail, assemble line p = .ok t p₁ ∧ splitInfo? t = some (header, tail) ∧
      ¬Outdated p (Header.parse header) ∧ ∃ ok output asked,
        let w : Processor := { p₁.enlist (Header.parse header) with output, asked }
        (ok = false ↔ Declines p (Header.parse header)) ∧
        (ok = true → q = w.admitHeader (Header.parse header) ∧
          rest = if Text.trim tail = [] then none else some (Text.trim tail)) ∧
        (ok = false → rest = none ∧ close (w.refuse (Header.parse header)) = .ok ⟨⟩ q) := by
  cases ha : assemble line p with
  | error e p₁ =>
    rw [readHeader, bind_error ha] at hr
    cases hr
  | ok t p₁ =>
    cases hs : splitInfo? t with
    | none =>
      rw [readHeader, bind_ok ha] at hr
      simp only [hs] at hr
      cases hr
    | some x =>
      obtain ⟨header, tail⟩ := x
      let h := Header.parse header
      have hw := assemble_enlist_weighs ha h
      refine ⟨t, p₁, header, tail, rfl, hs, ?_⟩
      rw [readHeader_run ha hs, weigh] at hr
      by_cases hv : h.required.any ((p₁.enlist h).settings.version < ·) = true
      · rw [if_pos hv] at hr
        cases hr
      · rw [if_neg hv] at hr
        refine ⟨fun hold => hv ?_, ?_⟩
        · rw [outdated_iff, Outdated.of_weighs hw]
          exact hold
        · obtain ⟨ok, output, asked, hagree, hok⟩ := agree_run h (p₁.enlist h)
          rw [Declines.of_weighs hw] at hok
          refine ⟨ok, output, asked, hok, ?_⟩
          rw [hagree] at hr
          cases ok with
          | true =>
            obtain ⟨rfl, rfl⟩ := EStateM.Result.ok.inj hr
            exact ⟨fun _ => ⟨rfl, rfl⟩, by simp⟩
          | false =>
            refine ⟨by simp, fun _ => ?_⟩
            obtain ⟨_, r, hclose, hr⟩ := bind_eq_ok hr
            obtain ⟨rfl, rfl⟩ := EStateM.Result.ok.inj hr
            exact ⟨rfl, hclose⟩

theorem readHeader_cases (hb : Stays b p) (hr : readHeader line p = .ok rest q) :
    Stays b q ∨ rest = none ∧ ∃ h w, Heads line p h ∧ ¬Outdated p h ∧ Declines p h ∧ Stays b w ∧
      close w = .ok ⟨⟩ q := by
  obtain ⟨t, p₁, header, tail, ha, hs, hnew, ok, output, asked, hok, hyes, hno⟩ := readHeader_ok hr
  have S := (alone_simulation b).toSimulation
  have hassembled : Stays b p₁ := (assemble_abreast S ⟨rfl, hb⟩ line).stays ha
  have hw : Stays b { p₁.enlist (Header.parse header) with output, asked } :=
    (hassembled.enlist _).congr rfl rfl rfl
  cases ok with
  | true =>
    refine .inl ?_
    rw [(hyes rfl).1]
    exact (S.admitHeader _ ⟨rfl, hw⟩).2
  | false =>
    obtain ⟨rfl, hclose⟩ := hno rfl
    exact .inr ⟨rfl, _, _, ⟨t, p₁, header, tail, ha, hs, rfl⟩, hnew, hok.mp rfl, hw.refuse _,
      hclose⟩

def Refuses (notes : Notes) (p : Processor) (n : Notes) (q : Processor) : Prop :=
  ∃ line r h w, Meets notes p line n r ∧ Heads line r h ∧ ¬Outdated r h ∧ Declines r h ∧
    Stays p w ∧ close w = .ok ⟨⟩ q

theorem Arrives.stays (ha : Arrives notes p t n q) : Stays p q := by
  obtain ⟨-, s, l, x, t₁, n₁, hs, hl, -, hleave, -⟩ := ha
  have S := (alone_simulation p).toSimulation
  have hread : Alone p (p.setReader x) (p.setReader x) :=
    S.setReader ⟨rfl, .refl (isOpen_of_session hs)⟩ hs (LineReader.nextLogical_reads hl)
  exact (leaveComment_abreast S hread l.text notes).stays hleave

inductive Sectioned (t : Text) (p : Processor) : Option Text → Processor → Prop
  | outside : Sectioned t p (some t) p
  | skipped {q : Processor} (hs : skipSection p = .ok ⟨⟩ q) : Sectioned t p none q
  | begun {x : Record} {files : Files}
      (hx : Record.start p.settings.log p.now p.files = .ok (x, files)) :
      Sectioned t p none (p.begin x files)
  | header {x : Record} {files : Files} {rest : Option Text} {q : Processor}
      (hm : p.installMode = true) (ht : Text.startsWith installOpen t = true)
      (hx : Record.start p.settings.log p.now p.files = .ok (x, files))
      (hi : Text.contains infoOpen (Text.trim (t.drop installOpen.length)) = true)
      (hr : readHeader (Text.trim (t.drop installOpen.length)) (p.begin x files) = .ok rest q) :
      Sectioned t p rest q

theorem enterSection_sectioned (h : enterSection t p = .ok rest q) : Sectioned t p rest q := by
  rw [enterSection] at h
  by_cases ht : Text.startsWith installOpen t = true
  · rw [if_pos ht, bind_ok (get_run p)] at h
    by_cases hm : p.installMode = true
    · rw [if_pos hm, startInstall, bind_ok (get_run p)] at h
      cases hx : Record.start p.settings.log p.now p.files with
      | error e =>
        simp only [hx] at h
        cases h
      | ok y =>
        obtain ⟨x, files⟩ := y
        simp only [hx] at h
        rw [bind_ok (set_run p _)] at h
        by_cases hi : Text.contains infoOpen (Text.trim (t.drop installOpen.length)) = true
        · rw [if_pos hi] at h
          exact .header hm ht hx hi h
        · rw [if_neg hi] at h
          obtain ⟨rfl, rfl⟩ := EStateM.Result.ok.inj h
          exact .begun hx
    · rw [if_neg hm] at h
      obtain ⟨_, q', hs, h⟩ := bind_eq_ok h
      obtain ⟨rfl, rfl⟩ := EStateM.Result.ok.inj h
      exact .skipped hs
  · rw [if_neg ht] at h
    obtain ⟨rfl, rfl⟩ := EStateM.Result.ok.inj h
    exact .outside

theorem Arrives.enterSection_cases (ha : Arrives notes p t n q)
    (hs : enterSection t q = .ok rest r) :
    Stays p r ∨ rest = none ∧ Refuses notes p n r := by
  have S := (alone_simulation p).toSimulation
  have hq : Alone p q q := ⟨rfl, ha.stays⟩
  cases enterSection_sectioned hs with
  | outside => exact .inl hq.2
  | skipped hskip => exact .inl ((skipSection_abreast S hq).stays hskip)
  | begun hx => exact .inl (S.begin _ hq (.refl _ _)).2
  | header hm ht hx hi hr =>
    rcases readHeader_cases (S.begin _ hq (.refl _ _)).2 hr with
      hstays | ⟨rfl, h, w, hh, hnew, hd, hw, hclose⟩
    · exact .inl hstays
    · exact .inr ⟨rfl, _, _, h, w, .behind ha hm ht hx hi, hh, hnew, hd, hw, hclose⟩

theorem Arrives.enterHeader_cases {u : Text} {r' : Processor} (ha : Arrives notes p t n q)
    (hs : enterSection t q = .ok (some u) r) (hh : enterHeader u r = .ok rest r') :
    Stays p r' ∨ rest = none ∧ Refuses notes p n r' := by
  have hr : Stays p r := (ha.enterSection_cases hs).resolve_right (by simp)
  rw [enterHeader, bind_ok (get_run r)] at hh
  by_cases hcond : (r.installMode && Text.startsWith infoOpen u) = true
  · rw [if_pos hcond] at hh
    obtain ⟨hm, hu⟩ := Bool.and_eq_true_iff.mp hcond
    rcases readHeader_cases hr hh with hstays | ⟨rfl, h, w, hheads, hnew, hd, hw, hclose⟩
    · exact .inl hstays
    · exact .inr ⟨rfl, _, _, h, w, .alone ha hs hm hu, hheads, hnew, hd, hw, hclose⟩
  · rw [if_neg hcond] at hh
    obtain ⟨-, rfl⟩ := EStateM.Result.ok.inj hh
    exact .inl hr

theorem Meets.stays (hm : Meets notes p line n q) : Stays p q := by
  cases hm with
  | @behind t n q x files ha hm ht hx hi =>
    exact ((alone_simulation p).begin x (p := q) (q := q) ⟨rfl, ha.stays⟩ (.refl _ _)).2
  | alone ha hs hm hu => exact (ha.enterSection_cases hs).resolve_right (by simp)

inductive Staged (t : Text) (notes : Notes) (p : Processor) : Entered → Processor → Prop
  | commented {n : Notes} {q : Processor} (hl : leaveComment t notes p = .ok (none, n) q) :
      Staged t notes p (.used (.nothing n)) q
  | stripped {t₁ : Text} {n₁ n : Notes} {q : Processor}
      (hl : leaveComment t notes p = .ok (some t₁, n₁) q)
      (hd : q.dropLineComment t₁ n₁ = (none, n)) : Staged t notes p (.used (.nothing n)) q
  | inSection {t₁ t₂ : Text} {n₁ n : Notes} {q r : Processor}
      (hl : leaveComment t notes p = .ok (some t₁, n₁) q)
      (hd : q.dropLineComment t₁ n₁ = (some t₂, n)) (hs : enterSection t₂ q = .ok none r) :
      Staged t notes p (.used (.nothing n)) r
  | inHeader {t₁ t₂ t₃ : Text} {n₁ n : Notes} {q r r' : Processor}
      (hl : leaveComment t notes p = .ok (some t₁, n₁) q)
      (hd : q.dropLineComment t₁ n₁ = (some t₂, n)) (hs : enterSection t₂ q = .ok (some t₃) r)
      (hh : enterHeader t₃ r = .ok none r') : Staged t notes p (.used (.nothing n)) r'
  | behind {t₁ t₂ t₃ t₄ : Text} {n₁ n : Notes} {q r r' r'' : Processor} {x : Entered}
      (hl : leaveComment t notes p = .ok (some t₁, n₁) q)
      (hd : q.dropLineComment t₁ n₁ = (some t₂, n)) (hs : enterSection t₂ q = .ok (some t₃) r)
      (hh : enterHeader t₃ r = .ok (some t₄) r') (hw : writeFiles t₄ n r' = .ok x r'') :
      Staged t notes p x r''

theorem enterLine_staged {x : Entered} (h : enterLine t notes p = .ok x q) :
    Staged t notes p x q := by
  rw [enterLine] at h
  obtain ⟨⟨rest₁, n₁⟩, q₁, hl, h⟩ := bind_eq_ok h
  cases rest₁ with
  | none =>
    obtain ⟨rfl, rfl⟩ := EStateM.Result.ok.inj h
    exact .commented hl
  | some t₁ =>
    dsimp only at h
    rw [bind_ok (get_run q₁)] at h
    cases hd : q₁.dropLineComment t₁ n₁ with
    | mk rest₂ n₂ =>
      simp only [hd] at h
      cases rest₂ with
      | none =>
        obtain ⟨rfl, rfl⟩ := EStateM.Result.ok.inj h
        exact .stripped hl hd
      | some t₂ =>
        obtain ⟨rest₃, q₂, hs, h⟩ := bind_eq_ok h
        cases rest₃ with
        | none =>
          obtain ⟨rfl, rfl⟩ := EStateM.Result.ok.inj h
          exact .inSection hl hd hs
        | some t₃ =>
          obtain ⟨rest₄, q₃, hh, h⟩ := bind_eq_ok h
          cases rest₄ with
          | none =>
            obtain ⟨rfl, rfl⟩ := EStateM.Result.ok.inj h
            exact .inHeader hl hd hs hh
          | some t₄ => exact .behind hl hd hs hh h

theorem writeFiles_cases {x : Entered} (h : writeFiles t n p = .ok x q) :
    x = .used (.nothing n) ∨ (∃ c, x = .used (.line c)) ∨ x = .text t n := by
  rw [writeFiles, bind_ok (get_run p)] at h
  split at h
  · obtain ⟨-, r, -, h⟩ := bind_eq_ok h
    exact .inl (EStateM.Result.ok.inj h).1.symm
  · split at h
    · obtain ⟨command, r, -, h⟩ := bind_eq_ok h
      cases command with
      | none => exact .inr (.inr (EStateM.Result.ok.inj h).1.symm)
      | some c => exact .inr (.inl ⟨c, (EStateM.Result.ok.inj h).1.symm⟩)
    · exact .inr (.inr (EStateM.Result.ok.inj h).1.symm)

theorem writeFiles_stays {x : Entered} (hb : Stays b p) (h : writeFiles t n p = .ok x q) :
    Stays b q := by
  have S := (alone_simulation b).toSimulation
  have hp : Alone b p p := ⟨rfl, hb⟩
  exact ((writeFiles_abreast S hp t n).mono fun _ _ _ h => h.1).stays h

theorem enterLine_cases {s : Session} {l : LogicalLine} {x : LineReader} {y : Entered}
    (hi : p.inclusion = none) (hs : p.session = some s)
    (hl : s.reader.nextLogical p.files p.marked = .ok (some l, x)) (hne : l.text ≠ [])
    (hy : enterLine l.text notes (p.setReader x) = .ok y q) :
    Stays p q ∨ ∃ n, y = .used (.nothing n) ∧ Refuses notes p n q := by
  have S := (alone_simulation p).toSimulation
  have hread : Alone p (p.setReader x) (p.setReader x) :=
    S.setReader ⟨rfl, .refl (isOpen_of_session hs)⟩ hs (LineReader.nextLogical_reads hl)
  have harrives {t₁ t₂ : Text} {n₁ n : Notes} {q : Processor}
      (hleave : leaveComment l.text notes (p.setReader x) = .ok (some t₁, n₁) q)
      (hd : q.dropLineComment t₁ n₁ = (some t₂, n)) : Arrives notes p t₂ n q :=
    ⟨hi, s, l, x, t₁, n₁, hs, hl, hne, hleave, hd⟩
  cases enterLine_staged hy with
  | commented hleave => exact .inl ((leaveComment_abreast S hread _ _).stays hleave)
  | stripped hleave hd => exact .inl ((leaveComment_abreast S hread _ _).stays hleave)
  | inSection hleave hd hsec =>
    exact ((harrives hleave hd).enterSection_cases hsec).imp_right fun h => ⟨_, rfl, h.2⟩
  | inHeader hleave hd hsec hh =>
    exact ((harrives hleave hd).enterHeader_cases hsec hh).imp_right fun h => ⟨_, rfl, h.2⟩
  | behind hleave hd hsec hh hw =>
    have hstays := ((harrives hleave hd).enterHeader_cases hsec hh).resolve_right (by simp)
    exact .inl (writeFiles_stays hstays hw)

inductive LineRead (notes : Notes) (p : Processor) : Reading → Processor → Prop
  | closed (hs : p.session = none) : LineRead notes p .stop p
  | ended {s : Session} {x : LineReader} (hs : p.session = some s)
      (hl : s.reader.nextLogical p.files p.marked = .ok (none, x)) :
      LineRead notes p .stop (p.setReader x)
  | blank {s : Session} {l : LogicalLine} {x : LineReader} (hs : p.session = some s)
      (hl : s.reader.nextLogical p.files p.marked = .ok (some l, x)) (ht : l.text = []) :
      LineRead notes p (.nothing notes) (p.setReader x)
  | used {s : Session} {l : LogicalLine} {x : LineReader} {y : Reading} {q : Processor}
      (hs : p.session = some s) (hl : s.reader.nextLogical p.files p.marked = .ok (some l, x))
      (hne : l.text ≠ []) (hy : enterLine l.text notes (p.setReader x) = .ok (.used y) q) :
      LineRead notes p y q
  | left {s : Session} {l : LogicalLine} {x : LineReader} {u : Text} {n : Notes} {q : Processor}
      (hs : p.session = some s) (hl : s.reader.nextLogical p.files p.marked = .ok (some l, x))
      (hne : l.text ≠ []) (hy : enterLine l.text notes (p.setReader x) = .ok (.text u n) q) :
      LineRead notes p (q.leaveLine u n).1 (q.leaveLine u n).2

theorem readLine_read {y : Reading} (h : readLine notes p = .ok y q) : LineRead notes p y q := by
  cases hs : p.session with
  | none =>
    rw [readLine, bind_ok (get_run p)] at h
    simp only [hs] at h
    obtain ⟨rfl, rfl⟩ := EStateM.Result.ok.inj h
    exact .closed hs
  | some s =>
    rw [readLine_run hs] at h
    cases hl : s.reader.nextLogical p.files p.marked with
    | error e => simp [hl] at h
    | ok z =>
      obtain ⟨logical, x⟩ := z
      cases logical with
      | none =>
        simp only [hl] at h
        obtain ⟨rfl, rfl⟩ := EStateM.Result.ok.inj h
        exact .ended hs hl
      | some l =>
        simp only [hl] at h
        by_cases hne : l.text = []
        · rw [if_pos hne] at h
          obtain ⟨rfl, rfl⟩ := EStateM.Result.ok.inj h
          exact .blank hs hl hne
        · rw [if_neg hne] at h
          cases hz : enterLine l.text notes (p.setReader x) with
          | error e q₁ => simp [readText, bind_run, hz] at h
          | ok z q₁ =>
            cases z with
            | used y' =>
              rw [readText, bind_ok hz] at h
              obtain ⟨rfl, rfl⟩ := EStateM.Result.ok.inj h
              exact .used hs hl hne hz
            | text u n =>
              rw [readText_text hz] at h
              obtain ⟨rfl, rfl⟩ := EStateM.Result.ok.inj h
              exact .left hs hl hne hz

theorem readLine_cases {y : Reading} (hi : p.inclusion = none) (ho : p.isOpen = true)
    (hy : readLine notes p = .ok y q) :
    Stays p q ∨ ∃ n, y = .nothing n ∧ Refuses notes p n q := by
  have S := (alone_simulation p).toSimulation
  have hread {s : Session} {logical : Option LogicalLine} {x : LineReader} (hs : p.session = some s)
      (hl : s.reader.nextLogical p.files p.marked = .ok (logical, x)) : Stays p (p.setReader x) :=
    (S.setReader ⟨rfl, .refl ho⟩ hs (LineReader.nextLogical_reads hl)).2
  cases readLine_read hy with
  | closed hs => exact .inl (.refl ho)
  | ended hs hl => exact .inl (hread hs hl)
  | blank hs hl ht => exact .inl (hread hs hl)
  | used hs hl hne hz =>
    rcases enterLine_cases hi hs hl hne hz with hstays | ⟨n, hn, hr⟩
    · exact .inl hstays
    · exact .inr ⟨n, Entered.used.inj hn, hr⟩
  | left hs hl hne hz =>
    have hstays := (enterLine_cases hi hs hl hne hz).resolve_right (by simp)
    exact .inl (S.leaveLine ⟨rfl, hstays⟩ _ _).2.2

theorem turn_cases {x : Turn} (ho : p.isOpen = true) (ht : turn notes p = .ok x q) :
    Stays p q ∨ ∃ n, x = .more n ∧ Refuses notes p n q := by
  have S := alone_simulation p
  have hp : Alone p p p := ⟨rfl, .refl ho⟩
  rw [turn, bind_ok (get_run p)] at ht
  cases hi : p.inclusion with
  | some i =>
    simp only [hi] at ht
    refine .inl (Abreast.stays ?_ ht)
    apply (readIncluded_abreast S hp i).next
    intro line p q h
    cases line with
    | none => exact .pure h
    | some u =>
      apply Abreast.get
      rw [S.expandThis h]
      apply (command?_abreast S h _).next
      intro command p q h
      exact .pure h
  | none =>
    simp only [hi] at ht
    obtain ⟨y, q₁, hy, ht⟩ := bind_eq_ok ht
    have hcases := readLine_cases hi ho hy
    cases y with
    | stop =>
      obtain ⟨-, rfl⟩ := EStateM.Result.ok.inj ht
      exact .inl (hcases.resolve_right (by simp))
    | nothing n =>
      obtain ⟨rfl, rfl⟩ := EStateM.Result.ok.inj ht
      rcases hcases with hstays | ⟨n', hn, hr⟩
      · exact .inl hstays
      · exact .inr ⟨n', congrArg Turn.more (Reading.nothing.inj hn), hr⟩
    | line u =>
      have hstays : Stays p q₁ := hcases.resolve_right (by simp)
      refine .inl (Abreast.stays ?_ ht)
      apply Abreast.get
      apply (scriptCommand?_abreast S ⟨rfl, hstays⟩ _).next
      intro command p q h
      exact .pure h

end ScriptFeed.Processor
