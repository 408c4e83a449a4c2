import ScriptFeed.Proofs.Ledger
import ScriptFeed.Proofs.Serving

namespace ScriptFeed.Processor

open Package Comment Keyword

variable {N : Allowed} {W : Permit} {l : Ledger} {p q r : Processor} {notes notes' : Notes}
  {t : Text}
  {ms ms' : List Moment} {es : List Event}

structure Agrees (l : Ledger) (p : Processor) : Prop where
  idle : p.record? = none → l.full = false
  recording : ∀ r, p.record? = some r → r.path = p.settings.log ∧ l.full = p.current.fullLogging ∧
    spanOpen l.lines = p.current.inProcedure

theorem Agrees.congr (h : Agrees l p) (hs : q.settings = p.settings)
    (hr : q.current.record = p.current.record) (hf : q.current.fullLogging = p.current.fullLogging)
    (hb : q.current.inProcedure = p.current.inProcedure) : Agrees l q := by
  have hrecord : q.record? = p.record? := by rw [record?_eq_current, hr, record?_eq_current]
  refine ⟨fun hn => h.idle (hrecord ▸ hn), fun r hr' => ?_⟩
  rw [hs, hf, hb]
  exact h.recording r (hrecord ▸ hr')

structure Speaks (l : Ledger) (p q : Processor) (ms : List Moment) : Prop where
  events : q.events = p.events ++ ms.filterMap Moment.event?
  settings : q.settings = p.settings
  faithful : Ledger.Faithful p.settings.log l ms
  agrees : Agrees (l.after ms) q

theorem Speaks.trans (h : Speaks l p q ms) (h' : Speaks (l.after ms) q r ms') :
    Speaks l p r (ms ++ ms') where
  events := by rw [h'.events, h.events, List.filterMap_append, List.append_assoc]
  settings := h'.settings.trans h.settings
  faithful := h.faithful.append (h.settings ▸ h'.faithful)
  agrees := by
    rw [Ledger.after_append]
    exact h'.agrees

def Tells (l : Ledger) (p q : Processor) : Prop := ∃ es : List Event, Speaks l p q (es.map .told)

theorem Tells.trans (h : Tells l p q) (h' : ∀ l', Agrees l' q → Tells l' q r) : Tells l p r := by
  obtain ⟨es, hes⟩ := h
  obtain ⟨es', hes'⟩ := h' _ hes.agrees
  refine ⟨es ++ es', ?_⟩
  rw [List.map_append]
  exact hes.trans hes'

def Gives (l : Ledger) (p : Processor) (t : Text) (q : Processor) : Prop :=
  ∃ es : List Event, Speaks l p q (es.map .told ++ [.given t])

theorem Tells.gives (h : Tells l p q) (h' : ∀ l', Agrees l' q → Gives l' q t r) :
    Gives l p t r := by
  obtain ⟨es, hes⟩ := h
  obtain ⟨es', hes'⟩ := h' _ hes.agrees
  refine ⟨es ++ es', ?_⟩
  rw [List.map_append, List.append_assoc]
  exact hes.trans hes'

theorem event?_told (es : List Event) : (es.map Moment.told).filterMap Moment.event? = es := by
  rw [List.filterMap_map]
  exact List.filterMap_some

theorem faithful_told {log : Path} (h : ∀ e ∈ es, e.Silent log) (l : Ledger) :
    Ledger.Faithful log l (es.map .told) := by
  induction es generalizing l with
  | nil => exact .nil l
  | cons e es ih =>
    exact .tell (h e List.mem_cons_self) (ih (fun e' he' => h e' (List.mem_cons_of_mem e he')) _)

theorem tells_of_events (es : List Event) (he : q.events = p.events ++ es)
    (hs : q.settings = p.settings) (hes : ∀ e ∈ es, e.Silent p.settings.log)
    (ha : Agrees (l.after (es.map .told)) q) : Tells l p q :=
  ⟨es, by rw [he, event?_told], hs, faithful_told hes l, ha⟩

theorem tells_still (he : q.events = p.events) (hs : q.settings = p.settings) (ha : Agrees l q) :
    Tells l p q :=
  tells_of_events [] (by rw [he, List.append_nil]) hs (by simp) ha

theorem tells_event {e : Event} (he : e.entry? = none) (ho : e.session? = none)
    (hevents : q.events = p.events ++ [e]) (hs : q.settings = p.settings) (ha : Agrees l q) :
    Tells l p q := by
  have hstep : l.after [.told e] = l := by
    cases e with
    | recorded path entry => cases he
    | scriptOpened path => cases ho
    | _ => rfl
  refine tells_of_events [e] hevents hs ?_ (hstep.symm ▸ ha)
  cases e with
  | recorded path entry => cases he
  | _ => simp [Event.Silent]

theorem agrees_fresh {r : Record} (hr : p.record? = some r) (hp : r.path = p.settings.log)
    (hf : p.current.fullLogging = false) (hb : p.current.inProcedure = false) : Agrees {} p := by
  refine ⟨fun _ => rfl, fun r' hr' => ?_⟩
  obtain rfl := Option.some.inj (hr.symm.trans hr')
  exact ⟨hp, hf.symm, hb.symm⟩

theorem agrees_idle (hr : p.record? = none) (hl : l.full = false) : Agrees l p :=
  ⟨fun _ => hl, fun r hr' => by simp [hr] at hr'⟩

theorem closeRecord_tells (h : Agrees l p) (b : Bool) : Tells l p (p.closeRecord b).2 := by
  have hnone := closeRecord_record? p b
  unfold closeRecord at hnone ⊢
  cases hr : p.record? with
  | none => exact tells_still rfl rfl h
  | some r =>
    rw [hr] at hnone
    refine tells_of_events [.recorded r.path (.closed b), .recordClosed r.path b]
      (List.append_assoc _ _ _) rfl ?_ (agrees_idle hnone rfl)
    simp [Event.Silent, (h.recording r hr).1, Entry.echoed?]

theorem teardown_tells (h : Agrees l p) : Tells l p p.teardown := by
  obtain ⟨es, hes⟩ := closeRecord_tells h false
  refine ⟨es, hes.events, hes.settings, hes.faithful, agrees_idle rfl ?_⟩
  exact hes.agrees.idle (closeRecord_record? p false)

theorem begin_tells (h : Agrees l p) {record : Record} {files : Files}
    (hr : Record.start p.settings.log p.now p.files = .ok (record, files)) :
    Tells l p (p.begin record files) := by
  have hpath : record.path = p.settings.log := (Record.start_find hr).1
  have hrecord : (p.recording record files).record? = p.record? := rfl
  have hagrees (q : Processor) (hs : q.settings = p.settings)
      (hq : q.installation = some (q.current.take record)) : Agrees {} q := by
    have hcurrent : q.current = q.current.take record := by
      conv_lhs => rw [current, hq, Option.getD_some]
    refine agrees_fresh (r := record) (by rw [record?_eq_current, hcurrent]; rfl)
      (hpath.trans (by rw [hs])) (by rw [hcurrent]; rfl) (by rw [hcurrent]; rfl)
  rw [begin_eq]
  unfold Processor.record
  rw [hrecord]
  cases hopen : p.record? with
  | none =>
    refine tells_of_events [.recorded record.path (.opened p.now), .recordOpened record.path,
      .installationStarted p.shortName] ?_ rfl ?_ (hagrees _ rfl rfl)
    · simp [recording, emit, shortName]
    · simp [Event.Silent, hpath, Entry.echoed?]
  | some old =>
    refine tells_of_events [.recorded record.path (.opened p.now), .recordOpened record.path,
      .recorded old.path (.closed false), .installationStarted p.shortName] ?_ rfl ?_
      (hagrees _ rfl rfl)
    · simp [recording, recordIn, emit, shortName]
    · simp [Event.Silent, hpath, (h.recording old hopen).1, Entry.echoed?]

theorem admitHeader_tells (h : Agrees l p) {header : Header} (hh : header = .ofText header.text) :
    Tells l p (p.admitHeader header) := by
  let p₁ : Processor := { p with installation := some (p.current.apply header) }
  have hrecord : p₁.record? = p.record? := (record?_eq_current p).symm
  have hfull : (Header.ofText header.text).fullLogging = header.fullLogging := by rw [← hh]
  unfold admitHeader
  dsimp only
  by_cases ht : header.text = []
  · -- an empty header asks for nothing
    rw [if_pos ht]
    have hoff : header.fullLogging = false := by
      rw [← hfull, ht]
      rfl
    refine tells_still rfl rfl (h.congr rfl rfl ?_ rfl)
    change (p.current.fullLogging || header.fullLogging) = p.current.fullLogging
    rw [hoff, Bool.or_false]
  · rw [if_neg ht]
    obtain ⟨output, hsaid⟩ : ∃ output, (if (p.current.apply header).quiet then p₁ else
        p₁.say startMessage) = { p₁ with output } := by
      split
      · exact ⟨p.output, rfl⟩
      · exact ⟨_, rfl⟩
    have hopen : Processor.record? { p₁ with output } = p.record? := hrecord
    rw [hsaid, Processor.record, hopen]
    cases hr : p.record? with
    | none => exact tells_still rfl rfl (agrees_idle (hrecord.trans hr) (h.idle hr))
    | some r =>
      obtain ⟨hpath, hledger, hspan⟩ := h.recording r hr
      refine tells_of_events [.recorded r.path (.info header.text)] rfl rfl ?_ ⟨?_, ?_⟩
      · simp [Event.Silent, hpath, Entry.echoed?]
      · intro hn
        exact absurd (hn.symm.trans (hrecord.trans hr)) (by simp)
      · intro r' hr'
        obtain rfl := Option.some.inj (hr'.symm.trans (hrecord.trans hr))
        refine ⟨hpath, ?_, hspan⟩
        change (l.full || (Header.ofText header.text).fullLogging) =
          (p.current.fullLogging || header.fullLogging)
        rw [hledger, hfull]

theorem current_opened (path : Path) (reader : LineReader) (p : Processor) :
    (p.opened path reader).current = p.current.forPackage := by
  unfold current
  cases hi : p.installation <;> simp [opened, emit, hi, Installation.forPackage]

theorem opened_tells (h : Agrees l p) (path : Path) (reader : LineReader) :
    Tells l p (p.opened path reader) := by
  refine tells_of_events [.scriptOpened path] rfl rfl (by simp [Event.Silent]) ?_
  cases hr : p.record? with
  | none => exact agrees_idle (by rw [opened_record?, hr]) rfl
  | some record =>
    have hcurrent := current_opened path reader p
    exact agrees_fresh ((opened_record? path reader p).trans hr) (h.recording record hr).1
      (by rw [hcurrent]; rfl) (by rw [hcurrent]; rfl)

theorem queue_tells (h : Agrees l p) (path : Path) : Tells l p (p.queue path) := by
  unfold Processor.queue
  dsimp only
  split
  · exact tells_event rfl rfl rfl rfl (h.congr rfl rfl rfl rfl)
  · exact tells_still rfl rfl (h.congr rfl rfl rfl rfl)

theorem Change.tells (hm : Change W p q) (h : Agrees l p) : Tells l p q := by
  have hnow {q : Processor} (hs : q.settings = p.settings) (hi : q.installation = p.installation) :
      Agrees l q := by
    refine h.congr hs ?_ ?_ ?_ <;> rw [current, hi, current]
  cases hm with
  | tell e he =>
    have hnote := Event.isNote_of_isAside he
    exact tells_event (entry?_of_isNote hnote) (session?_of_isNote hnote) rfl rfl (hnow rfl rfl)
  | enclose path scope reader ho hr => exact tells_event rfl rfl rfl rfl (hnow rfl rfl)
  | layout layout b files n hl hw => exact tells_event rfl rfl rfl rfl (hnow rfl rfl)
  | document path b files hI hw => exact tells_event rfl rfl rfl rfl (hnow rfl rfl)
  | accord question hI hyes =>
    obtain ⟨asked, hasked⟩ := asked_eq p question
    rw [hasked]
    exact tells_still rfl rfl (hnow rfl rfl)
  | decline question package hI hno =>
    obtain ⟨asked, hasked⟩ := asked_eq p question
    rw [hasked]
    exact tells_event (e := .licenseDeclined package) rfl rfl rfl rfl (hnow rfl rfl)
  | adjust i ho hI hc hr hf hb => exact tells_still rfl rfl (h.congr rfl hr hf hb)
  | queue name path ho hI hn hp => exact queue_tells h path
  | accept header ho hI hh => exact admitHeader_tells h hh
  | begin record files hN ho hI hr => exact begin_tells h hr
  | conclude b hb =>
    obtain ⟨es, hes⟩ := closeRecord_tells h b
    unfold concludeRecord
    dsimp only
    split
    · exact ⟨es, hes.events, hes.settings, hes.faithful, hes.agrees.congr rfl rfl rfl rfl⟩
    · exact ⟨es, hes⟩
  | finish b hb => exact closeRecord_tells h b
  | leaveProcedure ho hr =>
    refine tells_still rfl rfl (agrees_idle ?_ (h.idle hr))
    rw [setInProcedure_record?]
    exact hr
  | advance i path chain reader ho hi ha hr =>
    let p₁ : Processor := { p with inclusion := none, installation := some { i with chain } }
    have hcurrent : p₁.current = { p.current with chain } := by
      conv_rhs => rw [current, hi]
      rfl
    have h₁ : Tells l p p₁ :=
      tells_still rfl rfl (h.congr rfl (by rw [hcurrent]) (by rw [hcurrent]) (by rw [hcurrent]))
    exact h₁.trans fun _ h' => opened_tells h' path reader
  | opened path reader hC => exact opened_tells h path reader
  | down => exact teardown_tells h
  | _ => exact tells_still rfl rfl (hnow rfl rfl)

theorem Changes.tells (hm : Changes W p q) (h : Agrees l p) : Tells l p q := by
  induction hm with
  | refl => exact tells_still rfl rfl h
  | tail _ hstep ih => exact ih.trans fun _ => hstep.tells

theorem Speaks.give (h : Speaks l p q ms) (ht : t = [] ∨ (l.after ms).full = false)
    (ha : Agrees ((l.after ms).step (.given t)) q) : Speaks l p q (ms ++ [.given t]) :=
  h.trans ⟨by simp [Moment.event?], rfl, .give ht (.nil _), ha⟩

theorem agrees_given_nil (h : Agrees l p) : Agrees (l.step (.given [])) p := by
  refine ⟨h.idle, fun r hr => ?_⟩
  obtain ⟨hpath, hfull, hspan⟩ := h.recording r hr
  refine ⟨hpath, hfull, ?_⟩
  rw [Ledger.step, spanOpen_append, hspan]
  exact (Bool.and_true _).trans (Bool.or_false _)

theorem setInProcedure_current {record : Record} (hr : p.record? = some record) (b : Bool) :
    (p.setInProcedure b).current = { p.current with inProcedure := b } := by
  unfold record? at hr
  unfold setInProcedure current
  cases hi : p.installation with
  | none => simp [hi] at hr
  | some i => rfl

theorem announce_events {record : Record} (hr : p.record? = some record) (t : Text) :
    (p.announce t).settings = p.settings ∧
      (p.announce t).current =
        { p.current with inProcedure := p.current.inProcedure || startsProcedure t } ∧
      (p.announce t).events = p.events ++
        ((procedureName? t).map fun name => .recorded record.path (.installing name)).toList := by
  unfold announce startsProcedure
  cases hname : procedureName? t with
  | none => simp
  | some name =>
    have hset := (setInProcedure_record? p true).trans hr
    have hcurrent := setInProcedure_current hr true
    have hsaid (q : Processor) (m : Text) : ∃ output, (if q.installation.any (·.quiet) then q else
        q.say m) = { q with output } := by
      split
      · exact ⟨q.output, rfl⟩
      · exact ⟨_, rfl⟩
    dsimp only
    obtain ⟨output, hout⟩ := hsaid ((p.setInProcedure true).record (.installing name))
      (installingMessage name)
    rw [hout, Processor.record, hset]
    refine ⟨rfl, ?_, rfl⟩
    rw [Option.isSome_some, Bool.or_true]
    exact hcurrent

theorem recordEcho_events {record : Record} (hr : p.record? = some record) (t : Text) :
    (p.recordEcho t).settings = p.settings ∧ (p.recordEcho t).current = p.current ∧
      (p.recordEcho t).events = p.events ++
        ((p.current.echo? t).map fun e => .recorded record.path e).toList := by
  have hecho : p.installation.bind (·.echo? t) = p.current.echo? t := by
    unfold current
    cases p.installation <;> rfl
  unfold recordEcho
  rw [hecho]
  cases p.current.echo? t with
  | none => simp
  | some e =>
    dsimp only
    rw [Processor.record, hr]
    exact ⟨rfl, rfl, rfl⟩

theorem Agrees.echo? {record : Record} (h : Agrees l p) (hr : p.record? = some record) (t : Text) :
    Installation.echo? { p.current with inProcedure := p.current.inProcedure || startsProcedure t }
        t =
      if l.full then some (l.echo t) else none := by
  obtain ⟨-, hfull, hspan⟩ := h.recording record hr
  rw [Installation.echo?, hfull, Ledger.echo, hspan]

theorem endProcedure_agrees {record : Record} (hr : p.record? = some record)
    (hpath : record.path = p.settings.log) (hfull : l.full = p.current.fullLogging) (b : Bool)
    (hspan : spanOpen l.lines = (p.current.inProcedure && !b)) :
    Agrees l (if b then p.setInProcedure false else p) := by
  have hagrees (q : Processor) (hs : q.settings = p.settings) (hq : q.record? = p.record?)
      (hf : q.current.fullLogging = p.current.fullLogging)
      (hb : q.current.inProcedure = (p.current.inProcedure && !b)) : Agrees l q := by
    refine ⟨fun hn => ?_, fun r' hr' => ?_⟩
    · simp [hq, hr] at hn
    · obtain rfl := Option.some.inj ((hq.trans hr).symm.trans hr')
      rw [hs, hf, hb]
      exact ⟨hpath, hfull, hspan⟩
  have hcurrent := setInProcedure_current hr false
  cases b with
  | true =>
    rw [if_pos rfl]
    exact hagrees _ rfl (setInProcedure_record? p false) (by rw [hcurrent])
      (by rw [hcurrent, Bool.not_true, Bool.and_false])
  | false => exact hagrees p rfl rfl rfl (by rw [Bool.not_false, Bool.and_true])

theorem faithful_echo {log : Path} (l : Ledger) (t : Text) :
    Ledger.Faithful log l ((((if l.full then some (l.echo t) else none).map fun e =>
      Event.recorded log e).toList).map .told ++ [.given t]) := by
  cases hl : l.full with
  | false => exact .give (.inr hl) (.nil _)
  | true => exact .echo hl (.nil _)

theorem echoLine_gives (h : Agrees l p) (t : Text) : Gives l p t (p.echoLine t) := by
  unfold echoLine
  cases hr : p.record? with
  | none =>
    have hsilent : Speaks l p p [] := ⟨by simp, rfl, .nil l, h⟩
    exact ⟨[], hsilent.give (.inr (h.idle hr)) (agrees_idle hr (h.idle hr))⟩
  | some record =>
    obtain ⟨hpath, hfull, hspan⟩ := h.recording record hr
    have hr₁ : (p.announce t).record? = some record := (announce_record? p t).trans hr
    obtain ⟨hs₁, hc₁, he₁⟩ := announce_events hr t
    obtain ⟨hs₂, hc₂, he₂⟩ := recordEcho_events hr₁ t
    rw [hc₁] at hc₂
    rw [hc₁, h.echo? hr, he₁, List.append_assoc] at he₂
    let announced : List Event :=
      ((procedureName? t).map fun name => .recorded record.path (.installing name)).toList
    let echoed : List Event :=
      ((if l.full then some (l.echo t) else none).map fun e => .recorded record.path e).toList
    have hannounced : l.after (announced.map .told) = l := by
      cases hname : procedureName? t with
      | none =>
        have hnone : announced = [] := by simp [announced, hname]
        rw [hnone]
        rfl
      | some name =>
        have hone : announced = [.recorded record.path (.installing name)] := by
          simp [announced, hname]
        rw [hone]
        rfl
    have hechoed : l.after (echoed.map .told) = l := by
      cases hl : l.full with
      | false => simp [echoed, hl]; rfl
      | true => simp [echoed, hl]; exact l.step_echo record.path t
    have hafter : l.after ((announced ++ echoed).map .told ++ [.given t]) = l.step (.given t) := by
      rw [List.map_append, Ledger.after_append, Ledger.after_append, hannounced, hechoed]
      rfl
    have hr₂ : ((p.announce t).recordEcho t).record? = some record := by
      rw [record?_eq_current, hc₂, ← hr, record?_eq_current]
    rw [Option.isNone_some, if_neg Bool.false_ne_true]
    dsimp only
    refine ⟨announced ++ echoed, ?_, ?_, ?_, ?_⟩
    · rw [List.filterMap_append, event?_told, List.filterMap_cons_none rfl, List.filterMap_nil,
        List.append_nil]
      split <;> exact he₂
    · split <;> exact hs₂.trans hs₁
    · rw [List.map_append, List.append_assoc]
      refine (faithful_told ?_ l).append ?_
      · cases hname : procedureName? t <;>
          simp [announced, hname, Event.Silent, hpath, Entry.echoed?]
      · rw [hannounced, ← hpath]
        exact faithful_echo l t
    · rw [hafter]
      refine endProcedure_agrees hr₂ (by rw [hpath, hs₂, hs₁]) (by rw [hc₂]; exact hfull) _ ?_
      rw [hc₂, Ledger.step, spanOpen_append, hspan]

theorem Move.installMode (hm : Move N p q) (ho : q.isOpen = true) :
    q.installMode = p.installMode := by
  have hrecord (p : Processor) (e : Entry) : (p.record e).installMode = p.installMode := by
    unfold Processor.record
    split <;> rfl
  cases hm with
  | queue name path _ _ _ =>
    unfold Processor.queue
    dsimp only
    split <;> rfl
  | write e _ => exact hrecord p e
  | begin record files _ _ _ => exact hrecord (p.recording record files) (.closed false)
  | finish b _ =>
    unfold closeRecord
    split <;> rfl
  | down => cases ho
  | _ => rfl

theorem Moves.installMode (hm : Moves N p q) (ho : q.isOpen = true) :
    q.installMode = p.installMode := by
  induction hm with
  | refl => rfl
  | tail _ hstep ih => exact (hstep.installMode ho).trans (ih (hstep.course.isOpen ho))

theorem turn_tells (h : Agrees l p) (ht : turn notes p = .ok (.more notes') q) : Tells l p q := by
  cases Ends.ok (turn_turned (W := .all) notes fun _ => Permit.all_covers notes p) ht with
  | still hq hx => exact Changes.tells hq h
  | define functions name n hq hmode ho =>
    exact (Changes.tells hq h).trans fun _ h' =>
      tells_event (e := .functionDefined name n) rfl rfl rfl rfl (h'.congr rfl rfl rfl rfl)

theorem turn_gives (hc : Coherent p) (hmode : p.isOpen = true → p.installMode = true)
    (h : Agrees l p) (ht : turn notes p = .ok (.command t) q) : Gives l p t q := by
  cases Ends.ok (turn_turned (W := .all) notes fun _ => Permit.all_covers notes p) ht with
  | echo _ hq hon ho => exact (Changes.tells hq h).gives fun _ h' => echoLine_gives h' t
  | still hq hsilent =>
    obtain ⟨es, hes⟩ := Changes.tells hq h
    obtain ⟨hm, hopen⟩ := Ends.ok (turn_moving (N := .all) notes hc.inclusion trivial
      (fun _ _ _ => trivial) fun _ _ => trivial) ht
    -- a command of an open script is echoed, so that this one is empty
    obtain rfl : t = [] := by
      rcases hopen t rfl with hempty | ho
      · exact hempty
      · have hon := (Moves.installMode hm ho).trans (hmode (Moves.isOpen hm ho))
        exact (hsilent t rfl).resolve_right (by simp [hon])
    exact ⟨es, hes.give (.inl rfl) (agrees_given_nil hes.agrees)⟩

theorem Feeds.tells (hf : Feeds notes p notes' q) (h : Agrees l p) : Tells l p q := by
  induction hf with
  | refl => exact tells_still rfl rfl h
  | tail _ ht ih => exact (ih h).trans fun _ h' => turn_tells h' ht

theorem feed_gives (hc : Coherent p) (hmode : p.installMode = true) (h : Agrees l p)
    (hf : feed? {} p = some (.ok t q)) : Gives l p t q := by
  obtain ⟨notes', r, hfeeds, ht⟩ := feed?_eq_some.mp hf
  have hm := hfeeds.moves hc
  have hon : r.isOpen = true → r.installMode = true :=
    fun ho => (Moves.installMode hm ho).trans hmode
  exact (hfeeds.tells h).gives fun _ h' => turn_gives (Moves.coherent hm hc) hon h' ht

def told (p q : Processor) : List Moment := (q.events.drop p.events.length).map .told

def Call.moments (c : Call) (p : Processor) : List Moment :=
  match c with
  | .next =>
    match p.isOpen, feed? {} p with
    | true, some (.ok t q) => told p q ++ .given t :: told q (Call.run .next p)
    | _, _ => told p (Call.run .next p)
  | c => told p (c.run p)

def moments : List Call → Processor → List Moment
  | [], _ => []
  | c :: calls, p => c.moments p ++ moments calls (c.run p)

def Installs : List Call → Processor → Prop
  | [], _ => True
  | c :: calls, p =>
    (c = .next → p.isOpen = true → p.installMode = true ∧ ∃ t q, p.next? = some (.ok t q)) ∧
      Installs calls (c.run p)

theorem told_eq (h : q.events = p.events ++ es) : told p q = es.map .told := by
  rw [told, h, List.drop_left]

theorem Tells.speaks (h : Tells l p q) : Speaks l p q (told p q) := by
  obtain ⟨es, hes⟩ := h
  have hevents := hes.events
  rw [event?_told] at hevents
  rw [told_eq hevents]
  exact hes

theorem run_next {o : Outcome Text} (h : p.next? = some o) : Call.run .next p = stateOf o := by
  change stateOf (p.next?.getD (.ok [] p)) = stateOf o
  rw [h]
  rfl

theorem next_speaks (hc : Coherent p) (h : Agrees l p)
    (hi : p.isOpen = true → p.installMode = true ∧ ∃ t q, p.next? = some (.ok t q)) :
    Speaks l p (Call.run .next p) (Call.moments .next p) := by
  unfold Call.moments
  cases ho : p.isOpen with
  | false =>
    have hnext : p.next? = some (.ok [] p) := by rw [next?, if_neg (by simp [ho])]
    have hrun : Call.run .next p = p := run_next hnext
    rw [hrun]
    exact (tells_still rfl rfl h).speaks
  | true =>
    obtain ⟨hmode, t, r, hnext⟩ := hi ho
    obtain ⟨q, hfeed, hclose⟩ := next?_ok ho hnext
    have hrun : Call.run .next p = r := run_next hnext
    have hsettle : Changes .all q r := by
      have hs := settle_changes (W := .all) (.ok t q)
      rwa [settle, hclose] at hs
    obtain ⟨es, hes⟩ := feed_gives hc hmode h hfeed
    have hevents : q.events = p.events ++ es := by
      have he := hes.events
      rwa [List.filterMap_append, event?_told, List.filterMap_cons_none rfl, List.filterMap_nil,
        List.append_nil] at he
    have hrest := (Changes.tells hsettle hes.agrees).speaks
    rw [hrun, hfeed]
    dsimp only
    rw [told_eq hevents, List.append_cons]
    exact hes.trans hrest

theorem Call.run_speaks (c : Call) (hc : Coherent p) (h : Agrees l p)
    (hi : c = .next → p.isOpen = true → p.installMode = true ∧ ∃ t q, p.next? = some (.ok t q)) :
    Speaks l p (c.run p) (c.moments p) := by
  cases c with
  | next => exact next_speaks hc h (hi rfl)
  | openScript name =>
    exact (Changes.tells (W := .all) (openScript_changing trivial name).state h).speaks
  | reopen => exact (Changes.tells (W := .all) (reopen_changing trivial).state h).speaks
  | close => exact (Changes.tells (W := .all) close_changing.state h).speaks
  | restart => exact (Changes.tells (W := .all) (restart_changing trivial).state h).speaks
  | returnFrom => exact (Changes.tells (W := .all) (returnFrom_changing trivial).state h).speaks
  | _ =>
    apply Tells.speaks
    exact tells_still rfl rfl (h.congr rfl rfl rfl rfl)

theorem after_speaks (calls : List Call) (hc : Coherent p) (h : Agrees l p)
    (hi : Installs calls p) :
    Speaks l p (after calls p) (moments calls p) := by
  induction calls generalizing p l with
  | nil => exact ⟨by simp [moments, after], rfl, .nil l, h⟩
  | cons c calls ih =>
    have hfirst := c.run_speaks hc h hi.1
    exact hfirst.trans (ih (c.run_coherent hc) hfirst.agrees hi.2)

def momentsWithin (fuel : Nat) : List Call → Processor → Option (List Moment)
  | [], _ => some []
  | .next :: calls, p =>
    if p.isOpen && p.installMode then
      match callWithin fuel {} p with
      | some (.ok t q) =>
        match closeAtEnd q with
        | .ok _ r => (momentsWithin fuel calls r).map ((told p q ++ .given t :: told q r) ++ ·)
        | .error _ _ => none
      | _ => none
    else none
  | c :: calls, p => (momentsWithin fuel calls (c.run p)).map (told p (c.run p) ++ ·)

theorem moments_of_within {fuel : Nat} {calls : List Call}
    (h : momentsWithin fuel calls p = some ms) :
    Installs calls p ∧ moments calls p = ms := by
  induction calls generalizing p ms with
  | nil => exact ⟨trivial, Option.some.inj h⟩
  | cons c calls ih =>
    cases c with
    | next =>
      unfold momentsWithin at h
      by_cases hon : (p.isOpen && p.installMode) = true
      · rw [if_pos hon] at h
        obtain ⟨ho, hmode⟩ := Bool.and_eq_true_iff.mp hon
        split at h
        next t q hcall =>
          split at h
          next r hclose =>
            obtain ⟨rest, hrest, rfl⟩ := Option.map_eq_some_iff.mp h
            obtain ⟨hinstalls, hmoments⟩ := ih hrest
            have hfeed := feed?_of_callWithin hcall
            have hnext : p.next? = some (.ok t r) := by
              rw [next?_of_feed ho hfeed, settle, hclose]
            have hrun : Call.run .next p = r := run_next hnext
            refine ⟨⟨fun _ _ => ⟨hmode, t, r, hnext⟩, by rw [hrun]; exact hinstalls⟩, ?_⟩
            rw [moments, Call.moments, ho, hfeed, hrun, hmoments]
          · simp at h
        · simp at h
      · simp [hon] at h
    | _ =>
      obtain ⟨rest, hrest, rfl⟩ := Option.map_eq_some_iff.mp h
      obtain ⟨hinstalls, hmoments⟩ := ih hrest
      exact ⟨⟨by simp, hinstalls⟩, by rw [moments, hmoments]; rfl⟩

theorem record_of_within {calls : List Call} {header footer : Moment} {record : List Moment}
    (fuel n : Nat)
    (h : (momentsWithin fuel calls p).map (fun ms => (ms.drop n).take (record.length + 2)) =
      some (header :: (record ++ [footer]))) :
    ∃ before rest, Installs calls p ∧
      moments calls p = before ++ header :: (record ++ footer :: rest) := by
  obtain ⟨ms, hms, hslice⟩ := Option.map_eq_some_iff.mp h
  obtain ⟨hinstalls, hmoments⟩ := moments_of_within hms
  refine ⟨ms.take n, (ms.drop n).drop (record.length + 2), hinstalls, hmoments.trans ?_⟩
  calc ms
    _ = ms.take n ++
        ((ms.drop n).take (record.length + 2) ++ (ms.drop n).drop (record.length + 2)) := by
      rw [List.take_append_drop, List.take_append_drop]
    _ = _ := by rw [hslice, List.cons_append, List.append_assoc, List.singleton_append]

theorem full_logging_echoes_commands (settings : Settings) (files : Files) (calls : List Call)
    (hruns : Installs calls { settings, files }) :
    let ms := moments calls { settings, files }
    (∀ before path header record rest,
      ms = before ++ .told (.recorded path (.info header)) :: (record ++ rest) →
      (Header.ofText header).fullLogging = true → (∀ m ∈ record, m.isCut = false) →
      (∀ m ∈ rest.head?, m.isCut = true) →
      (record.filterMap (Moment.echo? path)).filter (· ≠ []) =
        (record.filterMap Moment.command?).filter (· ≠ [])) ∧
    ∀ before path entry t rest, ms = before ++ .told (.recorded path entry) :: rest →
      entry.echoed? = some t →
      (∃ behind, rest = .given t :: behind) ∧
        (entry = .copying t ↔ InSpan (Moment.sinceCut before) t) := by
  intro ms
  have hspeaks : Speaks {} { settings, files } _ ms :=
    after_speaks calls (fresh_coherent settings files) (agrees_idle rfl rfl) hruns
  constructor
  · intro before path header record rest hms hfull hrecord hrest
    have hfaithful := hspeaks.faithful
    rw [hms] at hfaithful
    obtain ⟨rfl, htail⟩ := hfaithful.split.recorded rfl
    refine htail.echoes ?_ hrecord hrest
    rw [Ledger.step, hfull, Bool.or_true]
  · intro before path entry t rest hms ht
    have hfaithful := hspeaks.faithful
    rw [hms] at hfaithful
    rw [← Ledger.after_lines]
    exact hfaithful.split.echoed ht

def fullHeader : Text := "flags=ENABLE_FULL_LOGGING".toList

def loggedFiles : Files :=
  scriptFiles [("main.nscr",
    "<install>\nprocedure $f()\n<info>flags=ENABLE_FULL_LOGGING<endinfo>\n" ++
    "a\nendprocedure\nb\n<endinstall>\nc")]

def loggedSettings : Settings :=
  { home := ⟨"h".toList⟩, scripts := ⟨"s".toList⟩, logSet := some ⟨"log".toList⟩ }

def loggedCalls : List Call :=
  [.setInstallMode true, .openScript "main".toList, .next, .next, .next, .next, .next]

def loggedRecord : List Moment :=
  [.told (.recorded ⟨"log".toList⟩ (.copying "a".toList)), .given "a".toList,
    .told (.recorded ⟨"log".toList⟩ (.copying "endprocedure".toList)), .given "endprocedure".toList,
    .told (.recorded ⟨"log".toList⟩ (.evaluating "b".toList)), .given "b".toList]

theorem full_logging_echoes_commands_procedure :
    ∃ before rest, Installs loggedCalls { settings := loggedSettings, files := loggedFiles } ∧
      moments loggedCalls { settings := loggedSettings, files := loggedFiles } =
        before ++ .told (.recorded ⟨"log".toList⟩ (.info fullHeader)) ::
          (loggedRecord ++ .told (.recorded ⟨"log".toList⟩ (.closed true)) :: rest) ∧
      (loggedRecord.filterMap (Moment.echo? ⟨"log".toList⟩)).filter (· ≠ []) =
        (loggedRecord.filterMap Moment.command?).filter (· ≠ []) ∧
      InSpan (Moment.sinceCut (before ++ [.told (.recorded ⟨"log".toList⟩ (.info fullHeader))]))
        "a".toList := by
  have hfull : (Header.ofText fullHeader).fullLogging = true := by decide +kernel
  have hrecord : loggedRecord.all (!·.isCut) = true := by decide +kernel
  obtain ⟨before, rest, hinstalls, hms⟩ : ∃ before rest,
      Installs loggedCalls { settings := loggedSettings, files := loggedFiles } ∧
        moments loggedCalls { settings := loggedSettings, files := loggedFiles } =
          before ++ .told (.recorded ⟨"log".toList⟩ (.info fullHeader)) ::
            (loggedRecord ++ .told (.recorded ⟨"log".toList⟩ (.closed true)) :: rest) :=
    record_of_within 9 6 (by decide +kernel)
  obtain ⟨hechoes, hspans⟩ :=
    full_logging_echoes_commands loggedSettings loggedFiles loggedCalls hinstalls
  refine ⟨before, rest, hinstalls, hms, ?_, ?_⟩
  · exact hechoes _ _ _ _ _ hms hfull (by simpa using List.all_eq_true.mp hrecord)
      (by simp [Moment.isCut])
  · rw [List.append_cons] at hms
    exact (hspans _ _ (.copying "a".toList) _ _ hms rfl).2.mp rfl

def gapFiles : Files where
  directories := [["root".toList]]
  names := [(["main.nscr".toList], 0), (["other.nscr".toList], 1)]
  contents := [Utf8.encode ("<install><info>flags=ENABLE_FULL_LOGGING<endinfo>\n" ++
      "procedure $f() endprocedure\n<this>\nb\nprocedure $g()\nc\n").toList,
    Utf8.encode "d\n<info>flags=ENABLE_FULL_LOGGING<endinfo>\ne\n".toList]

def gapSettings : Settings := { home := ⟨"root".toList⟩, scripts := ⟨[]⟩ }

def gapCalls : List Call :=
  [.setInstallMode true, .openScript "main".toList, .next, .next, .next, .next,
    .openScript "other".toList, .next, .next]

def gapRecord : List Moment :=
  let log (e : Entry) : Moment := .told (.recorded ⟨"root/install.log".toList⟩ e)
  [log (.installing "$f".toList), log (.copying "procedure $f() endprocedure".toList),
    .given "procedure $f() endprocedure".toList, log (.evaluating []), .given [],
    log (.evaluating "b".toList), .given "b".toList, log (.installing "$g".toList),
    log (.copying "procedure $g()".toList), .given "procedure $g()".toList,
    .told (.scriptOpened ⟨"other.nscr".toList⟩), .given "d".toList, log (.info fullHeader),
    log (.evaluating "e".toList), .given "e".toList]

theorem full_logging_gaps :
    (∃ before rest, Installs gapCalls { settings := gapSettings, files := gapFiles } ∧
      moments gapCalls { settings := gapSettings, files := gapFiles } =
        before ++ .told (.recorded ⟨"root/install.log".toList⟩ (.info fullHeader)) ::
          (gapRecord ++ .told (.recorded ⟨"root/install.log".toList⟩ (.closed false)) :: rest)) ∧
      (Header.ofText fullHeader).fullLogging = true ∧
      gapRecord.filterMap (Moment.echo? ⟨"root/install.log".toList⟩) =
        ["procedure $f() endprocedure".toList, [], "b".toList, "procedure $g()".toList,
          "e".toList] ∧
      (gapRecord.filterMap Moment.command?).filter (· ≠ []) =
        ["procedure $f() endprocedure".toList, "b".toList, "procedure $g()".toList, "d".toList,
          "e".toList] ∧
      startsProcedure "procedure $f() endprocedure".toList = true ∧
      startsProcedure "procedure $g()".toList = true ∧
      ["b".toList, "procedure $g()".toList, "d".toList, "e".toList].all (!endsProcedure ·) =
        true := by
  refine ⟨record_of_within 9 4 ?_, ?_⟩
  · decide +kernel
  · decide +kernel

end ScriptFeed.Processor
