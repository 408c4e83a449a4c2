import ScriptFeed.Proofs.Lines

namespace ScriptFeed

namespace Inclusion

variable {fs : Files} {marked : Marked} {i i' : Inclusion} {line : Option Text}

theorem nextWithin_reads {fuel : Nat} (h : nextWithin fs marked fuel i = .ok (line, i')) :
    i.reader.Reads fs i'.reader ∧ (line.isSome = true →
      (i'.reader.pending fs).length < (i.reader.pending fs).length) := by
  induction fuel generalizing i with
  | zero =>
    simp only [nextWithin, Except.ok.injEq, Prod.mk.injEq] at h
    obtain ⟨rfl, rfl⟩ := h
    exact ⟨.refl _ _, by simp⟩
  | succ fuel ih =>
    unfold nextWithin at h
    cases hl : i.reader.nextLogical fs marked with
    | error e => simp [hl] at h
    | ok x =>
      obtain ⟨o, reader⟩ := x
      cases o with
      | none =>
        simp only [hl, Except.ok.injEq, Prod.mk.injEq] at h
        obtain ⟨rfl, rfl⟩ := h
        exact ⟨(LineReader.nextLogical_none hl).1, by simp⟩
      | some l =>
        obtain ⟨hr, hlt, -⟩ := LineReader.nextLogical_some hl
        cases hc : classify i.scope i.inComment l.text with
        | mk reading inComment =>
          simp only [hl, hc] at h
          cases reading with
          | nothing =>
            obtain ⟨hr', hlt'⟩ := ih h
            exact ⟨hr.trans hr', fun hs => (hlt' hs).trans hlt⟩
          | line t =>
            simp only [Except.ok.injEq, Prod.mk.injEq] at h
            obtain ⟨-, rfl⟩ := h
            exact ⟨hr, fun _ => hlt⟩
          | «section» =>
            cases ht : reader.through fs (isSection Package.installClose) with
            | error e => simp [ht] at h
            | ok y =>
              obtain ⟨passage, reader'⟩ := y
              simp only [ht] at h
              have hpass := LineReader.through_reads ht
              obtain ⟨hr', hlt'⟩ := ih h
              refine ⟨(hr.trans hpass).trans hr', fun hs => ?_⟩
              have hle : (reader'.pending fs).length ≤ (reader.pending fs).length :=
                hpass.pending.length_le
              exact ((hlt' hs).trans_le hle).trans hlt

end Inclusion

namespace Processor

open Package Comment

variable {N : Allowed} {W : Permit} {p q : Processor} {t : Text} {notes : Notes}

structure Frame (p q : Processor) : Prop where
  session : q.session = p.session
  inclusion : q.inclusion = p.inclusion
  chain : q.installation.map (·.chain) = p.installation.map (·.chain)

theorem Frame.refl (p : Processor) : Frame p p := ⟨rfl, rfl, rfl⟩

theorem Frame.trans {r : Processor} (h : Frame p q) (h' : Frame q r) : Frame p r :=
  ⟨h'.session.trans h.session, h'.inclusion.trans h.inclusion, h'.chain.trans h.chain⟩

theorem Frame.isOpen (h : Frame p q) : q.isOpen = p.isOpen := by
  rw [Processor.isOpen, h.session, Processor.isOpen]

theorem setInProcedure_frame (p : Processor) (b : Bool) : Frame p (p.setInProcedure b) := by
  refine ⟨rfl, rfl, ?_⟩
  cases hi : p.installation <;> simp [setInProcedure, hi]

theorem setInProcedure_record? (p : Processor) (b : Bool) :
    (p.setInProcedure b).record? = p.record? := by
  unfold setInProcedure record?
  cases p.installation <;> rfl

theorem record_frame (p : Processor) (e : Entry) : Frame p (p.record e) := by
  unfold record
  split <;> exact ⟨rfl, rfl, rfl⟩

theorem closeRecord_frame (p : Processor) (b : Bool) : Frame p (p.closeRecord b).2 := by
  refine ⟨closeRecord_session p b, ?_, ?_⟩
  · unfold closeRecord
    split <;> rfl
  · unfold closeRecord
    split
    · rfl
    · cases hi : p.installation <;> simp [emit, recordIn, hi]

theorem announce_moves (ho : p.isOpen = true) (line : Text) :
    Moves N p (p.announce line) ∧ Frame p (p.announce line) := by
  unfold announce
  cases Keyword.procedureName? line with
  | none => exact ⟨.refl, .refl p⟩
  | some name =>
    have hm := (setInProcedure_moves ho true).tail (Move.write (N := N) _ (.installing name) rfl)
    have hf := (setInProcedure_frame p true).trans (record_frame _ (.installing name))
    dsimp only
    split
    · exact ⟨hm, hf⟩
    · exact ⟨hm.tail (.say _ _), hf.trans ⟨rfl, rfl, rfl⟩⟩

theorem echo?_isInner {i : Installation} {line : Text} {e : Entry} (h : i.echo? line = some e) :
    e.isInner = true := by
  unfold Installation.echo? at h
  split at h
  · simp only [Option.some.injEq] at h
    subst h
    split <;> rfl
  · simp at h

theorem recordEcho_moves (p : Processor) (line : Text) :
    Moves N p (p.recordEcho line) ∧ Frame p (p.recordEcho line) := by
  unfold recordEcho
  cases he : p.installation.bind (·.echo? line) with
  | none => exact ⟨.refl, .refl p⟩
  | some e =>
    obtain ⟨i, -, he⟩ := Option.bind_eq_some_iff.mp he
    exact ⟨.single (.write p e (echo?_isInner he)), record_frame p e⟩

theorem echoLine_moves (ho : p.isOpen = true) (line : Text) :
    Moves N p (p.echoLine line) ∧ Frame p (p.echoLine line) := by
  unfold echoLine
  split
  · exact ⟨.refl, .refl p⟩
  · obtain ⟨hm, hf⟩ := announce_moves (N := N) ho line
    obtain ⟨hm', hf'⟩ := recordEcho_moves (N := N) (p.announce line) line
    have hm₂ := hm.trans hm'
    have hf₂ := hf.trans hf'
    dsimp only
    split
    · exact ⟨hm₂.trans (setInProcedure_moves (hf₂.isOpen.trans ho) false),
        hf₂.trans (setInProcedure_frame _ false)⟩
    · exact ⟨hm₂, hf₂⟩

theorem command?_ends {Q : Option Text → Processor → Prop} {E : Failure → Processor → Prop}
    (hecho : p.installMode = true → Q (some t) (p.echoLine t))
    (hdefine : ∀ functions name n, p.installMode = false →
      Q none ({ p with functions }.emit (.functionDefined name n)))
    (hplain : p.installMode = false → Q (some (p.functions.substitute t)) p)
    (hfail : ∀ e, E e p) : Ends (command? t) p Q E := by
  rw [command?, ends_bind, ends_get]
  by_cases hmode : p.installMode = true
  · rw [if_pos hmode]
    exact hecho hmode
  · rw [if_neg hmode]
    rw [Bool.not_eq_true] at hmode
    split
    · exact hfail _
    · split
      · cases p.functions.define t with
        | error cause => exact hfail _
        | ok x => exact hdefine x.2 x.1.name x.1.params.length hmode
      · exact hplain hmode

theorem scriptCommand?_ends {Q : Option Text → Processor → Prop} {E : Failure → Processor → Prop}
    (hcommand : Ends (command? t) p Q E) (hunnamed : Q (some []) (p.emit (.includeUnnamed t)))
    (hopen : ∀ path scope r, LineReader.openFile p.files path = .ok r →
      Q none ({ p with inclusion := some ⟨r, scope, false⟩ }.emit (.includeOpened r.path scope)))
    (hfail : ∀ e, E e p) : Ends (scriptCommand? t) p Q E := by
  unfold scriptCommand?
  cases Marker.parse? t with
  | none => exact hcommand
  | some m =>
    dsimp only
    split
    · exact hunnamed
    · rw [ends_bind, openInclusion, ends_bind, ends_get]
      cases hf : LineReader.openFile p.files (Inclusion.pathOf p.settings.roots m) with
      | error e =>
        simp only [Inclusion.open, hf, Except.map]
        exact hfail _
      | ok r =>
        simp only [Inclusion.open, hf, Except.map]
        exact hopen _ m.scope r hf

theorem command?_moving (ho : p.isOpen = true) (t : Text) :
    Moving N (command? t) p (fun _ q => Frame p q) := by
  apply command?_ends
  · exact fun _ => echoLine_moves ho t
  · exact fun functions _ _ _ =>
      ⟨.tail (.single (.define p functions ho)) (.tell _ _ rfl), ⟨rfl, rfl, rfl⟩⟩
  · exact fun _ => ⟨.refl, .refl p⟩
  · exact fun _ => .refl

theorem scriptCommand?_moving (ho : p.isOpen = true) (t : Text) :
    Moving N (scriptCommand? t) p (fun _ q => q.isOpen = true) := by
  apply scriptCommand?_ends
  · exact (command?_moving ho t).mono fun _ _ h => h.isOpen.trans ho
  · exact ⟨.single (.tell p _ rfl), ho⟩
  · exact fun path scope r hr => ⟨.single (.enclose p path scope r ho hr), ho⟩
  · exact fun _ => .refl

theorem concludeRecord_frame (p : Processor) (b : Bool) : Frame p (p.concludeRecord b) := by
  have hf : Frame p (p.closeRecord b).2 := closeRecord_frame p b
  unfold concludeRecord
  dsimp only
  split
  · exact hf.trans ⟨rfl, rfl, rfl⟩
  · exact hf

theorem concludeRecord_record? (p : Processor) (b : Bool) :
    (p.concludeRecord b).record? = none := by
  unfold concludeRecord
  dsimp only
  split <;> exact closeRecord_record? p b

theorem leaveSection_close (ho : p.isOpen = true) (hclose : Text.startsWith installClose t = true) :
    Changes W (p.concludeRecord true) (p.leaveSection t).2 ∧
      (p.leaveSection t).2.isOpen = true := by
  have ho' := (concludeRecord_frame p true).isOpen.trans ho
  have hm : Change W (p.concludeRecord true) ((p.concludeRecord true).setInProcedure false) :=
    .leaveProcedure _ ho' (concludeRecord_record? p true)
  have hf := setInProcedure_frame (p.concludeRecord true) false
  unfold leaveSection
  rw [if_pos hclose]
  dsimp only
  split <;> exact ⟨.single hm, hf.isOpen.trans ho'⟩

theorem leaveSection_else {t : Text} (h : Text.startsWith installClose t = false) :
    p.leaveSection t = (some t, p) := by
  simp [leaveSection, h]

theorem dropBlockComments_changes (p : Processor) (t : Text) (notes : Notes) :
    Changes W p (p.dropBlockComments t notes).2.2 ∧
      (p.dropBlockComments t notes).2.2.isOpen = p.isOpen := by
  unfold dropBlockComments
  split
  · cases hs : p.session with
    | none => exact ⟨.refl, rfl⟩
    | some s => exact ⟨.single (.read p s s.reader _ hs (.refl _ _)), by simp [isOpen, hs]⟩
  · exact ⟨.refl, rfl⟩

theorem leaveLine_rest (notes : Notes) (p : Processor) (t : Text) :
    Changes W (p.leaveSection t).2 (p.leaveLine t notes).2 ∧
      (p.leaveLine t notes).2.isOpen = (p.leaveSection t).2.isOpen ∧
      (p.leaveLine t notes).1 ≠ .stop := by
  unfold leaveLine
  cases p.leaveSection t with
  | mk rest q =>
    cases rest with
    | none => exact ⟨.refl, rfl, by simp⟩
    | some u =>
      obtain ⟨hm, ho⟩ := dropBlockComments_changes (W := W) q u notes
      refine ⟨hm, ho, ?_⟩
      dsimp only
      unfold finishLine
      split <;> exact Reading.noConfusion

theorem leaveLine_changes (ho : p.isOpen = true) (notes : Notes)
    (hS : Text.startsWith installClose t = true → W.succeed) :
    Changes W p (p.leaveLine t notes).2 ∧ (p.leaveLine t notes).2.isOpen = true ∧
      (p.leaveLine t notes).1 ≠ .stop := by
  obtain ⟨hrest, hopen, hstop⟩ := leaveLine_rest (W := W) notes p t
  cases hclose : Text.startsWith installClose t with
  | true =>
    obtain ⟨hm, ho'⟩ := leaveSection_close (W := W) ho hclose
    have hc : Change W p (p.concludeRecord true) := .conclude p true fun _ => hS hclose
    exact ⟨.head hc (hm.trans hrest), hopen.trans ho', hstop⟩
  | false =>
    rw [leaveSection_else hclose] at hrest hopen
    exact ⟨hrest, hopen.trans ho, hstop⟩

theorem readText_text {t u : Text} {notes notes' : Notes}
    (h : enterLine t notes p = .ok (.text u notes') q) :
    readText t notes p = .ok (q.leaveLine u notes').1 (q.leaveLine u notes').2 := by
  rw [readText, bind_run, h]
  rfl

theorem readText_changing (notes : Notes) (ho : p.isOpen = true) (hB : W.start)
    (hI : p.installMode = true → W.install)
    (hl : ∀ u l, (p.installMode = false → p.leftOver t = some u) →
      Text.startsWith "layout ".toList u = true → Layout.parse? u = some l → W.layout l.file)
    (hS : ∀ u notes' q, enterLine t notes p = .ok (.text u notes') q →
      Text.startsWith installClose u = true → W.succeed)
    (hN : ∀ name : Text, name.length ≤ p.reach t.length → W.queue name) :
    Changing W (readText t notes) p
      (fun x q => (∀ u, x = .line u → q.isOpen = true) ∧ x ≠ .stop) := by
  unfold readText
  refine (enterLine_changing notes ho hB hI hl hN).run.bind ?_
  rintro entered q ⟨⟨hq, hstop⟩, hrun⟩
  cases entered with
  | used r =>
    refine .pure ⟨?_, by simpa using hstop⟩
    rintro u rfl
    exact hq rfl
  | text u notes' =>
    obtain ⟨hm, ho', hne⟩ := leaveLine_changes (hq rfl) notes' (hS u notes' q hrun)
    exact Stepping.get (Stepping.set hm (.pure ⟨fun _ _ => ho', hne⟩))

theorem readLine_run {s : Session} (hs : p.session = some s) (notes : Notes) :
    readLine notes p = match s.reader.nextLogical p.files p.marked with
      | .error e => .error (.files e) p
      | .ok (none, r) => .ok .stop (p.setReader r)
      | .ok (some l, r) =>
        if l.text = [] then .ok (.nothing notes) (p.setReader r)
        else readText l.text notes (p.setReader r) := by
  unfold readLine
  simp only [bind_run, get_run, hs]
  cases s.reader.nextLogical p.files p.marked with
  | error e => rfl
  | ok x =>
    obtain ⟨logical, r⟩ := x
    cases logical with
    | none => rfl
    | some l => simp only [lift, pure_run, modify_run]; split <;> rfl

def directive? (p : Processor) : Option Layout :=
  match p.inclusion, p.session with
  | none, some s =>
    match s.reader.nextLogical p.files p.marked with
    | .ok (some line, _) =>
      (p.leftOver line.text).bind fun t =>
        if Text.startsWith "layout ".toList t then Layout.parse? t else none
    | _ => none
  | _, _ => none

theorem reach_setReader {s : Session} {r : LineReader} {t : Text} (hs : p.session = some s)
    (hr : s.reader.Reads p.files r)
    (hlen : t.length + (r.pending p.files).length ≤ (s.reader.pending p.files).length + 3) :
    (p.setReader r).reach t.length ≤ p.reach (p.unread + 3) := by
  have hun : (p.setReader r).unread = (r.pending p.files).length :=
    unread_of_session (session_setReader hs r)
  have hle : (r.pending p.files).length ≤ (s.reader.pending p.files).length :=
    hr.pending.length_le
  have hlead : (p.setReader r).lead = p.lead := rfl
  unfold reach
  rw [hun, hlead, unread_of_session hs]
  omega

end Processor

end ScriptFeed
