import ScriptFeed.Proofs.Breakable
import ScriptFeed.Proofs.Brackets
import ScriptFeed.Proofs.Lockstep

namespace ScriptFeed

open Package Comment Keyword

theorem Text.Bears.procedureName? {t t' : Text} (h : t.Bears t') :
    Keyword.procedureName? t = Keyword.procedureName? t' := by
  rcases h with rfl | ⟨-, rfl⟩
  · rfl
  · exact procedureName?_withMark t'

theorem Text.Bears.endsProcedure {t t' : Text} (h : t.Bears t') :
    Keyword.endsProcedure t = Keyword.endsProcedure t' := by
  rcases h with rfl | ⟨-, rfl⟩
  · rfl
  · exact endsProcedure_withMark t'

namespace LocalFunctions

theorem expandOnce_ne_nil {fs : LocalFunctions} {t u : Text} (h : fs.expandOnce t = some u) :
    u ≠ [] := by
  unfold expandOnce at h
  cases t with
  | nil => simp [expandFrom] at h
  | cons c r =>
    unfold expandFrom at h
    dsimp only at h
    split at h
    next new width hcall =>
      have hnew : new ≠ [] := by
        split at hcall
        · simp at hcall
        · unfold callHere? at hcall
          dsimp only at hcall
          split at hcall
          · split at hcall
            · simp only [Option.some.injEq, Prod.mk.injEq] at hcall
              rw [← hcall.1]
              exact List.cons_ne_nil _ _
            · simp at hcall
          · simp at hcall
      simp only [Option.some.injEq] at h
      rw [← h]
      exact List.append_ne_nil_of_left_ne_nil hnew _
    · obtain ⟨v, -, rfl⟩ := Option.map_eq_some_iff.mp h
      exact List.cons_ne_nil c v

theorem substitute_ne_nil (fs : LocalFunctions) {t : Text} (h : t ≠ []) : fs.substitute t ≠ [] := by
  have hwithin (passes : Nat) : fs.expandWithin passes t ≠ [] := by
    induction passes generalizing t with
    | zero => exact h
    | succ n ih =>
      unfold expandWithin
      cases ho : fs.expandOnce t with
      | none => exact h
      | some u => exact ih (expandOnce_ne_nil ho)
  unfold substitute
  split
  · exact h
  · exact hwithin maxPasses

end LocalFunctions

namespace Processor

variable {α β : Type} {m : Marked} {D : Nat → Prop} {p q : Processor} {t t' : Text} {notes : Notes}
  {b : Bool}

def Parallel (m : Marked) (D : Nat → Prop) (R : α → α → Processor → Prop) (x y : Outcome α) :
    Prop :=
  (∃ e e' p q, x = .error e p ∧ y = .error e' q ∧ e.Bears e' ∧ Alike m D p q) ∨
    ∃ a a' p q, x = .ok a p ∧ y = .ok a' q ∧ R a a' p ∧ Alike m D p q

theorem Lockstep.parallel {x y : Action α} {Q : α → Processor → Processor → Prop}
    {R : α → α → Processor → Prop} (h : Lockstep m D x y p q Q)
    (hQ : ∀ a p' q', Q a p' q' → R a a p' ∧ Alike m D p' q') :
    Parallel m D R (x p) (y q) := by
  rcases h with ⟨e, p', q', hx, hy, he⟩ | ⟨a, p', q', hx, hy, ha⟩
  · exact .inl ⟨e, e, p', q', hx, hy, .refl e, he⟩
  · exact .inr ⟨a, a, p', q', hx, hy, hQ a p' q' ha⟩

theorem Parallel.bind {x y : Action α} {f g : α → Action β} {R : α → α → Processor → Prop}
    {S : β → β → Processor → Prop} (h : Parallel m D R (x p) (y q))
    (hf : ∀ a a' p' q', R a a' p' → Alike m D p' q' → Parallel m D S (f a p') (g a' q')) :
    Parallel m D S ((x >>= f) p) ((y >>= g) q) := by
  rcases h with ⟨e, e', p', q', hx, hy, he, hpq⟩ | ⟨a, a', p', q', hx, hy, ha, hpq⟩
  · exact .inl ⟨e, e', p', q', bind_error hx f, bind_error hy g, he, hpq⟩
  · rw [bind_ok hx, bind_ok hy]
    exact hf a a' p' q' ha hpq

theorem Alike.announce (h : Alike m D p q) (ht : t.Bears t') :
    Alike m D (p.announce t) (q.announce t') := by
  unfold Processor.announce
  rw [ht.procedureName?]
  cases Keyword.procedureName? t' with
  | none => exact h
  | some name =>
    have hrec := (h.setInProcedure true).record (.installing name)
    dsimp only
    rw [hrec.installation]
    split
    · exact hrec
    · exact hrec.say _

theorem echo?_bears (i : Installation) (ht : t.Bears t') :
    (i.echo? t = none ∧ i.echo? t' = none) ∨
      ∃ e e', i.echo? t = some e ∧ i.echo? t' = some e' ∧ e.Bears e' := by
  unfold Installation.echo?
  split
  · split
    · exact .inr ⟨_, _, rfl, rfl, .copying ht⟩
    · exact .inr ⟨_, _, rfl, rfl, .evaluating ht⟩
  · exact .inl ⟨rfl, rfl⟩

theorem Alike.recordEcho (h : Alike m D p q) (ht : t.Bears t')
    (hD : t = t' ∨ ∀ r, p.record? = some r → D r.file) :
    Alike m D (p.recordEcho t) (q.recordEcho t') := by
  unfold Processor.recordEcho
  rw [h.installation]
  cases p.installation with
  | none => exact h
  | some i =>
    simp only [Option.bind_some]
    rcases echo?_bears i ht with ⟨hx, hy⟩ | ⟨e, e', hx, hy, he⟩
    · rw [hx, hy]
      exact h
    · rw [hx, hy]
      refine h.recordBears he (hD.imp_left ?_)
      rintro rfl
      simpa using hx.symm.trans hy

theorem Alike.echoLine (h : Alike m D p q) (ht : t.Bears t')
    (hD : t = t' ∨ ∀ r, p.record? = some r → D r.file) :
    Alike m D (p.echoLine t) (q.echoLine t') := by
  have hecho := (h.announce ht).recordEcho ht
    (hD.imp_right fun hD r hr => hD r ((announce_record? p t).symm.trans hr))
  unfold Processor.echoLine
  rw [h.record?, ht.endsProcedure]
  split
  · exact h
  · dsimp only
    split
    · exact hecho.setInProcedure false
    · exact hecho

theorem echoLine_session (p : Processor) (t : Text) : (p.echoLine t).session = p.session := by
  have hannounce : (p.announce t).session = p.session := by
    unfold announce
    split
    · rfl
    · dsimp only
      split <;> exact record_session (p.setInProcedure true) _
  have hecho : ((p.announce t).recordEcho t).session = p.session := by
    unfold recordEcho
    split
    · exact (record_session _ _).trans hannounce
    · exact hannounce
  unfold echoLine
  split
  · rfl
  · dsimp only
    split <;> exact hecho

theorem command?_parallel (h : Alike m D p q) (ha : Away D p)
    (ht : b = true → t ≠ [] ∧ Text.startsWith breakMark t = false)
    (hD : b = true → ∀ r, p.record? = some r → D r.file) :
    Parallel m D (fun o o' p' => o = o'.map (markedIf b) ∧ (b = true → o' ≠ some []) ∧ Away D p')
      (command? (markedIf b t) p) (command? t q) := by
  have hbears : (markedIf b t).Bears t := Text.bears_markedIf fun hb => (ht hb).1
  have hproc : Keyword.startsProcedure (markedIf b t) = Keyword.startsProcedure t := by
    rw [Keyword.startsProcedure, hbears.procedureName?, Keyword.startsProcedure]
  have hdef : LocalFunction.isDefinition (markedIf b t) = LocalFunction.isDefinition t := by
    cases b with
    | false => rfl
    | true => rw [markedIf_true, LocalFunction.isDefinition, leading_withMark (ht rfl).2,
        LocalFunction.isDefinition]
  have hdefine : p.functions.define (markedIf b t) = p.functions.define t := by
    cases b with
    | false => rfl
    | true => exact LocalFunctions.define_withMark p.functions (ht rfl).2
  have hsubst : p.functions.substitute (markedIf b t) = markedIf b (p.functions.substitute t) := by
    cases b with
    | false => rfl
    | true => exact LocalFunctions.substitute_withMark p.functions t
  have hlog : markedIf b t = t ∨ ∀ r, p.record? = some r → D r.file := by
    cases b with
    | false => exact .inl rfl
    | true => exact .inr (hD rfl)
  unfold command?
  rw [bind_ok (get_run p), bind_ok (get_run q), h.installMode, hproc, hdef, h.functions, hdefine]
  split
  · exact .inr ⟨_, some t, _, _, rfl, rfl,
      ⟨rfl, fun hb => by simpa using (ht hb).1, ha.of_session (echoLine_session p _)⟩,
      h.echoLine hbears hlog⟩
  · split
    · exact .inl ⟨_, _, p, q, rfl, rfl, .procedure hbears, h⟩
    · split
      · cases p.functions.define t with
        | error cause => exact .inl ⟨_, _, p, q, rfl, rfl, .definition cause hbears, h⟩
        | ok x =>
          obtain ⟨f, functions⟩ := x
          have hset := (h.update (fun p => { p with functions }) (fun _ _ => rfl) rfl rfl rfl).tell
            (.functionDefined f.name f.params.length)
          rw [h.installMode] at hset
          exact .inr ⟨none, none, _, _, rfl, rfl, ⟨rfl, by simp, ha⟩, hset⟩
      · rw [hsubst]
        refine .inr ⟨_, _, p, q, rfl, rfl, ⟨rfl, fun hb => ?_, ha⟩, h⟩
        simpa using LocalFunctions.substitute_ne_nil p.functions (ht hb).1

theorem Alike.expandThis (h : Alike m D p q) : q.expandThis = p.expandThis := by
  funext t
  rw [Processor.expandThis, directory, h.session, h.script, Processor.expandThis, directory]

theorem expandThis_markedIf (p : Processor) (b : Bool) (t : Text) :
    p.expandThis (markedIf b t) = markedIf b (p.expandThis t) := by
  cases b with
  | false => rfl
  | true => exact replaceAll_withMark (p := '<') ⟨by decide, by decide, by decide⟩ p.directory t

theorem expandThis_bare (hm : Text.startsWith breakMark t = false) (hl : leading t ≠ []) :
    p.expandThis t ≠ [] ∧ Text.startsWith breakMark (p.expandThis t) = false := by
  have hunmarked : unmarked t = Text.trimStart t := by
    have hafter : Text.after? breakMark t = none := by simpa [Text.startsWith] using hm
    rw [unmarked, hafter]
    rfl
  cases t with
  | nil => exact absurd rfl hl
  | cons c r =>
    have hother (x : Char) (hb : Text.isBlank x = false) (hn : Text.isNameChar x = false) :
        x ≠ c := by
      rintro rfl
      rw [leading, hunmarked, Text.trimStart_cons hb] at hl
      exact hl (by simp [hn])
    have hcons : p.expandThis (c :: r) = c :: p.expandThis r :=
      Text.replaceAll_cons_ne (hother '<' (by decide) (by decide)) _ _ _
    rw [hcons]
    exact ⟨List.cons_ne_nil _ _, Text.startsWith_cons_ne (hother '|' (by decide) (by decide)) _ _⟩

structure Bare (D : Nat → Prop) (p : Processor) (t : Text) : Prop where
  nonempty : t ≠ []
  unmarked : Text.startsWith breakMark t = false
  marker : Marker.parse? t = none
  log : ∀ r, p.record? = some r → D r.file

theorem scriptCommand?_parallel (h : Alike m D p q) (ha : Away D p) (hb : b = true → Bare D p t) :
    Parallel m D (fun o o' p' => o = o'.map (markedIf b) ∧ (b = true → o' ≠ some []) ∧ Away D p')
      (scriptCommand? (markedIf b t) p) (scriptCommand? t q) := by
  have hcommand := command?_parallel (t := t) h ha (fun hm => ⟨(hb hm).nonempty, (hb hm).unmarked⟩)
    fun hm => (hb hm).log
  have hmarker : Marker.parse? (markedIf b t) = Marker.parse? t := by
    cases b with
    | false => rfl
    | true => exact (hb rfl).marker.symm
  unfold scriptCommand?
  rw [hmarker]
  cases hp : Marker.parse? t with
  | none => exact hcommand
  | some marker =>
    have hfalse : b = false := by
      cases b with
      | false => rfl
      | true => exact absurd ((hb rfl).marker.symm.trans hp) (by simp)
    subst hfalse
    dsimp only
    split
    · exact .inr ⟨some [], some [], _, _, rfl, rfl, ⟨rfl, by simp, ha⟩, h.tell _⟩
    · have hopen := (openInclusion_abreast (alike_simulation m D) ⟨h, ha⟩ marker t).lockstep
      refine (hopen.bind (g := fun _ => pure none)
        (R := fun o p' q' => o = none ∧ Alike m D p' q' ∧ Away D p') ?_).parallel ?_
      · rintro - p q hpq
        exact .pure ⟨rfl, hpq⟩
      · rintro o p' q' ⟨rfl, halike, haway⟩
        exact ⟨⟨rfl, by simp, haway⟩, halike⟩

theorem readIncluded_parallel {i : Inclusion} (h : Alike m D p q)
    (hi : ∀ id, i.reader.file? = some id → ¬ D id) (hc : i.clear q.files m = true) :
    Parallel m D (fun o o' p' => o = o'.map (markedIf (i.breaks q.files m)) ∧
      (∀ t, o' = some t → i.breaks q.files m = true →
        Text.startsWith breakMark t = false ∧ leading t ≠ []) ∧
      p'.session = p.session ∧ p'.record? = p.record?) (readIncluded i p) (readIncluded i q) := by
  have hsees : i.reader.Sees p.files q.files := fun id hid => h.files.outside id (hi id hid)
  have hnext := Inclusion.next_marked hsees hc
  generalize i.breaks q.files m = b at hnext ⊢
  rw [← h.marked.1, ← h.marked.2] at hnext
  unfold readIncluded
  rw [bind_ok (get_run p), bind_ok (get_run q)]
  rcases hnext with ⟨e, hx, hy⟩ | ⟨j, hx, hy⟩ | ⟨t, j, hx, hy, ht⟩
  · rw [hx, hy]
    exact .inl ⟨_, _, p, q, rfl, rfl, .refl _, h⟩
  · rw [hx, hy]
    have hleft {p q : Processor} (h : Alike m D p q) :
        Alike m D { p.emit (.includeClosed j.reader.path j.scope) with inclusion := none }
          { q.emit (.includeClosed j.reader.path j.scope) with inclusion := none } :=
      (h.tell _).update (fun p => { p with inclusion := none }) (fun _ _ => rfl) rfl rfl rfl
    have hend := h.tell (.includeExhausted j.reader.path)
    obtain ⟨reader, scope, inComment⟩ := j
    cases inComment with
    | false => exact .inr ⟨none, none, _, _, rfl, rfl, ⟨rfl, by simp, rfl, rfl⟩, hleft hend⟩
    | true => exact .inr ⟨none, none, _, _, rfl, rfl, ⟨rfl, by simp, rfl, rfl⟩, hleft (hend.tell _)⟩
  · rw [hx, hy]
    refine .inr ⟨_, some t, _, _, rfl, rfl, ⟨rfl, ?_, rfl, rfl⟩,
      h.update (fun p => { p with inclusion := some j }) (fun _ _ => rfl) rfl rfl rfl⟩
    rintro u ⟨⟩
    exact ht

theorem Alike.isCommand (h : Alike m D p q) : q.isCommand = p.isCommand := by
  funext notes t
  rw [Processor.isCommand, h.expandThis, Processor.isCommand]

theorem Alike.breakable (h : Alike m D p q) : q.breakable = p.breakable := by
  funext notes t
  unfold Processor.breakable
  rw [h.session, h.dropLineComment, h.isCommand]
  cases p.dropLineComment t notes with
  | mk rest notes' =>
    cases rest with
    | none => rfl
    | some u =>
      obtain ⟨htext, hnotes, -⟩ := h.dropBlockComments u notes'
      simp only [htext, hnotes, isDirective, h.installMode]

theorem dropBlockComments_directory (p : Processor) (t : Text) (notes : Notes) :
    (p.dropBlockComments t notes).2.2.directory = p.directory := by
  unfold dropBlockComments
  split
  · dsimp only
    cases hs : p.session with
    | none => rfl
    | some s => simp only [directory, hs, Option.map_some]
  · rfl

theorem dropBlockComments_record? (p : Processor) (t : Text) (notes : Notes) :
    (p.dropBlockComments t notes).2.2.record? = p.record? := by
  unfold dropBlockComments
  split
  · dsimp only
    split <;> rfl
  · rfl

inductive Reading.Shows (D : Nat → Prop) (p : Processor) (b : Bool) : Reading → Reading → Prop
  | nothing (n : Notes) : Shows D p b (.nothing n) (.nothing n)
  | stop (ha : Away D p) (hb : b = false) : Shows D p b .stop .stop
  | line (t : Text) (ha : Away D p) (hb : b = true → Bare D p (p.expandThis t)) :
      Shows D p b (.line (markedIf b t)) (.line t)

theorem readText_parallel (h : Alike m D p q) (ha : Away D p) (ho : p.isOpen = true) (t : Text)
    (notes : Notes) : Parallel m D (fun r r' p' => r.Shows D p' false r') (readText t notes p)
      (readText t notes q) := by
  have hchanges : Changing Allowed.all.whole (readText t notes) p
      (fun x q => (∀ u, x = .line u → q.isOpen = true) ∧ x ≠ .stop) :=
    readText_changing _ ho trivial (fun _ => trivial) (fun _ _ _ _ _ => trivial)
      (fun _ _ _ _ _ => trivial) (fun _ _ => trivial)
  rcases readText_lockstep h ha t notes with
    ⟨e, p', q', hx, hy, he⟩ | ⟨r, p', q', hx, hy, halike, haway⟩
  · exact .inl ⟨e, e, p', q', hx, hy, .refl e, he⟩
  · refine .inr ⟨r, r, p', q', hx, hy, ?_, halike⟩
    cases r with
    | nothing n => exact .nothing n
    | line u => exact .line u (haway u rfl) (by simp)
    | stop => exact absurd rfl (Ends.ok hchanges hx).2.2

theorem readText_marked (h : Alike m D p q) (ha : Away D p) (ho : p.isOpen = true)
    (hD : ∀ r, p.record? = some r → D r.file) (hb : p.breakable notes t = true) :
    Parallel m D (fun r r' p' => r.Shows D p'
        (!p.session.any (·.inComment) && !Text.startsWith breakMark t) r')
      (readText (LineReader.mark t) notes p)
      (if t = [] then .ok (.nothing notes) q else readText t notes q) := by
  cases hm : Text.startsWith breakMark t with
  | true =>
    have hne : t ≠ [] := by
      rintro rfl
      exact absurd hm (by decide)
    rw [LineReader.mark, if_pos hm, if_neg hne, Bool.not_true, Bool.and_false]
    exact readText_parallel h ha ho t notes
  | false =>
    have hmark : LineReader.mark t = withMark t := by
      rw [LineReader.mark, if_neg (by simp [hm])]
      rfl
    rw [hmark]
    cases hc : p.session.any (·.inComment) with
    | true =>
      have hn : notes.isEmpty = true := by simpa [Processor.breakable, hm, hc] using hb
      rw [readText_resumed hc hn]
      split
      · subst t
        rw [readText_nil hc hn]
        exact .inr ⟨_, _, p, q, rfl, rfl, .nothing notes, h⟩
      · exact readText_parallel h ha ho t notes
    | false =>
      obtain ⟨s, n, hcommand, hread, hmarked⟩ := readText_breakable hm hc hb
      have hne : t ≠ [] := by
        rintro rfl
        exact absurd hb (by simp [breakable_nil hc])
      rw [if_neg hne, hmarked]
      rcases readText_lockstep h ha t notes with
        ⟨e, p', q', hx, -⟩ | ⟨r, p', q', hx, hy, halike, haway⟩
      · exact absurd (hread.symm.trans hx) (by simp)
      · obtain ⟨rfl, rfl⟩ := EStateM.Result.ok.inj (hread.symm.trans hx)
        refine .inr ⟨_, _, _, q', rfl, hy, .line _ (haway _ rfl) fun _ => ?_, halike⟩
        rw [Processor.expandThis, dropBlockComments_directory, ← Processor.expandThis]
        simp only [isCommand, Bool.and_eq_true, Bool.not_eq_true', Option.isNone_iff_eq_none,
          List.isEmpty_eq_false_iff] at hcommand
        obtain ⟨⟨⟨⟨-, hempty⟩, hstart⟩, hnone⟩, -⟩ := hcommand
        refine ⟨hempty, hstart, hnone, ?_⟩
        rw [dropBlockComments_record?]
        exact hD

theorem readLine_parallel (h : Alike m D p q) (ha : Away D p) (hi : p.inclusion = none)
    (hD : ∀ r, p.record? = some r → D r.file) (hc : q.clear m notes = true) :
    Parallel m D (fun r r' p' => r.Shows D p' (q.breaks m) r') (readLine notes p)
      (readLine notes q) := by
  cases hs : p.session with
  | none =>
    have hbreaks : q.breaks m = false := by
      simp only [Processor.breaks, h.inclusion, hi, h.session, hs]
    rw [readLine_closed hs, readLine_closed (h.session.trans hs)]
    exact .inr ⟨_, _, p, q, rfl, rfl, .stop ha hbreaks, h⟩
  | some s =>
    have hqs : q.session = some s := h.session.trans hs
    rw [readLine_run hs, readLine_run hqs, h.marked.1, h.marked.2,
      LineReader.nextLogical_marked (h.sees ha hs) m]
    cases hl : s.reader.nextLogical q.files (fun _ _ => false) with
    | error e => exact .inl ⟨_, _, p, q, rfl, rfl, .refl _, h⟩
    | ok x =>
      obtain ⟨o, reader⟩ := x
      have haway : Away D (p.setReader reader) := ha.setReader hs (LineReader.nextLogical_reads hl)
      have halike := h.setReader reader
      have hsession := session_setReader hs reader
      cases o with
      | none =>
        have hbreaks : q.breaks m = false := by
          simp only [Processor.breaks, h.inclusion, hi, hqs, hl]
        exact .inr ⟨.stop, .stop, _, _, rfl, rfl, .stop haway hbreaks, halike⟩
      | some l =>
        have hbreaks : q.breaks m = l.breaks m s.reader.path s.inComment := by
          simp only [Processor.breaks, h.inclusion, hi, hqs, hl]
        simp only [Processor.clear, h.inclusion, hi, hqs, hl, halike.breakable, Bool.or_eq_true,
          Bool.not_eq_true'] at hc
        dsimp only [Except.map, Option.map_some, LogicalLine.markedBy]
        rw [hbreaks, LogicalLine.breaks]
        cases hm : m s.reader.path l.line with
        | false =>
          simp only [Bool.false_eq_true, if_false, Bool.false_and]
          split
          · exact .inr ⟨_, _, _, _, rfl, rfl, .nothing notes, halike⟩
          · exact readText_parallel halike haway (isOpen_of_session hsession) l.text notes
        | true =>
          have hb : (p.setReader reader).breakable notes l.text = true := by simpa [hm] using hc
          have hne : LineReader.mark l.text ≠ [] := by
            unfold LineReader.mark
            by_cases hstart : Text.startsWith breakMark l.text = true
            · rw [if_pos hstart]
              intro he
              exact absurd (he ▸ hstart) (by decide)
            · rw [if_neg hstart]
              simp [breakMark]
          simp only [if_true, if_neg hne, Bool.true_and]
          have hread := readText_marked halike haway (isOpen_of_session hsession) hD hb
          rwa [hsession] at hread

def Turn.markedIf (b : Bool) : Turn → Turn
  | .command t => .command (Keyword.markedIf b t)
  | .more n => .more n

structure Parted (D : Nat → Prop) (p : Processor) : Prop where
  script : Away D p
  included : ∀ i, p.inclusion = some i → ∀ id, i.reader.file? = some id → ¬ D id
  log : ∀ r, p.record? = some r → D r.file

def Turn.Shows (D : Nat → Prop) (b : Bool) (x x' : Turn) (p : Processor) : Prop :=
  x = x'.markedIf b ∧ ∀ t, x' = .command t → (b = true → t ≠ []) ∧ Away D p

theorem turn_parallel (h : Alike m D p q) (hp : Parted D p) (hc : q.clear m notes = true) :
    Parallel m D (Turn.Shows D (q.breaks m)) (turn notes p) (turn notes q) := by
  have hresult {o o' : Option Text} {p' q' : Processor} (ho : o = o'.map (markedIf (q.breaks m)) ∧
      (q.breaks m = true → o' ≠ some []) ∧ Away D p') (hpq : Alike m D p' q') :
      Parallel m D (Turn.Shows D (q.breaks m)) ((pure (Turn.ofCommand? o) : Action Turn) p')
        ((pure (Turn.ofCommand? o') : Action Turn) q') := by
    obtain ⟨rfl, hne, ha⟩ := ho
    refine .inr ⟨_, _, p', q', rfl, rfl, ?_, hpq⟩
    cases o' with
    | none => exact ⟨rfl, by simp [Turn.ofCommand?]⟩
    | some t =>
      refine ⟨rfl, ?_⟩
      rintro u ⟨⟩
      exact ⟨fun hb => by simpa using hne hb, ha⟩
  unfold turn
  rw [bind_ok (get_run p), bind_ok (get_run q), h.inclusion]
  cases hi : p.inclusion with
  | some i =>
    have hclear : i.clear q.files m = true := by
      simpa only [Processor.clear, h.inclusion, hi] using hc
    have hbreaks : q.breaks m = i.breaks q.files m := by
      simp only [Processor.breaks, h.inclusion, hi]
    refine (readIncluded_parallel h (hp.included i hi) hclear).bind ?_
    rw [← hbreaks]
    rintro o o' p' q' ⟨rfl, hbare, hsession, hrecord⟩ hpq
    cases o' with
    | none => exact .inr ⟨_, _, p', q', rfl, rfl, ⟨rfl, by simp⟩, hpq⟩
    | some t =>
      dsimp only [Option.map_some]
      rw [bind_ok (get_run p'), bind_ok (get_run q'), hpq.expandThis, expandThis_markedIf]
      refine (command?_parallel hpq (hp.script.of_session hsession)
        (fun hb => expandThis_bare (hbare t rfl hb).1 (hbare t rfl hb).2)
        fun _ => hrecord ▸ hp.log).bind ?_
      rintro o o' p' q' ho hpq
      exact hresult ho hpq
  | none =>
    refine (readLine_parallel h hp.script hi hp.log hc).bind ?_
    rintro r r' p' q' hr hpq
    cases hr with
    | nothing n => exact .inr ⟨_, _, p', q', rfl, rfl, ⟨rfl, by simp⟩, hpq⟩
    | stop ha hb =>
      rw [hb]
      exact .inr ⟨_, _, p', q', rfl, rfl, ⟨rfl, fun _ _ => ⟨by simp, ha⟩⟩, hpq⟩
    | line t ha hb =>
      dsimp only
      rw [bind_ok (get_run p'), bind_ok (get_run q'), hpq.expandThis, expandThis_markedIf]
      refine (scriptCommand?_parallel hpq ha hb).bind ?_
      rintro o o' p' q' ho hpq
      exact hresult ho hpq

theorem closeAtEnd_parallel (h : Alike m D p q) (ha : Away D p) :
    Parallel m D (fun _ _ _ => True) (closeAtEnd p) (closeAtEnd q) :=
  (closeAtEnd_abreast (alike_simulation m D) (fun _ => trivial) ⟨h, ha⟩).lockstep.parallel
    fun _ _ _ hpq => ⟨trivial, hpq⟩

end Processor

end ScriptFeed
