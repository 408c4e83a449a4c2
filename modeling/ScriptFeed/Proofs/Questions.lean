import ScriptFeed.Proofs.Calls
import ScriptFeed.Proofs.Trail

namespace ScriptFeed

def Event.declined? : Event → Option Text
  | .licenseDeclined package => some package
  | _ => none

namespace Processor

open Package Comment

variable {W : Permit} {p q r : Processor} {notes notes' : Notes} {c : Bool}

def declined (p : Processor) : List Text := p.events.filterMap Event.declined?

theorem emit_declined (p : Processor) (e : Event) :
    (p.emit e).declined = p.declined ++ e.declined?.toList := by
  rw [declined, emit, List.filterMap_append, declined]
  cases h : e.declined? <;> simp [h]

/-- What becomes of a license depends on this much of a processor, and shows in it. -/
def standing (p : Processor) : Settings × Option Prompt × Nat × List Text :=
  (p.settings, p.prompt, p.asked, p.declined)

theorem emit_standing (p : Processor) {e : Event} (he : e.declined? = none) :
    (p.emit e).standing = p.standing := by
  have hdeclined : (p.emit e).declined = p.declined := by
    rw [emit_declined, he, Option.toList_none, List.append_nil]
  rw [standing, hdeclined]
  rfl

theorem recordIn_standing (p : Processor) (x : Record) (e : Entry) :
    (p.recordIn x e).standing = p.standing :=
  emit_standing { p with files := x.write e p.files } rfl

theorem record_standing (p : Processor) (e : Entry) : (p.record e).standing = p.standing := by
  unfold record
  split
  · exact recordIn_standing p _ e
  · rfl

theorem closeRecord_standing (p : Processor) (b : Bool) :
    (p.closeRecord b).2.standing = p.standing := by
  unfold closeRecord
  cases p.record? with
  | none => rfl
  | some x => exact (emit_standing _ rfl).trans (recordIn_standing p x (.closed b))

theorem teardown_standing (p : Processor) : p.teardown.standing = p.standing :=
  closeRecord_standing p false

theorem concludeRecord_standing (p : Processor) (b : Bool) :
    (p.concludeRecord b).standing = p.standing := by
  unfold concludeRecord
  dsimp only
  split <;> exact closeRecord_standing p b

theorem opened_standing (path : Path) (x : LineReader) (p : Processor) :
    (p.opened path x).standing = p.standing := emit_standing _ rfl

theorem queue_standing (p : Processor) (path : Path) : (p.queue path).standing = p.standing := by
  unfold queue
  dsimp only
  split
  · exact emit_standing _ rfl
  · rfl

theorem admitHeader_standing (h : Header) (p : Processor) :
    (p.admitHeader h).standing = p.standing := by
  unfold admitHeader
  dsimp only
  split
  · rfl
  · split <;> exact record_standing _ _

theorem begin_standing (x : Record) (files : Files) (p : Processor) :
    (p.begin x files).standing = p.standing := by
  have hrecording : (p.recording x files).standing = p.standing :=
    (emit_standing _ rfl).trans (emit_standing { p with files } rfl)
  have hclosed := (record_standing (p.recording x files) (.closed false)).trans hrecording
  rw [begin_eq]
  exact (emit_standing _ rfl).trans hclosed

theorem echoLine_standing (line : Text) (p : Processor) :
    (p.echoLine line).standing = p.standing := by
  have hannounce : (p.announce line).standing = p.standing := by
    unfold announce
    split
    · rfl
    · dsimp only
      split <;> exact record_standing (p.setInProcedure true) _
  have hecho (q : Processor) : (q.recordEcho line).standing = q.standing := by
    unfold recordEcho
    split
    · exact record_standing q _
    · rfl
  unfold echoLine
  split
  · rfl
  · dsimp only
    split <;> exact (hecho _).trans hannounce

def Always (c : Bool) (p : Processor) : Prop :=
  ∃ f, p.prompt = some f ∧ ∀ k question, p.accepts (f k question) = c

structure Replies (c : Bool) (p q : Processor) : Prop where
  always : Always c q
  packages : ∃ l, q.asked = p.asked + l.length ∧ q.declined = p.declined ++ if c then [] else l

theorem Always.congr (h : Always c p) (hs : q.settings = p.settings) (hp : q.prompt = p.prompt) :
    Always c q := by
  obtain ⟨f, hf, hc⟩ := h
  refine ⟨f, hp.trans hf, ?_⟩
  intro k question
  rw [accepts, hs]
  exact hc k question

theorem Replies.of_standing (hc : Always c p) (h : q.standing = p.standing) : Replies c p q := by
  simp only [standing, Prod.mk.injEq] at h
  obtain ⟨hs, hp, ha, hd⟩ := h
  refine ⟨hc.congr hs hp, [], ha, ?_⟩
  rw [hd, ite_self, List.append_nil]

theorem Replies.trans (h : Replies c p q) (h' : Replies c q r) : Replies c p r := by
  obtain ⟨l, hasked, hdeclined⟩ := h.packages
  obtain ⟨l', hasked', hdeclined'⟩ := h'.packages
  refine ⟨h'.always, l ++ l', ?_, ?_⟩
  · rw [hasked', hasked, List.length_append, Nat.add_assoc]
  · rw [hdeclined', hdeclined, List.append_assoc]
    cases c <;> rfl

theorem Always.ask (hc : Always c p) (question : Text) :
    p.accepts (p.ask question).1 = c ∧ ((p.say question).ask question).2 =
      { p with output := p.output ++ [question], asked := p.asked + 1 } := by
  obtain ⟨f, hf, hanswer⟩ := hc
  have hsaid : (p.say question).prompt = some f := hf
  rw [Processor.ask, Processor.ask, hf, hsaid]
  exact ⟨hanswer _ _, rfl⟩

theorem Change.replies (hm : Change W p q) (hc : Always c p) : Replies c p q := by
  have hnone {q : Processor} (h : q.standing = p.standing) : Replies c p q := .of_standing hc h
  cases hm with
  | tell e he =>
    refine hnone (emit_standing p ?_)
    cases e with
    | licenseDeclined package => cases he
    | _ => rfl
  | enclose path scope reader ho hr => exact hnone (emit_standing _ rfl)
  | layout l b files n hl hw => exact hnone (emit_standing _ rfl)
  | document path b files hI hw => exact hnone (emit_standing _ rfl)
  | accord question hI hyes =>
    obtain ⟨haccepts, hasked⟩ := hc.ask question
    obtain rfl : c = true := haccepts.symm.trans hyes
    rw [hasked]
    exact ⟨hc.congr rfl rfl, [question], rfl, (List.append_nil _).symm⟩
  | decline question package hI hno =>
    obtain ⟨haccepts, hasked⟩ := hc.ask question
    obtain rfl : c = false := haccepts.symm.trans hno
    rw [hasked]
    exact ⟨hc.congr rfl rfl, [package], rfl, emit_declined _ _⟩
  | queue name path ho hI hn hp => exact hnone (queue_standing p path)
  | accept header ho hI hh => exact hnone (admitHeader_standing header p)
  | begin record files hN ho hI hr => exact hnone (begin_standing record files p)
  | conclude b hb => exact hnone (concludeRecord_standing p b)
  | finish b hb => exact hnone (closeRecord_standing p b)
  | advance i path chain reader ho hi ha hr => exact hnone (opened_standing path reader _)
  | opened path reader hC => exact hnone (opened_standing path reader p)
  | down => exact hnone (teardown_standing p)
  | _ => exact hnone rfl

theorem Changes.replies (hm : Changes W p q) (hc : Always c p) : Replies c p q := by
  induction hm with
  | refl => exact .of_standing hc rfl
  | tail _ hstep ih => exact ih.trans (hstep.replies ih.always)

theorem turn_replies (hc : Always c p) (notes : Notes) : Replies c p (stateOf (turn notes p)) := by
  have hturned := turn_turned (W := .all) notes fun _ => Permit.all_covers notes p
  refine Ends.state (Ends.mono hturned ?_ fun _ _ h => Changes.replies h hc)
  intro x q hx
  cases hx with
  | still h hx => exact Changes.replies h hc
  | echo t h hmode ho =>
    have hr := Changes.replies h hc
    exact hr.trans (.of_standing hr.always (echoLine_standing t _))
  | define functions name n h hmode ho =>
    have hr := Changes.replies h hc
    exact hr.trans (.of_standing hr.always (emit_standing _ rfl))

theorem Feeds.replies (h : Feeds notes p notes' q) (hc : Always c p) : Replies c p q := by
  induction h with
  | refl => exact .of_standing hc rfl
  | @tail notes₁ _ _ _ _ _ ht ih =>
    have hturn := turn_replies (ih hc).always notes₁
    rw [ht] at hturn
    exact (ih hc).trans hturn

/-- The processor between two turns of a call, or behind the call. -/
def Passes (p q : Processor) : Prop := (∃ notes, Feeds {} p notes q) ∨ q = stateOf (next p)

theorem Passes.replies (h : Passes p q) (hc : Always c p) : Replies c p q := by
  rcases h with ⟨notes, hf⟩ | rfl
  · exact hf.replies hc
  · unfold next next?
    split
    · cases ho : feed? {} p with
      | none => exact .of_standing hc rfl
      | some o =>
        obtain ⟨notes, q, hf, ht⟩ := feed?_eq_some.mp ho
        have hr := hf.replies hc
        have hturn := hr.trans (turn_replies hr.always notes)
        rw [ht, stateOf_lastTurn] at hturn
        exact hturn.trans (Changes.replies (W := .all) (settle_changes o) hturn.always)
    · exact .of_standing hc rfl

end Processor

end ScriptFeed
