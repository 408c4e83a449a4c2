import Mathlib.Data.List.DropRight
import ScriptFeed.Event
import ScriptFeed.Keyword
import ScriptFeed.Package.Header

/-!
What a run shows, read without the processor. A ledger keeps, from the moments that went by, whether
full logging is on and which commands were handed out since the last cut. Moments are faithful to it
when every echo is the one that the ledger calls for, right before its command.
-/

namespace ScriptFeed

open Package Keyword

def Package.Entry.echoed? : Entry → Option Text
  | .evaluating line => some line
  | .copying line => some line
  | _ => none

def Event.Silent (log : Path) : Event → Prop
  | .recorded path e => path = log ∧ e.echoed? = none
  | _ => True

inductive Moment where
  | told (e : Event)
  | given (t : Text)
deriving DecidableEq, Repr

namespace Moment

def isCut : Moment → Bool
  | told (.scriptOpened _) => true
  | told (.recorded _ (.opened _)) => true
  | told (.recorded _ (.closed _)) => true
  | _ => false

def event? : Moment → Option Event
  | told e => some e
  | given _ => none

def command? : Moment → Option Text
  | told _ => none
  | given t => some t

def echo? (path : Path) : Moment → Option Text
  | told (.recorded path' e) => if path' = path then e.echoed? else none
  | _ => none

def sinceCut (ms : List Moment) : List Text := (ms.rtakeWhile (!·.isCut)).filterMap command?

end Moment

def spanOpen (lines : List Text) : Bool :=
  lines.foldl (fun b t => (b || startsProcedure t) && !endsProcedure t) false

/-- The line `t` lies in a span: it begins one, or one was begun before, and no line from its
beginning on ended it. -/
def InSpan (lines : List Text) (t : Text) : Prop :=
  startsProcedure t = true ∨ ∃ before start between, lines = before ++ start :: between ∧
    startsProcedure start = true ∧ ∀ u ∈ start :: between, endsProcedure u = false

theorem spanOpen_append (lines : List Text) (t : Text) :
    spanOpen (lines ++ [t]) = ((spanOpen lines || startsProcedure t) && !endsProcedure t) := by
  rw [spanOpen, List.foldl_append]
  rfl

theorem spanOpen_iff (lines : List Text) :
    spanOpen lines = true ↔ ∃ before start between, lines = before ++ start :: between ∧
      startsProcedure start = true ∧ ∀ u ∈ start :: between, endsProcedure u = false := by
  induction lines using List.reverseRecOn with
  | nil => simp [spanOpen]
  | append_singleton lines t ih =>
    rw [spanOpen_append, Bool.and_eq_true, Bool.or_eq_true, Bool.not_eq_true', ih]
    constructor
    · rintro ⟨⟨before, start, between, rfl, hstart, hbetween⟩ | hstart, ht⟩
      · refine ⟨before, start, between ++ [t], by simp, hstart, ?_⟩
        intro u hu
        rw [← List.cons_append, List.mem_append, List.mem_singleton] at hu
        rcases hu with hu | rfl
        · exact hbetween u hu
        · exact ht
      · exact ⟨lines, t, [], rfl, hstart, by simpa using ht⟩
    · rintro ⟨before, start, between, heq, hstart, hbetween⟩
      -- the last line is the one that begins the span, or lies behind it
      rcases List.eq_nil_or_concat between with rfl | ⟨between, u, rfl⟩
      · obtain ⟨-, ht⟩ := List.append_inj' heq rfl
        obtain rfl := List.singleton_inj.mp ht
        exact ⟨.inr hstart, hbetween t List.mem_cons_self⟩
      · rw [List.concat_eq_append, ← List.cons_append, ← List.append_assoc] at heq
        obtain ⟨rfl, hu⟩ := List.append_inj' heq rfl
        obtain rfl := List.singleton_inj.mp hu
        refine ⟨.inl ⟨before, start, between, rfl, hstart, fun v hv => hbetween v ?_⟩,
          hbetween t ?_⟩
        · rw [List.concat_eq_append, ← List.cons_append]
          exact List.mem_append_left _ hv
        · simp

theorem inSpan_iff (lines : List Text) (t : Text) :
    InSpan lines t ↔ (spanOpen lines || startsProcedure t) = true := by
  rw [InSpan, ← spanOpen_iff, Bool.or_eq_true, or_comm]

structure Ledger where
  full : Bool := false
  lines : List Text := []

namespace Ledger

variable {log path : Path} {l : Ledger} {t : Text} {e : Event} {entry : Entry}
  {ms ms' : List Moment}

def step (l : Ledger) : Moment → Ledger
  | .given t => { l with lines := l.lines ++ [t] }
  | .told (.recorded _ (.info h)) => { l with full := l.full || (Header.ofText h).fullLogging }
  | m => if m.isCut then {} else l

def after (l : Ledger) (ms : List Moment) : Ledger := ms.foldl step l

theorem after_append (l : Ledger) (ms ms' : List Moment) :
    l.after (ms ++ ms') = (l.after ms).after ms' := List.foldl_append

theorem step_lines (l : Ledger) (m : Moment) :
    (l.step m).lines = if m.isCut then [] else l.lines ++ m.command?.toList := by
  unfold step
  split
  · rfl
  · exact (List.append_nil _).symm
  next hgiven _ =>
    cases m with
    | given t => exact absurd rfl (hgiven t)
    | told e =>
      split
      · rfl
      · exact (List.append_nil _).symm

theorem after_lines (ms : List Moment) : (({} : Ledger).after ms).lines = Moment.sinceCut ms := by
  induction ms using List.reverseRecOn with
  | nil => rfl
  | append_singleton ms m ih =>
    rw [after_append, after, List.foldl_cons, List.foldl_nil, step_lines, ih, Moment.sinceCut,
      Moment.sinceCut, List.rtakeWhile_concat]
    cases m.isCut with
    | true => rfl
    | false => cases hm : m.command? <;> simp [hm]

def echo (l : Ledger) (t : Text) : Entry :=
  if spanOpen l.lines || startsProcedure t then .copying t else .evaluating t

theorem echo_echoed? (l : Ledger) (t : Text) : (l.echo t).echoed? = some t := by
  unfold echo
  split <;> rfl

theorem echo_eq_copying (l : Ledger) (t : Text) : l.echo t = .copying t ↔ InSpan l.lines t := by
  rw [inSpan_iff, echo]
  by_cases h : (spanOpen l.lines || startsProcedure t) = true
  · rw [if_pos h]
    exact iff_of_true rfl h
  · rw [if_neg h]
    exact iff_of_false (by simp) h

theorem step_echo (l : Ledger) (path : Path) (t : Text) :
    l.step (.told (.recorded path (l.echo t))) = l := by
  unfold echo
  split <;> rfl

theorem echo_isCut (l : Ledger) (path : Path) (t : Text) :
    (Moment.told (.recorded path (l.echo t))).isCut = false := by
  unfold echo
  split <;> rfl

inductive Faithful (log : Path) : Ledger → List Moment → Prop
  | nil (l : Ledger) : Faithful log l []
  | tell {l : Ledger} {e : Event} {ms : List Moment} (he : e.Silent log)
      (h : Faithful log (l.step (.told e)) ms) : Faithful log l (.told e :: ms)
  | echo {l : Ledger} {t : Text} {ms : List Moment} (hl : l.full = true)
      (h : Faithful log (l.step (.given t)) ms) :
      Faithful log l (.told (.recorded log (l.echo t)) :: .given t :: ms)
  | give {l : Ledger} {t : Text} {ms : List Moment} (ht : t = [] ∨ l.full = false)
      (h : Faithful log (l.step (.given t)) ms) : Faithful log l (.given t :: ms)

theorem Faithful.append (h : Faithful log l ms) (h' : Faithful log (l.after ms) ms') :
    Faithful log l (ms ++ ms') := by
  induction h with
  | nil => exact h'
  | tell he _ ih => exact .tell he (ih h')
  | @echo l t ms hl _ ih =>
    refine .echo hl (ih ?_)
    rwa [after, List.foldl_cons, List.foldl_cons, step_echo] at h'
  | give ht _ ih => exact .give ht (ih h')

theorem Faithful.split (h : Faithful log l (ms ++ .told e :: ms')) :
    Faithful log (l.after ms) (.told e :: ms') := by
  generalize hall : ms ++ .told e :: ms' = all at h
  induction h generalizing ms with
  | nil => simp at hall
  | tell he h ih =>
    cases ms with
    | nil =>
      rw [List.nil_append] at hall
      rw [hall]
      exact .tell he h
    | cons m ms =>
      obtain ⟨hm, hrest⟩ := List.cons.inj hall
      rw [hm]
      exact ih hrest
  | @echo l t rest hl h ih =>
    rcases ms with _ | ⟨m, _ | ⟨m', ms⟩⟩
    · rw [List.nil_append] at hall
      rw [hall]
      exact .echo hl h
    · simp at hall
    · obtain ⟨hm, htail⟩ := List.cons.inj hall
      obtain ⟨hm', hrest⟩ := List.cons.inj htail
      rw [hm, hm', after, List.foldl_cons, List.foldl_cons, step_echo]
      exact ih hrest
  | give ht h ih =>
    cases ms with
    | nil => simp at hall
    | cons m ms =>
      obtain ⟨hm, hrest⟩ := List.cons.inj hall
      rw [hm]
      exact ih hrest

theorem Faithful.echoed (h : Faithful log l (.told (.recorded path entry) :: ms))
    (ht : entry.echoed? = some t) :
    (∃ rest, ms = .given t :: rest) ∧ (entry = .copying t ↔ InSpan l.lines t) := by
  cases h with
  | tell he _ => simp [he.2] at ht
  | echo hl _ =>
    rw [echo_echoed?] at ht
    obtain rfl := Option.some.inj ht
    exact ⟨⟨_, rfl⟩, echo_eq_copying l _⟩

theorem Faithful.recorded (h : Faithful log l (.told (.recorded path entry) :: ms))
    (he : entry.echoed? = none) :
    path = log ∧ Faithful log (l.step (.told (.recorded path entry))) ms := by
  cases h with
  | tell hsilent h => exact ⟨hsilent.1, h⟩
  | echo _ _ => simp [echo_echoed?] at he

theorem step_full {m : Moment} (hl : l.full = true) (hm : m.isCut = false) :
    (l.step m).full = true := by
  unfold step
  split
  · exact hl
  · simp [hl]
  · rw [if_neg (by simp [hm])]
    exact hl

theorem Faithful.echoes {rest : List Moment} (h : Faithful log l (ms ++ rest)) (hl : l.full = true)
    (hms : ∀ m ∈ ms, m.isCut = false) (hrest : ∀ m ∈ rest.head?, m.isCut = true) :
    (ms.filterMap (Moment.echo? log)).filter (· ≠ []) =
      (ms.filterMap Moment.command?).filter (· ≠ []) := by
  have hhead {m : Moment} {all : List Moment} (h : rest = m :: all) : m.isCut = true :=
    hrest m (by rw [h]; rfl)
  generalize hall : ms ++ rest = all at h
  induction h generalizing ms with
  | nil =>
    obtain ⟨rfl, -⟩ := List.append_eq_nil_iff.mp hall
    rfl
  | @tell l e all he h ih =>
    cases ms with
    | nil => rfl
    | cons m ms =>
      obtain ⟨rfl, htail⟩ := List.cons.inj hall
      have hnone : Moment.echo? log (.told e) = none := by
        cases e with
        | recorded path e => simp [Moment.echo?, he.2]
        | _ => rfl
      have hfull := step_full hl (hms _ List.mem_cons_self)
      rw [List.filterMap_cons_none hnone]
      exact ih hfull (fun m hm => hms m (List.mem_cons_of_mem _ hm)) htail
  | @echo l t all _ h ih =>
    rcases ms with _ | ⟨m, _ | ⟨m', ms⟩⟩
    · exact absurd (hhead hall) (by simp [echo_isCut])
    · obtain ⟨-, htail⟩ := List.cons.inj hall
      exact absurd (hhead htail) (by simp [Moment.isCut])
    · obtain ⟨rfl, hbehind⟩ := List.cons.inj hall
      obtain ⟨rfl, htail⟩ := List.cons.inj hbehind
      have hsome : Moment.echo? log (.told (.recorded log (l.echo t))) = some t := by
        simp [Moment.echo?, echo_echoed?]
      have hsame := ih hl (fun m hm => hms m (by simp [hm])) htail
      have hgiven : Moment.command? (.given t) = some t := rfl
      rw [List.filterMap_cons_some hsome, List.filterMap_cons_none rfl,
        List.filterMap_cons_none rfl,
        List.filterMap_cons_some hgiven, List.filter_cons, List.filter_cons, hsame]
  | @give l t all ht h ih =>
    cases ms with
    | nil => exact absurd (hhead hall) (by simp [Moment.isCut])
    | cons m ms =>
      obtain ⟨rfl, htail⟩ := List.cons.inj hall
      obtain rfl : t = [] := ht.resolve_right (by simp [hl])
      have hsame := ih hl (fun m hm => hms m (List.mem_cons_of_mem _ hm)) htail
      rw [List.filterMap_cons_none rfl, hsame]
      rfl

end Ledger

end ScriptFeed
