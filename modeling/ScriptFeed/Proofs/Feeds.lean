import ScriptFeed.Proofs.Coherence

/-!
The feed as a sequence of turns. `Feeds notes p notes' q` says that turns without a command lead
from `p` to `q`; a call that returns does so after the first turn that is different.
-/

namespace ScriptFeed.Processor

open Package Comment

variable {N : Allowed} {W : Permit} {p q : Processor} {notes notes' : Notes}

/-- Reading a line from `p` comes to the end of an install section at `q`. -/
def EndsSection (notes : Notes) (p q : Processor) : Prop :=
  ∃ s l r t notes', p.session = some s ∧ s.reader.nextLogical p.files p.marked = .ok (some l, r) ∧
    l.text ≠ [] ∧ enterLine l.text notes (p.setReader r) = .ok (.text t notes') q ∧
    Text.startsWith installClose t = true

structure Permit.Covers (W : Permit) (notes : Notes) (p : Processor) : Prop where
  start : W.start
  install : p.installMode = true → W.install
  layout : ∀ l, (p.installMode = false → p.directive? = some l) → W.layout l.file
  succeed : ∀ q, EndsSection notes p q → W.succeed
  queue : ∀ name : Text, name.length ≤ p.reach (p.unread + 3) → W.queue name

theorem Allowed.whole_covers (hB : N.start) (hS : ∀ q, EndsSection notes p q → N.succeed)
    (hN : ∀ name : Text, name.length ≤ p.reach (p.unread + 3) → N.queue name) :
    N.whole.Covers notes p :=
  ⟨hB, fun _ => trivial, fun _ _ => trivial, hS, hN⟩

theorem Permit.all_covers (notes : Notes) (p : Processor) : Permit.all.Covers notes p :=
  ⟨trivial, fun _ => trivial, fun _ _ => trivial, fun _ _ => trivial, fun _ _ => trivial⟩

theorem readLine_some {s : Session} {l : LogicalLine} {x : LineReader} (hi : p.inclusion = none)
    (hs : p.session = some s) (hl : s.reader.nextLogical p.files p.marked = .ok (some l, x))
    (hW : W.Covers notes p) :
    Ends (readLine notes) p (fun y q => Changes W (p.setReader x) q ∧
      (∀ u, y = .line u → q.isOpen = true)) (fun _ q => Changes W (p.setReader x) q) := by
  obtain ⟨hr, -, hlen⟩ := LineReader.nextLogical_some hl
  have ho : (p.setReader x).isOpen = true := isOpen_of_session (session_setReader hs x)
  have hreach := reach_setReader hs hr hlen
  have hleft : (p.setReader x).leftOver l.text = p.leftOver l.text := by
    rw [leftOver, session_setReader hs, leftOver, hs]
    rfl
  have hdirective (u : Text) (layout : Layout) (hu : p.leftOver l.text = some u)
      (hstarts : Text.startsWith "layout ".toList u = true)
      (hparse : Layout.parse? u = some layout) : p.directive? = some layout := by
    rw [directive?, hi, hs]
    dsimp only
    rw [hl]
    dsimp only
    rw [hu, Option.bind_some, if_pos hstarts, hparse]
  unfold Ends
  rw [readLine_run hs, hl]
  dsimp only
  by_cases hempty : l.text = []
  · rw [if_pos hempty]
    exact ⟨.refl, by simp⟩
  · rw [if_neg hempty]
    have htext := readText_changing (W := W) notes ho hW.start hW.install
      (fun u layout hu hstarts hparse => hW.layout layout fun hoff =>
        hdirective u layout (hleft.symm.trans (hu hoff)) hstarts hparse)
      (fun u notes' q hq hu => hW.succeed q ⟨s, l, x, u, notes', hs, hl, hempty, hq, hu⟩)
      fun name h => hW.queue name (h.trans hreach)
    exact Ends.mono htext (fun _ _ h => ⟨h.1, h.2.1⟩) (fun _ _ h => h)

theorem readLine_closed (hs : p.session = none) : readLine notes p = .ok .stop p := by
  unfold readLine
  simp only [bind_run, get_run, hs, pure_run]

theorem readLine_changing (hi : p.inclusion = none) (hW : W.Covers notes p) :
    Changing W (readLine notes) p
      (fun x q => ∀ u, x = .line u → q.isOpen = true ∧ p.isOpen = true) := by
  rw [Changing, Stepping, Ends]
  cases hs : p.session with
  | none =>
    rw [readLine_closed hs]
    exact ⟨.refl, by simp⟩
  | some s =>
    cases hl : s.reader.nextLogical p.files p.marked with
    | error e =>
      simp only [readLine_run hs, hl]
      exact .refl
    | ok y =>
      obtain ⟨logical, x⟩ := y
      have hm : Changes W p (p.setReader x) :=
        changes_setReader hs (LineReader.nextLogical_reads hl)
      cases logical with
      | none =>
        rw [readLine_run hs, hl]
        exact ⟨hm, by simp⟩
      | some l =>
        exact Ends.mono (readLine_some hi hs hl hW)
          (fun _ _ h => ⟨hm.trans h.1, fun u hu => ⟨h.2 u hu, isOpen_of_session hs⟩⟩)
          (fun _ _ h => hm.trans h)

theorem readIncluded_changing {i : Inclusion} (hi : p.inclusion = some i) :
    Changing W (readIncluded i) p (fun line q => q.session = p.session ∧ q.files = p.files ∧
      q.installation = p.installation ∧ match line with
        | some _ => ∃ i', q.inclusion = some i' ∧ i.reader.Reads p.files i'.reader ∧
            (i'.reader.pending p.files).length < (i.reader.pending p.files).length
        | none => q.inclusion = none) := by
  refine Stepping.get (Stepping.lift ?_)
  rintro ⟨line, i'⟩ hnext
  obtain ⟨hr, hlt⟩ := Inclusion.nextWithin_reads hnext
  cases line with
  | some t =>
    exact Stepping.set (.single (.readOn p i i' hi hr))
      (.pure ⟨rfl, rfl, rfl, i', rfl, hr, hlt rfl⟩)
  | none =>
    let p₁ := p.emit (.includeExhausted i'.reader.path)
    let p₂ := if i'.inComment then p₁.emit (.includeInComment i'.reader.path) else p₁
    have hm : Changes W p p₂ ∧ p₂.session = p.session ∧ p₂.files = p.files ∧
        p₂.installation = p.installation := by
      have h₁ : Changes W p p₁ := .single (.tell p _ rfl)
      dsimp only [p₂]
      split
      · exact ⟨h₁.tail (.tell p₁ _ rfl), rfl, rfl, rfl⟩
      · exact ⟨h₁, rfl, rfl, rfl⟩
    have hclosed :=
      (hm.1.tail (.tell p₂ (.includeClosed i'.reader.path i'.scope) rfl)).tail (.leave _)
    exact Stepping.set hclosed (.pure ⟨hm.2.1, hm.2.2.1, hm.2.2.2, rfl⟩)

def Goes (Q : Turn → Processor → Prop) (E : Failure → Processor → Prop) (x : Reading)
    (q : Processor) : Prop :=
  match x with
  | .stop => Q (.command []) q
  | .nothing n => Q (.more n) q
  | .line t => Ends (scriptCommand? (q.expandThis t)) q (fun c r => Q (.ofCommand? c) r) E

theorem turn_script {Q : Turn → Processor → Prop} {E : Failure → Processor → Prop}
    (hi : p.inclusion = none) (h : Ends (readLine notes) p (Goes Q E) E) :
    Ends (turn notes) p Q E := by
  rw [turn, ends_bind, ends_get, hi, ends_bind]
  refine Ends.mono h ?_ (fun _ _ h => h)
  intro x q hx
  cases x with
  | stop => exact hx
  | nothing n => exact hx
  | line t =>
    change Ends (get >>= fun p => scriptCommand? (p.expandThis t) >>= fun c =>
      pure (Turn.ofCommand? c)) q Q E
    rw [ends_bind, ends_get, ends_bind]
    exact hx

/-- What a turn comes to: changes, and behind them the echo of the command in install mode and the
definition of a local function outside it. -/
inductive Turned (W : Permit) (p : Processor) : Turn → Processor → Prop
  | still {x : Turn} {q : Processor} (h : Changes W p q)
      (hx : ∀ t, x = .command t → t = [] ∨ q.installMode = false ∧ q.isOpen = p.isOpen) :
      Turned W p x q
  | echo {q : Processor} (t : Text) (h : Changes W p q) (hmode : q.installMode = true)
      (ho : q.isOpen = p.isOpen) : Turned W p (.command t) (q.echoLine t)
  | define {q : Processor} (functions : LocalFunctions) (name : Text) (n : Nat) (h : Changes W p q)
      (hmode : q.installMode = false) (ho : q.isOpen = p.isOpen) :
      Turned W p (.more {}) ({ q with functions }.emit (.functionDefined name n))

theorem command?_turned (hpq : Changes W p q) (ho : q.isOpen = p.isOpen) (t : Text) :
    Ends (command? t) q (fun c r => Turned W p (.ofCommand? c) r) (fun _ r => Changes W p r) := by
  apply command?_ends
  · exact fun hmode => .echo t hpq hmode ho
  · exact fun functions name n hmode => .define functions name n hpq hmode ho
  · exact fun hmode => .still hpq fun _ _ => .inr ⟨hmode, ho⟩
  · exact fun _ => hpq

theorem scriptCommand?_turned (hpq : Changes W p q) (hq : q.isOpen = true)
    (ho : q.isOpen = p.isOpen) (t : Text) :
    Ends (scriptCommand? t) q (fun c r => Turned W p (.ofCommand? c) r)
      (fun _ r => Changes W p r) := by
  apply scriptCommand?_ends
  · exact command?_turned hpq ho t
  · exact .still (hpq.tail (.tell q _ rfl)) fun _ h => .inl (Turn.command.inj h).symm
  · exact fun path scope r hr =>
      .still (hpq.tail (.enclose q path scope r hq hr)) (by simp [Turn.ofCommand?])
  · exact fun _ => hpq

theorem turn_turned (notes : Notes) (hW : p.inclusion = none → W.Covers notes p) :
    Ends (turn notes) p (Turned W p) (fun _ q => Changes W p q) := by
  cases hi : p.inclusion with
  | some i =>
    rw [turn, ends_bind, ends_get, hi, ends_bind]
    refine Ends.mono (readIncluded_changing hi) ?_ (fun _ _ h => h)
    rintro line q ⟨hq, hs, -⟩
    cases line with
    | none => exact .still hq (by simp)
    | some t =>
      have ho : q.isOpen = p.isOpen := by rw [isOpen, hs, isOpen]
      change Ends (get >>= fun r => command? (r.expandThis t) >>= fun c => pure (Turn.ofCommand? c))
        q _ _
      rw [ends_bind, ends_get, ends_bind]
      exact command?_turned hq ho _
  | none =>
    refine turn_script hi (Ends.mono (readLine_changing hi (hW hi)) ?_ (fun _ _ h => h))
    rintro x q ⟨hq, hopen⟩
    cases x with
    | stop => exact .still hq fun _ h => .inl (Turn.command.inj h).symm
    | nothing n => exact .still hq (by simp)
    | line t =>
      obtain ⟨hoq, hop⟩ := hopen t rfl
      exact scriptCommand?_turned hq hoq (hoq.trans hop.symm) _

theorem turn_moving (notes : Notes) (hI : p.inclusion.isSome = true → p.isOpen = true)
    (hB : N.start) (hS : ∀ q, p.inclusion = none → EndsSection notes p q → N.succeed)
    (hN : ∀ name : Text, name.length ≤ p.reach (p.unread + 3) → N.queue name) :
    Moving N (turn notes) p (fun x q => ∀ t, x = .command t → t = [] ∨ q.isOpen = true) := by
  cases ho : p.isOpen with
  | false =>
    have hclosed := Bool.eq_false_iff.mp ho
    have hi : p.inclusion = none := Option.not_isSome_iff_eq_none.mp fun h => hclosed (hI h)
    have hs : p.session = none := Option.not_isSome_iff_eq_none.mp hclosed
    apply turn_script hi
    rw [Ends, readLine_closed hs]
    exact ⟨.refl, fun _ h => .inl (Turn.command.inj h).symm⟩
  | true =>
    have hturned := turn_turned (W := N.whole) notes fun hi => Allowed.whole_covers hB (hS · hi) hN
    refine Ends.mono hturned ?_ (fun _ _ h => h.moves)
    intro x q hx
    cases hx with
    | still h hx => exact ⟨h.moves, fun t ht => (hx t ht).imp_right fun h => h.2.trans ho⟩
    | echo t h hmode hoq =>
      obtain ⟨hm, hf⟩ := echoLine_moves (N := N) (hoq.trans ho) t
      exact ⟨h.moves.trans hm, fun _ _ => .inr (hf.isOpen.trans (hoq.trans ho))⟩
    | define functions name n h hmode hoq =>
      exact ⟨(h.moves.tail (.define _ functions (hoq.trans ho))).tail (.tell _ _ rfl), by simp⟩

theorem closeAtEnd_changing : Changing W closeAtEnd p (fun _ _ => True) := by
  refine Stepping.get ?_
  split
  · exact .pure trivial
  · cases hs : p.session with
    | none => exact .pure trivial
    | some s =>
      have hreads := LineReader.atEnd_reads p.files s.reader
      dsimp only
      generalize s.reader.atEnd p.files = x at hreads ⊢
      obtain ⟨ended, reader⟩ := x
      refine Stepping.set (changes_setReader hs hreads) ?_
      split
      · exact Stepping.modify (.single (.serve _ true)) close_changing
      · exact .pure trivial

theorem closeAtEnd_moving : Moving N closeAtEnd p (fun _ _ => True) := closeAtEnd_changing.moving

theorem abort_changes (e : Failure) (p : Processor) : Changes W p (p.abort e) :=
  .tail (.single (.tell p _ rfl)) (.down _)

theorem Feeds.head {notes'' : Notes} {r : Processor} (ht : turn notes p = .ok (.more notes') q)
    (h : Feeds notes' q notes'' r) : Feeds notes p notes'' r := by
  induction h with
  | refl => exact .tail (.refl notes p) ht
  | tail _ ht' ih => exact .tail (ih ht) ht'

def stateOf {α : Type} : Outcome α → Processor
  | .ok _ q => q
  | .error _ q => q

theorem Ends.state {α : Type} {x : Action α} {P : Processor → Prop}
    (h : Ends x p (fun _ q => P q) (fun _ q => P q)) : P (stateOf (x p)) := by
  unfold Ends at h
  cases hx : x p <;> simpa only [hx, stateOf] using h

theorem Stepping.state {α : Type} {R : Processor → Processor → Prop} {x : Action α}
    {Q : α → Processor → Prop} (h : Stepping R x p Q) :
    Relation.ReflTransGen R p (stateOf (x p)) :=
  Ends.state (Ends.mono h (fun _ _ h => h.1) (fun _ _ h => h))

theorem stateOf_lastTurn (r : Outcome Text) : stateOf (lastTurn r) = stateOf r := by
  cases r <;> rfl

theorem lastTurn_ne_more (o : Outcome Text) (n : Notes) (q : Processor) :
    lastTurn o ≠ .ok (.more n) q := by
  cases o <;> simp [lastTurn]

theorem lastTurn_injective {o o' : Outcome Text} (h : lastTurn o = lastTurn o') : o = o' := by
  cases o with
  | ok t q =>
    cases o' with
    | ok t' q' =>
      obtain ⟨ht, rfl⟩ := EStateM.Result.ok.inj h
      rw [Turn.command.inj ht]
    | error e q' => cases h
  | error e q =>
    cases o' with
    | ok t q' => cases h
    | error e' q' =>
      obtain ⟨rfl, rfl⟩ := EStateM.Result.error.inj h
      rfl

namespace Place

variable {start : Notes} {first : Processor} {a b : Place start first}

def Halts (a : Place start first) (r : Outcome Text) : Prop :=
  Acc Follows a ∧ a.run.map (·.1) = some r

theorem run_eq (h : Acc Follows a) : a.run = a.step fun b _ => b.run :=
  WellFounded.partialExtrinsicFix_eq_apply_of_acc h

theorem halts_of_last {r : Outcome Text} (h : turn a.notes a.state = lastTurn r) : a.Halts r := by
  have hacc : Acc Follows a := by
    refine ⟨_, fun b hb => ?_⟩
    exact absurd (h.symm.trans hb) (lastTurn_ne_more r _ _)
  refine ⟨hacc, ?_⟩
  rw [run_eq hacc, step]
  split
  next t q ht => exact congrArg some (lastTurn_injective (o := .ok t q) (ht.symm.trans h))
  next n q ht => exact absurd (h.symm.trans ht) (lastTurn_ne_more r n q)
  next e q ht => exact congrArg some (lastTurn_injective (o := .error e q) (ht.symm.trans h))

theorem Follows.halts {r : Outcome Text} (hb : b.Follows a) (h : b.Halts r) : a.Halts r := by
  -- a turn has one outcome, so that no other place follows
  have hacc : Acc Follows a := by
    refine ⟨_, fun c hc => ?_⟩
    have heq := hc.symm.trans hb
    simp only [EStateM.Result.ok.injEq, Turn.more.injEq] at heq
    obtain ⟨notes, state, hreached⟩ := b
    obtain ⟨rfl, rfl⟩ := heq
    exact h.1
  refine ⟨hacc, ?_⟩
  rw [run_eq hacc, step]
  split
  next t q ht => cases ht.symm.trans hb
  next n q ht =>
    obtain ⟨hn, rfl⟩ := EStateM.Result.ok.inj (ht.symm.trans hb)
    obtain rfl := Turn.more.inj hn
    exact h.2
  next e q ht => cases ht.symm.trans hb

end Place

theorem Feeds.halts {start : Notes} {first : Processor} {r : Outcome Text}
    (h : Feeds start first notes p) (hp : Place.Halts ⟨notes, p, h⟩ r) :
    Place.Halts ⟨start, first, .refl start first⟩ r := by
  induction h with
  | refl => exact hp
  | tail h ht ih =>
    have hfollows : Place.Follows ⟨_, _, .tail h ht⟩ ⟨_, _, h⟩ := ht
    exact ih (hfollows.halts hp)

theorem feed?_eq_some {r : Outcome Text} : feed? notes p = some r ↔ Fed notes p r := by
  constructor
  · intro h
    obtain ⟨x, -, rfl⟩ := Option.map_eq_some_iff.mp h
    exact x.2
  · rintro ⟨notes', q, hf, ht⟩
    exact (hf.halts (Place.halts_of_last ht)).2

theorem feed?_last {r : Outcome Text} (h : turn notes p = lastTurn r) : feed? notes p = some r :=
  feed?_eq_some.mpr ⟨notes, p, .refl notes p, h⟩

theorem feed?_more {r : Outcome Text} (h : turn notes p = .ok (.more notes') q)
    (hr : feed? notes' q = some r) : feed? notes p = some r := by
  obtain ⟨notes'', q', hf, ht⟩ := feed?_eq_some.mp hr
  exact feed?_eq_some.mpr ⟨notes'', q', .head h hf, ht⟩

def callWithin : (fuel : Nat) → Notes → Processor → Option (Outcome Text)
  | 0, _, _ => none
  | fuel + 1, notes, p =>
    match turn notes p with
    | .ok (.command t) q => some (.ok t q)
    | .ok (.more n) q => callWithin fuel n q
    | .error e q => some (.error e q)

theorem feed?_of_callWithin {fuel : Nat} {o : Outcome Text} (h : callWithin fuel notes p = some o) :
    feed? notes p = some o := by
  induction fuel generalizing notes p with
  | zero => simp [callWithin] at h
  | succ fuel ih =>
    unfold callWithin at h
    split at h
    next ht =>
      obtain rfl := Option.some.inj h
      exact feed?_last ht
    next ht => exact feed?_more ht (ih h)
    next ht =>
      obtain rfl := Option.some.inj h
      exact feed?_last ht

theorem next?_of_feed {o : Outcome Text} (ho : p.isOpen = true) (hf : feed? {} p = some o) :
    p.next? = some (settle o) := by
  rw [next?, if_pos ho, hf]
  rfl

def given? : Outcome Text → Option Text
  | .ok t _ => some t
  | .error _ _ => none

def failure? : Outcome Text → Option Failure
  | .ok _ _ => none
  | .error e _ => some e

def final (o : Option (Outcome Text)) (p : Processor) : Processor := (o.map stateOf).getD p

theorem given?_run {o : Option (Outcome Text)} {t : Text} (h : o.bind given? = some t)
    (p : Processor) : o = some (.ok t (final o p)) := by
  obtain ⟨x, rfl, hx⟩ := Option.bind_eq_some_iff.mp h
  cases x with
  | ok u q =>
    obtain rfl := Option.some.inj hx
    rfl
  | error e q => simp [given?] at hx

def called (p : Processor) (fuel : Nat) : Option (Outcome Text) := (callWithin fuel {} p).map settle

theorem next?_called {fuel : Nat} (ho : p.isOpen = true) (h : (p.called fuel).isSome = true) :
    p.next? = p.called fuel := by
  obtain ⟨o, ho'⟩ := Option.isSome_iff_exists.mp h
  obtain ⟨o', hcall, hsettle⟩ := Option.map_eq_some_iff.mp ho'
  rw [ho', next?_of_feed ho (feed?_of_callWithin hcall), hsettle]

theorem next?_given {t : Text} (fuel : Nat) (ho : p.isOpen = true)
    (h : (p.called fuel).bind given? = some t) :
    p.next? = some (.ok t (final (p.called fuel) p)) := by
  have hsome := given?_run h p
  rw [next?_called ho (by rw [hsome]; rfl)]
  exact hsome

theorem next?_failed {e : Failure} (fuel : Nat) (ho : p.isOpen = true)
    (h : (p.called fuel).bind failure? = some e) :
    ∃ q, p.next? = some (.error e q) := by
  obtain ⟨o, hcalled, hfail⟩ := Option.bind_eq_some_iff.mp h
  rw [next?_called ho (by rw [hcalled]; rfl), hcalled]
  cases o with
  | ok t q => simp [failure?] at hfail
  | error e' q =>
    obtain rfl := Option.some.inj hfail
    exact ⟨q, rfl⟩

theorem turn_moves (hc : Coherent p) (notes : Notes) : Moves .all p (stateOf (turn notes p)) :=
  (turn_moving (N := .all) notes hc.inclusion trivial (fun _ _ _ => trivial)
    fun _ _ => trivial).state

theorem Feeds.moves (h : Feeds notes p notes' q) (hc : Coherent p) : Moves .all p q := by
  induction h with
  | refl => exact .refl
  | @tail notes' _ _ _ _ _ ht ih =>
    have hm := turn_moves (Moves.coherent (ih hc) hc) notes'
    rw [ht] at hm
    exact (ih hc).trans hm

theorem settle_changes (o : Outcome Text) : Changes W (stateOf o) (stateOf (settle o)) := by
  cases o with
  | error e q => exact abort_changes e q
  | ok t q =>
    have h := closeAtEnd_changing (W := W) (p := q)
    unfold settle
    dsimp only
    cases hc : closeAtEnd q with
    | ok x r => exact (Ends.ok h hc).1
    | error e r => exact (Ends.error h hc).trans (abort_changes e r)

theorem settle_moves (o : Outcome Text) : Moves N (stateOf o) (stateOf (settle o)) :=
  (settle_changes o).moves

theorem next?_moves {r : Outcome Text} (hc : Coherent p) (h : p.next? = some r) :
    Moves .all p (stateOf r) := by
  unfold next? at h
  split at h
  · obtain ⟨r', hr', rfl⟩ := Option.map_eq_some_iff.mp h
    obtain ⟨notes', q, hf, ht⟩ := feed?_eq_some.mp hr'
    have hm := (hf.moves hc).trans (turn_moves (Moves.coherent (hf.moves hc) hc) notes')
    rw [ht, stateOf_lastTurn] at hm
    exact hm.trans (settle_moves r')
  · simp only [Option.some.injEq] at h
    subst h
    exact .refl

end ScriptFeed.Processor
