import ScriptFeed.Proofs.Skipping

namespace ScriptFeed

namespace Inclusion

variable {fs : Files} {marked : Marked} {i j : Inclusion} {t : Text}

inductive Exhausts (fs : Files) (marked : Marked) : Inclusion → List Text → Inclusion → Prop
  | done {i j : Inclusion} (h : i.next fs marked = .ok (none, j)) : Exhausts fs marked i [] j
  | line {i j k : Inclusion} {t : Text} {ts : List Text} (h : i.next fs marked = .ok (some t, j))
      (hs : Exhausts fs marked j ts k) : Exhausts fs marked i (t :: ts) k

def Returns (fs : Files) (marked : Marked) (i : Inclusion) (ts : List Text) : Prop :=
  ∃ j, Exhausts fs marked i ts j

def returned? (fs : Files) (marked : Marked) : (fuel : Nat) → Inclusion → Option (List Text)
  | 0, _ => none
  | fuel + 1, i =>
    match i.next fs marked with
    | .error _ => none
    | .ok (none, _) => some []
    | .ok (some t, i) => (returned? fs marked fuel i).map (t :: ·)

theorem returns_of_returned? (fuel : Nat) {lines : List Text}
    (h : returned? fs marked fuel i = some lines) : Returns fs marked i lines := by
  induction fuel generalizing i lines with
  | zero => simp [returned?] at h
  | succ fuel ih =>
    unfold returned? at h
    split at h
    next e hn => cases h
    next j hn =>
      obtain rfl := Option.some.inj h
      exact ⟨j, .done hn⟩
    next t j hn =>
      obtain ⟨ts, hts, rfl⟩ := Option.map_eq_some_iff.mp h
      obtain ⟨k, hk⟩ := ih hts
      exact ⟨k, .line hn hk⟩

theorem classify_accepts {scope : Scope} {b b' : Bool} {u : Text}
    (h : classify scope b u = (.line t, b')) : scope.accepts (Keyword.leading t) = true := by
  have haccepted {v : Text} (h : accepted scope v = (.line t, b')) :
      scope.accepts (Keyword.leading t) = true := by
    obtain ⟨rfl, -⟩ := accepted_line h
    rw [accepted_eq, Prod.mk.injEq] at h
    by_cases ha : scope.accepts (Keyword.leading (Text.trim (uncommented v))) = true
    · exact ha
    · simp [ha] at h
  unfold classify at h
  split at h
  · simp at h
  · dsimp only at h
    split at h
    · simp at h
    · split at h
      · simp at h
      · exact haccepted h

theorem nextWithin_accepts {fuel : Nat} (h : nextWithin fs marked fuel i = .ok (some t, j)) :
    i.scope.accepts (Keyword.leading t) = true := by
  induction fuel generalizing i with
  | zero => simp [nextWithin] at h
  | succ fuel ih =>
    unfold nextWithin at h
    split at h
    · simp at h
    · simp at h
    · split at h
      · have hrest := ih h
        exact hrest
      next u inComment hx =>
        obtain rfl : u = t := by simpa using (Prod.mk.inj (Except.ok.inj h)).1
        exact classify_accepts hx
      · split at h
        · simp at h
        · have hrest := ih h
          exact hrest

theorem next_accepts (h : i.next fs marked = .ok (some t, j)) :
    i.scope.accepts (Keyword.leading t) = true := nextWithin_accepts h

end Inclusion

namespace Scope

open Keyword

variable {scope : Scope} {t : Text}

theorem accepts_head {c : Char} (hmark : '|' ≠ c) (hblank : Text.isBlank c = false)
    (hname : Text.isNameChar c = false) (h : scope.accepts (leading t) = true) (u : Text) :
    t ≠ c :: u := by
  -- the keyword would be empty, and no scope accepts that
  rintro rfl
  have hunmarked : unmarked (c :: u) = c :: u := by
    rw [unmarked, breakMark, Text.after?_cons_ne hmark]
    exact Text.trimStart_cons hblank u
  have hleading : leading (c :: u) = [] := by
    rw [leading, hunmarked]
    simp [hname]
  rw [hleading, Inclusion.accepts_nil] at h
  exact absurd h (by simp)

theorem accepts_word {word : Text} (hword : ∀ u, leading (word ++ ' ' :: u) = word)
    (hnot : ∀ scope : Scope, scope.accepts word = false) (h : scope.accepts (leading t) = true) :
    Text.startsWith (word ++ [' ']) t = false := by
  by_contra hstart
  obtain ⟨u, rfl⟩ := Text.startsWith_iff.mp (by simpa using hstart)
  rw [List.append_assoc, List.singleton_append, hword, hnot] at h
  exact absurd h (by simp)

end Scope

structure Text.Plain (t : Text) : Prop where
  lineMark : Text.contains Comment.lineMark t = false
  blockOpen : Text.contains Comment.blockOpen t = false
  continuation : Text.endsWith LineReader.continuation t = false

instance (t : Text) : Decidable t.Plain :=
  decidable_of_iff (Text.contains Comment.lineMark t = false ∧
      Text.contains Comment.blockOpen t = false ∧ Text.endsWith LineReader.continuation t = false)
    ⟨fun h => ⟨h.1, h.2.1, h.2.2⟩, fun h => ⟨h.lineMark, h.blockOpen, h.continuation⟩⟩

namespace Processor

open Package Comment

variable {p q u v : Processor} {i j : Inclusion} {r rM : LineReader} {t : Text} {notes : Notes}

theorem readText_plain (hc : p.session.any (·.inComment) = false) (ht : t.Plain)
    (htrim : Text.Trimmed t) (hne : t ≠ []) (hd : p.isDirective t = false)
    (hproc : Text.startsWith "procedure ".toList t = false) (notes : Notes) :
    readText t notes p = .ok (.line t) p := by
  have hdrop : p.dropLineComment t notes = (some t, notes) := if_neg (by simp [ht.lineMark])
  have hclose : Text.startsWith installClose t = false := by
    simp only [isDirective, Bool.or_eq_false_iff] at hd
    exact hd.1.1.2
  have hblock : p.dropBlockComments t notes = (t, notes, p) := if_neg (by simp [ht.blockOpen])
  have hfinish : finishLine t notes = .line t := by
    have htrim' : Text.trim t = t := htrim
    rw [finishLine_eq (by rwa [htrim']), htrim', hproc]
    rfl
  rw [readText_text (enterLine_command hc hdrop hd), leaveLine, leaveSection_else hclose]
  dsimp only
  rw [hblock, hfinish]

def handed : Outcome (Option Text) → Outcome Turn
  | .ok o q => .ok (.ofCommand? o) q
  | .error e q => .error e q

theorem handed_run (x : Action (Option Text)) (p : Processor) :
    (x >>= fun o => pure (Turn.ofCommand? o)) p = handed (x p) := by
  rw [bind_run]
  cases x p <;> rfl

theorem turn_handed (hi : p.inclusion = none) (h : readLine notes p = .ok (.line t) q) :
    turn notes p = handed (scriptCommand? (q.expandThis t) q) := by
  rw [turn, bind_ok (get_run p), hi]
  dsimp only
  rw [bind_ok h]
  dsimp only
  rw [bind_ok (get_run q), handed_run]

theorem turn_passed (hi : p.inclusion = some i)
    (h : i.next p.files p.marked = .ok (some t, j)) (notes : Notes) :
    turn notes p = handed (command? (p.expandThis t) { p with inclusion := some j }) := by
  have hread : readIncluded i p = .ok (some t) { p with inclusion := some j } := by
    rw [readIncluded, bind_ok (get_run p), h]
    rfl
  rw [turn, bind_ok (get_run p), hi]
  dsimp only
  rw [bind_ok hread]
  dsimp only
  rw [bind_ok (get_run _), handed_run]
  rfl

theorem turn_included_end (hi : p.inclusion = some i)
    (h : i.next p.files p.marked = .ok (none, j)) (notes : Notes) :
    ∃ events, turn notes p = .ok (.more {}) { p with inclusion := none, events } := by
  have hread : ∃ events, readIncluded i p = .ok none { p with inclusion := none, events } := by
    rw [readIncluded, bind_ok (get_run p), h]
    simp only [lift, pure_bind]
    cases j.inComment <;> exact ⟨_, rfl⟩
  obtain ⟨events, hread⟩ := hread
  refine ⟨events, ?_⟩
  rw [turn, bind_ok (get_run p), hi]
  dsimp only
  rw [bind_ok hread]
  rfl

theorem command?_cases (hu : u.installMode = false) (hv : v.installMode = false)
    (hf : v.functions = u.functions) (t : Text) :
    (∃ e, command? t u = .error e u ∧ command? t v = .error e v) ∨
    (∃ functions e, command? t u = .ok none ({ u with functions }.emit e) ∧
      command? t v = .ok none ({ v with functions }.emit e)) ∨
    ∃ c, command? t u = .ok (some c) u ∧ command? t v = .ok (some c) v := by
  unfold command?
  rw [bind_ok (get_run u), bind_ok (get_run v), hu, hv, hf]
  cases Keyword.startsProcedure t with
  | true => exact .inl ⟨_, rfl, rfl⟩
  | false =>
    cases LocalFunction.isDefinition t with
    | false => exact .inr (.inr ⟨_, rfl, rfl⟩)
    | true =>
      cases u.functions.define t with
      | error cause => exact .inl ⟨_, rfl, rfl⟩
      | ok x => exact .inr (.inl ⟨x.2, _, rfl, rfl⟩)

theorem isDirective_off {c : Char} (hmode : p.installMode = false) (hc : '<' ≠ c)
    (hlayout : Text.startsWith "layout ".toList (c :: t) = false) :
    p.isDirective (c :: t) = false := by
  have hopen : Text.startsWith installOpen (c :: t) = false := Text.startsWith_cons_ne hc _ _
  have hclose : Text.startsWith installClose (c :: t) = false := Text.startsWith_cons_ne hc _ _
  simp only [isDirective, hopen, hclose, hmode, hlayout, Bool.false_and, Bool.or_self]

theorem accepted_command {scope : Scope} (h : scope.accepts (Keyword.leading t) = true) :
    t ≠ [] ∧ Text.startsWith "procedure ".toList t = false ∧
      ∀ p : Processor, p.installMode = false →
        p.isDirective t = false ∧ Marker.parse? (p.expandThis t) = none := by
  have hangle : ∀ u, t ≠ '<' :: u := Scope.accepts_head (by decide) (by decide) (by decide) h
  have hat : ∀ u, t ≠ '@' :: u := Scope.accepts_head (by decide) (by decide) (by decide) h
  have hprocedure : Text.startsWith ("procedure".toList ++ [' ']) t = false :=
    Scope.accepts_word (fun _ => rfl) (fun scope => by cases scope <;> decide) h
  have hlayout : Text.startsWith ("layout".toList ++ [' ']) t = false :=
    Scope.accepts_word (fun _ => rfl) (fun scope => by cases scope <;> decide) h
  cases t with
  | nil => exact absurd (h.symm.trans (Inclusion.accepts_nil scope)) (by simp)
  | cons c t =>
    have hc : '<' ≠ c := fun he => hangle t (by rw [he])
    have hc' : c ≠ '@' := fun he => hat t (by rw [he])
    refine ⟨List.cons_ne_nil c t, hprocedure, fun p hmode => ⟨?_, ?_⟩⟩
    · exact isDirective_off hmode hc hlayout
    · have hexpand : p.expandThis (c :: t) = c :: p.expandThis t := Text.replaceAll_cons_ne hc _ _ _
      rw [hexpand]
      simp [Marker.parse?, hc']

theorem turn_opens {rest : Text} {m : Marker} (hs : p.session = some ⟨r, false⟩)
    (hi : p.inclusion = none) (hmode : p.installMode = false)
    (hm : ∀ path n, p.marked path n = false)
    (hfirst : r.next p.files = .ok (some ('@' :: rest), rM)) (hplain : Text.Plain ('@' :: rest))
    (hmarker : Marker.parse? (p.expandThis ('@' :: rest)) = some m)
    (hname : m.name ≠ []) (hopen : Inclusion.open p.files p.settings.roots m = .ok i) :
    turn {} p = .ok (.more {})
      ({ p with session := some ⟨rM, false⟩, inclusion := some i }.emit
        (.includeOpened i.reader.path i.scope)) := by
  let p₁ : Processor := { p with session := some ⟨rM, false⟩ }
  have hline : readLine {} p = .ok (.line ('@' :: rest)) p₁ := by
    have hlayout : Text.startsWith "layout ".toList ('@' :: rest) = false :=
      Text.startsWith_cons_ne (by decide) _ _
    have hdirective : p₁.isDirective ('@' :: rest) = false :=
      isDirective_off hmode (by decide) hlayout
    rw [readLine_single hs hm hfirst (LineReader.continues_of_endsWith hplain.continuation)
      (List.cons_ne_nil _ _)]
    exact readText_plain rfl hplain (LineReader.next_trimmed hfirst) (List.cons_ne_nil _ _)
      hdirective (Text.startsWith_cons_ne (by decide) _ _) {}
  have hexpand : p₁.expandThis ('@' :: rest) = p.expandThis ('@' :: rest) := by
    have hpath : rM.path = r.path := (LineReader.next_reads hfirst).path
    simp only [p₁, expandThis, directory, hs, Option.map_some, hpath]
  have hopened : openInclusion m (p.expandThis ('@' :: rest)) p₁ = .ok ⟨⟩
      ({ p₁ with inclusion := some i }.emit (.includeOpened i.reader.path i.scope)) := by
    have hopen₁ : Inclusion.open p₁.files p₁.settings.roots m = .ok i := hopen
    rw [openInclusion, bind_ok (get_run p₁), hopen₁]
    rfl
  rw [turn_handed hi hline, hexpand, scriptCommand?, hmarker]
  dsimp only
  rw [if_neg hname, bind_ok hopened]
  rfl

end Processor

end ScriptFeed
