import Mathlib.Data.List.DropRight
import ScriptFeed.Proofs.Echoes
import ScriptFeed.Proofs.Turns

/-!
Lines that a breakpoint may be put on. The mark stands in front of a line before any stage looks at
it, so that a directive behind it is not recognised, nor is a blank line or one that begins with a
comment. On the lines that are `breakable` the mark shows in the command and nowhere else.
-/

namespace ScriptFeed

open Keyword

namespace Text

theorem trimEnd_cons (c : Char) (t : Text) :
    trimEnd (c :: t) = if trimEnd t = [] ∧ isBlank c then [] else c :: trimEnd t := by
  by_cases h : trimEnd t = []
  · have hd : t.reverse.dropWhile isBlank = [] := by simpa [trimEnd] using h
    rw [h, trimEnd, List.reverse_cons, List.dropWhile_append, hd]
    by_cases hc : isBlank c = true <;> simp [hc]
  · rw [if_neg (fun hb => h hb.1)]
    exact trimEnd_append [c] h

theorem trimStart_trimEnd (t : Text) : trimStart (trimEnd t) = trim t := by
  induction t with
  | nil => rfl
  | cons c r ih =>
    by_cases hc : isBlank c = true
    · have hskip (u : Text) : trimStart (c :: u) = trimStart u :=
        List.dropWhile_cons_of_pos hc
      rw [trim, hskip, ← trim, ← ih, trimEnd_cons]
      by_cases hr : trimEnd r = []
      · rw [if_pos ⟨hr, hc⟩, hr]
      · rw [if_neg (fun hb => hr hb.1), hskip]
    · have hstay (u : Text) : trimStart (c :: u) = c :: u := trimStart_cons (by simpa using hc) u
      rw [trim, hstay, trimEnd_cons, if_neg (fun hb => hc hb.2), hstay]

def isBare (t : Text) : Bool := !t.head?.any isBlank && !startsWith breakMark (trim t)

end Text

theorem leading_trim_withMark (u : Text) :
    leading (Text.trim (withMark u)) = (Text.trim u).takeWhile Text.isNameChar := by
  have hblank : Text.trim (' ' :: u) = Text.trim u := rfl
  have htrim : Text.trim (withMark u) = breakMark ++ Text.trimEnd (' ' :: u) := by
    rw [Text.trim, withMark_eq, Text.trimStart_cons (by decide), Text.trimEnd_cons,
      if_neg (by simp [Text.isBlank]), Text.trimEnd_cons, if_neg (by simp [Text.isBlank])]
    rfl
  rw [leading, unmarked, htrim, Text.after?_eq_some.mpr rfl, Option.getD_some,
    Text.trimStart_trimEnd, hblank]

namespace Inclusion

open Comment Package

def uncommented (t : Text) : Text := (stripBlock (stripLine t false) false false).1

def breakable (i : Inclusion) (t : Text) : Bool :=
  Text.startsWith breakMark t || i.inComment ||
    !Text.startsWith installOpen t &&
      ((accepted i.scope t).1 == .nothing || Text.isBare (uncommented t))

theorem accepts_nil (scope : Scope) : scope.accepts [] = false := by
  cases scope <;> decide

theorem accepted_eq (scope : Scope) (t : Text) : accepted scope t =
    (if scope.accepts (leading (Text.trim (uncommented t))) then .line (Text.trim (uncommented t))
      else .nothing, (stripBlock (stripLine t false) false false).2) := by
  unfold accepted uncommented
  generalize stripBlock (stripLine t false) false false = x
  obtain ⟨u, b⟩ := x
  dsimp only
  by_cases hu : Text.trim u = []
  · have hleading : scope.accepts (leading []) = false := accepts_nil scope
    simp [hu, hleading]
  · by_cases ha : scope.accepts (leading (Text.trim u)) = true <;> simp [hu, ha]

def Reading.markedIf (b : Bool) : Reading → Reading
  | .line t => .line (Keyword.markedIf b t)
  | r => r

theorem Reading.markedIf_false (r : Reading) : r.markedIf false = r := by
  cases r <;> rfl

theorem accepted_withMark {scope : Scope} {t : Text}
    (h : (accepted scope t).1 = .nothing ∨ Text.isBare (uncommented t) = true) :
    accepted scope (withMark t) = ((accepted scope t).1.markedIf true, (accepted scope t).2) := by
  have hstrip : uncommented (withMark t) = withMark (uncommented t) := by
    rw [uncommented, stripLine_withMark, stripBlock_withMark, uncommented]
  have hflag : (stripBlock (stripLine (withMark t) false) false false).2 =
      (stripBlock (stripLine t false) false false).2 := by
    rw [stripLine_withMark, stripBlock_withMark]
  rw [accepted_eq] at h
  rw [accepted_eq, accepted_eq, hflag, hstrip, leading_trim_withMark]
  refine Prod.ext ?_ rfl
  generalize uncommented t = u at h ⊢
  dsimp only at h ⊢
  cases hm : Text.startsWith breakMark (Text.trim u) with
  | true =>
    -- the mark on the line itself is hidden by the one in front
    have hnone : (Text.trim u).takeWhile Text.isNameChar = [] := by
      obtain ⟨r, hr⟩ := Option.isSome_iff_exists.mp hm
      rw [Text.after?_eq_some.mp hr]
      rfl
    rw [hnone, accepts_nil, if_neg (by simp)]
    rcases h with h | h
    · rw [h]
      rfl
    · simp [Text.isBare, hm] at h
  | false =>
    have hleading : (Text.trim u).takeWhile Text.isNameChar = leading (Text.trim u) := by
      have hafter : Text.after? breakMark (Text.trim u) = none := by
        simpa [Text.startsWith] using hm
      rw [leading, unmarked, hafter, Option.getD_none, ← Text.trimStart_trimEnd]
      simp only [Text.trimStart, List.dropWhile_idempotent]
    rw [hleading]
    by_cases ha : scope.accepts (leading (Text.trim u)) = true
    · rw [if_pos ha, if_pos ha]
      rcases h with h | h
      · simp [ha] at h
      · have hne : Text.trim u ≠ [] := by
          intro he
          have hnil : scope.accepts (leading []) = false := accepts_nil scope
          rw [he, hnil] at ha
          exact absurd ha (by simp)
        have hb : u.head?.any Text.isBlank = false := by
          simp only [Text.isBare, Bool.and_eq_true, Bool.not_eq_true'] at h
          exact h.1
        rw [trim_withMark hb hne]
        rfl
    · rw [if_neg ha, if_neg ha]
      rfl

theorem isSection_withMark {t : Text} (hm : Text.startsWith breakMark t = false)
    (h : Text.startsWith installOpen t = false) :
    isSection installOpen (withMark t) = isSection installOpen t := by
  have hstart : Text.startsWith installOpen (withMark t) = false :=
    startsWith_withMark (p := '<') (by decide) t
  have hin : Text.contains installOpen (withMark t) = Text.contains installOpen t :=
    contains_withMark (p := '<') ⟨by decide, by decide, by decide⟩ t
  rw [isSection, isSection, hstart, h, leading_withMark hm, hin]

theorem classify_withMark {i : Inclusion} {t : Text} (hm : Text.startsWith breakMark t = false)
    (h : i.breakable t = true) : classify i.scope i.inComment (withMark t) =
      if i.inComment then classify i.scope i.inComment t
      else ((classify i.scope i.inComment t).1.markedIf true,
        (classify i.scope i.inComment t).2) := by
  have hne : withMark t ≠ [] := by simp [withMark_eq]
  unfold breakable at h
  unfold classify
  rw [if_neg hne]
  cases hc : i.inComment with
  | true =>
    by_cases ht : t = []
    · subst ht
      rfl
    · simp only [if_neg ht, if_true, resume_withMark]
  | false =>
    simp only [hm, hc, Bool.false_or, Bool.and_eq_true, Bool.not_eq_true', Bool.or_eq_true,
      beq_iff_eq] at h
    have hacc := accepted_withMark h.2
    by_cases ht : t = []
    · subst ht
      have hsection : isSection installOpen [] = false := by decide
      have hleading : i.scope.accepts (leading (Text.trim (uncommented []))) = false :=
        accepts_nil i.scope
      have hnil : accepted i.scope [] = (.nothing, false) := by
        rw [accepted_eq, hleading]
        rfl
      simp only [Bool.false_eq_true, if_false, if_true, isSection_withMark hm h.1, hsection, hacc,
        hnil]
    · simp only [if_neg ht, Bool.false_eq_true, if_false, isSection_withMark hm h.1, hacc]
      split <;> rfl

def passedWithin (fs : Files) : (fuel : Nat) → Inclusion → List (Inclusion × LogicalLine)
  | 0, _ => []
  | fuel + 1, i =>
    match i.reader.nextLogical fs fun _ _ => false with
    | .ok (some l, reader) =>
      (i, l) ::
        match classify i.scope i.inComment l.text with
        | (.nothing, inComment) => passedWithin fs fuel { i with reader, inComment }
        | (.line _, _) => []
        | (.section, inComment) =>
          match reader.through fs (isSection installClose) with
          | .error _ => []
          | .ok (_, reader) => passedWithin fs fuel { i with reader, inComment }
    | _ => []

def passed (fs : Files) (i : Inclusion) : List (Inclusion × LogicalLine) :=
  passedWithin fs ((i.reader.pending fs).length + 1) i

def isClear (m : Marked) (x : Inclusion × LogicalLine) : Bool :=
  !m x.1.reader.path x.2.line || x.1.breakable x.2.text

def clear (fs : Files) (m : Marked) (i : Inclusion) : Bool := (i.passed fs).all (isClear m)

def breaks (fs : Files) (m : Marked) (i : Inclusion) : Bool :=
  (i.passed fs).getLast?.any fun x => x.2.breaks m x.1.reader.path x.1.inComment

theorem accepted_line {scope : Scope} {t u : Text} {b : Bool}
    (h : accepted scope t = (.line u, b)) : u = Text.trim (uncommented t) ∧ leading u ≠ [] := by
  rw [accepted_eq, Prod.mk.injEq] at h
  by_cases ha : scope.accepts (leading (Text.trim (uncommented t))) = true
  · rw [if_pos ha] at h
    obtain rfl : Text.trim (uncommented t) = u := by simpa using h.1
    refine ⟨rfl, fun he => ?_⟩
    rw [he, accepts_nil] at ha
    exact absurd ha (by simp)
  · simp [ha] at h

theorem classify_line {i : Inclusion} {t u : Text} {b : Bool} (h : i.breakable t = true)
    (hm : Text.startsWith breakMark t = false) (hc : i.inComment = false)
    (hx : classify i.scope i.inComment t = (.line u, b)) :
    Text.startsWith breakMark u = false ∧ leading u ≠ [] := by
  have hacc : accepted i.scope t = (.line u, b) := by
    simp only [classify, hc, Bool.false_eq_true, if_false] at hx
    split at hx
    · simp at hx
    · split at hx
      · simp at hx
      · exact hx
  obtain ⟨rfl, hleading⟩ := accepted_line hacc
  simp only [breakable, hm, hc, hacc, Bool.false_or, Bool.and_eq_true, Bool.not_eq_true',
    Bool.or_eq_true, beq_iff_eq, reduceCtorEq, false_or, Text.isBare] at h
  exact ⟨h.2.2, hleading⟩

theorem classify_markedBy {i : Inclusion} {m : Marked} {l : LogicalLine}
    (h : isClear m (i, l) = true) :
    classify i.scope i.inComment (l.markedBy m i.reader.path).text =
      ((classify i.scope i.inComment l.text).1.markedIf (l.breaks m i.reader.path i.inComment),
        (classify i.scope i.inComment l.text).2) := by
  unfold LogicalLine.markedBy LogicalLine.breaks
  cases hb : m i.reader.path l.line with
  | false =>
    rw [Bool.false_and, Bool.false_and, Reading.markedIf_false]
    rfl
  | true =>
    simp only [isClear, hb, Bool.not_true, Bool.false_or] at h
    rw [if_pos rfl, Bool.true_and, LineReader.mark]
    cases hm : Text.startsWith breakMark l.text with
    | true => simp [Reading.markedIf_false]
    | false =>
      have hmark := classify_withMark hm h
      rw [if_neg (by simp)]
      refine hmark.trans ?_
      cases i.inComment with
      | true => simp [Reading.markedIf_false]
      | false => rfl

theorem nextWithin_marked {fs fs' : Files} {m : Marked} {fuel : Nat} {i : Inclusion}
    (hs : i.reader.Sees fs fs') (h : (passedWithin fs' fuel i).all (isClear m) = true) :
    (∃ e, nextWithin fs m fuel i = .error e ∧ nextWithin fs' (fun _ _ => false) fuel i = .error e) ∨
    (∃ j, nextWithin fs m fuel i = .ok (none, j) ∧
      nextWithin fs' (fun _ _ => false) fuel i = .ok (none, j)) ∨
    ∃ t j x, (passedWithin fs' fuel i).getLast? = some x ∧
      nextWithin fs m fuel i =
        .ok (some (markedIf (x.2.breaks m x.1.reader.path x.1.inComment) t), j) ∧
      nextWithin fs' (fun _ _ => false) fuel i = .ok (some t, j) ∧
      (x.2.breaks m x.1.reader.path x.1.inComment = true →
        Text.startsWith breakMark t = false ∧ leading t ≠ []) := by
  induction fuel generalizing i with
  | zero => exact .inr (.inl ⟨i, rfl, rfl⟩)
  | succ fuel ih =>
    unfold nextWithin
    unfold passedWithin at h ⊢
    rw [LineReader.nextLogical_marked hs m]
    cases hl : i.reader.nextLogical fs' (fun _ _ => false) with
    | error e => exact .inl ⟨e, rfl, rfl⟩
    | ok x =>
      obtain ⟨o, reader⟩ := x
      cases o with
      | none => exact .inr (.inl ⟨_, rfl, rfl⟩)
      | some l =>
        simp only [hl, List.all_cons, Bool.and_eq_true] at h
        obtain ⟨hline, hrest⟩ := h
        have hsees : reader.Sees fs fs' := fun id hid =>
          hs id ((LineReader.nextLogical_reads hl).file ▸ hid)
        -- what passes later is the last of a longer list
        have hlater {ys : List (Inclusion × LogicalLine)} {x : Inclusion × LogicalLine}
            (hx : ys.getLast? = some x) : ((i, l) :: ys).getLast? = some x := by
          rw [List.getLast?_cons, hx]
          rfl
        dsimp only [Except.map, Option.map_some]
        rw [classify_markedBy hline]
        cases hx : classify i.scope i.inComment l.text with
        | mk r b =>
          simp only [hx] at hrest
          cases r with
          | nothing =>
            refine (ih hsees hrest).imp_right (Or.imp_right ?_)
            rintro ⟨t, j, x, hlast, hnext⟩
            exact ⟨t, j, x, hlater hlast, hnext⟩
          | line u =>
            refine .inr (.inr ⟨u, _, (i, l), rfl, rfl, rfl, fun hbreaks => ?_⟩)
            simp only [LogicalLine.breaks, Bool.and_eq_true, Bool.not_eq_true'] at hbreaks
            obtain ⟨⟨hmarked, hc⟩, hm⟩ := hbreaks
            exact classify_line (by simpa [isClear, hmarked] using hline) hm hc hx
          | «section» =>
            dsimp only [Reading.markedIf] at hrest ⊢
            rw [LineReader.through_congr hsees] at hrest ⊢
            cases ht : reader.through fs (isSection installClose) with
            | error e => exact .inl ⟨e, rfl, rfl⟩
            | ok y =>
              obtain ⟨passage, reader'⟩ := y
              simp only [ht] at hrest
              refine (ih (hsees.of_reads (LineReader.through_reads ht)) hrest).imp_right
                (Or.imp_right ?_)
              rintro ⟨t, j, x, hlast, hnext⟩
              exact ⟨t, j, x, hlater hlast, hnext⟩

theorem next_marked {fs fs' : Files} {m : Marked} {i : Inclusion} (hs : i.reader.Sees fs fs')
    (h : i.clear fs' m = true) :
    (∃ e, i.next fs m = .error e ∧ i.next fs' (fun _ _ => false) = .error e) ∨
    (∃ j, i.next fs m = .ok (none, j) ∧ i.next fs' (fun _ _ => false) = .ok (none, j)) ∨
    ∃ t j, i.next fs m = .ok (some (markedIf (i.breaks fs' m) t), j) ∧
      i.next fs' (fun _ _ => false) = .ok (some t, j) ∧
      (i.breaks fs' m = true → Text.startsWith breakMark t = false ∧ leading t ≠ []) := by
  rw [next, next, ← LineReader.pending_congr hs]
  refine (nextWithin_marked hs h).imp_right (Or.imp_right ?_)
  rintro ⟨t, j, x, hlast, hx, hy, ht⟩
  have hbreaks : i.breaks fs' m = x.2.breaks m x.1.reader.path x.1.inComment := by
    rw [breaks, passed, hlast]
    rfl
  rw [hbreaks]
  exact ⟨t, j, hx, hy, ht⟩

end Inclusion

namespace Processor

open Package Comment

variable {p : Processor} {notes n : Notes} {t s : Text}

def isDirective (p : Processor) (t : Text) : Bool :=
  Text.startsWith installOpen t || Text.startsWith installClose t ||
    p.installMode && (Text.startsWith infoOpen t || Text.startsWith Article.fileOpen t) ||
    Text.startsWith "layout ".toList t && (Layout.parse? t).isSome

def isCommand (p : Processor) (notes : Notes) (t : Text) : Bool :=
  let command := p.expandThis (Text.trim t)
  !t.head?.any Text.isBlank && !command.isEmpty && !Text.startsWith breakMark command &&
    (Marker.parse? command).isNone &&
    (!Text.startsWith "procedure ".toList (Text.trim t) || notes.isEmpty)

def breakable (p : Processor) (notes : Notes) (t : Text) : Bool :=
  Text.startsWith breakMark t ||
    if p.session.any (·.inComment) then notes.isEmpty
    else
      match p.dropLineComment t notes with
      | (none, _) => false
      | (some t, notes) =>
        !p.isDirective t &&
          p.isCommand (p.dropBlockComments t notes).2.1 (p.dropBlockComments t notes).1

def clear (m : Marked) (notes : Notes) (p : Processor) : Bool :=
  match p.inclusion, p.session with
  | some i, _ => i.clear p.files m
  | none, none => true
  | none, some s =>
    match s.reader.nextLogical p.files fun _ _ => false with
    | .ok (some l, reader) =>
      !m s.reader.path l.line || (p.setReader reader).breakable notes l.text
    | _ => true

def breaks (m : Marked) (p : Processor) : Bool :=
  match p.inclusion, p.session with
  | some i, _ => i.breaks p.files m
  | none, none => false
  | none, some s =>
    match s.reader.nextLogical p.files fun _ _ => false with
    | .ok (some l, _) => l.breaks m s.reader.path s.inComment
    | _ => false

theorem breakable_nil (hc : p.session.any (·.inComment) = false) :
    p.breakable notes [] = false := by
  have hline : p.dropLineComment [] notes = (some [], notes) := if_neg (by decide)
  have hblock : p.dropBlockComments [] notes = ([], notes, p) := if_neg (by decide)
  have hcommand : p.isCommand notes [] = false := rfl
  have hmark : Text.startsWith breakMark [] = false := by decide
  unfold breakable
  rw [hmark, hc, hline]
  simp only [hblock, hcommand, Bool.and_false, Bool.false_or, Bool.false_eq_true, if_false]

theorem dropLineComment_withMark (h : p.dropLineComment t notes = (some s, n)) :
    ∃ n', p.dropLineComment (withMark t) notes = (some (withMark s), n') := by
  have hcontains : Text.contains lineMark (withMark t) = Text.contains lineMark t :=
    contains_withMark foreign_number t
  unfold dropLineComment at h ⊢
  rw [hcontains, stripLine_withMark]
  by_cases hl : Text.contains lineMark t = true
  · rw [if_pos hl] at h ⊢
    dsimp only at h ⊢
    split at h
    · simp at h
    · simp only [Prod.mk.injEq, Option.some.injEq] at h
      rw [h.1]
      exact ⟨_, rfl⟩
  · rw [if_neg hl] at h ⊢
    simp only [Prod.mk.injEq, Option.some.injEq] at h
    rw [h.1]
    exact ⟨_, rfl⟩

theorem isDirective_withMark (p : Processor) (t : Text) : p.isDirective (withMark t) = false := by
  have hangle (ps : Text) : Text.startsWith ('<' :: ps) (withMark t) = false :=
    startsWith_withMark (by decide) t
  have hlayout : Text.startsWith "layout ".toList (withMark t) = false :=
    startsWith_withMark (p := 'l') (by decide) t
  have hopen : Text.startsWith installOpen (withMark t) = false := hangle _
  have hclose : Text.startsWith installClose (withMark t) = false := hangle _
  have hinfo : Text.startsWith infoOpen (withMark t) = false := hangle _
  have hfile : Text.startsWith Article.fileOpen (withMark t) = false := hangle _
  simp only [isDirective, hopen, hclose, hinfo, hfile, hlayout, Bool.or_self, Bool.and_false,
    Bool.false_and]

theorem dropBlockComments_withMark (p : Processor) (t : Text) (notes notes' : Notes) :
    (p.dropBlockComments (withMark t) notes').1 = withMark (p.dropBlockComments t notes).1 ∧
      (p.dropBlockComments (withMark t) notes').2.2 = (p.dropBlockComments t notes).2.2 := by
  have hcontains : Text.contains blockOpen (withMark t) = Text.contains blockOpen t :=
    contains_withMark foreign_number t
  unfold dropBlockComments
  rw [hcontains]
  split
  · cases p.session with
    | none => exact ⟨rfl, rfl⟩
    | some s =>
      simp only [stripBlock_withMark]
      exact ⟨trivial, trivial⟩
  · exact ⟨rfl, rfl⟩

theorem leaveComment_outside (h : p.session.any (·.inComment) = false) :
    leaveComment t notes p = .ok (some t, notes) p := by
  unfold leaveComment
  rw [bind_ok (get_run p)]
  cases hs : p.session with
  | none => rfl
  | some s =>
    have hc : s.inComment = false := by simpa [hs] using h
    simp only [hc, Bool.false_eq_true, if_false, pure_run]

theorem enterLine_command (hc : p.session.any (·.inComment) = false)
    (hd : p.dropLineComment t notes = (some s, n)) (hs : p.isDirective s = false) :
    enterLine t notes p = .ok (.text s n) p := by
  simp only [isDirective, Bool.or_eq_false_iff, Bool.and_eq_false_iff] at hs
  obtain ⟨⟨⟨hopen, -⟩, hinstall⟩, hlayout⟩ := hs
  have hsection : enterSection s p = .ok (some s) p := by
    rw [enterSection, hopen]
    rfl
  have hmode (d : Text) (hdir : d = infoOpen ∨ d = Article.fileOpen) :
      (p.installMode && Text.startsWith d s) = false := by
    rcases hinstall with hmode | ⟨hinfo, hfile⟩
    · rw [hmode, Bool.false_and]
    · rcases hdir with rfl | rfl
      · rw [hinfo, Bool.and_false]
      · rw [hfile, Bool.and_false]
  have hheader : enterHeader s p = .ok (some s) p := by
    rw [enterHeader, bind_ok (get_run p), hmode _ (.inl rfl)]
    rfl
  unfold enterLine
  rw [bind_ok (leaveComment_outside hc)]
  dsimp only
  rw [bind_ok (get_run p), hd]
  dsimp only
  rw [bind_ok hsection]
  dsimp only
  rw [bind_ok hheader]
  dsimp only
  rw [bind_ok (get_run p), hmode _ (.inr rfl), if_neg (by simp)]
  by_cases hl : Text.startsWith "layout ".toList s = true
  · rw [if_pos hl]
    have hnone : Layout.parse? s = none := by
      rcases hlayout with hf | hf
      · exact absurd (hl.symm.trans hf) Bool.noConfusion
      · simpa using hf
    have hwrite : writeLayout s p = .ok none p := by
      rw [writeLayout, hnone]
      rfl
    rw [bind_ok hwrite]
    rfl
  · rw [if_neg hl]
    rfl

theorem finishLine_eq {u : Text} (h : Text.trim u ≠ []) (n : Notes) : finishLine u n =
    .line (if Text.startsWith "procedure ".toList (Text.trim u) then (n.attachTo (Text.trim u)).1
      else Text.trim u) := by
  unfold finishLine
  split
  · exact absurd ‹_› h
  · rfl

theorem finishLine_command {u : Text} (h : p.isCommand n u = true) :
    finishLine u n = .line (Text.trim u) ∧
      ∀ n', finishLine (withMark u) n' = .line (withMark (Text.trim u)) := by
  simp only [isCommand, Bool.and_eq_true, Bool.not_eq_true', Bool.or_eq_true] at h
  obtain ⟨⟨⟨⟨hb, hne⟩, -⟩, -⟩, hproc⟩ := h
  have htrim : Text.trim u ≠ [] := by
    intro he
    have hnil : p.expandThis [] = [] := rfl
    rw [he, hnil] at hne
    simp at hne
  have hmark := trim_withMark hb htrim
  have hstart : Text.startsWith "procedure ".toList (withMark (Text.trim u)) = false :=
    startsWith_withMark (p := 'p') (by decide) _
  constructor
  · rw [finishLine_eq htrim]
    by_cases hp : Text.startsWith "procedure ".toList (Text.trim u) = true
    · rw [if_pos hp]
      have hempty : n.text = [] := by
        rcases hproc with hf | hf
        · exact absurd (hp.symm.trans hf) Bool.noConfusion
        · simpa [Notes.isEmpty] using hf
      rw [Notes.attachTo, hempty, List.append_nil]
    · rw [if_neg hp]
  · intro n'
    rw [finishLine_eq (by rw [hmark]; simp [withMark_eq]), hmark, hstart]
    rfl

theorem readText_breakable (hm : Text.startsWith breakMark t = false)
    (hc : p.session.any (·.inComment) = false) (h : p.breakable notes t = true) :
    ∃ s n, p.isCommand (p.dropBlockComments s n).2.1 (p.dropBlockComments s n).1 = true ∧
      readText t notes p = .ok (.line (Text.trim (p.dropBlockComments s n).1))
        (p.dropBlockComments s n).2.2 ∧
      readText (withMark t) notes p = .ok (.line (withMark (Text.trim (p.dropBlockComments s n).1)))
        (p.dropBlockComments s n).2.2 := by
  unfold breakable at h
  rw [hm, hc, Bool.false_or, if_neg (by simp)] at h
  cases hd : p.dropLineComment t notes with
  | mk rest n =>
    cases rest with
    | none => simp [hd] at h
    | some s =>
      simp only [hd, Bool.and_eq_true, Bool.not_eq_true'] at h
      obtain ⟨hdir, hcommand⟩ := h
      obtain ⟨n', hd'⟩ := dropLineComment_withMark hd
      obtain ⟨htext, hstate⟩ := dropBlockComments_withMark p s n n'
      obtain ⟨hline, hmarked⟩ := finishLine_command hcommand
      have hleave (u : Text) (n : Notes) (hu : p.isDirective u = false) : p.leaveLine u n =
          (finishLine (p.dropBlockComments u n).1 (p.dropBlockComments u n).2.1,
            (p.dropBlockComments u n).2.2) := by
        have hclose : Text.startsWith installClose u = false := by
          simp only [isDirective, Bool.or_eq_false_iff] at hu
          exact hu.1.1.2
        rw [leaveLine, leaveSection_else hclose]
      refine ⟨s, n, hcommand, ?_, ?_⟩
      · rw [readText_text (enterLine_command hc hd hdir), hleave s n hdir, hline]
      · have hdir' := isDirective_withMark p s
        rw [readText_text (enterLine_command hc hd' hdir'), hleave _ n' hdir', htext, hstate,
          hmarked]

theorem readText_resumed (hc : p.session.any (·.inComment) = true) (hn : notes.isEmpty = true) :
    readText (withMark t) notes p = readText t notes p := by
  have hleave : leaveComment (withMark t) notes p = leaveComment t notes p := by
    have hkeep (u : Text) : notes.append u = notes := by rw [Notes.append, if_pos hn]
    unfold leaveComment
    rw [bind_ok (get_run p), bind_ok (get_run p)]
    cases hs : p.session with
    | none => simp [hs] at hc
    | some s =>
      have hin : s.inComment = true := by simpa [hs] using hc
      simp only [hin, if_true, resumeWith, hkeep, resume_withMark]
  unfold readText enterLine
  simp only [bind_run, hleave]

theorem readText_nil (hc : p.session.any (·.inComment) = true) (hn : notes.isEmpty = true) :
    readText [] notes p = .ok (.nothing notes) p := by
  have hleave : leaveComment [] notes p = .ok (none, notes) p := by
    unfold leaveComment
    rw [bind_ok (get_run p)]
    cases hs : p.session with
    | none => simp [hs] at hc
    | some s =>
      have hin : s.inComment = true := by simpa [hs] using hc
      have hsame : { p with session := some { s with inComment := true } } = p := by
        rw [← hin, ← hs]
      have hkeep : notes.append [] = notes := by rw [Notes.append, if_pos hn]
      have hempty : resume [] true = ⟨[], none, true⟩ := rfl
      have hresume : resumeWith [] true notes = (⟨[], none, true⟩, notes) := by
        rw [resumeWith, hempty]
        dsimp only
        rw [hkeep]
      simp only [hin, if_true, hresume]
      rw [bind_ok (set_run p _), hsame, pure_run]
  have henter : enterLine [] notes p = .ok (.used (.nothing notes)) p := by
    unfold enterLine
    rw [bind_ok hleave]
    rfl
  unfold readText
  rw [bind_ok henter]
  rfl

end Processor

end ScriptFeed
