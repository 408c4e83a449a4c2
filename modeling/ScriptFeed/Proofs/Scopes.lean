import ScriptFeed.Proofs.Pipelines

namespace ScriptFeed.Inclusion

open Package Comment

variable {fs : Files} {marked : Marked} {i j k : Inclusion} {r r' r₁ r₂ : LineReader} {t : Text}
  {b b' : Bool} {ts us : List Text}

/-- A line begins an install section, in a block comment or not: what follows the comment counts. -/
def opensSection (inComment : Bool) (t : Text) : Bool :=
  (if inComment then (resume t true).rest else some t).any (isSection installOpen)

theorem classify_eq (scope : Scope) (b : Bool) (t : Text) : classify scope b t =
    if opensSection b t then (.section, false)
    else (if scope.accepts (Keyword.leading (strip b t).1) then .line (strip b t).1 else .nothing,
      (strip b t).2) := by
  have hoff : scope.accepts (Keyword.leading []) = false := accepts_nil scope
  have houtside (u : Text) :
      (if isSection installOpen u then (.section, false) else accepted scope u) =
      if isSection installOpen u then (.section, false)
      else (if scope.accepts (Keyword.leading (strip false u).1) then .line (strip false u).1
        else .nothing, (strip false u).2) := by
    rw [accepted_eq, strip_outside]
    rfl
  by_cases ht : t = []
  · subst ht
    have hnone : opensSection b [] = false := by cases b <;> decide
    rw [classify, if_pos rfl, strip_nil, hnone, hoff]
    rfl
  · rw [classify, if_neg ht]
    cases b with
    | false => exact houtside t
    | true =>
      rcases resume_cases t with ⟨hrest, hstrip⟩ | ⟨u, hrest, hactive, -, -, hstrip⟩
      · simp [opensSection, hrest, hstrip, hoff]
      · simp only [opensSection, if_true, hrest, hactive, hstrip]
        exact houtside u

/-- A file is gone through from one place to its end: what is left of the lines outside sections,
and whether a block comment is open before and after. -/
inductive Scanned (fs : Files) (marked : Marked) :
    LineReader → Bool → List Text → LineReader → Bool → Prop
  | done {r r' : LineReader} {b : Bool} (h : r.nextLogical fs marked = .ok (none, r')) :
      Scanned fs marked r b [] r' b
  | line {r r₁ r' : LineReader} {b b' : Bool} {l : LogicalLine} {ts : List Text}
      (h : r.nextLogical fs marked = .ok (some l, r₁)) (ho : opensSection b l.text = false)
      (hs : Scanned fs marked r₁ (strip b l.text).2 ts r' b') :
      Scanned fs marked r b ((strip b l.text).1 :: ts) r' b'
  | passed {r r₁ r₂ r' : LineReader} {b b' : Bool} {l : LogicalLine} {ts : List Text}
      {passage : LineReader.Passage} (h : r.nextLogical fs marked = .ok (some l, r₁))
      (ho : opensSection b l.text = true)
      (ht : r₁.through fs (isSection installClose) = .ok (passage, r₂))
      (hs : Scanned fs marked r₂ false ts r' b') : Scanned fs marked r b ts r' b'

theorem next_section {l : LogicalLine} {passage : LineReader.Passage}
    (h : i.reader.nextLogical fs marked = .ok (some l, r))
    (hc : classify i.scope i.inComment l.text = (.section, b))
    (ht : r.through fs (isSection installClose) = .ok (passage, r')) :
    i.next fs marked = ({ i with reader := r', inComment := b } : Inclusion).next fs marked := by
  obtain ⟨-, hlt, -⟩ := LineReader.nextLogical_some h
  have hle := (LineReader.through_reads ht).pending.length_le
  rw [next, nextWithin, h]
  dsimp only
  rw [hc]
  dsimp only
  rw [ht]
  exact nextWithin_eq (by dsimp only; omega) (Nat.lt_succ_self _)

theorem Scanned.exhausts (h : Scanned fs marked r b ts r' b') (scope : Scope) :
    Exhausts fs marked ⟨r, scope, b⟩ (ts.filter fun t => scope.accepts (Keyword.leading t))
      ⟨r', scope, b'⟩ := by
  induction h with
  | done hn =>
    apply Exhausts.done
    rw [next, nextWithin, hn]
  | @line r r₁ r' b b' l ts hn ho hs ih =>
    have hclass := classify_eq scope b l.text
    rw [ho, if_neg Bool.false_ne_true] at hclass
    rw [List.filter_cons]
    by_cases ha : scope.accepts (Keyword.leading (strip b l.text).1) = true
    · rw [if_pos ha] at hclass ⊢
      exact .line (next_line hn hclass) ih
    · rw [if_neg ha] at hclass ⊢
      exact ih.of_next_eq (next_nothing hn hclass)
  | @passed r r₁ r₂ r' b b' l ts passage hn ho ht hs ih =>
    have hclass := classify_eq scope b l.text
    rw [ho, if_pos rfl] at hclass
    exact ih.of_next_eq (next_section hn hclass ht)

theorem exists_scanned {id : Nat} (h : r.file? = some id) (fs : Files) (marked : Marked)
    (b : Bool) :
    ∃ ts r' b', Scanned fs marked r b ts r' b' := by
  induction hn : (r.pending fs).length using Nat.strong_induction_on generalizing r b with
  | h n ih =>
    obtain ⟨⟨o, r₁⟩, hl⟩ := LineReader.nextLogical_file h fs marked
    cases o with
    | none => exact ⟨[], r₁, b, .done hl⟩
    | some l =>
      obtain ⟨hreads, hlt, -⟩ := LineReader.nextLogical_some hl
      have hfile := hreads.file.trans h
      cases ho : opensSection b l.text with
      | false =>
        obtain ⟨ts, r', b', hs⟩ := ih _ (by omega) hfile (strip b l.text).2 rfl
        exact ⟨_, r', b', .line hl ho hs⟩
      | true =>
        obtain ⟨⟨passage, r₂⟩, ht⟩ : ∃ x, r₁.through fs (isSection installClose) = .ok x :=
          LineReader.gatherWithin_file _ _ _ _ hfile
        have hpass := LineReader.through_reads ht
        have hle := hpass.pending.length_le
        obtain ⟨ts, r', b', hs⟩ := ih _ (by omega) (hpass.file.trans hfile) false rfl
        exact ⟨ts, r', b', .passed hl ho ht hs⟩

theorem Exhausts.unique (h : Exhausts fs marked i ts j) (h' : Exhausts fs marked i us k) :
    us = ts ∧ k = j := by
  induction h generalizing us with
  | done hn =>
    cases h' with
    | done hn' => exact ⟨rfl, (Prod.mk.inj (Except.ok.inj (hn'.symm.trans hn))).2⟩
    | line hn' _ => exact absurd (hn'.symm.trans hn) (by simp)
  | line hn _ ih =>
    cases h' with
    | done hn' => exact absurd (hn'.symm.trans hn) (by simp)
    | line hn' hs' =>
      obtain ⟨ht, rfl⟩ := Prod.mk.inj (Except.ok.inj (hn'.symm.trans hn))
      obtain ⟨rfl, rfl⟩ := ih hs'
      exact ⟨by rw [Option.some.inj ht], rfl⟩

theorem Scanned.exhausts_iff (h : Scanned fs marked r b ts r' b') (scope : Scope) :
    Exhausts fs marked ⟨r, scope, b⟩ us j ↔
      us = (ts.filter fun t => scope.accepts (Keyword.leading t)) ∧ j = ⟨r', scope, b'⟩ := by
  constructor
  · exact (h.exhausts scope).unique
  · rintro ⟨rfl, rfl⟩
    exact h.exhausts scope

def isDefinition (t : Text) : Bool := Scope.definitionKeywords.contains (Keyword.leading t)

theorem isDefinition_global (h : Keyword.leading t = Scope.globalKeyword) :
    isDefinition t = false := by
  rw [isDefinition, h]
  decide

theorem filter_defines (ts : List Text) :
    (ts.filter fun t => Scope.defines.accepts (Keyword.leading t)) =
      (ts.filter fun t => Scope.all.accepts (Keyword.leading t)).filter isDefinition := by
  rw [List.filter_filter]
  apply List.filter_congr
  intro t _
  cases hd : isDefinition t with
  | false => exact hd
  | true =>
    have hall : Scope.all.accepts (Keyword.leading t) = true := by
      rw [isDefinition] at hd
      simp only [Scope.accepts, hd, Bool.true_or]
    rw [hall]
    exact hd

theorem filter_globals (ts : List Text) :
    (ts.filter fun t => Scope.globals.accepts (Keyword.leading t)) =
      (ts.filter fun t => Scope.all.accepts (Keyword.leading t)).filter (!isDefinition ·) := by
  rw [List.filter_filter]
  apply List.filter_congr
  intro t _
  have hall : Scope.all.accepts (Keyword.leading t) =
      (isDefinition t || Scope.globals.accepts (Keyword.leading t)) := rfl
  rw [hall]
  cases hg : Scope.globals.accepts (Keyword.leading t) with
  | false => simp
  | true => simp [isDefinition_global (beq_iff_eq.mp hg)]

/-- From any place in a file the four scopes return parts of the same lines and come to the same
place. The definitions and the globals are complementary parts of the lines that pass at all. -/
theorem scopes_partition (fs : Files) (marked : Marked) (r : LineReader) (id : Nat) (b : Bool)
    (hfile : r.file? = some id) : ∃ lines r' b',
    (∀ ts j, Exhausts fs marked ⟨r, .all, b⟩ ts j ↔ ts = lines ∧ j = ⟨r', .all, b'⟩) ∧
    (∀ ts j, Exhausts fs marked ⟨r, .procedures, b⟩ ts j ↔ ts = lines ∧ j = ⟨r', .procedures, b'⟩) ∧
    (∀ ts j, Exhausts fs marked ⟨r, .defines, b⟩ ts j ↔
      ts = lines.filter isDefinition ∧ j = ⟨r', .defines, b'⟩) ∧
    (∀ ts j, Exhausts fs marked ⟨r, .globals, b⟩ ts j ↔
      ts = lines.filter (!isDefinition ·) ∧ j = ⟨r', .globals, b'⟩) ∧
    (lines.filter isDefinition).Disjoint (lines.filter (!isDefinition ·)) ∧
    (lines.filter isDefinition ++ lines.filter (!isDefinition ·)).Perm lines := by
  obtain ⟨ts, r', b', h⟩ := exists_scanned hfile fs marked b
  refine ⟨ts.filter fun t => Scope.all.accepts (Keyword.leading t), r', b', ?_, ?_, ?_, ?_, ?_, ?_⟩
  · intro us j
    exact h.exhausts_iff .all
  · intro us j
    exact h.exhausts_iff .procedures
  · intro us j
    rw [← filter_defines]
    exact h.exhausts_iff .defines
  · intro us j
    rw [← filter_globals]
    exact h.exhausts_iff .globals
  · intro t hd hg
    have hnot : isDefinition t = false := by simpa using (List.mem_filter.mp hg).2
    exact absurd ((List.mem_filter.mp hd).2.symm.trans hnot) (by decide)
  · exact List.filter_append_perm _ _

theorem Exhausts.returned (h : Exhausts fs marked i ts j) (h' : Returns fs marked i us) :
    us = ts := by
  obtain ⟨k, hk⟩ := h'
  exact (h.unique hk).1

def mixed : Files := Processor.scriptFiles [("inc.nscr",
  "define a #* x\ny *# global b\n<install>\ndefine c\n<endinstall>\n" ++
  "redef d \\\\\ne ## f\nprint g\nglobal h #*")]

theorem scopes_partition_mixed :
    let r : LineReader := { path := ⟨"s/inc.nscr".toList⟩, stream := .file 0 0 }
    let marked : Marked := fun _ n => n == 6
    ∃ r' b', Exhausts mixed marked ⟨r, .all, false⟩
        ["define a".toList, "global b".toList, "|> redef d e".toList, "global h".toList]
        ⟨r', .all, b'⟩ ∧
      Exhausts mixed marked ⟨r, .defines, false⟩ ["define a".toList, "|> redef d e".toList]
        ⟨r', .defines, b'⟩ ∧
      Exhausts mixed marked ⟨r, .globals, false⟩ ["global b".toList, "global h".toList]
        ⟨r', .globals, b'⟩ := by
  intro r marked
  obtain ⟨lines, r', b', hall, -, hdefines, hglobals, -, -⟩ :=
    scopes_partition mixed marked r 0 false rfl
  have hrun : returned? mixed marked 9 ⟨r, .all, false⟩ = some ["define a".toList,
      "global b".toList, "|> redef d e".toList, "global h".toList] := by decide +kernel
  have hlines := (hall lines _).mpr ⟨rfl, rfl⟩
  obtain rfl := hlines.returned (returns_of_returned? 9 hrun)
  refine ⟨r', b', hlines, (hdefines _ _).mpr ⟨?_, rfl⟩, (hglobals _ _).mpr ⟨?_, rfl⟩⟩
  · decide +kernel
  · decide +kernel

end ScriptFeed.Inclusion
