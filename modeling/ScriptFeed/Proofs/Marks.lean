import Mathlib.Data.List.Basic
import ScriptFeed.Proofs.Lengths
import ScriptFeed.Comment.Notes
import ScriptFeed.LineReader
import ScriptFeed.LocalFunction.Expansion

namespace ScriptFeed

namespace Text

theorem after?_cons_ne {p c : Char} (h : p ≠ c) (ps t : Text) :
    after? (p :: ps) (c :: t) = none := by
  rw [after?, if_neg h]

theorem startsWith_cons_ne {p c : Char} (h : p ≠ c) (ps t : Text) :
    startsWith (p :: ps) (c :: t) = false := by
  rw [startsWith, after?_cons_ne h]
  rfl

theorem cut_cons_ne {p c : Char} (h : p ≠ c) (ps t : Text) :
    cut (p :: ps) (c :: t) = (cut (p :: ps) t).map fun (a, b) => (c :: a, b) := by
  rw [cut, after?_cons_ne h]

theorem replaceAll_cons_ne {p c : Char} (h : p ≠ c) (ps new t : Text) :
    replaceAll (p :: ps) new (c :: t) = c :: replaceAll (p :: ps) new t := by
  rw [replaceAll, replaceFrom, if_neg (by simp [startsWith_cons_ne h]), replaceAll]

theorem trimEnd_append {t : Text} (a : Text) (h : trimEnd t ≠ []) :
    trimEnd (a ++ t) = a ++ trimEnd t := by
  have hne : ¬ (t.reverse.dropWhile isBlank).isEmpty := by
    intro he
    rw [List.isEmpty_iff] at he
    exact h (by rw [trimEnd, he, List.reverse_nil])
  simp only [trimEnd, List.reverse_append, List.dropWhile_append, if_neg hne, List.reverse_reverse]

theorem trimStart_cons {c : Char} (h : isBlank c = false) (t : Text) :
    trimStart (c :: t) = c :: t := by
  rw [trimStart, List.dropWhile_cons_of_neg (by simp [h])]

end Text

namespace Keyword

def withMark (t : Text) : Text := breakMark ++ ' ' :: t

theorem withMark_eq (t : Text) : withMark t = '|' :: '>' :: ' ' :: t := rfl

def markedIf (b : Bool) (t : Text) : Text := if b then withMark t else t

@[simp] theorem markedIf_true (t : Text) : markedIf true t = withMark t := rfl

@[simp] theorem markedIf_false (t : Text) : markedIf false t = t := rfl

variable {p : Char} {ps : Text}

def Foreign (p : Char) : Prop := p ≠ '|' ∧ p ≠ '>' ∧ p ≠ ' '

theorem startsWith_withMark (h : p ≠ '|') (t : Text) :
    Text.startsWith (p :: ps) (withMark t) = false := Text.startsWith_cons_ne h ps _

theorem cut_withMark (h : Foreign p) (t : Text) : Text.cut (p :: ps) (withMark t) =
    (Text.cut (p :: ps) t).map fun (a, b) => (withMark a, b) := by
  obtain ⟨h₁, h₂, h₃⟩ := h
  rw [withMark_eq, Text.cut_cons_ne h₁, Text.cut_cons_ne h₂, Text.cut_cons_ne h₃, Option.map_map,
    Option.map_map]
  rfl

theorem contains_withMark (h : Foreign p) (t : Text) :
    Text.contains (p :: ps) (withMark t) = Text.contains (p :: ps) t := by
  rw [Text.contains, cut_withMark h, Option.isSome_map, Text.contains]

theorem replaceAll_withMark (h : Foreign p) (new t : Text) :
    Text.replaceAll (p :: ps) new (withMark t) = withMark (Text.replaceAll (p :: ps) new t) := by
  obtain ⟨h₁, h₂, h₃⟩ := h
  rw [withMark_eq, Text.replaceAll_cons_ne h₁, Text.replaceAll_cons_ne h₂,
    Text.replaceAll_cons_ne h₃, withMark_eq]

theorem trim_withMark {t : Text} (hb : t.head?.any Text.isBlank = false) (h : Text.trim t ≠ []) :
    Text.trim (withMark t) = withMark (Text.trim t) := by
  have hstart : Text.trimStart t = t := by
    cases t with
    | nil => rfl
    | cons c r => exact Text.trimStart_cons (by simpa using hb) r
  have htrim : Text.trim t = Text.trimEnd t := by rw [Text.trim, hstart]
  rw [htrim] at h ⊢
  rw [Text.trim, withMark_eq, Text.trimStart_cons (by decide)]
  exact Text.trimEnd_append ['|', '>', ' '] h

theorem unmarked_withMark {t : Text} (h : Text.startsWith breakMark t = false) :
    unmarked (withMark t) = unmarked t := by
  have hafter : Text.after? breakMark t = none := by simpa [Text.startsWith] using h
  have hmark : Text.after? breakMark (withMark t) = some (' ' :: t) :=
    Text.after?_eq_some.mpr rfl
  rw [unmarked, unmarked, hafter, hmark]
  rfl

theorem leading_withMark {t : Text} (h : Text.startsWith breakMark t = false) :
    leading (withMark t) = leading t := by
  rw [leading, unmarked_withMark h, leading]

theorem procedureHere?_cons_ne {c : Char} (h : 'p' ≠ c) (t : Text) :
    procedureHere? (c :: t) = none := by
  have hafter : Text.after? "procedure".toList (c :: t) = none := Text.after?_cons_ne h _ t
  rw [procedureHere?, hafter]

theorem procedureLater?_cons (c : Char) (t : Text) : procedureLater? (c :: t) =
    (if Text.isBlank c || c == '>' then procedureHere? t else none).or (procedureLater? t) := by
  unfold procedureLater?
  cases h : (if Text.isBlank c || c == '>' then procedureHere? t else none) with
  | some name => rfl
  | none => cases t <;> rfl

theorem procedureName?_eq (t : Text) :
    procedureName? t = (procedureHere? t).or (procedureLater? t) := by
  unfold procedureName?
  cases h : procedureHere? t <;> rfl

theorem procedureName?_withMark (t : Text) : procedureName? (withMark t) = procedureName? t := by
  rw [procedureName?_eq, withMark_eq, procedureHere?_cons_ne (by decide), procedureLater?_cons,
    if_neg (by decide), procedureLater?_cons, if_pos (by decide),
    procedureHere?_cons_ne (by decide), procedureLater?_cons, if_pos (by decide), procedureName?_eq]
  rfl

theorem endsProcedure_withMark (t : Text) : endsProcedure (withMark t) = endsProcedure t :=
  contains_withMark (p := 'e') ⟨by decide, by decide, by decide⟩ t

end Keyword

namespace Comment

open Keyword

theorem foreign_number : Foreign '#' := ⟨by decide, by decide, by decide⟩

theorem foreign_star : Foreign '*' := ⟨by decide, by decide, by decide⟩

theorem hasMarker_withMark (t : Text) : hasMarker (withMark t) = hasMarker t := by
  simp only [hasMarker, lineMark, blockOpen, blockClose, contains_withMark foreign_number,
    contains_withMark foreign_star]

theorem quotedAfter_plain {c : Char} (h : c ≠ '"') (prev : Char) (quoted : Bool) :
    quotedAfter prev c quoted = quoted := by
  simp [quotedAfter, h]

theorem quotedAfter_prev {prev prev' : Char} (h : prev ≠ '\\') (h' : prev' ≠ '\\') (c : Char)
    (quoted : Bool) : quotedAfter prev c quoted = quotedAfter prev' c quoted := by
  simp [quotedAfter, h, h']

theorem beforeLineMark_prev (keepDocs : Bool) {prev : Char} (prev' : Char) (h : prev ≠ '\\')
    (h' : prev' ≠ '\\') (quoted : Bool) (t : Text) :
    beforeLineMark keepDocs prev quoted t = beforeLineMark keepDocs prev' quoted t := by
  cases t with
  | nil => rfl
  | cons c r => rw [beforeLineMark, beforeLineMark, quotedAfter_prev h h']

theorem beforeLineMark_cons (keepDocs : Bool) {c : Char} (hc : '#' ≠ c) (hq : c ≠ '"')
    (prev : Char) (quoted : Bool) (t : Text) : beforeLineMark keepDocs prev quoted (c :: t) =
      (beforeLineMark keepDocs c quoted t).map (c :: ·) := by
  simp [beforeLineMark, quotedAfter_plain hq, lineDocMark, lineMark, Text.startsWith_cons_ne hc]

theorem stripLine_withMark (t : Text) (keepDocs : Bool) :
    stripLine (withMark t) keepDocs = withMark (stripLine t keepDocs) := by
  have hscan : scanLine (withMark t) keepDocs = withMark (scanLine t keepDocs) := by
    have hb (c : Char) (hc : '#' ≠ c) (hq : c ≠ '"') (prev : Char) (r : Text) :=
      beforeLineMark_cons keepDocs hc hq prev false r
    rw [scanLine, withMark_eq, hb '|' (by decide) (by decide), hb '>' (by decide) (by decide),
      hb ' ' (by decide) (by decide), scanLine,
      beforeLineMark_prev keepDocs lineStart (by decide) (by decide)]
    cases beforeLineMark keepDocs lineStart false t <;> rfl
  have hne : withMark t ≠ lineMark := by simp [withMark_eq, lineMark]
  rw [stripLine, if_neg hne, hasMarker_withMark, hscan, stripLine]
  by_cases hl : t = lineMark
  · subst hl
    cases keepDocs <;> rfl
  · rw [if_neg hl]
    split <;> rfl

theorem dropBlocks_prev (keepDocs inside : Bool) {prev : Char} (prev' : Char) (h : prev ≠ '\\')
    (h' : prev' ≠ '\\') (quoted : Bool) (t : Text) :
    dropBlocks keepDocs inside prev quoted t = dropBlocks keepDocs inside prev' quoted t := by
  have hquoted := quotedAfter_prev h h'
  fun_induction dropBlocks keepDocs inside prev quoted t with
  | case1 => rw [dropBlocks]
  | case2 prev quoted r ih =>
    rw [dropBlocks]
    exact ih h hquoted
  | case3 prev quoted c r hclose ih =>
    rw [dropBlocks]
    · exact ih h hquoted
    · exact hclose
  | case4 prev quoted c ih =>
    rw [dropBlocks, dropBlocks]
    rfl
  | case5 prev quoted c d r quoted' hdoc =>
    rw [dropBlocks, ← hquoted]
    exact (if_pos hdoc).symm
  | case6 prev quoted c d r quoted' hdoc hopen ih =>
    rw [dropBlocks, ← hquoted]
    exact (ih h hquoted).trans ((if_neg hdoc).trans (if_pos hopen)).symm
  | case7 prev quoted c d r quoted' hdoc hopen ih =>
    rw [dropBlocks, ← hquoted]
    exact ((if_neg hdoc).trans (if_neg hopen)).symm

theorem dropBlocks_cons (keepDocs : Bool) {c : Char} (hc : '#' ≠ c) (hq : c ≠ '"') (prev : Char)
    (quoted : Bool) (t : Text) : dropBlocks keepDocs false prev quoted (c :: t) =
      (dropBlocks keepDocs false c quoted t).map (·.keep c) := by
  cases t with
  | nil => simp only [dropBlocks]
  | cons d r =>
    rw [dropBlocks, quotedAfter_plain hq]
    simp [blockDocOpen, Text.startsWith_cons_ne hc, Ne.symm hc]

theorem stripBlock_withMark (t : Text) (keepDocs active : Bool) :
    stripBlock (withMark t) keepDocs active =
      (withMark (stripBlock t keepDocs active).1, (stripBlock t keepDocs active).2) := by
  have hscan : scanBlock (withMark t) keepDocs active =
      (withMark (scanBlock t keepDocs active).1, (scanBlock t keepDocs active).2) := by
    have hb (c : Char) (hc : '#' ≠ c) (hq : c ≠ '"') (prev : Char) (r : Text) :=
      dropBlocks_cons keepDocs hc hq prev false r
    rw [scanBlock, withMark_eq, hb '|' (by decide) (by decide), hb '>' (by decide) (by decide),
      hb ' ' (by decide) (by decide), scanBlock,
      dropBlocks_prev keepDocs false lineStart (by decide) (by decide)]
    cases dropBlocks keepDocs false lineStart false t <;> rfl
  have hne : withMark t ≠ blockOpen := by simp [withMark_eq, blockOpen]
  rw [stripBlock, if_neg hne, hasMarker_withMark, hscan, stripBlock]
  by_cases hl : t = blockOpen
  · subst hl
    cases keepDocs <;> cases active <;> rfl
  · rw [if_neg hl]
    split <;> rfl

theorem resume_withMark (t : Text) (active : Bool) : resume (withMark t) active =
    { resume t active with consumed := withMark (resume t active).consumed } := by
  unfold resume
  rw [blockClose, cut_withMark foreign_star]
  cases Text.cut ['*', '#'] t <;> rfl

end Comment

namespace LocalFunctions

open Keyword

theorem expandFrom_prev (fs : LocalFunctions) {prev : Char} (prev' : Char) (h : prev ≠ '\\')
    (h' : prev' ≠ '\\') (hn : Text.isNameChar prev = false) (hn' : Text.isNameChar prev' = false)
    (quoted : Bool) (t : Text) :
    fs.expandFrom 0 prev quoted t = fs.expandFrom 0 prev' quoted t := by
  cases t with
  | nil => rfl
  | cons c r => rw [expandFrom, expandFrom, Comment.quotedAfter_prev h h', hn, hn']

theorem expandFrom_cons (fs : LocalFunctions) {c : Char} (hc : Text.isNameChar c = false)
    (hq : c ≠ '"') (prev : Char) (quoted : Bool) (t : Text) :
    fs.expandFrom 0 prev quoted (c :: t) = (fs.expandFrom 0 c quoted t).map (c :: ·) := by
  simp [expandFrom, Comment.quotedAfter_plain hq, hc]

theorem expandOnce_withMark (fs : LocalFunctions) (t : Text) :
    fs.expandOnce (withMark t) = (fs.expandOnce t).map withMark := by
  rw [expandOnce, withMark_eq, expandFrom_cons fs (by decide) (by decide),
    expandFrom_cons fs (by decide) (by decide), expandFrom_cons fs (by decide) (by decide),
    expandFrom_prev fs Comment.lineStart (by decide) (by decide) (by decide) (by decide),
    Option.map_map, Option.map_map, expandOnce]
  rfl

theorem expandWithin_withMark (fs : LocalFunctions) (passes : Nat) (t : Text) :
    fs.expandWithin passes (withMark t) = withMark (fs.expandWithin passes t) := by
  induction passes generalizing t with
  | zero => rfl
  | succ n ih =>
    rw [expandWithin, expandWithin, expandOnce_withMark]
    cases fs.expandOnce t with
    | none => rfl
    | some u => exact ih u

theorem substitute_withMark (fs : LocalFunctions) (t : Text) :
    fs.substitute (withMark t) = withMark (fs.substitute t) := by
  rw [substitute, substitute, expandWithin_withMark]
  split <;> rfl

theorem define_withMark (fs : LocalFunctions) {t : Text}
    (h : Text.startsWith breakMark t = false) : fs.define (withMark t) = fs.define t := by
  have htext : LocalFunction.definitionText (withMark t) = LocalFunction.definitionText t := by
    rw [LocalFunction.definitionText, unmarked_withMark h, LocalFunction.definitionText]
  rw [define, LocalFunction.parse, htext, define, LocalFunction.parse]

end LocalFunctions

end ScriptFeed
