import ScriptFeed.Proofs.Scanning

namespace ScriptFeed.Comment

variable {t u v : Text} {i : Nat}

def isRemark (t : Text) (i : Nat) : Bool :=
  quotes (t.take i) % 2 == 0 && Text.startsWith lineMark (t.drop i)

def remarkAt? (t : Text) : Option Nat := (List.range t.length).find? (isRemark t)

def Unremarked (t : Text) : Prop := ∀ u v, t = u ++ lineMark ++ v → quotes u % 2 = 1

theorem isRemark_append (u v : Text) :
    isRemark (u ++ lineMark ++ v) u.length = true ↔ quotes u % 2 = 0 := by
  have hstart : Text.startsWith lineMark (lineMark ++ v) = true := Text.startsWith_iff.mpr ⟨v, rfl⟩
  rw [isRemark, List.append_assoc, List.take_left, List.drop_left, hstart, Bool.and_true,
    beq_iff_eq]

theorem isRemark_split (h : isRemark t i = true) :
    ∃ u v, t = u ++ lineMark ++ v ∧ u.length = i ∧ quotes u % 2 = 0 := by
  rw [isRemark, Bool.and_eq_true, beq_iff_eq] at h
  obtain ⟨v, hv⟩ := Text.startsWith_iff.mp h.2
  have hsplit : t = t.take i ++ lineMark ++ v := by
    rw [List.append_assoc, ← hv, List.take_append_drop]
  have hlength := congrArg List.length hv
  simp only [List.length_drop, List.length_append, lineMark, List.length_cons, List.length_nil]
    at hlength
  exact ⟨t.take i, v, hsplit, by rw [List.length_take]; omega, h.1⟩

theorem remarkAt?_eq_none : remarkAt? t = none ↔ Unremarked t := by
  rw [remarkAt?, List.find?_range_eq_none]
  constructor
  · rintro h u v rfl
    have hplace := h u.length (by simp [lineMark])
    rw [Bool.not_eq_true', ← Bool.not_eq_true, isRemark_append] at hplace
    omega
  · intro h i _
    rw [Bool.not_eq_true', ← Bool.not_eq_true]
    intro hplace
    obtain ⟨u, v, ht, -, heven⟩ := isRemark_split hplace
    have hodd := h u v ht
    omega

theorem remarkAt?_append (heven : quotes u % 2 = 0)
    (hfirst : ∀ u' v', u ++ lineMark ++ v = u' ++ lineMark ++ v' → u'.length < u.length →
      quotes u' % 2 = 1) : remarkAt? (u ++ lineMark ++ v) = some u.length := by
  rw [remarkAt?, List.find?_range_eq_some, isRemark_append]
  refine ⟨heven, by simp [lineMark], fun j hj => ?_⟩
  rw [Bool.not_eq_true', ← Bool.not_eq_true]
  intro hplace
  obtain ⟨u', v', hsplit, rfl, heven'⟩ := isRemark_split hplace
  have hodd := hfirst u' v' hsplit hj
  omega

theorem stripLine_eq (line : Text) (keepDocs : Bool) : stripLine line keepDocs =
    (remarkAt? line).elim line fun i =>
      if keepDocs = true ∧ Text.startsWith lineDocMark (line.drop i) = true then line
      else line.take i := by
  have hquotes (u : Text) := quotedThrough_quotes (by decide : lineStart ≠ '\\') u
  rw [stripLine_scan, scanLine]
  rcases beforeLineMark_first keepDocs lineStart false line with
    ⟨hscan, hall⟩ | ⟨u, v, rfl, hu, hfirst, hscan⟩
  · have hnone : remarkAt? line = none := by
      refine remarkAt?_eq_none.mpr fun u v hsplit => ?_
      have hquoted := hall u v hsplit
      rwa [hquotes, decide_eq_true_eq] at hquoted
    rw [hscan, hnone]
    rfl
  · have heven : quotes u % 2 = 0 := by
      rw [hquotes, decide_eq_false_iff_not] at hu
      omega
    have hplace : remarkAt? (u ++ lineMark ++ v) = some u.length := by
      refine remarkAt?_append heven fun u' v' hsplit hlt => ?_
      have hquoted := hfirst u' v' hsplit hlt
      rwa [hquotes, decide_eq_true_eq] at hquoted
    have hdrop : (u ++ lineMark ++ v).drop u.length = lineMark ++ v := by
      rw [List.append_assoc, List.drop_left]
    have htake : (u ++ lineMark ++ v).take u.length = u := by
      rw [List.append_assoc, List.take_left]
    rw [hscan, hplace, Option.elim_some, hdrop, htake]
    split <;> rfl

theorem Unremarked.stripLine (h : Unremarked t) (keepDocs : Bool) : stripLine t keepDocs = t := by
  rw [stripLine_eq, remarkAt?_eq_none.mpr h]
  rfl

theorem unremarked_take (h : remarkAt? t = some i) : Unremarked (t.take i) := by
  rw [remarkAt?, List.find?_range_eq_some] at h
  obtain ⟨-, hi, hfirst⟩ := h
  intro u v hsplit
  have hshort := congrArg List.length hsplit
  simp only [List.length_take, List.length_append, lineMark, List.length_cons, List.length_nil]
    at hshort
  have hbefore := hfirst u.length (by omega)
  have hwhole : t = u ++ lineMark ++ (v ++ t.drop i) := by
    rw [← List.append_assoc, ← hsplit, List.take_append_drop]
  rw [Bool.not_eq_true', ← Bool.not_eq_true, hwhole, isRemark_append] at hbefore
  omega

theorem stripLine_cases (line : Text) (keepDocs : Bool) :
    Unremarked (stripLine line keepDocs) ∨ keepDocs = true ∧ stripLine line keepDocs = line := by
  rw [stripLine_eq]
  cases h : remarkAt? line with
  | none => exact .inl (remarkAt?_eq_none.mp h)
  | some i =>
    rw [Option.elim_some]
    split
    next hdoc => exact .inr ⟨hdoc.1, rfl⟩
    · exact .inl (unremarked_take h)

theorem stripLine_stripLine (line : Text) (keepDocs : Bool) :
    stripLine (stripLine line keepDocs) keepDocs = stripLine line keepDocs := by
  rcases stripLine_cases line keepDocs with h | ⟨-, h⟩
  · exact h.stripLine keepDocs
  · rw [h, h]

theorem remarkAt?_of_unremarked (heven : quotes t % 2 = 0) (h : Unremarked t)
    (hlast : t.getLast? ≠ some '#') (comment : Text) :
    remarkAt? (t ++ lineMark ++ comment) = some t.length := by
  refine remarkAt?_append heven fun u v hsplit hlt => ?_
  have hmark : u ++ ['#'] <+: t ++ lineMark ++ comment :=
    ⟨'#' :: v, by rw [hsplit]; simp [lineMark]⟩
  have htext : t <+: t ++ lineMark ++ comment := ⟨lineMark ++ comment, by simp⟩
  obtain ⟨w, rfl⟩ := List.prefix_of_prefix_length_le hmark htext (by rwa [List.length_append])
  cases w with
  | nil => exact absurd (by simp) hlast
  | cons c w =>
    -- the second sign of the mark is in the text as well
    have hc : c = '#' := by
      simp only [lineMark, List.append_assoc, List.append_cancel_left_eq, List.cons_append,
        List.nil_append, List.cons.injEq, true_and] at hsplit
      exact hsplit.1
    subst hc
    exact h u w (by simp [lineMark])

theorem line_comment_exact (line : Text) (keepDocs : Bool) :
    stripLine line keepDocs = ((remarkAt? line).elim line fun i =>
      if keepDocs = true ∧ Text.startsWith lineDocMark (line.drop i) = true then line
      else line.take i) ∧
    stripLine line keepDocs <+: line ∧
    Unremarked (stripLine line false) ∧
    stripLine (stripLine line keepDocs) keepDocs = stripLine line keepDocs ∧
    ∀ t comment, quotes t % 2 = 0 → Unremarked t → t.getLast? ≠ some '#' →
      stripLine (t ++ lineMark ++ comment) false = t := by
  refine ⟨stripLine_eq line keepDocs, stripLine_begins line keepDocs,
    (stripLine_cases line false).resolve_right (by simp), stripLine_stripLine line keepDocs, ?_⟩
  intro t comment heven h hlast
  rw [stripLine_eq, remarkAt?_of_unremarked heven h hlast, List.append_assoc, Option.elim_some,
    List.take_left]
  simp

theorem line_comment_exact_quoted :
    stripLine "say \"## \\\"\" # ##! or \" ##".toList false = "say \"## \\\"\" # ".toList := by
  have h : Unremarked "say \"## \\\"\" # ".toList := remarkAt?_eq_none.mp (by decide)
  exact (line_comment_exact [] false).2.2.2.2 _ "! or \" ##".toList (by decide) h (by decide)

end ScriptFeed.Comment
