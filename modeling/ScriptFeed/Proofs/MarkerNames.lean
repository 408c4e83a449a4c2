import ScriptFeed.Inclusion.Marker
import ScriptFeed.Proofs.Cutting

namespace ScriptFeed

namespace Scope

def suffix : Scope → Text
  | all => []
  | defines => ":defines".toList
  | globals => ":globals".toList
  | procedures => ":procedures".toList

theorem ofSuffix_suffix (s : Scope) : ofSuffix s.suffix = s := by
  cases s <;> decide

theorem suffix_cases (s : Scope) :
    s.suffix = [] ∨ ∃ word, s.suffix = ':' :: word ∧ ∀ c ∈ word, Text.isNameChar c = true := by
  cases s with
  | all => exact .inl rfl
  | defines => exact .inr ⟨"defines".toList, rfl, List.all_eq_true.mp (by decide)⟩
  | globals => exact .inr ⟨"globals".toList, rfl, List.all_eq_true.mp (by decide)⟩
  | procedures => exact .inr ⟨"procedures".toList, rfl, List.all_eq_true.mp (by decide)⟩

end Scope

namespace Marker

def inQuotes (name : Text) (scope : Scope) : Text := '@' :: '"' :: (name ++ '"' :: scope.suffix)

def unquoted (name : Text) (scope : Scope) : Text := '@' :: (name ++ scope.suffix)

def Unbroken (t : Text) : Prop := ' ' ∉ t ∧ '"' ∉ t ∧ ':' ∉ t

instance (t : Text) : Decidable (Unbroken t) := inferInstanceAs (Decidable (_ ∧ _ ∧ _))

/-- The names that need no quotes: those without a break, and those on a drive. -/
inductive Bare : Text → Prop
  | plain {name : Text} (hne : name ≠ []) (h : Unbroken name) : Bare name
  | drive {letter slash : Char} {rest : Text} (hletter : Text.isLetter letter = true)
      (hslash : slash = '/' ∨ slash = '\\') (h : Unbroken rest) :
      Bare (letter :: ':' :: slash :: rest)

variable {name suffix t : Text} {c : Char}

theorem takeWhile_unspaced (h : ' ' ∉ t) : t.takeWhile (· ≠ ' ') = t := by
  rw [List.takeWhile_eq_self_iff]
  intro c hc
  exact decide_eq_true (ne_of_mem_of_not_mem hc h)

theorem splitBare_whole (hspace : ' ' ∉ t) (hcolon : ':' ∉ t) : splitBare t = (t, []) := by
  rw [splitBare, takeWhile_unspaced hspace, Text.cutLast_eq_none hcolon, List.drop_length]

theorem splitBare_cut (hspace : ' ' ∉ t) (hcut : Text.cutLast ':' t = some (name, suffix)) :
    splitBare t = if isDriveColon name suffix then (t, []) else (name, ':' :: suffix) := by
  rw [splitBare, takeWhile_unspaced hspace, hcut, List.drop_length]
  simp only [List.append_nil]

theorem utf8Size_letter (h : Text.isLetter c = true) : c.utf8Size = 1 := by
  rw [Char.utf8Size_eq_one_iff]
  simp only [Text.isLetter, Bool.or_eq_true, Bool.and_eq_true, decide_eq_true_eq, Char.le_def] at h
  rcases h with h | h
  · exact UInt32.le_trans h.2 (by decide)
  · exact UInt32.le_trans h.2 (by decide)

theorem isDriveColon_word (before : Text) (h : ∀ c ∈ suffix, Text.isNameChar c = true) :
    isDriveColon before suffix = false := by
  unfold isDriveColon
  split
  · exact absurd (h '/' List.mem_cons_self) (by decide)
  · exact absurd (h '\\' List.mem_cons_self) (by decide)
  · rfl

theorem parse?_at (hspace : c ≠ ' ') (hquote : c ≠ '"') (r : Text) :
    parse? ('@' :: c :: r) = some ⟨(splitBare (c :: r)).1, .ofSuffix (splitBare (c :: r)).2⟩ := by
  rw [parse?, if_neg hspace]
  simpa using hquote

namespace Bare

theorem begins (h : Bare name) : ∃ c r, name = c :: r ∧ c ≠ ' ' ∧ c ≠ '"' := by
  cases h with
  | plain hne h =>
    obtain ⟨c, r, rfl⟩ := List.exists_cons_of_ne_nil hne
    exact ⟨c, r, rfl, Ne.symm (List.ne_of_not_mem_cons h.1),
      Ne.symm (List.ne_of_not_mem_cons h.2.1)⟩
  | @drive letter slash rest hletter hslash h =>
    have hname : Text.isNameChar letter = true := by
      rw [Text.isNameChar, hletter]
      rfl
    exact ⟨letter, ':' :: slash :: rest, rfl, Text.ne_of_isNameChar hname (by decide),
      Text.ne_of_isNameChar hname (by decide)⟩

theorem unspaced (h : Bare name) : ' ' ∉ name := by
  obtain ⟨c, r, hname, hc, -⟩ := h.begins
  cases h with
  | plain hne h => exact h.1
  | drive hletter hslash h =>
    have hfree := h.1
    grind

theorem splitBare_append (h : Bare name) (scope : Scope) :
    splitBare (name ++ scope.suffix) = (name, scope.suffix) := by
  have hname := h.unspaced
  rcases scope.suffix_cases with hnone | ⟨word, hsome, hword⟩
  · rw [hnone, List.append_nil]
    cases h with
    | plain hne h => exact splitBare_whole h.1 h.2.2
    | @drive letter slash rest hletter hslash h =>
      -- the only colon is that of the drive
      have hcolon : ':' ∉ slash :: rest := by
        have hfree := h.2.2
        grind
      have hdrive : isDriveColon [letter] (slash :: rest) = true := by
        rcases hslash with rfl | rfl
        · exact beq_iff_eq.mpr (utf8Size_letter hletter)
        · exact beq_iff_eq.mpr (utf8Size_letter hletter)
      rw [splitBare_cut hname (Text.cutLast_append hcolon [letter]), if_pos hdrive]
  · rw [hsome]
    have hspace : ' ' ∉ name ++ ':' :: word := by
      have hfree : ' ' ∉ word := Text.not_mem_word hword (by decide)
      grind
    have hcut : Text.cutLast ':' (name ++ ':' :: word) = some (name, word) :=
      Text.cutLast_append (Text.not_mem_word hword (by decide)) name
    rw [splitBare_cut hspace hcut, isDriveColon_word name hword]
    rfl

theorem parse?_unquoted (h : Bare name) (scope : Scope) :
    parse? (unquoted name scope) = some ⟨name, scope⟩ := by
  obtain ⟨c, r, rfl, hspace, hquote⟩ := h.begins
  have hsplit := h.splitBare_append scope
  rw [List.cons_append] at hsplit
  rw [unquoted, List.cons_append, parse?_at hspace hquote, hsplit, Scope.ofSuffix_suffix]

end Bare

theorem parse?_inQuotes (h : '"' ∉ name) (scope : Scope) :
    parse? (inQuotes name scope) = some ⟨name, scope⟩ := by
  have hcut : Text.cutAt '"' (name ++ '"' :: scope.suffix) = some (name, scope.suffix) :=
    Text.cut_append [] h scope.suffix
  rw [inQuotes, parse?, hcut]
  dsimp only
  rw [Scope.ofSuffix_suffix]

/-- A marker gives back the name and the scope that it was written with: in quotes every name
without a quote, and without them every name that needs none. -/
theorem marker_read_back (name : Text) (scope : Scope) :
    ('"' ∉ name → parse? (inQuotes name scope) = some ⟨name, scope⟩) ∧
    (Bare name → parse? (unquoted name scope) = some ⟨name, scope⟩) := by
  constructor
  · intro h
    exact parse?_inQuotes h scope
  · intro h
    exact h.parse?_unquoted scope

theorem marker_read_back_drive :
    inQuotes "C:/my defs:globals".toList .all = "@\"C:/my defs:globals\"".toList ∧
    parse? (inQuotes "C:/my defs:globals".toList .all) = some ⟨"C:/my defs:globals".toList, .all⟩ ∧
    parse? (unquoted "C".toList .procedures) = some ⟨"C".toList, .procedures⟩ ∧
    unquoted "C:/defs".toList .defines = "@C:/defs:defines".toList ∧
    parse? (unquoted "C:/defs".toList .defines) = some ⟨"C:/defs".toList, .defines⟩ :=
  ⟨by decide, (marker_read_back _ .all).1 (by decide),
    (marker_read_back _ .procedures).2 (.plain (by decide) (by decide)), by decide,
    (marker_read_back _ .defines).2 (.drive (by decide) (.inl rfl) (by decide))⟩

end Marker

end ScriptFeed
