import ScriptFeed.Proofs.Breakable

namespace ScriptFeed.Text

variable {a b p s t word : Text} {x c : Char}

theorem trimStart_eq_self : trimStart t = t ↔ ∀ c, t.head? = some c → isBlank c = false := by
  cases t with
  | nil => simp [trimStart]
  | cons c t =>
    by_cases hc : isBlank c = true
    · have hne : trimStart (c :: t) ≠ c :: t := by
        intro he
        have hlen := congrArg List.length he
        have hle := trimStart_length t
        rw [trimStart, List.dropWhile_cons_of_pos hc, ← trimStart, List.length_cons] at hlen
        omega
      simp [hne, hc]
    · rw [Bool.not_eq_true] at hc
      simp [trimStart_cons hc, hc]

theorem trimEnd_eq_self : trimEnd t = t ↔ ∀ c, t.getLast? = some c → isBlank c = false := by
  have hreverse : trimEnd t = t ↔ trimStart t.reverse = t.reverse := by
    rw [trimEnd, trimStart, List.reverse_eq_iff]
  rw [hreverse, trimStart_eq_self, List.head?_reverse]

theorem trimmed_iff : Trimmed t ↔ (∀ c, t.head? = some c → isBlank c = false) ∧
    ∀ c, t.getLast? = some c → isBlank c = false := by
  rw [← trimStart_eq_self, ← trimEnd_eq_self]
  constructor
  · intro h
    have hlen := congrArg List.length h
    have hle := trimEnd_length (trimStart t)
    rw [trim] at hlen
    have hstart : trimStart t = t :=
      (List.dropWhile_suffix isBlank).eq_of_length_le (by rw [← trimStart]; omega)
    refine ⟨hstart, ?_⟩
    rw [Trimmed, trim, hstart] at h
    exact h
  · rintro ⟨hstart, hend⟩
    rw [Trimmed, trim, hstart, hend]

theorem Trimmed.append (ha : a ≠ []) (hb : b ≠ [])
    (hstart : ∀ c, a.head? = some c → isBlank c = false)
    (hend : ∀ c, b.getLast? = some c → isBlank c = false) : Trimmed (a ++ b) := by
  rw [trimmed_iff, List.head?_append_of_ne_nil a ha, List.getLast?_append_of_ne_nil a hb]
  exact ⟨hstart, hend⟩

theorem trim_cons_blank (hc : isBlank c = true) (t : Text) : trim (c :: t) = trim t := by
  rw [trim, trimStart, List.dropWhile_cons_of_pos hc, ← trimStart, ← trim]

theorem trim_concat_blank (hc : isBlank c = true) (t : Text) : trim (t ++ [c]) = trim t := by
  have hend : trimEnd (t ++ [c]) = trimEnd t := by
    rw [trimEnd, List.reverse_concat, List.dropWhile_cons_of_pos hc, ← trimEnd]
  rw [← trimStart_trimEnd, hend, trimStart_trimEnd]

theorem isNameChar_range (h : isNameChar c = true) : 48 ≤ c.toNat ∧ c.toNat ≤ 122 := by
  simp only [isNameChar, isLetter, isDigit, Bool.or_eq_true, Bool.and_eq_true, decide_eq_true_eq,
    beq_iff_eq, Char.le_def, UInt32.le_iff_toNat_le] at h
  rcases h with ((h | h) | h) | rfl
  · exact ⟨le_trans (by decide) h.1, h.2⟩
  · exact ⟨le_trans (by decide) h.1, le_trans h.2 (by decide)⟩
  · exact ⟨h.1, le_trans h.2 (by decide)⟩
  · decide

theorem isBlank_of_isNameChar (h : isNameChar c = true) : isBlank c = false := by
  -- the characters of names lie between the blanks below 48 and those above 122
  have hrange := isNameChar_range h
  rw [← Bool.not_eq_true]
  intro hblank
  simp only [isBlank, Bool.or_eq_true, Bool.and_eq_true, decide_eq_true_eq, beq_iff_eq] at hblank
  omega

theorem ne_of_isNameChar (hc : isNameChar c = true) (hx : isNameChar x = false) : c ≠ x := by
  rintro rfl
  rw [hc] at hx
  exact absurd hx (by simp)

theorem not_mem_word (hword : ∀ c ∈ word, isNameChar c = true) (hc : isNameChar c = false) :
    c ∉ word := by
  intro hmem
  exact ne_of_isNameChar (hword c hmem) hc rfl

theorem isIdentifier_word (h : isIdentifier word = true) :
    word ≠ [] ∧ ∀ c ∈ word, isNameChar c = true := by
  cases word with
  | nil => simp [isIdentifier] at h
  | cons c word =>
    rw [isIdentifier, Bool.and_eq_true, List.all_eq_true] at h
    exact ⟨List.cons_ne_nil c word, h.2⟩

theorem word_trimmed (hword : ∀ c ∈ word, isNameChar c = true) : Trimmed word := by
  rw [trimmed_iff]
  constructor
  · intro c hc
    exact isBlank_of_isNameChar (hword c (List.mem_of_head? hc))
  · intro c hc
    exact isBlank_of_isNameChar (hword c (List.mem_of_getLast? hc))

theorem cut_append (ps : Text) (h : x ∉ a) (t : Text) :
    cut (x :: ps) (a ++ (x :: ps ++ t)) = some (a, t) := by
  induction a with
  | nil => exact cut_self_append x ps t
  | cons c a ih =>
    rw [List.cons_append, cut_cons_ne (List.ne_of_not_mem_cons h),
      ih (List.not_mem_of_not_mem_cons h)]
    rfl

theorem cutLast_eq_none (h : x ∉ t) : cutLast x t = none := by
  induction t with
  | nil => rfl
  | cons c t ih =>
    rw [cutLast, ih (List.not_mem_of_not_mem_cons h)]
    exact if_neg (Ne.symm (List.ne_of_not_mem_cons h))

theorem cutLast_append (h : x ∉ b) (a : Text) : cutLast x (a ++ x :: b) = some (a, b) := by
  induction a with
  | nil =>
    rw [List.nil_append, cutLast, cutLast_eq_none h]
    exact if_pos rfl
  | cons c a ih => rw [List.cons_append, cutLast, ih]

theorem cutLast_eq_some (h : cutLast x t = some (a, b)) : t = a ++ x :: b := by
  induction t generalizing a with
  | nil => cases h
  | cons c t ih =>
    rw [cutLast] at h
    split at h
    next a' b' hcut =>
      cases h
      rw [ih hcut, List.cons_append]
    · split at h
      next hc =>
        cases h
        rw [hc, List.nil_append]
      · cases h

theorem pieces_of_free (h : x ∉ t) : pieces x t = [t] := by
  induction t with
  | nil => rfl
  | cons c t ih =>
    rw [pieces, if_neg (Ne.symm (List.ne_of_not_mem_cons h)), ih (List.not_mem_of_not_mem_cons h)]

theorem pieces_append (h : x ∉ p) (t : Text) : pieces x (p ++ x :: t) = p :: pieces x t := by
  induction p with
  | nil => rw [List.nil_append, pieces, if_pos rfl]
  | cons c p ih =>
    rw [List.cons_append, pieces, if_neg (Ne.symm (List.ne_of_not_mem_cons h)),
      ih (List.not_mem_of_not_mem_cons h)]

def commaList (ps : List Text) : Text := List.intercalate [',', ' '] ps

theorem commaList_cons (p q : Text) (ps : List Text) :
    commaList (p :: q :: ps) = p ++ ',' :: ' ' :: commaList (q :: ps) := by
  simp [commaList, List.intercalate_cons_cons]

theorem pieces_ne_nil (x : Char) (t : Text) : pieces x t ≠ [] := by
  cases t with
  | nil => exact List.cons_ne_nil _ _
  | cons c t =>
    rw [pieces]
    split
    · exact List.cons_ne_nil _ _
    · split <;> exact List.cons_ne_nil _ _

theorem pieces_cons_blank (hc : isBlank c = true) (hx : c ≠ x) (t : Text) :
    (pieces x (c :: t)).map trim = (pieces x t).map trim := by
  obtain ⟨p, ps, hp⟩ := List.exists_cons_of_ne_nil (pieces_ne_nil x t)
  rw [pieces, if_neg hx, hp, List.map_cons, List.map_cons, trim_cons_blank hc]

theorem pieces_commaList {ps : List Text} (hne : ps ≠ []) (h : ∀ p ∈ ps, ',' ∉ p) :
    (pieces ',' (commaList ps)).map trim = ps.map trim := by
  induction ps with
  | nil => exact absurd rfl hne
  | cons p ps ih =>
    obtain ⟨hp, hps⟩ := List.forall_mem_cons.mp h
    cases ps with
    | nil => rw [commaList, List.intercalate_singleton, pieces_of_free hp, List.map_singleton]
    | cons q ps =>
      -- the space behind the comma begins the next piece and is trimmed away
      rw [commaList_cons, pieces_append hp, List.map_cons,
        pieces_cons_blank (by decide) (by decide), ih (List.cons_ne_nil q ps) hps]
      rfl

end ScriptFeed.Text
