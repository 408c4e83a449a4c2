import ScriptFeed.Proofs.SettingValues

namespace ScriptFeed

namespace Text

variable {x : Char}

theorem not_mem_pieces {p t : Text} (h : p ∈ pieces x t) : x ∉ p := by
  induction t generalizing p with
  | nil =>
    rw [pieces, List.mem_singleton] at h
    rw [h]
    exact List.not_mem_nil
  | cons c t ih =>
    obtain ⟨q, ps, hq⟩ := List.exists_cons_of_ne_nil (pieces_ne_nil x t)
    rw [hq] at ih
    by_cases hc : c = x
    · rw [pieces, if_pos hc, hq] at h
      rcases List.mem_cons.mp h with rfl | h
      · exact List.not_mem_nil
      · exact ih h
    · rw [pieces, if_neg hc, hq] at h
      rcases List.mem_cons.mp h with rfl | h
      · rw [List.mem_cons, not_or]
        exact ⟨Ne.symm hc, ih List.mem_cons_self⟩
      · exact ih (List.mem_cons_of_mem q h)

theorem pieces_join {ps : List Text} (hne : ps ≠ []) (h : ∀ p ∈ ps, x ∉ p) :
    pieces x (join x ps) = ps := by
  induction ps with
  | nil => exact absurd rfl hne
  | cons p ps ih =>
    obtain ⟨hp, hps⟩ := List.forall_mem_cons.mp h
    cases ps with
    | nil => exact pieces_of_free hp
    | cons q ps => rw [join, pieces_append hp, ih (List.cons_ne_nil q ps) hps]

end Text

namespace Settings

variable {s : Settings} {n : Nat} {line t : Text} {ls : List Text} {m : Mistake} {r : Report}

def command (line : Text) : Text := (Text.trim line).takeWhile (!Text.isAsciiBlank ·)

theorem command_directive (h : directive? line = some t) : command line = "set".toList := by
  unfold directive? at h
  dsimp only at h
  split at h
  · exact absurd h (by simp)
  · split at h
    · assumption
    · exact absurd h (by simp)

theorem command_refused (h : s.applyLine line = .error m) : command line = "set".toList := by
  unfold applyLine at h
  cases hd : directive? line with
  | none =>
    rw [hd] at h
    exact absurd h (by simp)
  | some t => exact command_directive hd

theorem applyLine_blank (h : Text.trim line = []) (s : Settings) : s.applyLine line = .ok s := by
  have hnone : directive? line = none := by
    unfold directive?
    rw [h]
    rfl
  rw [applyLine, hnone]

def past (s : Settings) (line : Text) : Settings := (s.applyLine line).toOption.getD s

def refusal (n : Nat) (s : Settings) (line : Text) : List Report :=
  match s.applyLine line with
  | .ok _ => []
  | .error mistake => [⟨n, mistake⟩]

theorem past_refused (h : s.applyLine line = .error m) : s.past line = s := by
  rw [past, h]
  rfl

theorem past_blank (h : Text.trim line = []) (s : Settings) : s.past line = s := by
  rw [past, applyLine_blank h]
  rfl

theorem refusal_blank (h : Text.trim line = []) (n : Nat) (s : Settings) :
    refusal n s line = [] := by
  rw [refusal, applyLine_blank h]

theorem mem_refusal : r ∈ refusal n s line ↔ r.line = n ∧ s.applyLine line = .error r.mistake := by
  unfold refusal
  cases s.applyLine line with
  | ok s' => simp
  | error mistake =>
    obtain ⟨k, m⟩ := r
    simp [eq_comm]

theorem applyLines_cons (n : Nat) (s : Settings) (line : Text) (ls : List Text) :
    applyLines n s (line :: ls) = ((applyLines (n + 1) (s.past line) ls).1,
      refusal n s line ++ (applyLines (n + 1) (s.past line) ls).2) := by
  rw [applyLines, past, refusal]
  cases s.applyLine line <;> rfl

theorem applyLines_append (n : Nat) (s : Settings) (a b : List Text) :
    applyLines n s (a ++ b) = ((applyLines (n + a.length) (applyLines n s a).1 b).1,
      (applyLines n s a).2 ++ (applyLines (n + a.length) (applyLines n s a).1 b).2) := by
  induction a generalizing n s with
  | nil => rfl
  | cons line a ih =>
    have hn : n + 1 + a.length = n + (line :: a).length := by
      rw [List.length_cons]
      omega
    rw [List.cons_append, applyLines_cons, applyLines_cons, ih, hn, List.append_assoc]

theorem apply_pieces (s : Settings) (t : Text) :
    s.apply t = applyLines 1 s (Text.pieces '\n' t) := by
  unfold apply lines
  split
  next r hr =>
    have hpieces : Text.pieces '\n' t = r.reverse ++ [[]] := by
      rw [← List.reverse_reverse (Text.pieces '\n' t), hr, List.reverse_cons]
    rw [hpieces, applyLines_append, applyLines_cons, past_blank rfl, refusal_blank rfl]
    simp [applyLines]
  · rfl

theorem mem_reports : r ∈ (applyLines n s ls).2 ↔ ∃ before line rest, ls = before ++ line :: rest ∧
    r.line = n + before.length ∧ (applyLines n s before).1.applyLine line = .error r.mistake := by
  constructor
  · intro hr
    induction ls generalizing n s with
    | nil => exact absurd hr List.not_mem_nil
    | cons first ls ih =>
      rw [applyLines_cons] at hr
      rcases List.mem_append.mp hr with hr | hr
      · obtain ⟨hline, herror⟩ := mem_refusal.mp hr
        exact ⟨[], first, ls, rfl, hline, herror⟩
      · obtain ⟨before, line, rest, rfl, hline, herror⟩ := ih hr
        refine ⟨first :: before, line, rest, rfl, ?_, ?_⟩
        · rw [hline, List.length_cons]
          omega
        · rwa [applyLines_cons]
  · rintro ⟨before, line, rest, rfl, hline, herror⟩
    rw [applyLines_append, applyLines_cons]
    exact List.mem_append_right _ (List.mem_append_left _ (mem_refusal.mpr ⟨hline, herror⟩))

theorem le_of_mem_reports (h : r ∈ (applyLines n s ls).2) : n ≤ r.line := by
  obtain ⟨before, -, -, -, hline, -⟩ := mem_reports.mp h
  omega

theorem reports_ascend (n : Nat) (s : Settings) (ls : List Text) :
    (applyLines n s ls).2.Pairwise (·.line < ·.line) := by
  induction ls generalizing n s with
  | nil => exact .nil
  | cons line ls ih =>
    rw [applyLines_cons, List.pairwise_append]
    refine ⟨?_, ih (n + 1) (s.past line), ?_⟩
    · unfold refusal
      cases s.applyLine line with
      | ok s' => exact .nil
      | error m => exact List.pairwise_singleton _ _
    · intro r hr r' hr'
      have hle := le_of_mem_reports hr'
      have heq := (mem_refusal.mp hr).1
      omega

def blankLines (fill : Text → Text) (numbers : List Nat) : (n : Nat) → List Text → List Text
  | _, [] => []
  | n, line :: r => (if n ∈ numbers then fill line else line) :: blankLines fill numbers (n + 1) r

def blankOut (fill : Text → Text) (numbers : List Nat) (t : Text) : Text :=
  Text.join '\n' (blankLines fill numbers 1 (Text.pieces '\n' t))

variable {fill : Text → Text} {numbers : List Nat}

theorem applyLines_blankLines (hfill : ∀ line, Text.trim (fill line) = [])
    (hnumbers : ∀ k ∈ numbers, n ≤ k → ∃ r ∈ (applyLines n s ls).2, r.line = k) :
    applyLines n s (blankLines fill numbers n ls) =
      ((applyLines n s ls).1, (applyLines n s ls).2.filter (·.line ∉ numbers)) := by
  induction ls generalizing n s with
  | nil => rfl
  | cons line ls ih =>
    rw [applyLines_cons] at hnumbers
    have htail : ∀ k ∈ numbers, n + 1 ≤ k →
        ∃ r ∈ (applyLines (n + 1) (s.past line) ls).2, r.line = k := by
      intro k hk hle
      obtain ⟨r, hr, rfl⟩ := hnumbers k hk (by omega)
      rcases List.mem_append.mp hr with hr | hr
      · have heq := (mem_refusal.mp hr).1
        omega
      · exact ⟨r, hr, rfl⟩
    rw [blankLines, applyLines_cons, applyLines_cons, List.filter_append]
    by_cases hn : n ∈ numbers
    · -- the line is refused, for its number is reported and the lines behind it have greater ones
      obtain ⟨r, hr, hline⟩ := hnumbers n hn le_rfl
      have hrefused : s.applyLine line = .error r.mistake := by
        rcases List.mem_append.mp hr with hr | hr
        · exact (mem_refusal.mp hr).2
        · have hle := le_of_mem_reports hr
          omega
      have hdropped : (refusal n s line).filter (·.line ∉ numbers) = [] := by
        rw [List.filter_eq_nil_iff]
        intro r hr
        rw [(mem_refusal.mp hr).1]
        simp [hn]
      rw [past_refused hrefused] at htail ⊢
      rw [if_pos hn, past_blank (hfill line), refusal_blank (hfill line), hdropped, ih htail]
    · have hkept : (refusal n s line).filter (·.line ∉ numbers) = refusal n s line := by
        rw [List.filter_eq_self]
        intro r hr
        rw [(mem_refusal.mp hr).1]
        simp [hn]
      rw [if_neg hn, hkept, ih htail]

theorem not_mem_blankLines (hfill : ∀ line, '\n' ∉ fill line) (h : ∀ line ∈ ls, '\n' ∉ line) :
    ∀ line ∈ blankLines fill numbers n ls, '\n' ∉ line := by
  induction ls generalizing n with
  | nil => exact h
  | cons line ls ih =>
    obtain ⟨hline, hls⟩ := List.forall_mem_cons.mp h
    rw [blankLines, List.forall_mem_cons]
    refine ⟨?_, ih hls⟩
    split
    · exact hfill line
    · exact hline

theorem apply_blankOut (hfill : ∀ line, Text.trim (fill line) = [] ∧ '\n' ∉ fill line)
    (hnumbers : ∀ k ∈ numbers, ∃ r ∈ (s.apply t).2, r.line = k) :
    s.apply (blankOut fill numbers t) =
      ((s.apply t).1, (s.apply t).2.filter (·.line ∉ numbers)) := by
  have hpieces : Text.pieces '\n' (blankOut fill numbers t) =
      blankLines fill numbers 1 (Text.pieces '\n' t) := by
    apply Text.pieces_join
    · obtain ⟨p, ps, hp⟩ := List.exists_cons_of_ne_nil (Text.pieces_ne_nil '\n' t)
      rw [hp]
      exact List.cons_ne_nil _ _
    · exact not_mem_blankLines (fun line => (hfill line).2) fun _ => Text.not_mem_pieces
  rw [apply_pieces] at hnumbers
  rw [apply_pieces, apply_pieces, hpieces]
  exact applyLines_blankLines (fun line => (hfill line).1) fun k hk _ => hnumbers k hk

def reached (s : Settings) (ls : List Text) : Settings := (applyLines 1 s ls).1

theorem reached_refused {before : List Text} (h : (s.reached before).applyLine line = .error m) :
    s.reached (before ++ [line]) = s.reached before := by
  rw [reached, applyLines_append, applyLines_cons, ← reached, past_refused h]
  rfl

/-- The reports of a text go by ascending numbers of `set` lines. A line is reported exactly if it
is refused where the lines before it have led, and it leaves the settings as they are. With any
reported lines blanked out, the text comes to the same settings and to the other reports. -/
theorem faulty_lines_passed_over (s : Settings) (t : Text) (fill : Text → Text)
    (hfill : ∀ line, Text.trim (fill line) = [] ∧ '\n' ∉ fill line) :
    ((s.apply t).2.map Report.line).Pairwise (· < ·) ∧
    (∀ r ∈ (s.apply t).2, ∃ before line rest, lines t = before ++ line :: rest ∧
      r.line = before.length + 1 ∧ command line = "set".toList ∧
      (s.reached before).applyLine line = .error r.mistake ∧
      s.reached (before ++ [line]) = s.reached before) ∧
    (∀ before line rest m, lines t = before ++ line :: rest →
      (s.reached before).applyLine line = .error m → ⟨before.length + 1, m⟩ ∈ (s.apply t).2) ∧
    (∀ numbers, (∀ k ∈ numbers, ∃ r ∈ (s.apply t).2, r.line = k) →
      s.apply (blankOut fill numbers t) =
        ((s.apply t).1, (s.apply t).2.filter (·.line ∉ numbers))) ∧
    s.apply (blankOut fill ((s.apply t).2.map Report.line) t) = ((s.apply t).1, []) := by
  refine ⟨List.pairwise_map.mpr (reports_ascend 1 s (lines t)), ?_, ?_, ?_, ?_⟩
  · intro r hr
    obtain ⟨before, line, rest, hlines, hline, hrefused⟩ := mem_reports.mp hr
    exact ⟨before, line, rest, hlines, by omega, command_refused hrefused, hrefused,
      reached_refused hrefused⟩
  · intro before line rest m hlines hrefused
    exact mem_reports.mpr ⟨before, line, rest, hlines, Nat.add_comm _ _, hrefused⟩
  · intro numbers hnumbers
    exact apply_blankOut hfill hnumbers
  · have hnone : (s.apply t).2.filter (·.line ∉ (s.apply t).2.map Report.line) = [] := by
      rw [List.filter_eq_nil_iff]
      intro r hr
      simp [List.mem_map_of_mem (f := Report.line) hr]
    rw [apply_blankOut hfill fun k hk => List.mem_map.mp hk, hnone]

def mixedText : Text :=
  "set colour=blue\n  set runtime_version x\r\nset exe_dir=/opt\nset yes_answer=\"\"\nprint".toList

theorem faulty_lines_passed_over_mixed :
    (rooted ⟨[]⟩).apply mixedText = (rooted ⟨"/opt".toList⟩,
      [⟨1, .unknown "colour".toList⟩, ⟨2, .badVersion "x".toList⟩, ⟨4, .emptyYes⟩]) ∧
    blankOut (fun _ => []) [1, 2, 4] mixedText = "\n\nset exe_dir=/opt\n\nprint".toList ∧
    (rooted ⟨[]⟩).apply (blankOut (fun _ => []) [1, 2, 4] mixedText) =
      (rooted ⟨"/opt".toList⟩, []) := by
  have happly : (rooted ⟨[]⟩).apply mixedText = (rooted ⟨"/opt".toList⟩,
      [⟨1, .unknown "colour".toList⟩, ⟨2, .badVersion "x".toList⟩, ⟨4, .emptyYes⟩]) := by
    decide +kernel
  obtain ⟨-, -, -, -, hblank⟩ := faulty_lines_passed_over (rooted ⟨[]⟩) mixedText (fun _ => [])
    fun _ => ⟨rfl, List.not_mem_nil⟩
  rw [happly] at hblank
  exact ⟨happly, by decide +kernel, hblank⟩

end Settings

end ScriptFeed
