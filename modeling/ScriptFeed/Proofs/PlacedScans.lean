import ScriptFeed.Proofs.ClosedComments

namespace ScriptFeed.Comment

def passQuote (t : Text) (i n : Nat) : Nat :=
  if t[i]? = some '"' ∧ (i = 0 ∨ t[i - 1]? ≠ some '\\') then n + 1 else n

def lineFrom (keepDocs : Bool) (line : Text) (i n : Nat) : Text :=
  if i < line.length then
    let n := passQuote line i n
    if n % 2 = 0 ∧ keepDocs = true ∧ Text.startsWith lineDocMark (line.drop i) = true then line
    else if n % 2 = 0 ∧ Text.startsWith lineMark (line.drop i) = true then line.take i
    else lineFrom keepDocs line (i + 1) n
  else line
termination_by line.length - i

/-- The scan for block comments from a place of `t` on, behind `n` quotes: `t` is what `line` was
at the beginning, less the comments that are cut out of it. -/
def blocksFrom (keepDocs : Bool) (line : Text) (active : Bool) (t : Text) (i n : Nat) :
    Text × Bool :=
  if i < t.length then
    let n := passQuote t i n
    if n % 2 = 0 ∧ keepDocs = true ∧ Text.startsWith blockDocOpen (t.drop i) = true then
      (line, active)
    else if n % 2 = 0 ∧ Text.startsWith blockOpen (t.drop i) = true then
      match _hcut : Text.cut blockClose (t.drop (i + blockOpen.length)) with
      -- the place is looked at again: another character has moved up to it
      | some (_, rest) => blocksFrom keepDocs line active (t.take i ++ rest) i n
      | none => (t.take i, true)
    else blocksFrom keepDocs line active t (i + 1) n
  else (t, active)
termination_by t.length - i
decreasing_by
  · have hlength := congrArg List.length (Text.cut_eq_some _hcut)
    simp only [List.length_drop, List.length_append, List.length_take, blockOpen, blockClose,
      List.length_cons, List.length_nil] at hlength ⊢
    omega
  · omega

def lastOf (kept : Text) : Char := kept.getLast?.getD lineStart

theorem lastOf_concat (kept : Text) (c : Char) : lastOf (kept ++ [c]) = c := by
  simp [lastOf]

theorem lastOf_cons (before : Text) (c : Char) (s : Text) :
    lastOf (before ++ c :: s) = s.getLast?.getD c := by
  rw [lastOf, List.getLast?_append, List.getLast?_cons]
  rfl

theorem lastOf_ne {a : Text} (h : '\\' ∉ a) : lastOf a ≠ '\\' := by
  rcases List.eq_nil_or_concat' a with rfl | ⟨a, c, rfl⟩
  · decide
  · rw [lastOf_concat]
    rintro rfl
    exact h (List.mem_append_right a (List.mem_singleton_self _))

theorem passQuote_eq (kept : Text) (c : Char) (t : Text) (n : Nat) :
    passQuote (kept ++ c :: t) kept.length n =
      if c = '"' ∧ lastOf kept ≠ '\\' then n + 1 else n := by
  have hplace : (kept ++ c :: t)[kept.length]? = some c := by simp
  have hbefore : (kept.length = 0 ∨ (kept ++ c :: t)[kept.length - 1]? ≠ some '\\') ↔
      lastOf kept ≠ '\\' := by
    rcases List.eq_nil_or_concat kept with rfl | ⟨k, d, rfl⟩
    · simp [lastOf, lineStart]
    · simp [lastOf]
  rw [passQuote, hplace]
  simp only [hbefore, Option.some.injEq]

theorem quotedAfter_bne (prev c : Char) (quoted : Bool) :
    quotedAfter prev c quoted = ((c == '"' && prev != '\\') != quoted) := by
  rw [quotedAfter]
  cases c == '"' && prev != '\\' <;> cases quoted <;> rfl

theorem quotedAfter_parity (prev c : Char) (n : Nat) :
    quotedAfter prev c (decide (n % 2 = 1)) =
      decide ((if c = '"' ∧ prev ≠ '\\' then n + 1 else n) % 2 = 1) := by
  rw [quotedAfter]
  simp only [Bool.and_eq_true, beq_iff_eq, bne_iff_ne]
  split
  · rcases Nat.mod_two_eq_zero_or_one n with hn | hn <;> simp [Nat.add_mod, hn]
  · rfl

theorem passQuote_append (kept : Text) (c : Char) (t : Text) (n : Nat) :
    decide (passQuote (kept ++ c :: t) kept.length n % 2 = 1) =
      quotedAfter (lastOf kept) c (decide (n % 2 = 1)) := by
  rw [passQuote_eq, quotedAfter_parity]

theorem passQuote_even (kept : Text) (c : Char) (t : Text) (n : Nat) :
    passQuote (kept ++ c :: t) kept.length n % 2 = 0 ↔
      quotedAfter (lastOf kept) c (decide (n % 2 = 1)) = false := by
  rw [← passQuote_append kept c t, decide_eq_false_iff_not]
  omega

theorem lineFrom_append (keepDocs : Bool) (kept t : Text) (n : Nat) :
    lineFrom keepDocs (kept ++ t) kept.length n =
      ((beforeLineMark keepDocs (lastOf kept) (decide (n % 2 = 1)) t).map (kept ++ ·)).getD
        (kept ++ t) := by
  induction t generalizing kept n with
  | nil =>
    rw [List.append_nil, lineFrom, if_neg (lt_irrefl _)]
    simp [beforeLineMark]
  | cons c t ih =>
    have hmore := ih (kept ++ [c]) (passQuote (kept ++ c :: t) kept.length n)
    rw [lastOf_concat, passQuote_append, List.length_append, List.length_singleton,
      List.append_assoc, List.singleton_append] at hmore
    rw [lineFrom, if_pos (by simp), beforeLineMark]
    simp only [List.drop_left, List.take_left, passQuote_even, Bool.and_eq_true, Bool.not_eq_true',
      and_assoc, hmore]
    split
    · rfl
    · split
      · simp
      · rw [Option.map_map]
        simp [Function.comp_def]

theorem startsWith_blockOpen (c : Char) (t : Text) :
    Text.startsWith blockOpen (c :: t) = (c == '#' && t.head? == some '*') := by
  cases t with
  | nil => simp [Text.startsWith, Text.after?, blockOpen]
  | cons d t =>
    by_cases hc : '#' = c
    · by_cases hd : '*' = d
      · simp [Text.startsWith, Text.after?, blockOpen, ← hc, ← hd]
      · simp [Text.startsWith, Text.after?, blockOpen, hd, Ne.symm hd]
    · simp [Text.startsWith, Text.after?, blockOpen, hc, Ne.symm hc]

theorem dropBlocks_outside (keepDocs : Bool) (prev : Char) (quoted : Bool) (c : Char) (t : Text) :
    dropBlocks keepDocs false prev quoted (c :: t) =
      if quotedAfter prev c quoted = false ∧ keepDocs = true ∧
        Text.startsWith blockDocOpen (c :: t) = true then none
      else if quotedAfter prev c quoted = false ∧ Text.startsWith blockOpen (c :: t) = true then
        dropBlocks keepDocs true prev (quotedAfter prev c quoted) (t.drop 1)
      else (dropBlocks keepDocs false c (quotedAfter prev c quoted) t).map (·.keep c) := by
  cases t with
  | nil => simp [dropBlocks, Text.startsWith, Text.after?, blockDocOpen, blockOpen]
  | cons d t =>
    rw [dropBlocks, startsWith_blockOpen]
    simp [and_assoc]

theorem dropBlocks_cut (keepDocs : Bool) (prev : Char) (quoted : Bool) (t : Text) :
    dropBlocks keepDocs true prev quoted t =
      (Text.cut blockClose t).elim (some ⟨[], true⟩) fun x =>
        dropBlocks keepDocs false prev quoted x.2 := by
  cases hcut : Text.cut blockClose t with
  | none => exact dropBlocks_unclosed (Text.cut_eq_none.mp hcut)
  | some x =>
    obtain ⟨body, rest⟩ := x
    rw [Text.cut_eq_some hcut]
    exact dropBlocks_inside (Text.cut_free (by decide) hcut) rest

def leftOf (line : Text) (active : Bool) (kept : Text) (s : Option Stripped) : Text × Bool :=
  (s.map fun s => (kept ++ s.text, s.opened || active)).getD (line, active)

theorem leftOf_keep (line : Text) (active : Bool) (kept : Text) (c : Char) (s : Option Stripped) :
    leftOf line active kept (s.map (·.keep c)) = leftOf line active (kept ++ [c]) s := by
  cases s with
  | none => rfl
  | some s => simp [leftOf, Stripped.keep]

theorem blocksFrom_append (keepDocs : Bool) (line : Text) (active : Bool) (kept t : Text)
    (n : Nat) :
    blocksFrom keepDocs line active (kept ++ t) kept.length n =
      leftOf line active kept (dropBlocks keepDocs false (lastOf kept) (decide (n % 2 = 1)) t) := by
  induction h : t.length using Nat.strong_induction_on generalizing kept t n with
  | h k ih =>
    cases t with
    | nil =>
      rw [List.append_nil, blocksFrom, if_neg (lt_irrefl _), dropBlocks]
      simp [leftOf]
    | cons c t =>
      subst h
      have hmore := ih t.length (by simp) (kept ++ [c]) t
        (passQuote (kept ++ c :: t) kept.length n) rfl
      rw [lastOf_concat, passQuote_append, List.length_append, List.length_singleton,
        List.append_assoc, List.singleton_append] at hmore
      have hbehind : (kept ++ c :: t).drop (kept.length + blockOpen.length) = t.drop 1 := by
        rw [List.drop_length_add_append]
        rfl
      rw [blocksFrom, if_pos (by simp), dropBlocks_outside]
      simp only [List.drop_left, List.take_left, passQuote_even, hmore]
      split
      · rfl
      · split
        · have hquote := passQuote_append kept c t n
          rw [dropBlocks_cut]
          split
          next body rest hcut =>
            rw [hbehind] at hcut
            have hshort := congrArg List.length (Text.cut_eq_some hcut)
            simp only [List.length_append, List.length_drop, blockClose, List.length_cons,
              List.length_nil] at hshort
            rw [hcut, Option.elim_some, ih rest.length (by simp; omega) kept rest _ rfl, hquote]
          next hcut =>
            rw [hbehind] at hcut
            rw [hcut, Option.elim_none]
            simp [leftOf]
        · rw [leftOf_keep]

theorem scanLine_places (line : Text) (keepDocs : Bool) :
    scanLine line keepDocs = lineFrom keepDocs line 0 0 := by
  have hplaces : lineFrom keepDocs line 0 0 =
      ((beforeLineMark keepDocs lineStart false line).map id).getD line :=
    lineFrom_append keepDocs [] line 0
  rw [hplaces, Option.map_id]
  rfl

theorem scanBlock_places (line : Text) (keepDocs active : Bool) :
    scanBlock line keepDocs active = blocksFrom keepDocs line active line 0 0 := by
  have hplaces : blocksFrom keepDocs line active line 0 0 =
      leftOf line active [] (dropBlocks keepDocs false lineStart false line) :=
    blocksFrom_append keepDocs line active [] line 0
  rw [hplaces, scanBlock]
  cases dropBlocks keepDocs false lineStart false line <;> rfl

theorem hasMarker_iff (line : Text) :
    hasMarker line = true ↔ ∃ mark ∈ [lineMark, blockOpen, blockClose], mark <:+: line := by
  simp [hasMarker, Text.contains_iff, or_assoc]

/-- A line that is a mark, or that holds none, is treated as the scan would treat it: what is left
of it, and whether a comment is open behind it, are the same. -/
theorem shortcuts_exact (line : Text) (keepDocs active : Bool) :
    (hasMarker line = true ↔ ∃ mark ∈ [lineMark, blockOpen, blockClose], mark <:+: line) ∧
    (stripLine line keepDocs = scanLine line keepDocs ∧
      scanLine line keepDocs = lineFrom keepDocs line 0 0) ∧
    (stripBlock line keepDocs active = scanBlock line keepDocs active ∧
      scanBlock line keepDocs active = blocksFrom keepDocs line active line 0 0) :=
  ⟨hasMarker_iff line, ⟨stripLine_scan line keepDocs, scanLine_places line keepDocs⟩,
    stripBlock_scan line keepDocs active, scanBlock_places line keepDocs active⟩

end ScriptFeed.Comment
