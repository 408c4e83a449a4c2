import ScriptFeed.Proofs.ByteScans
import ScriptFeed.Proofs.CommentRows

namespace ScriptFeed.Comment

variable {a body kept r t : Text} {inside : Bool} {n : Nat}

/-- The rounds by byte offsets, with `n` searches for an opener at most; nothing if more are
needed. -/
def eraseRounds : (n : Nat) → Text → Except Slip (Option Text)
  | 0, _ => return none
  | n + 1, t =>
    match Text.find? blockOpen t with
    | none => return some t
    | some i => do
      match ← cutComment t i with
      | some u => eraseRounds n u
      | none => return some (← Text.slice t 0 i)

theorem first_comment (t : Text) : ¬blockOpen <:+: t ∨
    (∃ a r, t = a ++ blockOpen ++ r ∧ ¬blockOpen <:+: a ∧ ¬blockClose <:+: r) ∨
    ∃ a body b, t = a ++ blockOpen ++ body ++ blockClose ++ b ∧ ¬blockOpen <:+: a ∧
      ¬blockClose <:+: body := by
  cases hopen : Text.cut blockOpen t with
  | none => exact .inl (Text.cut_eq_none.mp hopen)
  | some x =>
    obtain ⟨a, r⟩ := x
    have ha : ¬blockOpen <:+: a := Text.cut_free (by decide) hopen
    have ht : t = a ++ blockOpen ++ r := Text.cut_eq_some hopen
    cases hclose : Text.cut blockClose r with
    | none => exact .inr (.inl ⟨a, r, ht, ha, Text.cut_eq_none.mp hclose⟩)
    | some y =>
      obtain ⟨body, b⟩ := y
      refine .inr (.inr ⟨a, body, b, ?_, ha, Text.cut_free (by decide) hclose⟩)
      rw [ht, Text.cut_eq_some hclose]
      simp only [List.append_assoc]

section Rounds

theorem eraseRounds_unmarked (h : ¬blockOpen <:+: t) (n : Nat) :
    eraseRounds (n + 1) t = .ok (some t) := by
  have hfind : Text.find? blockOpen t = none := by
    rw [Text.find?, Text.cut_eq_none.mpr h, Option.map_none]
  rw [eraseRounds, hfind]
  rfl

theorem find?_blockOpen (ha : ¬blockOpen <:+: a) (r : Text) :
    Text.find? blockOpen (a ++ blockOpen ++ r) = some (Text.utf8Size a) := by
  have hcut : Text.cut blockOpen (a ++ (blockOpen ++ r)) = some (a, r) :=
    Text.cut_first (by decide) ha r
  rw [Text.find?, List.append_assoc, hcut, Option.map_some]

theorem eraseRounds_unclosed (ha : ¬blockOpen <:+: a) (hr : ¬blockClose <:+: r) (n : Nat) :
    eraseRounds (n + 1) (a ++ blockOpen ++ r) = .ok (some a) := by
  have hcut := cutComment_append a r
  rw [Text.cut_eq_none.mpr hr] at hcut
  have hslice := Text.slice_start a (blockOpen ++ r)
  rw [← List.append_assoc] at hslice
  rw [eraseRounds, find?_blockOpen ha]
  exact (Slip.bind_ok hcut _).trans (Slip.bind_ok hslice _)

theorem eraseRounds_closed (ha : ¬blockOpen <:+: a) (hbody : ¬blockClose <:+: body) (b : Text)
    (n : Nat) :
    eraseRounds (n + 1) (a ++ blockOpen ++ body ++ blockClose ++ b) = eraseRounds n (a ++ b) := by
  have hend : Text.cut blockClose (body ++ (blockClose ++ b)) = some (body, b) :=
    Text.cut_first (by decide) hbody b
  have hcut := cutComment_append a (body ++ (blockClose ++ b))
  rw [hend] at hcut
  have ht : a ++ blockOpen ++ body ++ blockClose ++ b =
      a ++ blockOpen ++ (body ++ (blockClose ++ b)) := by
    simp only [List.append_assoc]
  rw [eraseRounds, ht, find?_blockOpen ha]
  exact Slip.bind_ok hcut _

end Rounds

section Scan

theorem eraseBlocks_code (ha : ¬blockOpen <:+: a) (t : Text) :
    eraseBlocks (a ++ t) = eraseFrom false a.reverse t := by
  have hkept : ¬blockOpen <:+: List.reverse [] ++ a := ha
  rw [eraseBlocks, eraseFrom_code hkept, List.append_nil]

theorem eraseBlocks_unmarked (h : ¬blockOpen <:+: t) : eraseBlocks t = t := by
  have hcode := eraseBlocks_code h []
  rwa [List.append_nil, eraseFrom, List.reverse_reverse] at hcode

theorem eraseBlocks_unclosed (ha : ¬blockOpen <:+: a) (hr : ¬blockClose <:+: r) :
    eraseBlocks (a ++ blockOpen ++ r) = a := by
  have hrest := eraseFrom_comment hr (t := []) (by simp) a.reverse
  rw [List.append_nil, eraseFrom, List.reverse_reverse] at hrest
  rw [List.append_assoc, eraseBlocks_code ha, eraseFrom_open, hrest]

theorem eraseBlocks_closed (ha : ¬blockOpen <:+: a) (hbody : ¬blockClose <:+: body) (b : Text) :
    eraseBlocks (a ++ blockOpen ++ body ++ blockClose ++ b) = eraseBlocks (a ++ b) := by
  calc
    _ = eraseBlocks (a ++ (blockOpen ++ (body ++ (blockClose ++ b)))) := by
      simp only [List.append_assoc]
    _ = eraseFrom true a.reverse (body ++ (blockClose ++ b)) := by
      rw [eraseBlocks_code ha, eraseFrom_open]
    _ = eraseFrom false a.reverse b := by
      rw [eraseFrom_comment hbody (by simp [blockClose]), eraseFrom_close]
    _ = eraseBlocks (a ++ b) := (eraseBlocks_code ha b).symm

theorem unmarked_concat {c : Char} (h : ¬blockOpen <:+: a) (hc : a.getLast? = some '#' → c ≠ '*') :
    ¬blockOpen <:+: a ++ [c] := by
  rw [List.infix_concat_iff, not_or]
  refine ⟨?_, h⟩
  rintro ⟨s, hs⟩
  have hends : s ++ ['#'] ++ ['*'] = a ++ [c] := by rw [← hs, blockOpen, List.append_assoc]; rfl
  obtain ⟨rfl, hlast⟩ := List.append_inj' hends rfl
  obtain rfl : '*' = c := List.singleton_inj.mp hlast
  exact hc List.getLast?_concat rfl

theorem unmarked_eraseFrom (h : ¬blockOpen <:+: kept.reverse) :
    ¬blockOpen <:+: eraseFrom inside kept t := by
  -- along the scan: what is kept holds no opener at any place
  fun_induction eraseFrom inside kept t with
  | case1 => exact h
  | case2 kept r ih => exact ih h
  | case3 kept c r hclose ih => exact ih h
  | case4 kept r ih =>
    -- the number sign that was kept last goes with the star
    apply ih
    rw [List.reverse_cons] at h
    intro hkept
    have hbegins : kept.reverse <+: kept.reverse ++ ['#'] := List.prefix_append _ _
    exact h (hkept.trans hbegins.isInfix)
  | case5 kept c r hopen ih =>
    apply ih
    rw [List.reverse_cons]
    apply unmarked_concat h
    rw [List.getLast?_reverse]
    rintro hhash rfl
    obtain ⟨kept', rfl⟩ := List.head?_eq_some_iff.mp hhash
    exact hopen kept' rfl rfl

end Scan

theorem eraseRounds_eq (h : t.length < 4 * n) : eraseRounds n t = .ok (some (eraseBlocks t)) := by
  induction n generalizing t with
  | zero => omega
  | succ n ih =>
    rcases first_comment t with hfree | ⟨a, r, rfl, ha, hr⟩ | ⟨a, body, b, rfl, ha, hbody⟩
    · rw [eraseRounds_unmarked hfree, eraseBlocks_unmarked hfree]
    · rw [eraseRounds_unclosed ha hr, eraseBlocks_unclosed ha hr]
    · -- the marks of the comment are four characters: the rest is short enough for one round less
      have hshort : (a ++ b).length < 4 * n := by
        simp only [List.length_append, blockOpen, blockClose, List.length_cons, List.length_nil]
          at h ⊢
        omega
      rw [eraseRounds_closed ha hbody, eraseBlocks_closed ha hbody, ih hshort]

/-- The rounds end on every text, with no offset outside it or inside a character, and never need
more searches than the first number above a quarter of its length. What is left holds no opener
and stands in the text in its order; a text is left as it is when it holds no opener, and so is
what is left of one. A number sign and a star with a comment between them are an opener, too. -/
theorem erasure_complete (t : Text) :
    (∀ n, t.length < 4 * n → eraseRounds n t = .ok (some (eraseBlocks t))) ∧
    ¬blockOpen <:+: eraseBlocks t ∧
    (eraseBlocks t).Sublist t ∧
    (eraseBlocks t = t ↔ ¬blockOpen <:+: t) ∧
    eraseBlocks (eraseBlocks t) = eraseBlocks t ∧
    ∀ a body b, ¬blockOpen <:+: a → ¬blockClose <:+: body →
      t = a ++ ['#'] ++ blockOpen ++ body ++ blockClose ++ '*' :: b →
      eraseBlocks t = eraseBlocks (a ++ blockOpen ++ b) := by
  have hleft : ¬blockOpen <:+: eraseBlocks t := unmarked_eraseFrom (Text.contains_eq_false.mp rfl)
  refine ⟨fun _ => eraseRounds_eq, hleft, eraseBlocks_sublist t,
    ⟨fun h => h ▸ hleft, eraseBlocks_unmarked⟩, eraseBlocks_unmarked hleft, ?_⟩
  rintro a body b ha hbody rfl
  have hsign : ¬blockOpen <:+: a ++ ['#'] := unmarked_concat ha fun _ => by decide
  rw [eraseBlocks_closed hsign hbody, blockOpen, List.append_assoc, List.append_assoc]
  rfl

theorem erasure_complete_joined :
    "é##*ß*#*c*#d".toList.length < 4 * 4 ∧
    eraseRounds 4 "é##*ß*#*c*#d".toList = .ok (some "éd".toList) ∧
    eraseBlocks "é##*ß*#*c*#d".toList = eraseBlocks "é#*c*#d".toList := by
  obtain ⟨hrounds, -, -, -, -, hjoined⟩ := erasure_complete "é##*ß*#*c*#d".toList
  exact ⟨by decide, (hrounds 4 (by decide)).trans (by decide),
    hjoined "é".toList "ß".toList "c*#d".toList
    (Text.contains_eq_false.mp (by decide)) (Text.contains_eq_false.mp (by decide)) (by decide)⟩

end ScriptFeed.Comment
