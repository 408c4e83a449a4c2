import ScriptFeed.Proofs.ArgumentLists
import ScriptFeed.Proofs.Headers

/-!
Lines cut at the marks of their block comments. The pieces of a line stand outside and inside
comments in turn, and a line comment may follow them. The scan for line comments goes over the
pieces, and the erasure of block comments leaves the pieces outside.
-/

namespace ScriptFeed.Comment

variable {inside quoted : Bool} {kept t x x' y : Text} {ys ys' : List Text} {prev : Char}

def blockMark (inside : Bool) : Text := if inside then blockClose else blockOpen

def laid : Bool → Text → List Text → Text
  | _, x, [] => x
  | inside, x, y :: ys => x ++ (blockMark inside ++ laid (!inside) y ys)

theorem laid_code (x y : Text) (ys : List Text) :
    laid false x (y :: ys) = x ++ (blockOpen ++ laid true y ys) := rfl

theorem laid_comment (x y : Text) (ys : List Text) :
    laid true x (y :: ys) = x ++ (blockClose ++ laid false y ys) := rfl

def uncovered : Bool → Text → List Text → Text
  | inside, x, [] => if inside then [] else x
  | inside, x, y :: ys => (if inside then [] else x) ++ uncovered (!inside) y ys

def insideAfter : Bool → List Text → Bool
  | inside, [] => inside
  | inside, _ :: ys => insideAfter (!inside) ys

def extended (t : Text) : Text → List Text → Text × List Text
  | x, [] => (x ++ t, [])
  | x, y :: ys => (x, (extended t y ys).1 :: (extended t y ys).2)

theorem laid_extended (t : Text) (inside : Bool) (x : Text) (ys : List Text) :
    laid inside (extended t x ys).1 (extended t x ys).2 = laid inside x ys ++ t := by
  induction ys generalizing inside x with
  | nil => rfl
  | cons y ys ih => rw [extended, laid, ih, laid, List.append_assoc, List.append_assoc]

def everyPiece (f : Bool → Text → Bool) : Bool → Text → List Text → Bool
  | inside, x, [] => f inside x
  | inside, x, y :: ys => f inside x && everyPiece f (!inside) y ys

section Erasure

theorem eraseFrom_code (h : ¬blockOpen <:+: kept.reverse ++ x) (t : Text) :
    eraseFrom false kept (x ++ t) = eraseFrom false (x.reverse ++ kept) t := by
  induction x generalizing kept with
  | nil => rfl
  | cons c x ih =>
    have hnext : kept.head? = some '#' → c ≠ '*' := by
      rintro hkept rfl
      obtain ⟨kept', rfl⟩ : ∃ kept', kept = '#' :: kept' := List.head?_eq_some_iff.mp hkept
      exact h ⟨kept'.reverse, x, by simp [blockOpen]⟩
    rw [List.cons_append, eraseFrom_cons hnext, ih (by simpa using h)]
    simp

theorem eraseFrom_open (kept t : Text) :
    eraseFrom false kept (blockOpen ++ t) = eraseFrom true kept t := by
  change eraseFrom false kept ('#' :: '*' :: t) = _
  rw [eraseFrom_cons fun _ => by decide, eraseFrom]

theorem eraseFrom_close (kept t : Text) :
    eraseFrom true kept (blockClose ++ t) = eraseFrom false kept t := by
  change eraseFrom true kept ('*' :: '#' :: t) = _
  rw [eraseFrom]

theorem eraseFrom_comment (h : ¬blockClose <:+: x) (ht : t.head? ≠ some '#') (kept : Text) :
    eraseFrom true kept (x ++ t) = eraseFrom true kept t := by
  induction x with
  | nil => rfl
  | cons c x ih =>
    have hskip : eraseFrom true kept (c :: (x ++ t)) = eraseFrom true kept (x ++ t) := by
      rw [eraseFrom]
      rintro r rfl hr
      cases x with
      | nil =>
        rw [List.nil_append] at hr
        exact ht (by rw [hr]; rfl)
      | cons d x =>
        obtain rfl : d = '#' := (List.cons.inj hr).1
        exact h ⟨[], x, rfl⟩
    rw [List.cons_append, hskip, ih fun hx => h (List.infix_cons hx)]

theorem eraseFrom_laid
    (hinside : everyPiece (fun inside x => !inside || !Text.contains blockClose x)
      inside x ys = true)
    (hcode : ¬blockOpen <:+: kept.reverse ++ uncovered inside x ys) (ht : t.head? ≠ some '#') :
    eraseFrom inside kept (laid inside x ys ++ t) =
      eraseFrom (insideAfter inside ys) ((uncovered inside x ys).reverse ++ kept) t := by
  have hfree {x : Text} (h : Text.contains blockClose x = false) := Text.contains_eq_false.mp h
  induction ys generalizing inside x kept with
  | nil =>
    cases inside with
    | false => exact eraseFrom_code hcode t
    | true =>
      have hx : Text.contains blockClose x = false := by simpa [everyPiece] using hinside
      exact eraseFrom_comment (hfree hx) ht kept
  | cons y ys ih =>
    cases inside with
    | false =>
      have hys : everyPiece _ true y ys = true := (Bool.and_eq_true_iff.mp hinside).2
      have hrest : ¬blockOpen <:+: (x.reverse ++ kept).reverse ++ uncovered true y ys := by
        simpa [uncovered] using hcode
      have hfirst : ¬blockOpen <:+: kept.reverse ++ x := by
        intro h
        apply hrest
        exact h.trans ⟨[], uncovered true y ys, by simp⟩
      rw [laid_code, List.append_assoc, List.append_assoc, eraseFrom_code hfirst, eraseFrom_open,
        ih hys hrest]
      simp [uncovered, insideAfter]
    | true =>
      obtain ⟨hx, hys⟩ := Bool.and_eq_true_iff.mp hinside
      have hrest : ¬blockOpen <:+: kept.reverse ++ uncovered false y ys := hcode
      rw [laid_comment, List.append_assoc, List.append_assoc,
        eraseFrom_comment (hfree (by simpa using hx)) (by simp [blockClose]), eraseFrom_close]
      exact ih hys hrest

end Erasure

section Remarks

def unremarked (quoted : Bool) (t : Text) : Bool :=
  beforeLineMark false lineStart quoted t == some t

def clean (remarked : Bool) : (inside quoted : Bool) → Text → List Text → Bool
  | inside, quoted, x, [] => unremarked quoted x &&
    (!remarked || (!quotedThrough lineStart quoted x && x.getLast? != some '#' &&
      (!inside || quotes x % 2 == 0)))
  | true, quoted, x, y :: ys => unremarked quoted x && quotes x % 2 == 0 &&
    (laid false y ys ++ if remarked then lineMark else []).head? != some '#' &&
    clean remarked false quoted y ys
  | false, quoted, x, y :: ys => unremarked quoted (x ++ blockOpen) &&
    clean remarked true (quotedThrough lineStart quoted x) y ys

theorem quotedThrough_prev (h : prev ≠ '\\') (quoted : Bool) (t : Text) :
    quotedThrough prev quoted t = quotedThrough lineStart quoted t := by
  cases t with
  | nil => rfl
  | cons c t => rw [quotedThrough, quotedThrough, quotedAfter_prev h (by decide : lineStart ≠ '\\')]

theorem quotedThrough_balanced (h : quotes x % 2 = 0) (quoted : Bool) :
    quotedThrough lineStart quoted x = quoted := by
  rw [quotes] at h
  rw [quotedThrough_eq, h]
  simp

theorem unremarked_iff (h : prev ≠ '\\') :
    unremarked quoted t = true ↔ beforeLineMark false prev quoted t = some t := by
  rw [unremarked, beq_iff_eq, beforeLineMark_prev false prev (by decide : lineStart ≠ '\\') h]

def remarkText (remark : Option Text) : Text := remark.elim [] (lineMark ++ ·)

theorem beforeLineMark_laid {remark : Option Text} (hprev : prev ≠ '\\')
    (h : clean remark.isSome inside quoted x ys = true) :
    beforeLineMark false prev quoted (laid inside x ys ++ remarkText remark) =
      some (laid inside x ys) := by
  induction ys generalizing inside quoted x prev with
  | nil =>
    simp only [clean, Bool.and_eq_true] at h
    obtain ⟨hx, hremark⟩ := h
    have hall := (unremarked_iff hprev).mp hx
    cases remark with
    | none => simpa [laid, remarkText] using hall
    | some u =>
      simp only [Option.isSome_some, Bool.not_true, Bool.false_or, Bool.and_eq_true,
        Bool.not_eq_true', bne_iff_ne] at hremark
      rw [laid, remarkText, Option.elim_some, beforeLineMark_append_of_all hall (.inl hremark.1.2),
        quotedThrough_prev hprev, hremark.1.1]
      simp [beforeLineMark, lineMark, quotedAfter, Text.startsWith, Text.after?]
  | cons y ys ih =>
    cases inside with
    | false =>
      simp only [clean, Bool.and_eq_true] at h
      obtain ⟨hx, hys⟩ := h
      have hall := (unremarked_iff hprev).mp hx
      have hlast : (x ++ blockOpen).getLast? = some '*' := by simp [blockOpen]
      have hquoted : quotedThrough prev quoted (x ++ blockOpen) =
          quotedThrough lineStart quoted x := by
        rw [quotedThrough_append, quotedThrough_plain (by decide), quotedThrough_prev hprev]
      rw [laid_code, ← List.append_assoc x, List.append_assoc (x ++ blockOpen),
        beforeLineMark_append_of_all hall (.inl (by rw [hlast]; decide)), hlast, hquoted,
        Option.getD_some, ih (by decide) hys]
      rfl
    | true =>
      simp only [clean, Bool.and_eq_true, bne_iff_ne, beq_iff_eq] at h
      obtain ⟨⟨⟨hx, heven⟩, hseam⟩, hys⟩ := h
      have hall := (unremarked_iff hprev).mp hx
      -- The mark ends in a sign that could be the first one of a line mark: the seam forbids it.
      have hclose : beforeLineMark false (x.getLast?.getD prev) quoted blockClose =
          some blockClose :=
        beforeLineMark_unmarked (by decide)
      have hnext : (laid false y ys ++ remarkText remark).head? ≠ some '#' := by
        cases remark with
        | none => simpa [remarkText] using hseam
        | some u =>
          intro he
          apply hseam
          cases hl : laid false y ys with
          | nil => rfl
          | cons c s =>
            rw [hl] at he
            exact he
      rw [laid_comment, List.append_assoc, List.append_assoc,
        beforeLineMark_append_of_all hall (.inr (by simp [blockClose])), quotedThrough_prev hprev,
        quotedThrough_balanced heven, beforeLineMark_append_of_all hclose (.inr hnext),
        quotedThrough_plain (by decide)]
      change ((beforeLineMark false '#' quoted _).map _).map _ = _
      rw [ih (by decide) hys]
      rfl

end Remarks

inductive Blanked : Bool → Text → List Text → Text → List Text → Prop
  | code (x : Text) : Blanked false x [] x []
  | comment (x : Text) {x' : Text} (h : x'.all Text.isBlank = true) : Blanked true x [] x' []
  | opened (x : Text) {y y' : Text} {ys ys' : List Text} (hs : Blanked true y ys y' ys') :
      Blanked false x (y :: ys) x (y' :: ys')
  | closed (x : Text) {x' y y' : Text} {ys ys' : List Text} (h : x'.all Text.isBlank = true)
      (hs : Blanked false y ys y' ys') : Blanked true x (y :: ys) x' (y' :: ys')

section Blanks

theorem not_mem_blanks {c : Char} (hc : Text.isBlank c = false) (h : x.all Text.isBlank = true) :
    c ∉ x := by
  intro hx
  exact absurd ((List.all_eq_true.mp h c hx).symm.trans hc) (by decide)

theorem blanks_free {pat : Text} {c : Char} (hc : Text.isBlank c = false) (hpat : c ∈ pat)
    (h : x.all Text.isBlank = true) : Text.contains pat x = false :=
  Text.contains_eq_false.mpr fun hx => not_mem_blanks hc h (hx.subset hpat)

theorem unremarked_blanks (h : x.all Text.isBlank = true) (quoted : Bool) :
    unremarked quoted x = true := by
  rw [unremarked, beq_iff_eq]
  apply beforeLineMark_unmarked
  exact Text.contains_eq_false.mp (blanks_free (c := '#') (by decide) (by decide) h)

theorem quotes_blanks (h : x.all Text.isBlank = true) : quotes x = 0 := by
  rw [quotes, List.countP_eq_zero]
  rintro ⟨c, d⟩ hmem
  have hd : d ≠ '"' := by
    rintro rfl
    exact not_mem_blanks (by decide) h (List.of_mem_zip hmem).2
  simp [hd]

theorem Blanked.uncovered (h : Blanked inside x ys x' ys') :
    uncovered inside x' ys' = uncovered inside x ys := by
  induction h with
  | code x => rfl
  | comment x h => rfl
  | opened x hs ih => rw [Comment.uncovered, Comment.uncovered, Bool.not_false, ih]
  | closed x h hs ih => rw [Comment.uncovered, Comment.uncovered, Bool.not_true, ih]; rfl

theorem Blanked.insideAfter (h : Blanked inside x ys x' ys') :
    insideAfter inside ys' = insideAfter inside ys := by
  induction h with
  | code x => rfl
  | comment x h => rfl
  | opened x hs ih => exact ih
  | closed x h hs ih => exact ih

theorem Blanked.extended (h : Blanked inside x ys x' ys')
    (hout : Comment.insideAfter inside ys = false)
    (t : Text) : Blanked inside (extended t x ys).1 (extended t x ys).2 (extended t x' ys').1
      (extended t x' ys').2 := by
  induction h with
  | code x => exact .code (x ++ t)
  | comment x h => exact absurd hout (by decide)
  | opened x hs ih => exact .opened x (ih hout)
  | closed x h hs ih => exact .closed x h (ih hout)

theorem Blanked.head? (h : Blanked false x ys x' ys') (t : Text) :
    (laid false x' ys' ++ t).head? = (laid false x ys ++ t).head? := by
  cases h with
  | code => rfl
  | opened _ hs => cases x <;> rfl

theorem Blanked.clean {remarked : Bool} (h : Blanked inside x ys x' ys')
    (hclean : clean remarked inside quoted x ys = true) :
    clean remarked inside quoted x' ys' = true := by
  induction h generalizing quoted with
  | code x => exact hclean
  | @comment x x' h =>
    have hlast : x'.getLast? ≠ some '#' := fun he =>
      not_mem_blanks (by decide) h (List.mem_of_getLast? he)
    have hquotes := quotes_blanks h
    have hthrough := quotedThrough_balanced (x := x') (by rw [hquotes]) quoted
    cases remarked with
    | false => simp [Comment.clean, unremarked_blanks h]
    | true =>
      simp only [Comment.clean, Bool.and_eq_true, Bool.not_true, Bool.false_or, Bool.not_eq_true',
        beq_iff_eq] at hclean
      obtain ⟨-, ⟨hfalse, -⟩, heven⟩ := hclean
      obtain rfl := (quotedThrough_balanced heven quoted).symm.trans hfalse
      simp [Comment.clean, unremarked_blanks h, hthrough, hlast, hquotes]
  | opened x hs ih =>
    simp only [Comment.clean, Bool.and_eq_true] at hclean ⊢
    exact ⟨hclean.1, ih hclean.2⟩
  | closed x h hs ih =>
    simp only [Comment.clean, Bool.and_eq_true, hs.head?] at hclean ⊢
    exact ⟨⟨⟨unremarked_blanks h quoted, by rw [quotes_blanks h]; rfl⟩, hclean.1.2⟩, ih hclean.2⟩

theorem Blanked.everyPiece {f : Bool → Text → Bool} (h : Blanked inside x ys x' ys')
    (hf : ∀ x, x.all Text.isBlank = true → f true x = true)
    (hevery : everyPiece f inside x ys = true) : everyPiece f inside x' ys' = true := by
  induction h with
  | code x => exact hevery
  | comment x h => exact hf _ h
  | opened x hs ih =>
    simp only [Comment.everyPiece, Bool.and_eq_true] at hevery ⊢
    exact ⟨hevery.1, ih hevery.2⟩
  | closed x h hs ih =>
    simp only [Comment.everyPiece, Bool.and_eq_true] at hevery ⊢
    exact ⟨hf _ h, ih hevery.2⟩

end Blanks

structure Row where
  first : Text
  rest : List Text := []
  remark : Option Text := none
deriving DecidableEq, Repr

namespace Row

variable {r r' s s' : Row} {rs rs' : List Row}

def body (inside : Bool) (r : Row) : Text := laid inside r.first r.rest

def text (inside : Bool) (r : Row) : Text := r.body inside ++ remarkText r.remark

def code (inside : Bool) (r : Row) : Text := uncovered inside r.first r.rest

def ends (inside : Bool) (r : Row) : Bool := insideAfter inside r.rest

def clean (inside : Bool) (r : Row) : Bool :=
  Comment.clean r.remark.isSome inside false r.first r.rest

theorem stripLine_text (h : r.clean inside = true) :
    stripLine (r.text inside) false = r.body inside := by
  rw [stripLine_scan, scanLine, text, body, beforeLineMark_laid (by decide) h]
  rfl

def precede (t : Text) (r : Row) : Row := { r with first := t ++ r.first }

theorem body_precede (t : Text) (r : Row) : (r.precede t).body inside = t ++ r.body inside := by
  unfold precede body
  cases r.rest with
  | nil => rfl
  | cons y ys => simp [laid]

def follow (t : Text) (r : Row) : Row :=
  { r with first := (extended t r.first r.rest).1, rest := (extended t r.first r.rest).2 }

theorem body_follow (t : Text) (r : Row) : (r.follow t).body inside = r.body inside ++ t :=
  laid_extended t inside r.first r.rest

structure Blanked (inside : Bool) (r r' : Row) : Prop where
  pieces : Comment.Blanked inside r.first r.rest r'.first r'.rest
  remark : r'.remark.isSome = r.remark.isSome

theorem Blanked.clean (h : r.Blanked inside r') (hclean : r.clean inside = true) :
    r'.clean inside = true := by
  rw [Row.clean, h.remark]
  exact h.pieces.clean hclean

theorem Blanked.precede (h : r.Blanked false r') (t : Text) :
    (r.precede t).Blanked false (r'.precede t) := by
  obtain ⟨hpieces, hremark⟩ := h
  obtain ⟨x, ys, remark⟩ := r
  obtain ⟨x', ys', remark'⟩ := r'
  refine ⟨?_, hremark⟩
  cases hpieces with
  | code => exact .code (t ++ x)
  | opened _ hs => exact .opened (t ++ x) hs

theorem Blanked.follow (h : r.Blanked inside r') (hout : r.ends inside = false) (t : Text) :
    (r.follow t).Blanked inside (r'.follow t) := ⟨h.pieces.extended hout t, h.remark⟩

def texts : Bool → List Row → List Text
  | _, [] => []
  | inside, r :: rs => r.text inside :: texts (r.ends inside) rs

def joined : Bool → Row → List Row → Text
  | inside, r, [] => r.body inside
  | inside, r, s :: rs => r.body inside ++ ' ' :: joined (r.ends inside) s rs

/-- What stands outside comments. A blank that joins two lines inside a comment does not count. -/
def codes : Bool → Row → List Row → Text
  | inside, r, [] => r.code inside
  | inside, r, s :: rs =>
    r.code inside ++ ((if r.ends inside then [] else [' ']) ++ codes (r.ends inside) s rs)

def endsAfter : Bool → Row → List Row → Bool
  | inside, r, [] => r.ends inside
  | inside, r, s :: rs => endsAfter (r.ends inside) s rs

def everyRow (f : Bool → Row → Bool) : Bool → Row → List Row → Bool
  | inside, r, [] => f inside r
  | inside, r, s :: rs => f inside r && everyRow f (r.ends inside) s rs

theorem everyRow_first {f : Bool → Row → Bool} (h : everyRow f inside r rs = true) :
    f inside r = true := by
  cases rs with
  | nil => exact h
  | cons s rs => exact (Bool.and_eq_true_iff.mp h).1

def contained (inside : Bool) (r : Row) : Bool :=
  everyPiece (fun inside x => !inside || !Text.contains blockClose x) inside r.first r.rest

theorem eraseFrom_rows (hrows : everyRow contained inside r rs = true)
    (hcode : ¬blockOpen <:+: kept.reverse ++ codes inside r rs) :
    eraseFrom inside kept (joined inside r rs) = kept.reverse ++ codes inside r rs := by
  induction rs generalizing inside r kept with
  | nil =>
    have hlaid := eraseFrom_laid hrows hcode (t := []) (by simp)
    rw [List.append_nil] at hlaid
    rw [joined, body, hlaid]
    simp [eraseFrom, codes, code]
  | cons s rs ih =>
    obtain ⟨hr, hrs⟩ := Bool.and_eq_true_iff.mp hrows
    have hfirst : ¬blockOpen <:+: kept.reverse ++ r.code inside := by
      intro h
      apply hcode
      exact h.trans ⟨[], _, by rw [codes, List.nil_append, List.append_assoc]⟩
    -- The blank between two lines is kept outside comments and skipped inside.
    have hblank (t : Text) :
        eraseFrom (r.ends inside) ((r.code inside).reverse ++ kept) (' ' :: t) =
        eraseFrom (r.ends inside)
          ((if r.ends inside then [] else [' ']) ++ (r.code inside).reverse ++ kept) t := by
      cases r.ends inside with
      | false => exact eraseFrom_cons (fun _ => by decide) t
      | true =>
        rw [eraseFrom]
        · rfl
        · intro u hu
          exact absurd hu (by decide)
    have hkept :
        ((if r.ends inside then [] else [' ']) ++ (r.code inside).reverse ++ kept).reverse ++
        codes (r.ends inside) s rs = kept.reverse ++ codes inside r (s :: rs) := by
      rw [codes]
      cases r.ends inside <;> simp
    rw [joined, body, eraseFrom_laid hr hfirst (by simp)]
    change eraseFrom (r.ends inside) ((r.code inside).reverse ++ kept) _ = _
    rw [hblank, ih hrs (by rw [hkept]; exact hcode), hkept]

theorem joined_precede (t : Text) (r : Row) (rs : List Row) :
    joined inside (r.precede t) rs = t ++ joined inside r rs := by
  cases rs with
  | nil => exact body_precede t r
  | cons s rs =>
    rw [joined, body_precede, joined, List.append_assoc]
    rfl

theorem endsAfter_precede (t : Text) (r : Row) (rs : List Row) :
    endsAfter inside (r.precede t) rs = endsAfter inside r rs := by
  cases rs <;> rfl

def closedBy (t : Text) : Row → List Row → Row × List Row
  | r, [] => (r.follow t, [])
  | r, s :: rs => (r, (closedBy t s rs).1 :: (closedBy t s rs).2)

theorem joined_closedBy (t : Text) (inside : Bool) (r : Row) (rs : List Row) :
    joined inside (closedBy t r rs).1 (closedBy t r rs).2 = joined inside r rs ++ t := by
  induction rs generalizing inside r with
  | nil => exact body_follow t r
  | cons s rs ih =>
    rw [closedBy, joined, ih, joined, List.append_assoc]
    rfl

theorem joined_texts (inside : Bool) (r : Row) (h : everyRow clean inside r rs = true) :
    r.body inside ++ (texts (r.ends inside) rs).flatMap (fun t => ' ' :: stripLine t false) =
      joined inside r rs := by
  induction rs generalizing inside r with
  | nil => simp [texts, joined]
  | cons s rs ih =>
    obtain ⟨-, hrs⟩ := Bool.and_eq_true_iff.mp h
    rw [texts, List.flatMap_cons, stripLine_text (everyRow_first hrs), joined, ← ih _ s hrs]
    rfl

inductive AllBlanked : Bool → Row → List Row → Row → List Row → Prop
  | last {inside : Bool} {r r' : Row} (h : r.Blanked inside r') : AllBlanked inside r [] r' []
  | next {inside : Bool} {r r' s s' : Row} {rs rs' : List Row} (h : r.Blanked inside r')
      (hs : AllBlanked (r.ends inside) s rs s' rs') : AllBlanked inside r (s :: rs) r' (s' :: rs')

theorem Blanked.ends (h : r.Blanked inside r') : r'.ends inside = r.ends inside :=
  h.pieces.insideAfter

theorem AllBlanked.everyRow {f : Bool → Row → Bool} (h : AllBlanked inside r rs r' rs')
    (hf : ∀ inside r r', r.Blanked inside r' → f inside r = true → f inside r' = true)
    (hevery : everyRow f inside r rs = true) : everyRow f inside r' rs' = true := by
  induction h with
  | last h => exact hf _ _ _ h hevery
  | next h hs ih =>
    simp only [Row.everyRow, Bool.and_eq_true, h.ends] at hevery ⊢
    exact ⟨hf _ _ _ h hevery.1, ih hevery.2⟩

theorem AllBlanked.codes (h : AllBlanked inside r rs r' rs') :
    codes inside r' rs' = codes inside r rs := by
  induction h with
  | last h => exact h.pieces.uncovered
  | next h hs ih => rw [Row.codes, Row.codes, h.ends, ih, code, h.pieces.uncovered, code]

theorem AllBlanked.endsAfter (h : AllBlanked inside r rs r' rs') :
    endsAfter inside r' rs' = endsAfter inside r rs := by
  induction h with
  | last h => exact h.ends
  | next h hs ih => rw [Row.endsAfter, h.ends, ih, Row.endsAfter]

theorem AllBlanked.precede (h : AllBlanked false r rs r' rs') (t : Text) :
    AllBlanked false (r.precede t) rs (r'.precede t) rs' := by
  cases h with
  | last h => exact .last (h.precede t)
  | next h hs => exact .next (h.precede t) hs

theorem AllBlanked.closedBy (h : AllBlanked inside r rs r' rs')
    (hout : Row.endsAfter inside r rs = false) (t : Text) :
    AllBlanked inside (closedBy t r rs).1 (closedBy t r rs).2 (closedBy t r' rs').1
      (closedBy t r' rs').2 := by
  induction h with
  | last h => exact .last (h.follow hout t)
  | next h hs ih => exact .next h (ih hout)

end Row

end ScriptFeed.Comment
