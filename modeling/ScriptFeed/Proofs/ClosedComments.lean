import ScriptFeed.Proofs.Scanning

namespace ScriptFeed.Comment

variable {a b body t : Text} {prev : Char} {quoted active : Bool}

def Unopened (a : Text) : Prop := ∀ u v, a = u ++ blockOpen ++ v → quotes u % 2 = 1

theorem unopened_iff : Unopened a ↔
    ∀ n < a.length, Text.startsWith blockOpen (a.drop n) = true → quotes (a.take n) % 2 = 1 := by
  constructor
  · intro h n _ hstart
    obtain ⟨v, hv⟩ := Text.startsWith_iff.mp hstart
    apply h _ v
    rw [List.append_assoc, ← hv, List.take_append_drop]
  · rintro h u v rfl
    have htake : (u ++ blockOpen ++ v).take u.length = u := by
      rw [List.append_assoc, List.take_left]
    have hdrop : (u ++ blockOpen ++ v).drop u.length = blockOpen ++ v := by
      rw [List.append_assoc, List.drop_left]
    have hquotes := h u.length (by simp [blockOpen]) (by
      rw [hdrop]
      exact Text.startsWith_iff.mpr ⟨v, rfl⟩)
    rwa [htake] at hquotes

instance (a : Text) : Decidable (Unopened a) := decidable_of_iff _ unopened_iff.symm

theorem stripBlock_scan (t : Text) (keepDocs active : Bool) :
    stripBlock t keepDocs active = scanBlock t keepDocs active := by
  by_cases he : t = blockOpen
  · subst he
    cases keepDocs <;> rfl
  · rw [stripBlock, if_neg he]
    by_cases hmarker : (!hasMarker t) = true
    · rw [if_pos hmarker]
      have hopen : ¬blockOpen <:+: t := by
        intro h
        simp [hasMarker_of_open h] at hmarker
      rw [scanBlock, dropBlocks_unmarked hopen]
      rfl
    · rw [if_neg hmarker]

theorem dropBlocks_isSome (inside : Bool) (prev : Char) (quoted : Bool) (t : Text) :
    (dropBlocks false inside prev quoted t).isSome = true := by
  fun_induction dropBlocks false inside prev quoted t with
  | case1 => rfl
  | case2 _ _ _ ih => exact ih
  | case3 _ _ _ _ _ ih => exact ih
  | case4 _ _ _ ih => rw [Option.isSome_map, ih]
  | case5 _ _ _ _ _ _ h => simp at h
  | case6 _ _ _ _ _ _ _ _ ih => exact ih
  | case7 _ _ _ _ _ _ _ _ ih => rw [Option.isSome_map, ih]

theorem dropBlocks_unopened
    (h : ∀ u v, a = u ++ blockOpen ++ v → quotedThrough prev quoted u = true)
    (hseam : ¬(a.getLast? = some '#' ∧ t.head? = some '*')) :
    dropBlocks false false prev quoted (a ++ t) =
      (dropBlocks false false (a.getLast?.getD prev) (quotedThrough prev quoted a) t).map
        fun s => { s with text := a ++ s.text } := by
  induction a generalizing prev quoted with
  | nil =>
    change _ = (dropBlocks false false prev quoted t).map id
    rw [Option.map_id]
    rfl
  | cons c a ih =>
    have hrest : ∀ u v, a = u ++ blockOpen ++ v →
        quotedThrough c (quotedAfter prev c quoted) u = true := by
      rintro u v rfl
      exact h (c :: u) v rfl
    have hlast : ¬(a.getLast? = some '#' ∧ t.head? = some '*') := by
      rintro ⟨hl, ht⟩
      exact hseam ⟨by rw [List.getLast?_cons, hl]; rfl, ht⟩
    -- an opener here would lie in the text, or across its end
    have hnone : ∀ d r, a ++ t = d :: r →
        (!quotedAfter prev c quoted && c == '#' && d == '*') = false := by
      intro d r hd
      by_contra hopen
      simp only [Bool.not_eq_false, Bool.and_eq_true, Bool.not_eq_true', beq_iff_eq] at hopen
      obtain ⟨⟨hq, rfl⟩, rfl⟩ := hopen
      cases a with
      | nil =>
        rw [List.nil_append] at hd
        exact hseam ⟨rfl, by rw [hd]; rfl⟩
      | cons e a =>
        obtain ⟨rfl, -⟩ := List.cons.inj hd
        have hquoted := h [] a rfl
        rw [quotedAfter_plain (by decide)] at hq
        exact absurd (hq.symm.trans hquoted) (by decide)
    have hstep : dropBlocks false false prev quoted (c :: (a ++ t)) =
        (dropBlocks false false c (quotedAfter prev c quoted) (a ++ t)).map (·.keep c) := by
      cases hd : a ++ t with
      | nil => simp [dropBlocks]
      | cons d r =>
        rw [dropBlocks]
        simp only [Bool.and_false, Bool.false_and, Bool.false_eq_true, if_false, hnone d r hd]
    rw [List.cons_append, hstep, ih hrest hlast, Option.map_map, quotedThrough, List.getLast?_cons]
    rfl

theorem quotedThrough_even (h : quotes a % 2 = 0) : quotedThrough lineStart false a = false := by
  rw [quotedThrough_quotes (by decide), h]
  rfl

theorem Unopened.within (h : Unopened a) (u v : Text) (hsplit : a = u ++ blockOpen ++ v) :
    quotedThrough lineStart false u = true := by
  rw [quotedThrough_quotes (by decide), decide_eq_true_eq]
  exact h u v hsplit

theorem Unopened.stripBlock (h : Unopened a) : stripBlock a false active = (a, active) := by
  have hscan := dropBlocks_unopened (t := []) h.within (by simp)
  rw [List.append_nil] at hscan
  rw [stripBlock_scan, scanBlock, hscan]
  simp [dropBlocks]

/-- Between two texts stands a comment that can be taken out: it begins outside quotes and is the
first of its line, it ends where it says so, and the texts do not make up a mark between them. -/
structure Removable (a body b : Text) : Prop where
  outside : quotes a % 2 = 0
  first : Unopened a
  ends : ¬blockClose <:+: body
  seam : ¬(a.getLast? = some '#' ∧ b.head? = some '*')

theorem Removable.stripBlock (h : Removable a body b) (active : Bool) :
    stripBlock (a ++ blockOpen ++ body ++ blockClose ++ b) false active =
      stripBlock (a ++ b) false active := by
  have hline : a ++ blockOpen ++ body ++ blockClose ++ b =
      a ++ (blockOpen ++ (body ++ blockClose ++ b)) := by simp
  have hopen : ¬(a.getLast? = some '#' ∧
      (blockOpen ++ (body ++ blockClose ++ b)).head? = some '*') := by simp [blockOpen]
  rw [stripBlock_scan, stripBlock_scan, scanBlock, scanBlock, hline,
    dropBlocks_unopened h.first.within hopen, dropBlocks_unopened h.first.within h.seam,
    quotedThrough_even h.outside, dropBlocks_open, dropBlocks_inside h.ends]
  obtain ⟨s, hs⟩ := Option.isSome_iff_exists.mp
    (dropBlocks_isSome false (a.getLast?.getD lineStart) false b)
  rw [hs]
  rfl

def woven : List (Text × Text) → Text → Text
  | [], b => b
  | (a, body) :: ps, b => a ++ blockOpen ++ body ++ blockClose ++ woven ps b

def plain : List (Text × Text) → Text → Text
  | [], b => b
  | (a, _) :: ps, b => a ++ plain ps b

/-- Behind `kept`, each comment of a line can be taken out once those before it are. -/
def Removables (kept : Text) : List (Text × Text) → Text → Prop
  | [], _ => True
  | (a, body) :: ps, b => Removable (kept ++ a) body (woven ps b) ∧ Removables (kept ++ a) ps b

theorem Removables.stripBlock {kept : Text} {ps : List (Text × Text)} (h : Removables kept ps b) :
    stripBlock (kept ++ woven ps b) false active =
      stripBlock (kept ++ plain ps b) false active := by
  induction ps generalizing kept with
  | nil => rfl
  | cons p ps ih =>
    obtain ⟨a, body⟩ := p
    have hfirst := h.1.stripBlock active
    have hrest := ih h.2
    simp only [woven, plain, List.append_assoc] at hfirst hrest ⊢
    rw [hfirst, hrest]

/-- A comment that begins outside quotes and ends on its line can be taken out of the line, whatever
it contains, and the other comments after it; where no comment is left, all else is left. -/
theorem closed_comments_removed (a body b : Text) (active : Bool) (h : Removable a body b) :
    stripBlock (a ++ blockOpen ++ body ++ blockClose ++ b) false active =
      stripBlock (a ++ b) false active ∧
    ∀ ps c, b = woven ps c → Removables a ps c →
      stripBlock (a ++ blockOpen ++ body ++ blockClose ++ b) false active =
        stripBlock (a ++ plain ps c) false active ∧
      (Unopened (a ++ plain ps c) →
        stripBlock (a ++ blockOpen ++ body ++ blockClose ++ b) false active =
          (a ++ plain ps c, active)) := by
  have hfirst := h.stripBlock active
  refine ⟨hfirst, ?_⟩
  rintro ps c rfl hps
  have hall := hfirst.trans hps.stripBlock
  exact ⟨hall, fun hplain => hall.trans hplain.stripBlock⟩

theorem closed_comments_removed_quoted :
    stripBlock "s = \"#*\\\"\" #* \" #* *#+ \"*#\" ##**b*#;".toList false true =
      ("s = \"#*\\\"\" + \"*#\" #;".toList, true) := by
  let a := "s = \"#*\\\"\" ".toList
  let ps := [("+ \"*#\" #".toList, "*b".toList)]
  have hfirst : Removable a " \" #* ".toList (woven ps [';']) :=
    ⟨by decide, by decide, Text.contains_eq_false.mp (by decide), by decide⟩
  have hsecond : Removable (a ++ "+ \"*#\" #".toList) "*b".toList (woven [] [';']) :=
    ⟨by decide, by decide, Text.contains_eq_false.mp (by decide), by decide⟩
  exact ((closed_comments_removed a " \" #* ".toList (woven ps [';']) true hfirst).2 ps [';'] rfl
    ⟨hsecond, trivial⟩).2 (by decide)

end ScriptFeed.Comment
