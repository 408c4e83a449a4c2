import ScriptFeed.Proofs.Marks

namespace ScriptFeed

namespace Text

variable {pat s t : Text}

theorem contains_iff : contains pat t = true ↔ pat <:+: t := by
  constructor
  · intro h
    obtain ⟨⟨a, b⟩, hcut⟩ := Option.isSome_iff_exists.mp h
    exact ⟨a, b, (cut_eq_some hcut).symm⟩
  · intro h
    induction t with
    | nil =>
      obtain rfl := List.eq_nil_of_infix_nil h
      rfl
    | cons c t ih =>
      unfold contains cut
      cases ha : after? pat (c :: t) with
      | some rest => rfl
      | none =>
        rw [Option.isSome_map]
        apply ih
        rcases List.infix_cons_iff.mp h with ⟨u, hu⟩ | ht
        · rw [after?_eq_some.mpr hu.symm] at ha
          exact absurd ha (by simp)
        · exact ht

theorem contains_eq_false : contains pat t = false ↔ ¬pat <:+: t := by
  rw [← contains_iff, Bool.not_eq_true]

theorem cut_eq_none : cut pat t = none ↔ ¬pat <:+: t := by
  rw [← contains_eq_false, contains, Option.isSome_eq_false_iff, Option.isNone_iff_eq_none]

theorem startsWith_iff : startsWith pat t = true ↔ ∃ u, t = pat ++ u := by
  rw [startsWith, Option.isSome_iff_exists]
  exact exists_congr fun _ => after?_eq_some

theorem startsWith_eq_false : startsWith pat t = false ↔ ¬pat <+: t := by
  rw [← Bool.not_eq_true, startsWith_iff]
  exact not_congr ⟨fun ⟨u, hu⟩ => ⟨u, hu.symm⟩, fun ⟨u, hu⟩ => ⟨u, hu.symm⟩⟩

theorem after?_around {x : Char} (hx : x ∉ pat) (s t : Text) :
    after? pat (s ++ x :: t) = (after? pat s).map (· ++ x :: t) := by
  induction pat generalizing s with
  | nil => rfl
  | cons p pat ih =>
    obtain ⟨hp, hpat⟩ : x ≠ p ∧ x ∉ pat := by simpa using hx
    cases s with
    | nil => exact if_neg (Ne.symm hp)
    | cons c s =>
      rw [List.cons_append, after?, after?]
      split
      · exact ih hpat s
      · rfl

theorem startsWith_around {x : Char} (hx : x ∉ pat) (s t : Text) :
    startsWith pat (s ++ x :: t) = startsWith pat s := by
  rw [startsWith, after?_around hx, Option.isSome_map, startsWith]

theorem infix_around {x : Char} (hx : x ∉ pat) (s t : Text) :
    pat <:+: s ++ x :: t ↔ pat <:+: s ∨ pat <:+: t := by
  constructor
  · intro h
    induction s with
    | nil =>
      rcases List.infix_cons_iff.mp h with hp | ht
      · cases pat with
        | nil => exact .inl List.nil_infix
        | cons p pat =>
          obtain ⟨rfl, -⟩ := List.cons_prefix_cons.mp hp
          exact absurd List.mem_cons_self hx
      · exact .inr ht
    | cons c s ih =>
      rcases List.infix_cons_iff.mp h with ⟨u, hu⟩ | ht
      · have hstart : startsWith pat (c :: s) = true := by
          rw [← startsWith_around hx (c :: s) t, startsWith_iff]
          exact ⟨u, hu.symm⟩
        obtain ⟨v, hv⟩ := startsWith_iff.mp hstart
        exact .inl ⟨[], v, hv.symm⟩
      · exact (ih ht).imp_left List.infix_cons
  · rintro (h | h)
    · exact h.trans (List.prefix_append s (x :: t)).isInfix
    · exact (List.infix_cons h).trans (List.suffix_append s (x :: t)).isInfix

theorem contains_around {x : Char} (hx : x ∉ pat) (s t : Text) :
    contains pat (s ++ x :: t) = (contains pat s || contains pat t) := by
  rw [Bool.eq_iff_iff, Bool.or_eq_true, contains_iff, contains_iff, contains_iff]
  exact infix_around hx s t

theorem cut_free {a b : Text} (hne : pat ≠ []) (h : cut pat t = some (a, b)) : ¬pat <:+: a := by
  induction t generalizing a with
  | nil =>
    rw [cut, if_neg hne] at h
    exact absurd h (by simp)
  | cons c t ih =>
    rw [cut] at h
    cases ha : after? pat (c :: t) with
    | some rest =>
      simp only [ha, Option.some.injEq, Prod.mk.injEq] at h
      rw [← h.1]
      exact fun hin => hne (List.eq_nil_of_infix_nil hin)
    | none =>
      simp only [ha] at h
      obtain ⟨⟨a', b'⟩, hcut, he⟩ := Option.map_eq_some_iff.mp h
      obtain ⟨rfl, rfl⟩ := Prod.mk.inj he
      intro hin
      rcases List.infix_cons_iff.mp hin with ⟨u, hu⟩ | hrest
      · have hstart : after? pat (c :: t) = some (u ++ (pat ++ b')) := by
          rw [after?_eq_some, ← List.append_assoc, hu, cut_eq_some hcut]
          simp
        rw [ha] at hstart
        exact absurd hstart (by simp)
      · exact ih hcut hrest

theorem cut_first {x : Char} {ps a : Text} (hx : x ∉ ps) (ha : ¬(x :: ps) <:+: a) (t : Text) :
    cut (x :: ps) (a ++ (x :: ps ++ t)) = some (a, t) := by
  induction a with
  | nil => exact cut_self_append x ps t
  | cons c a ih =>
    have hnone : after? (x :: ps) (c :: (a ++ (x :: ps ++ t))) = none := by
      rw [after?]
      by_cases hc : x = c
      · subst hc
        rw [if_pos rfl, List.cons_append, after?_around hx]
        cases hps : after? ps a with
        | none => rfl
        | some u => exact absurd ⟨[], u, by rw [after?_eq_some.mp hps]; rfl⟩ ha
      · rw [if_neg hc]
    rw [List.cons_append, cut, hnone]
    dsimp only
    rw [ih fun h => ha (List.infix_cons h)]
    rfl

end Text

namespace Comment

variable {a b body s t u : Text} {prev : Char} {quoted keepDocs active : Bool}

theorem startsWith_lineMark (c d : Char) (t : Text) :
    Text.startsWith lineMark (c :: d :: t) = decide ('#' = c ∧ '#' = d) := by
  rw [Text.startsWith, lineMark, Text.after?]
  by_cases hc : '#' = c
  · rw [if_pos hc, Text.after?]
    by_cases hd : '#' = d
    · rw [if_pos hd, decide_eq_true ⟨hc, hd⟩]
      rfl
    · rw [if_neg hd, decide_eq_false fun h => hd h.2]
      rfl
  · rw [if_neg hc, decide_eq_false fun h => hc h.1]
    rfl

theorem beforeLineMark_unmarked (h : ¬lineMark <:+: t) :
    beforeLineMark keepDocs prev quoted t = some t := by
  induction t generalizing prev quoted with
  | nil => rfl
  | cons c t ih =>
    have hmark : Text.startsWith lineMark (c :: t) = false :=
      Text.startsWith_eq_false.mpr fun hp => h hp.isInfix
    have hdoc : Text.startsWith lineDocMark (c :: t) = false :=
      Text.startsWith_eq_false.mpr fun hp =>
        h (((List.prefix_append lineMark ['!']).trans hp).isInfix)
    have hrest : beforeLineMark keepDocs c (quotedAfter prev c quoted) t = some t :=
      ih fun ht => h (List.infix_cons ht)
    simp only [beforeLineMark, hmark, hdoc, Bool.and_false, Bool.false_eq_true, if_false, hrest,
      Option.map_some]

theorem stripLine_unmarked (h : Text.contains lineMark t = false) : stripLine t keepDocs = t := by
  have hinfix := Text.contains_eq_false.mp h
  have hne : t ≠ lineMark := fun he => hinfix (he ▸ List.infix_rfl)
  rw [stripLine, if_neg hne, scanLine, beforeLineMark_unmarked hinfix]
  split <;> rfl

theorem stripLine_scan (t : Text) (keepDocs : Bool) :
    stripLine t keepDocs = scanLine t keepDocs := by
  by_cases ht : t = lineMark
  · subst ht
    cases keepDocs <;> rfl
  · rw [stripLine, if_neg ht]
    by_cases hmarker : (!hasMarker t) = true
    · rw [if_pos hmarker]
      have hfree : Text.contains lineMark t = false := by
        simp only [hasMarker, Bool.not_eq_true', Bool.or_eq_false_iff] at hmarker
        exact hmarker.1.1
      rw [scanLine, beforeLineMark_unmarked (Text.contains_eq_false.mp hfree)]
      rfl
    · rw [if_neg hmarker]

theorem dropBlocks_unmarked (h : ¬blockOpen <:+: t) :
    dropBlocks keepDocs false prev quoted t = some ⟨t, false⟩ := by
  induction t generalizing prev quoted with
  | nil => rfl
  | cons c t ih =>
    have hrest : dropBlocks keepDocs false c (quotedAfter prev c quoted) t = some ⟨t, false⟩ :=
      ih fun ht => h (List.infix_cons ht)
    cases t with
    | nil => simp [dropBlocks, Stripped.keep]
    | cons d t =>
      have hopen : (c == '#' && d == '*') = false := by
        rw [← Bool.not_eq_true]
        intro hcd
        simp only [Bool.and_eq_true, beq_iff_eq] at hcd
        exact h ⟨[], t, by rw [hcd.1, hcd.2]; rfl⟩
      have hdoc : Text.startsWith blockDocOpen (c :: d :: t) = false :=
        Text.startsWith_eq_false.mpr fun hp =>
          h (((List.prefix_append blockOpen ['!']).trans hp).isInfix)
      rw [dropBlocks]
      simp only [hdoc, Bool.and_false, Bool.and_assoc, hopen, Bool.false_eq_true, if_false, hrest,
        Option.map_some]
      rfl

theorem stripBlock_unmarked (h : Text.contains blockOpen t = false) :
    stripBlock t keepDocs active = (t, active) := by
  have hinfix := Text.contains_eq_false.mp h
  have hne : t ≠ blockOpen := fun he => hinfix (he ▸ List.infix_rfl)
  rw [stripBlock, if_neg hne, scanBlock, dropBlocks_unmarked hinfix]
  split <;> rfl

def quotedThrough : (prev : Char) → (quoted : Bool) → Text → Bool
  | _, quoted, [] => quoted
  | prev, quoted, c :: t => quotedThrough c (quotedAfter prev c quoted) t

def quotes (t : Text) : Nat :=
  ((lineStart :: t).zip t).countP fun x => x.2 == '"' && x.1 != '\\'

theorem quotedThrough_eq (prev : Char) (quoted : Bool) (t : Text) : quotedThrough prev quoted t =
    (quoted ^^ decide
      (((prev :: t).zip t).countP (fun x => x.2 == '"' && x.1 != '\\') % 2 = 1)) := by
  induction t generalizing prev quoted with
  | nil => simp [quotedThrough]
  | cons c t ih =>
    rw [quotedThrough, ih, List.zip_cons_cons, List.countP_cons]
    generalize ((c :: t).zip t).countP _ = n
    unfold quotedAfter
    by_cases hc : (c == '"' && prev != '\\') = true
    · rcases Nat.mod_two_eq_zero_or_one n with hn | hn
      · simp [hc, hn, Nat.add_mod]
      · simp [hc, hn, Nat.add_mod]
    · simp [hc]

theorem quotedThrough_quotes (h : prev ≠ '\\') (t : Text) :
    quotedThrough prev false t = decide (quotes t % 2 = 1) := by
  have hstart : quotedThrough prev false t = quotedThrough lineStart false t := by
    cases t with
    | nil => rfl
    | cons c t =>
      rw [quotedThrough, quotedThrough, quotedAfter_prev h (by decide : lineStart ≠ '\\')]
  rw [hstart, quotedThrough_eq, Bool.false_xor, quotes]

theorem beforeLineMark_first (keepDocs : Bool) (prev : Char) (quoted : Bool) (t : Text) :
    (beforeLineMark keepDocs prev quoted t = some t ∧
      ∀ u v, t = u ++ lineMark ++ v → quotedThrough prev quoted u = true) ∨
    ∃ u v, t = u ++ lineMark ++ v ∧ quotedThrough prev quoted u = false ∧
      (∀ u' v', t = u' ++ lineMark ++ v' → u'.length < u.length →
        quotedThrough prev quoted u' = true) ∧
      beforeLineMark keepDocs prev quoted t =
        if keepDocs = true ∧ Text.startsWith lineDocMark (lineMark ++ v) = true then none
        else some u := by
  induction t generalizing prev quoted with
  | nil =>
    refine .inl ⟨rfl, fun u v h => ?_⟩
    have hlength := congrArg List.length h
    simp [lineMark] at hlength
  | cons c t ih =>
    -- the mark itself is no quote, so that it is quoted when the text before it is
    have hmark (v : Text) (hv : c :: t = lineMark ++ v) : quotedAfter prev c quoted = quoted := by
      obtain ⟨rfl, -⟩ := List.cons.inj hv
      exact quotedAfter_plain (by decide) prev quoted
    have hdoc : Text.startsWith lineDocMark (c :: t) = true →
        Text.startsWith lineMark (c :: t) = true := by
      intro h
      obtain ⟨v, hv⟩ := Text.startsWith_iff.mp h
      exact Text.startsWith_iff.mpr ⟨'!' :: v, hv⟩
    by_cases hstart : quotedAfter prev c quoted = false ∧ Text.startsWith lineMark (c :: t) = true
    · obtain ⟨hquoted, hstart⟩ := hstart
      obtain ⟨v, hv⟩ := Text.startsWith_iff.mp hstart
      refine .inr ⟨[], v, hv, (hmark v hv).symm.trans hquoted, fun u' _ _ h => absurd h (by simp),
        ?_⟩
      rw [← hv, beforeLineMark]
      simp [hquoted, hstart]
    · have hstep : beforeLineMark keepDocs prev quoted (c :: t) =
          (beforeLineMark keepDocs c (quotedAfter prev c quoted) t).map (c :: ·) := by
        rw [beforeLineMark, if_neg, if_neg]
        · simpa using hstart
        · simp only [Bool.and_eq_true, Bool.not_eq_true']
          exact fun h => hstart ⟨h.1.1, hdoc h.2⟩
      have hhere (v : Text) (hv : c :: t = lineMark ++ v) : quoted = true := by
        by_contra hno
        exact hstart ⟨(hmark v hv).trans (Bool.not_eq_true _ ▸ hno),
          Text.startsWith_iff.mpr ⟨v, hv⟩⟩
      rcases ih c (quotedAfter prev c quoted) with ⟨hscan, hall⟩ | ⟨u, v, ht, hu, hfirst, hscan⟩
      · refine .inl ⟨by rw [hstep, hscan]; rfl, fun u v hsplit => ?_⟩
        cases u with
        | nil => exact hhere v hsplit
        | cons d u =>
          obtain ⟨rfl, ht⟩ := List.cons.inj hsplit
          exact hall u v ht
      · refine .inr ⟨c :: u, v, by rw [ht]; rfl, hu, fun u' v' hsplit hlt => ?_, ?_⟩
        · cases u' with
          | nil => exact hhere v' hsplit
          | cons d u' =>
            obtain ⟨rfl, ht'⟩ := List.cons.inj hsplit
            exact hfirst u' v' ht' (by simpa using hlt)
        · rw [hstep, hscan]
          split <;> rfl

theorem beforeLineMark_cases (prev : Char) (quoted : Bool) (t : Text) :
    (beforeLineMark false prev quoted t = some t ∧
      ∀ u v, t = u ++ lineMark ++ v → quotedThrough prev quoted u = true) ∨
    ∃ u v, t = u ++ lineMark ++ v ∧ quotedThrough prev quoted u = false ∧
      beforeLineMark false prev quoted t = some u := by
  refine (beforeLineMark_first false prev quoted t).imp_right ?_
  rintro ⟨u, v, ht, hu, -, hscan⟩
  exact ⟨u, v, ht, hu, by rw [hscan]; simp⟩

theorem beforeLineMark_eq_self (h : prev ≠ '\\') : beforeLineMark false prev false t = some t ↔
    ∀ u v, t = u ++ lineMark ++ v → quotes u % 2 = 1 := by
  rcases beforeLineMark_cases prev false t with ⟨hscan, hall⟩ | ⟨u, v, ht, hu, hscan⟩
  · refine iff_of_true hscan fun u v hsplit => ?_
    have hquoted := hall u v hsplit
    rwa [quotedThrough_quotes h, decide_eq_true_eq] at hquoted
  · refine iff_of_false ?_ fun hall => ?_
    · rw [hscan, Option.some.injEq]
      intro he
      have hlength := congrArg List.length (he.trans ht)
      simp only [List.length_append, lineMark, List.length_cons, List.length_nil] at hlength
      omega
    · rw [quotedThrough_quotes h, hall u v ht] at hu
      exact absurd hu (by decide)

theorem beforeLineMark_append_of_all (h : beforeLineMark false prev quoted s = some s)
    (hst : s.getLast? ≠ some '#' ∨ t.head? ≠ some '#') :
    beforeLineMark false prev quoted (s ++ t) =
      (beforeLineMark false (s.getLast?.getD prev) (quotedThrough prev quoted s) t).map
        (s ++ ·) := by
  induction s generalizing prev quoted with
  | nil =>
    change _ = (beforeLineMark false prev quoted t).map id
    rw [Option.map_id]
    rfl
  | cons c s ih =>
    have hstart : Text.startsWith lineMark (c :: (s ++ t)) = Text.startsWith lineMark (c :: s) := by
      cases s with
      | cons d s => rw [List.cons_append, startsWith_lineMark, startsWith_lineMark]
      | nil =>
        cases t with
        | nil => rfl
        | cons d t =>
          rw [List.nil_append, startsWith_lineMark, decide_eq_false]
          · simp [Text.startsWith, Text.after?, lineMark]
          · rintro ⟨rfl, rfl⟩
            simp at hst
    unfold beforeLineMark at h
    rw [List.cons_append, beforeLineMark]
    simp only [Bool.and_false, Bool.false_and, Bool.false_eq_true, if_false, hstart] at h ⊢
    by_cases hmark : (!quotedAfter prev c quoted && Text.startsWith lineMark (c :: s)) = true
    · simp [hmark] at h
    · rw [if_neg hmark] at h ⊢
      obtain ⟨s', hs, he⟩ := Option.map_eq_some_iff.mp h
      obtain rfl := (List.cons.inj he).2
      have hlast : s'.getLast? ≠ some '#' ∨ t.head? ≠ some '#' := by
        refine hst.imp_left fun hne hs' => hne ?_
        rw [List.getLast?_cons, hs']
        rfl
      rw [ih hs hlast, Option.map_map, quotedThrough, List.getLast?_cons]
      rfl

theorem beforeLineMark_append_of_cut (h : beforeLineMark false prev quoted s = some u)
    (hu : u ≠ s) :
    beforeLineMark false prev quoted (s ++ t) = some u := by
  induction s generalizing prev quoted u with
  | nil =>
    obtain rfl : [] = u := by simpa [beforeLineMark] using h
    exact absurd rfl hu
  | cons c s ih =>
    unfold beforeLineMark at h
    rw [List.cons_append, beforeLineMark]
    simp only [Bool.and_false, Bool.false_and, Bool.false_eq_true, if_false] at h ⊢
    by_cases hmark : (!quotedAfter prev c quoted && Text.startsWith lineMark (c :: s)) = true
    · rw [if_pos hmark] at h
      simp only [Bool.and_eq_true] at hmark
      obtain ⟨v, hv⟩ := Text.startsWith_iff.mp hmark.2
      have hstart : Text.startsWith lineMark (c :: (s ++ t)) = true :=
        Text.startsWith_iff.mpr ⟨v ++ t, by rw [← List.append_assoc, ← hv]; rfl⟩
      rw [if_pos (by rw [hmark.1, hstart]; rfl)]
      exact h
    · rw [if_neg hmark] at h
      obtain ⟨u', hu', rfl⟩ := Option.map_eq_some_iff.mp h
      have hne : u' ≠ s := fun he => hu (by rw [he])
      obtain ⟨d, s, rfl⟩ : ∃ d s', s = d :: s' := by
        apply List.exists_cons_of_ne_nil
        rintro rfl
        obtain rfl : [] = u' := by simpa [beforeLineMark] using hu'
        exact hne rfl
      rw [startsWith_lineMark] at hmark
      rw [List.cons_append, startsWith_lineMark, if_neg hmark, ← List.cons_append, ih hu' hne]
      rfl

theorem dropBlocks_inside (h : ¬blockClose <:+: body) (t : Text) :
    dropBlocks keepDocs true prev quoted (body ++ blockClose ++ t) =
      dropBlocks keepDocs false prev quoted t := by
  induction body with
  | nil => rfl
  | cons c body ih =>
    have hrest := ih fun hb => h (List.infix_cons hb)
    rw [List.cons_append, List.cons_append, dropBlocks, hrest]
    -- the two characters of an end mark are not both of the body, nor is one of them
    rintro r rfl hr
    cases body with
    | nil => simp [blockClose] at hr
    | cons d body =>
      obtain ⟨rfl, -⟩ := List.cons.inj hr
      exact h ⟨[], body, rfl⟩

theorem dropBlocks_unclosed (h : ¬blockClose <:+: body) :
    dropBlocks keepDocs true prev quoted body = some ⟨[], true⟩ := by
  induction body with
  | nil => rfl
  | cons c body ih =>
    rw [dropBlocks, ih fun hb => h (List.infix_cons hb)]
    rintro r rfl rfl
    exact h ⟨[], r, rfl⟩

theorem dropBlocks_append (ha : ∀ c ∈ a, '#' ≠ c ∧ c ≠ '"') (prev : Char) (t : Text) :
    ∃ prev', dropBlocks false false prev false (a ++ t) =
      (dropBlocks false false prev' false t).map fun s => { s with text := a ++ s.text } := by
  induction a generalizing prev with
  | nil =>
    refine ⟨prev, ?_⟩
    change _ = (dropBlocks false false prev false t).map id
    rw [Option.map_id]
    rfl
  | cons c a ih =>
    obtain ⟨hc, hq⟩ := ha c List.mem_cons_self
    obtain ⟨prev', hrest⟩ := ih (fun d hd => ha d (List.mem_cons_of_mem _ hd)) c
    refine ⟨prev', ?_⟩
    rw [List.cons_append, dropBlocks_cons false hc hq, hrest, Option.map_map]
    rfl

theorem dropBlocks_open (prev : Char) (t : Text) :
    dropBlocks false false prev false (blockOpen ++ t) = dropBlocks false true prev false t := by
  simp [blockOpen, dropBlocks, quotedAfter_plain]

theorem not_infix_of_free {pat : Text} {c : Char} (hc : c ∈ pat) (ht : c ∉ t) : ¬pat <:+: t :=
  fun h => ht (h.subset hc)

theorem hasMarker_of_open (h : blockOpen <:+: t) : hasMarker t = true := by
  rw [hasMarker, Text.contains_iff.mpr h, Bool.or_true, Bool.true_or]

theorem stripBlock_closed (ha : ∀ c ∈ a, '#' ≠ c ∧ c ≠ '"') (hb : '#' ∉ b)
    (hbody : ¬blockClose <:+: body) :
    stripBlock (a ++ blockOpen ++ body ++ blockClose ++ b) false active = (a ++ b, active) := by
  let line := a ++ blockOpen ++ body ++ blockClose ++ b
  have hmarker : hasMarker line = true :=
    hasMarker_of_open ⟨a, body ++ blockClose ++ b, by simp [line]⟩
  have hne : line ≠ blockOpen := by
    intro he
    have hlength := congrArg List.length he
    simp only [line, List.length_append, blockOpen, blockClose, List.length_cons,
      List.length_nil] at hlength
    omega
  have hscan : dropBlocks false false lineStart false line = some ⟨a ++ b, false⟩ := by
    have hline : line = a ++ (blockOpen ++ (body ++ blockClose ++ b)) := by simp [line]
    obtain ⟨prev, hprev⟩ := dropBlocks_append ha lineStart (blockOpen ++ (body ++ blockClose ++ b))
    have hopen : '#' ∈ blockOpen := List.mem_cons_self
    rw [hline, hprev, dropBlocks_open, dropBlocks_inside hbody,
      dropBlocks_unmarked (not_infix_of_free hopen hb)]
    rfl
  change stripBlock line false active = _
  rw [stripBlock, if_neg hne, hmarker, Bool.not_true, if_neg Bool.false_ne_true, scanBlock, hscan]
  rfl

theorem stripBlock_unclosed (ha : ∀ c ∈ a, '#' ≠ c ∧ c ≠ '"') (hu : ¬blockClose <:+: u) :
    stripBlock (a ++ blockOpen ++ u) false active = (a, true) := by
  have hmarker : hasMarker (a ++ blockOpen ++ u) = true := hasMarker_of_open ⟨a, u, rfl⟩
  have hscan : dropBlocks false false lineStart false (a ++ blockOpen ++ u) = some ⟨a, true⟩ := by
    obtain ⟨prev, hprev⟩ := dropBlocks_append ha lineStart (blockOpen ++ u)
    rw [List.append_assoc, hprev, dropBlocks_open, dropBlocks_unclosed hu, Option.map_some,
      List.append_nil]
  by_cases he : a ++ blockOpen ++ u = blockOpen
  · have hlength := congrArg List.length he
    simp only [List.length_append] at hlength
    obtain rfl : a = [] := List.eq_nil_of_length_eq_zero (by omega)
    rw [stripBlock, if_pos he]
  · rw [stripBlock, if_neg he, hmarker, Bool.not_true, if_neg Bool.false_ne_true, scanBlock, hscan]
    rfl

theorem beforeLineMark_append {pat : Text} (hpat : ∀ c ∈ pat, '#' ≠ c ∧ c ≠ '"') (keepDocs : Bool)
    (prev : Char) (t : Text) : ∃ prev', beforeLineMark keepDocs prev false (pat ++ t) =
      (beforeLineMark keepDocs prev' false t).map (pat ++ ·) := by
  induction pat generalizing prev with
  | nil => exact ⟨prev, by simp⟩
  | cons c pat ih =>
    obtain ⟨hc, hq⟩ := hpat c List.mem_cons_self
    obtain ⟨prev', hrest⟩ := ih (fun d hd => hpat d (List.mem_cons_of_mem _ hd)) c
    refine ⟨prev', ?_⟩
    rw [List.cons_append, beforeLineMark_cons keepDocs hc hq, hrest, Option.map_map]
    rfl

theorem stripLine_startsWith {pat t : Text} (hpat : ∀ c ∈ pat, '#' ≠ c ∧ c ≠ '"') (hne : pat ≠ [])
    (h : Text.startsWith pat t = true) (keepDocs : Bool) :
    Text.startsWith pat (stripLine t keepDocs) = true := by
  obtain ⟨u, rfl⟩ := Text.startsWith_iff.mp h
  have hmark : pat ++ u ≠ lineMark := by
    obtain ⟨c, pat, rfl⟩ := List.exists_cons_of_ne_nil hne
    have hc := (hpat c List.mem_cons_self).1
    simp [lineMark, hc.symm]
  obtain ⟨prev, hscan⟩ := beforeLineMark_append hpat keepDocs lineStart u
  rw [stripLine, if_neg hmark, scanLine, hscan]
  split
  · exact h
  · cases beforeLineMark keepDocs prev false u with
    | none => exact h
    | some v => exact Text.startsWith_iff.mpr ⟨v, rfl⟩

theorem stripLine_comment (ha : ∀ c ∈ a, '#' ≠ c ∧ c ≠ '"') (t : Text) :
    stripLine (a ++ blockOpen ++ t) false =
      a ++ blockOpen ++ (beforeLineMark false '*' false t).getD t := by
  have hne : a ++ blockOpen ++ t ≠ lineMark := by
    intro he
    have hstar : '*' ∈ a ++ blockOpen ++ t := by simp [blockOpen]
    rw [he] at hstar
    exact absurd hstar (by decide)
  obtain ⟨prev, hprev⟩ := beforeLineMark_append ha false lineStart (blockOpen ++ t)
  have hopen : beforeLineMark false prev false (blockOpen ++ t) =
      (beforeLineMark false '*' false t).map (blockOpen ++ ·) := by
    have hnumber : Text.startsWith lineMark ('#' :: '*' :: t) = false := by
      rw [startsWith_lineMark]
      rfl
    change beforeLineMark false prev false ('#' :: '*' :: t) = _
    rw [beforeLineMark]
    simp only [quotedAfter_plain (by decide : '#' ≠ '"'), hnumber, Bool.and_false, Bool.false_and,
      Bool.false_eq_true, if_false]
    rw [beforeLineMark_cons false (by decide) (by decide), Option.map_map]
    rfl
  rw [stripLine, if_neg hne, hasMarker_of_open ⟨a, t, rfl⟩, Bool.not_true,
    if_neg Bool.false_ne_true, scanLine, List.append_assoc, hprev, hopen, Option.map_map]
  cases beforeLineMark false '*' false t <;> simp

theorem stripLine_comment_whole (ha : ∀ c ∈ a, '#' ≠ c ∧ c ≠ '"') (hb : '#' ∉ b)
    (hq : ∀ u v, body = u ++ lineMark ++ v → quotes u % 2 = 1) :
    stripLine (a ++ blockOpen ++ body ++ blockClose ++ b) false =
      a ++ blockOpen ++ body ++ blockClose ++ b := by
  have hrest : ¬lineMark <:+: blockClose ++ b := by
    intro h
    have hcount := h.sublist.count_le '#'
    rw [List.count_append, List.count_eq_zero.mpr hb] at hcount
    exact absurd hcount (by decide)
  have hscan : beforeLineMark false '*' false (body ++ (blockClose ++ b)) =
      some (body ++ (blockClose ++ b)) := by
    have hbody := (beforeLineMark_eq_self (by decide : '*' ≠ '\\')).mpr hq
    have htail : (blockClose ++ b).head? ≠ some '#' := by simp [blockClose]
    rw [beforeLineMark_append_of_all hbody (.inr htail), beforeLineMark_unmarked hrest]
    rfl
  have hline : a ++ blockOpen ++ body ++ blockClose ++ b =
      a ++ blockOpen ++ (body ++ (blockClose ++ b)) := by simp only [List.append_assoc]
  rw [hline, stripLine_comment ha, hscan, Option.getD_some]

theorem stripLine_comment_cut {v : Text} (ha : ∀ c ∈ a, '#' ≠ c ∧ c ≠ '"')
    (hsplit : body = u ++ lineMark ++ v) (hq : quotes u % 2 = 0) :
    ∃ w, w <+: body ∧
      stripLine (a ++ blockOpen ++ body ++ blockClose ++ b) false = a ++ blockOpen ++ w := by
  have hself : beforeLineMark false '*' false body ≠ some body := by
    intro he
    have hodd := (beforeLineMark_eq_self (by decide)).mp he u v hsplit
    omega
  rcases beforeLineMark_cases '*' false body with ⟨hscan, -⟩ | ⟨w, x, hw, -, hscan⟩
  · exact absurd hscan hself
  · have hne : w ≠ body := fun he => hself (he ▸ hscan)
    refine ⟨w, ⟨lineMark ++ x, by rw [← List.append_assoc, ← hw]⟩, ?_⟩
    have hline : a ++ blockOpen ++ body ++ blockClose ++ b =
        a ++ blockOpen ++ (body ++ (blockClose ++ b)) := by simp only [List.append_assoc]
    rw [hline, stripLine_comment ha, beforeLineMark_append_of_cut hscan hne, Option.getD_some]

end Comment

end ScriptFeed
