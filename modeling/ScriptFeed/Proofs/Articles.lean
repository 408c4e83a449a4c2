import ScriptFeed.Article
import ScriptFeed.Proofs.Cutting
import ScriptFeed.Proofs.Scanning

namespace ScriptFeed

theorem Text.cutAt_eq_some {x : Char} {t a b : Text} :
    cutAt x t = some (a, b) ↔ t = a ++ x :: b ∧ x ∉ a := by
  constructor
  · intro h
    refine ⟨by rw [cut_eq_some h, List.append_assoc]; rfl, fun hmem => ?_⟩
    obtain ⟨u, v, rfl⟩ := List.append_of_mem hmem
    exact cut_free (List.cons_ne_nil x []) h ⟨u, v, by rw [List.append_assoc]; rfl⟩
  · rintro ⟨rfl, hx⟩
    exact cut_append [] hx b

namespace Article

variable {t u attrs content rest before id new package : Text} {c : Char} {inWord : Bool} {p : Part}
  {ps : List Part}

def tagName : Text := ['a', 'r', 't', 'i', 'c', 'l', 'e']

theorem tagOpen_eq : tagOpen = '<' :: tagName := by decide

structure Begins (t attrs content rest : Text) : Prop where
  text : t = tagOpen ++ (attrs ++ '>' :: (content ++ (tagClose ++ rest)))
  apart : attrs.head?.any Text.isWordChar = false
  attrs : '>' ∉ attrs
  content : ¬tagClose <:+: content

theorem head_attrs (attrs u : Text) :
    (attrs ++ '>' :: u).head?.any Text.isWordChar = attrs.head?.any Text.isWordChar := by
  cases attrs with
  | nil => rfl
  | cons c attrs => rfl

theorem here?_eq_some : here? t = some (attrs, content, rest) ↔ Begins t attrs content rest := by
  constructor
  · intro h
    unfold here? at h
    cases htag : Text.after? tagOpen t with
    | none => simp [htag] at h
    | some r =>
      simp only [htag] at h
      by_cases hword : r.head?.any Text.isWordChar = true
      · simp [hword] at h
      · rw [if_neg hword] at h
        cases hattrs : Text.cutAt '>' r with
        | none => simp [hattrs] at h
        | some x =>
          obtain ⟨attrs', r'⟩ := x
          simp only [hattrs] at h
          cases hcontent : Text.cut tagClose r' with
          | none => simp [hcontent] at h
          | some y =>
            obtain ⟨content', rest'⟩ := y
            simp only [hcontent, Option.some.injEq, Prod.mk.injEq] at h
            obtain ⟨rfl, rfl, rfl⟩ := h
            obtain ⟨hr, hgreater⟩ := Text.cutAt_eq_some.mp hattrs
            have hr' := Text.cut_eq_some hcontent
            refine ⟨?_, ?_, hgreater, Text.cut_free (by decide) hcontent⟩
            · rw [Text.after?_eq_some.mp htag, hr, hr', List.append_assoc]
            · rw [hr, head_attrs] at hword
              exact Bool.not_eq_true _ ▸ hword
  · rintro ⟨rfl, hword, hattrs, hcontent⟩
    have hcutAttrs (u : Text) : Text.cutAt '>' (attrs ++ '>' :: u) = some (attrs, u) :=
      Text.cutAt_eq_some.mpr ⟨rfl, hattrs⟩
    have hcutContent : Text.cut tagClose (content ++ (tagClose ++ rest)) = some (content, rest) :=
      Text.cut_first (by decide) hcontent rest
    rw [here?, Text.after?_eq_some.mpr rfl]
    dsimp only
    rw [head_attrs, hword, if_neg Bool.false_ne_true, hcutAttrs]
    dsimp only
    rw [hcutContent]

theorem here?_eq_none : here? t = none ↔ ∀ attrs content rest, ¬Begins t attrs content rest := by
  simp only [← here?_eq_some]
  cases here? t with
  | none => simp
  | some x =>
    obtain ⟨attrs, content, rest⟩ := x
    simp

def Closes (u : Text) : Prop := ∃ x y z, u = x ++ '>' :: (y ++ (tagClose ++ z))

theorem Closes.behind (h : Closes u) (t : Text) : Closes (t ++ u) := by
  obtain ⟨x, y, z, rfl⟩ := h
  exact ⟨t ++ x, y, z, (List.append_assoc _ _ _).symm⟩

theorem begins_iff : (∃ attrs content rest, Begins t attrs content rest) ↔
    ∃ u, t = tagOpen ++ u ∧ u.head?.any Text.isWordChar = false ∧ Closes u := by
  constructor
  · rintro ⟨attrs, content, rest, rfl, hword, -, -⟩
    exact ⟨_, rfl, (head_attrs attrs _).trans hword, attrs, content, rest, rfl⟩
  · rintro ⟨u, rfl, hword, x, y, z, hu⟩
    have hgreater : '>' ∈ u := by simp [hu]
    obtain ⟨attrs, more, rfl, hattrs⟩ := List.eq_append_cons_of_mem hgreater
    have hclose : tagClose <:+: more := by
      rcases List.append_eq_append_iff.mp hu with ⟨w, rfl, hw⟩ | ⟨w, rfl, hw⟩
      · cases w with
        | nil =>
          obtain ⟨-, rfl⟩ := List.cons.inj hw
          exact ⟨y, z, by simp⟩
        | cons d w =>
          obtain ⟨-, rfl⟩ := List.cons.inj hw
          exact ⟨w ++ '>' :: y, z, by simp⟩
      · cases w with
        | nil =>
          obtain ⟨-, rfl⟩ := List.cons.inj hw
          exact ⟨y, z, by simp⟩
        | cons d w =>
          obtain ⟨rfl, -⟩ := List.cons.inj hw
          exact absurd (by simp) hattrs
    obtain ⟨⟨content, rest⟩, hcut⟩ := Option.isSome_iff_exists.mp (Text.contains_iff.mpr hclose)
    refine ⟨attrs, content, rest, ?_, (head_attrs attrs more).symm.trans hword, hattrs,
      Text.cut_free (by decide) hcut⟩
    rw [Text.cut_eq_some hcut, List.append_assoc]

inductive Splits : Text → List Part → Prop
  | done : Splits [] []
  | plain {c : Char} {t : Text} {ps : List Part}
      (h : ∀ attrs content rest, ¬Begins (c :: t) attrs content rest) (hs : Splits t ps) :
      Splits (c :: t) (.plain c :: ps)
  | article {t attrs content rest : Text} {ps : List Part} (h : Begins t attrs content rest)
      (hs : Splits rest ps) : Splits t (.article attrs content :: ps)

theorem partsFrom_skip (a t : Text) : partsFrom a.length (a ++ t) = parts t := by
  induction a with
  | nil => rfl
  | cons c a ih =>
    rw [List.length_cons, List.cons_append, partsFrom]
    exact ih

theorem parts_plain (h : ∀ attrs content rest, ¬Begins (c :: t) attrs content rest) :
    parts (c :: t) = .plain c :: parts t := by
  rw [parts, partsFrom, here?_eq_none.mpr h]
  rfl

theorem parts_article (h : Begins t attrs content rest) :
    parts t = .article attrs content :: parts rest := by
  let a := tagName ++ (attrs ++ '>' :: (content ++ tagClose))
  have ht : t = '<' :: (a ++ rest) := by
    rw [h.text, tagOpen_eq]
    simp only [a, List.append_assoc, List.cons_append]
  have hhere := here?_eq_some.mpr h
  rw [ht] at hhere ⊢
  rw [parts, partsFrom, hhere]
  dsimp only
  rw [List.length_append, Nat.add_sub_cancel, partsFrom_skip]

theorem Splits.parts_eq (h : Splits t ps) : parts t = ps := by
  induction h with
  | done => rfl
  | plain h _ ih => rw [parts_plain h, ih]
  | article h _ ih => rw [parts_article h, ih]

theorem splits_parts (t : Text) : Splits t (parts t) := by
  induction hn : t.length using Nat.strong_induction_on generalizing t with
  | _ n ih =>
    cases t with
    | nil => exact .done
    | cons c t =>
      cases hhere : here? (c :: t) with
      | none =>
        have h := here?_eq_none.mp hhere
        rw [parts_plain h]
        exact .plain h (ih _ (by rw [← hn]; exact Nat.lt_succ_self _) t rfl)
      | some x =>
        obtain ⟨attrs, content, rest⟩ := x
        have h := here?_eq_some.mp hhere
        have hlength : rest.length < n := by
          have := congrArg List.length h.text
          simp only [List.length_append, List.length_cons] at this hn
          omega
        rw [parts_article h]
        exact .article h (ih _ hlength rest rfl)

theorem Splits.render_eq (h : Splits t ps) : render ps = t := by
  induction h with
  | done => rfl
  | plain _ _ ih => rw [render, List.flatMap_cons, ← render, ih]; rfl
  | article h _ ih =>
    rw [render, List.flatMap_cons, ← render, ih, h.text, Part.render]
    simp only [List.append_assoc, List.cons_append]

/-- What leads to a quoted id: the attribute, the equals sign and the quote, blanks between them. -/
def Leads (before : Text) : Prop :=
  ∃ x y, (∀ c ∈ x, Text.isBlank c = true) ∧ (∀ c ∈ y, Text.isBlank c = true) ∧
    before = 'i' :: 'd' :: (x ++ '=' :: (y ++ ['"']))

theorem trimStart_blanks {x : Text} (hx : ∀ c ∈ x, Text.isBlank c = true)
    (hc : Text.isBlank c = false) (t : Text) : Text.trimStart (x ++ c :: t) = c :: t := by
  rw [Text.trimStart, List.dropWhile_append_of_pos hx, ← Text.trimStart, Text.trimStart_cons hc]

theorem exists_blanks (t : Text) :
    ∃ x, (∀ c ∈ x, Text.isBlank c = true) ∧ t = x ++ Text.trimStart t :=
  ⟨t.takeWhile Text.isBlank, fun _ => List.mem_takeWhile_imp, List.takeWhile_append_dropWhile.symm⟩

theorem idHere?_eq_some : idHere? t = some (before, id, rest) ↔
    Leads before ∧ '"' ∉ id ∧ ∃ r, rest = '"' :: r ∧ t = before ++ (id ++ rest) := by
  constructor
  · intro h
    unfold idHere? at h
    cases hid : Text.after? ['i', 'd'] t with
    | none => simp [hid] at h
    | some r₁ =>
      simp only [hid] at h
      split at h
      next r₂ hequals =>
        split at h
        next r₃ hquote =>
          split at h
          next id' rest' hcut =>
            simp only [Option.some.injEq, Prod.mk.injEq] at h
            obtain ⟨rfl, rfl, rfl⟩ := h
            obtain ⟨hr₃, hfree⟩ := Text.cutAt_eq_some.mp hcut
            obtain ⟨x, hx, hr₁⟩ := exists_blanks r₁
            obtain ⟨y, hy, hr₂⟩ := exists_blanks r₂
            rw [hequals] at hr₁
            rw [hquote] at hr₂
            let lead : Text := 'i' :: 'd' :: (x ++ '=' :: (y ++ ['"']))
            have ht : t = lead ++ r₃ := by
              rw [Text.after?_eq_some.mp hid, hr₁, hr₂]
              simp [lead]
            have hlead : t.take (t.length - r₃.length) = lead := by
              rw [ht, List.length_append, Nat.add_sub_cancel, List.take_left]
            rw [hlead]
            exact ⟨⟨x, y, hx, hy, rfl⟩, hfree, rest', rfl, by rw [ht, hr₃]⟩
          · simp at h
        · simp at h
      · simp at h
  · rintro ⟨⟨x, y, hx, hy, rfl⟩, hid, r, rfl, rfl⟩
    let lead : Text := 'i' :: 'd' :: (x ++ '=' :: (y ++ ['"']))
    let tail : Text := id ++ '"' :: r
    change idHere? (lead ++ tail) = _
    have hafter : Text.after? ['i', 'd'] (lead ++ tail) =
        some (x ++ '=' :: (y ++ '"' :: tail)) := by
      rw [Text.after?_eq_some]
      simp [lead]
    have htake : (lead ++ tail).take ((lead ++ tail).length - tail.length) = lead := by
      rw [List.length_append, Nat.add_sub_cancel, List.take_left]
    have hcut : Text.cutAt '"' tail = some (id, r) := Text.cutAt_eq_some.mpr ⟨rfl, hid⟩
    have hequals (u : Text) : Text.trimStart (x ++ '=' :: u) = '=' :: u :=
      trimStart_blanks hx (by decide) u
    have hquote (u : Text) : Text.trimStart (y ++ '"' :: u) = '"' :: u :=
      trimStart_blanks hy (by decide) u
    simp only [idHere?, hafter, hequals, hquote, hcut, htake]
    rfl

theorem Leads.quote (h : Leads before) : ∃ a, before = a ++ ['"'] ∧ '"' ∉ a := by
  obtain ⟨x, y, hx, hy, rfl⟩ := h
  refine ⟨'i' :: 'd' :: (x ++ '=' :: y), by simp, ?_⟩
  have hblank {z : Text} (hz : ∀ c ∈ z, Text.isBlank c = true) : '"' ∉ z := by
    intro hmem
    exact absurd (hz _ hmem) (by decide)
  simp [hblank hx, hblank hy]

theorem idHere?_isSome :
    (idHere? t).isSome = true ↔ ∃ lead u, Leads lead ∧ t = lead ++ u ∧ '"' ∈ u := by
  rw [Option.isSome_iff_exists]
  constructor
  · rintro ⟨⟨lead, id, rest⟩, h⟩
    obtain ⟨hlead, -, r, rfl, ht⟩ := idHere?_eq_some.mp h
    exact ⟨lead, _, hlead, ht, by simp⟩
  · rintro ⟨lead, u, hlead, rfl, hquote⟩
    obtain ⟨id, r, rfl, hid⟩ := List.eq_append_cons_of_mem hquote
    exact ⟨(lead, id, '"' :: r), idHere?_eq_some.mpr ⟨hlead, hid, r, rfl, rfl⟩⟩

theorem idHere?_congr {a u v : Text} (ha : '"' ∈ a) (hu : '"' ∈ u) (hv : '"' ∈ v) :
    (idHere? (a ++ u)).isSome = (idHere? (a ++ v)).isSome := by
  have hone {u v : Text} (hv : '"' ∈ v) (h : (idHere? (a ++ u)).isSome = true) :
      (idHere? (a ++ v)).isSome = true := by
    obtain ⟨lead, w, hlead, hw, -⟩ := idHere?_isSome.mp h
    obtain ⟨b, hb, hfree⟩ := hlead.quote
    -- a text that holds a quote reaches as far as the first one
    obtain ⟨z, hz⟩ : lead <+: a := by
      rcases List.append_eq_append_iff.mp hw with ⟨z, hz, -⟩ | ⟨z, hz, -⟩
      · rcases List.eq_nil_or_concat z with rfl | ⟨z, c, rfl⟩
        · exact ⟨[], by rw [List.append_nil, hz, List.append_nil]⟩
        · rw [hb, List.concat_eq_append, ← List.append_assoc] at hz
          obtain ⟨rfl, -⟩ := List.append_inj' hz rfl
          exact absurd (List.mem_append_left z ha) hfree
      · exact ⟨z, hz.symm⟩
    refine idHere?_isSome.mpr ⟨lead, z ++ v, hlead, ?_, List.mem_append_right z hv⟩
    rw [← hz, List.append_assoc]
  rw [Bool.eq_iff_iff]
  exact ⟨hone hv, hone hu⟩

theorem findId?_between (h : findId? inWord t = some (before, id, rest)) :
    t = before ++ (id ++ rest) ∧ '"' ∈ before ∧ '"' ∉ id ∧ ∃ r, rest = '"' :: r := by
  induction t generalizing inWord before with
  | nil => simp [findId?] at h
  | cons c t ih =>
    rw [findId?] at h
    split at h
    next found hhere =>
      obtain rfl := Option.some.inj h
      cases inWord with
      | true => simp at hhere
      | false =>
        obtain ⟨hlead, hid, r, rfl, ht⟩ := idHere?_eq_some.mp hhere
        obtain ⟨a, rfl, -⟩ := hlead.quote
        exact ⟨ht, by simp, hid, r, rfl⟩
    · obtain ⟨⟨before', id', rest'⟩, hfind, he⟩ := Option.map_eq_some_iff.mp h
      simp only [Prod.mk.injEq] at he
      obtain ⟨rfl, rfl, rfl⟩ := he
      obtain ⟨rfl, hquote, hid, hrest⟩ := ih hfind
      exact ⟨rfl, List.mem_cons_of_mem c hquote, hid, hrest⟩

theorem findId?_replace (h : findId? inWord t = some (before, id, rest)) (hnew : '"' ∉ new) :
    findId? inWord (before ++ (new ++ rest)) = some (before, new, rest) := by
  induction t generalizing inWord before with
  | nil => simp [findId?] at h
  | cons c t ih =>
    rw [findId?] at h
    split at h
    next found hhere =>
      obtain rfl := Option.some.inj h
      cases inWord with
      | true => simp at hhere
      | false =>
        obtain ⟨hlead, -, r, hr, -⟩ := idHere?_eq_some.mp hhere
        have hagain := idHere?_eq_some.mpr ⟨hlead, hnew, r, hr, rfl⟩
        obtain ⟨x, y, -, -, rfl⟩ := hlead
        rw [List.cons_append] at hagain ⊢
        rw [findId?, if_neg Bool.false_ne_true, hagain]
    next hhere =>
      obtain ⟨⟨before', id', rest'⟩, hfind, he⟩ := Option.map_eq_some_iff.mp h
      simp only [Prod.mk.injEq] at he
      obtain ⟨rfl, rfl, rfl⟩ := he
      obtain ⟨rfl, hquote, -, r, rfl⟩ := findId?_between hfind
      -- an id further in front would have been found before
      have hnone : (if inWord = true then none else
          idHere? (c :: (before' ++ (new ++ '"' :: r)))) = none := by
        cases inWord with
        | true => rfl
        | false =>
          have hsame := idHere?_congr (List.mem_cons_of_mem c hquote)
            (by simp : '"' ∈ id' ++ '"' :: r) (by simp : '"' ∈ new ++ '"' :: r)
          rw [if_neg Bool.false_ne_true] at hhere ⊢
          rw [List.cons_append, List.cons_append, hhere] at hsame
          exact Option.isNone_iff_eq_none.mp (by rw [← Option.not_isSome, ← hsame]; rfl)
      rw [List.cons_append, findId?, hnone]
      dsimp only
      rw [ih hfind]
      rfl

def Named (id : Text) : Prop :=
  Text.startsWith "plgn_".toList id = true ∨ Text.startsWith "pkg_".toList id = true

theorem normalizeId_of_named (h : Named id) : normalizeId id = id := by
  rw [normalizeId, if_pos]
  rwa [Bool.or_eq_true]

theorem named_normalizeId (id : Text) : Named (normalizeId id) := by
  unfold normalizeId
  by_cases h : (Text.startsWith "plgn_".toList id || Text.startsWith "pkg_".toList id) = true
  · rw [if_pos h]
    rwa [Bool.or_eq_true] at h
  · rw [if_neg h]
    exact .inl (Text.startsWith_iff.mpr ⟨id, rfl⟩)

theorem mem_normalizeId (h : c ∈ normalizeId id) : c ∈ "plgn_".toList ∨ c ∈ id := by
  unfold normalizeId at h
  split at h
  · exact .inr h
  · exact List.mem_append.mp h

theorem normalizeAttrs_cases (attrs : Text) : normalizeAttrs attrs = (attrs, none) ∨
    ∃ before id rest, findId? false attrs = some (before, id, rest) ∧
      normalizeAttrs attrs = (before ++ (normalizeId id ++ rest), some (normalizeId id)) := by
  cases h : findId? false attrs with
  | none => exact .inl (by rw [normalizeAttrs, h])
  | some x =>
    obtain ⟨before, id, rest⟩ := x
    exact .inr ⟨before, id, rest, rfl, by simp only [normalizeAttrs, h, List.append_assoc]⟩

theorem normalizeAttrs_again (attrs : Text) :
    normalizeAttrs (normalizeAttrs attrs).1 = normalizeAttrs attrs := by
  rcases normalizeAttrs_cases attrs with hself | ⟨before, id, rest, hfind, hattrs⟩
  · rw [hself, hself]
  · obtain ⟨-, -, hid, -⟩ := findId?_between hfind
    have hnew : '"' ∉ normalizeId id := by
      intro hmem
      exact (mem_normalizeId hmem).elim (by decide) hid
    rw [hattrs, normalizeAttrs, findId?_replace hfind hnew]
    dsimp only
    rw [normalizeId_of_named (named_normalizeId id), List.append_assoc]

theorem normalizeAttrs_head (attrs : Text) : (normalizeAttrs attrs).1.head? = attrs.head? := by
  rcases normalizeAttrs_cases attrs with hself | ⟨before, id, rest, hfind, hattrs⟩
  · rw [hself]
  · obtain ⟨rfl, hquote, -, -⟩ := findId?_between hfind
    have hne := List.ne_nil_of_mem hquote
    rw [hattrs, List.head?_append_of_ne_nil _ hne, List.head?_append_of_ne_nil _ hne]

theorem normalizeAttrs_free (h : '>' ∉ attrs) : '>' ∉ (normalizeAttrs attrs).1 := by
  rcases normalizeAttrs_cases attrs with hself | ⟨before, id, rest, hfind, hattrs⟩
  · rwa [hself]
  · obtain ⟨rfl, -, -, -⟩ := findId?_between hfind
    rw [hattrs]
    simp only [List.mem_append, not_or] at h ⊢
    refine ⟨h.1, fun hmem => ?_, h.2.2⟩
    exact (mem_normalizeId hmem).elim (by decide) h.2.1

theorem named_attrs (h : (normalizeAttrs attrs).2 = some id) : Named id := by
  rcases normalizeAttrs_cases attrs with hself | ⟨before, id', rest, -, hattrs⟩
  · rw [hself] at h
    exact absurd h (by simp)
  · rw [hattrs] at h
    rw [← Option.some.inj h]
    exact named_normalizeId id'

theorem normalizeContent_of_keywords (h : Text.contains "<keywords".toList content = true)
    (package : Text) : normalizeContent package content = content := by
  rw [normalizeContent, if_pos h]

theorem normalizeContent_cases (package content : Text) :
    Text.contains "<keywords".toList content = true ∧ normalizeContent package content = content ∨
      normalizeContent package content = keywords package ++ content := by
  by_cases h : Text.contains "<keywords".toList content = true
  · exact .inl ⟨h, normalizeContent_of_keywords h package⟩
  · exact .inr (by rw [normalizeContent, if_neg h])

theorem keywords_eq (package : Text) : keywords package =
    ("<keywords".toList ++ ("><keywor".toList ++ 'd' :: ['>'])) ++ package ++
      '<' :: '/' :: 'k' :: ("eyword></keywor".toList ++ 'd' :: ['s', '>']) :=
  congrArg₂ (fun x y => x ++ package ++ y) (by decide) (by decide)

theorem keywords_normalizeContent (package content : Text) :
    Text.contains "<keywords".toList (normalizeContent package content) = true := by
  rcases normalizeContent_cases package content with ⟨h, hself⟩ | hnew
  · rwa [hself]
  · rw [hnew, Text.contains_iff, keywords_eq]
    simp only [List.append_assoc]
    exact (List.prefix_append _ _).isInfix

theorem tagClose_cons (hc : c ≠ '<') (h : tagClose <:+: c :: t) : tagClose <:+: t := by
  rcases List.infix_cons_iff.mp h with hstart | htail
  · obtain ⟨u, hu⟩ := hstart
    exact absurd (List.cons.inj hu).1.symm hc
  · exact htail

theorem tagClose_concat (hc : c ≠ '>') (h : tagClose <:+: t ++ [c]) : tagClose <:+: t := by
  rcases List.infix_concat_iff.mp h with hend | hfront
  · have hlast := hend.getLast (by decide)
    rw [List.getLast_concat] at hlast
    exact absurd hlast.symm hc
  · exact hfront

theorem keywords_free (hpackage : ¬tagClose <:+: package) (hcontent : ¬tagClose <:+: content) :
    ¬tagClose <:+: keywords package ++ content := by
  have hpieces (a b : Text) : a ++ 'd' :: ['>'] ++ package ++
        '<' :: '/' :: 'k' :: (b ++ 'd' :: ['s', '>']) ++ content =
      a ++ 'd' :: ('>' :: (package ++ ['<'] ++ ['/']) ++ 'k' ::
        (b ++ 'd' :: 's' :: '>' :: content)) := by
    simp
  -- cut at three letters that a closing tag does not hold, the text is looked at piece by piece
  rw [keywords_eq, ← List.append_assoc, hpieces, Text.infix_around (by decide),
    Text.infix_around (by decide), Text.infix_around (by decide)]
  rintro (h | h | h | h)
  · exact absurd h (by decide)
  · exact hpackage (tagClose_concat (by decide) (tagClose_concat (by decide)
      (tagClose_cons (by decide) h)))
  · exact absurd h (by decide)
  · exact hcontent (tagClose_cons (by decide) (tagClose_cons (by decide) h))

theorem normalizeContent_free (hpackage : ¬tagClose <:+: package)
    (hcontent : ¬tagClose <:+: content) : ¬tagClose <:+: normalizeContent package content := by
  rcases normalizeContent_cases package content with ⟨-, hself⟩ | hnew
  · rwa [hself]
  · rw [hnew]
    exact keywords_free hpackage hcontent

theorem render_cons (p : Part) (ps : List Part) : render (p :: ps) = p.render ++ render ps := by
  rw [render, List.flatMap_cons, ← render]

theorem Begins.normalized (h : Begins t attrs content rest) (hpackage : ¬tagClose <:+: package)
    (u : Text) : Begins (((Part.article attrs content).normalize package).render ++ u)
      (normalizeAttrs attrs).1 (normalizeContent package content) u := by
  refine ⟨?_, ?_, normalizeAttrs_free h.attrs, normalizeContent_free hpackage h.content⟩
  · rw [Part.normalize, Part.render]
    simp only [List.append_assoc, List.cons_append]
  · rw [normalizeAttrs_head]
    exact h.apart

theorem Splits.alike (h : Splits t ps) (package : Text) :
    render (ps.map (·.normalize package)) = t ∨
      ∃ w s s', t = w ++ '<' :: s ∧ render (ps.map (·.normalize package)) = w ++ '<' :: s' ∧
        Closes s := by
  induction h with
  | done => exact .inl rfl
  | @plain c t ps _ _ ih =>
    rw [List.map_cons, render_cons]
    rcases ih with heq | ⟨w, s, s', rfl, hdoc, hs⟩
    · exact .inl (congrArg (c :: ·) heq)
    · exact .inr ⟨c :: w, s, s', rfl, congrArg (c :: ·) hdoc, hs⟩
  | @article t attrs content rest ps h _ _ =>
    refine .inr ⟨[], tagName ++ (attrs ++ '>' :: (content ++ (tagClose ++ rest))),
      tagName ++ ((normalizeAttrs attrs).1 ++ '>' :: (normalizeContent package content ++
        (tagClose ++ render (ps.map (·.normalize package))))), ?_, ?_, ?_⟩
    · rw [h.text, tagOpen_eq]
      rfl
    · rw [List.map_cons, render_cons, Part.normalize, Part.render, tagOpen_eq]
      simp only [List.append_assoc, List.cons_append, List.nil_append]
    · exact ⟨tagName ++ attrs, content, rest, (List.append_assoc _ _ _).symm⟩

theorem not_begins_normalized (hplain : ∀ attrs content rest, ¬Begins (c :: t) attrs content rest)
    (hs : Splits t ps) (package attrs content rest : Text) :
    ¬Begins (c :: render (ps.map (·.normalize package))) attrs content rest := by
  rcases hs.alike package with heq | ⟨w, s, s', rfl, hdoc, hcloses⟩
  · rw [heq]
    exact hplain attrs content rest
  · intro hbegins
    rw [hdoc] at hbegins
    obtain ⟨u, hu, hword, -⟩ := begins_iff.mp ⟨attrs, content, rest, hbegins⟩
    rw [tagOpen_eq, List.cons_append] at hu
    obtain ⟨rfl, hw⟩ := List.cons.inj hu
    -- The name of the tag holds no bracket, so it ends before the first article.
    have hafter : Text.after? tagName (w ++ '<' :: s') = some u := Text.after?_eq_some.mpr hw
    rw [Text.after?_around (by decide), Option.map_eq_some_iff] at hafter
    obtain ⟨v, hv, rfl⟩ := hafter
    have hhead : (v ++ '<' :: s).head? = (v ++ '<' :: s').head? := by
      cases v with
      | nil => rfl
      | cons d v => rfl
    obtain ⟨attrs', content', rest', hbegins'⟩ := begins_iff.mpr
      ⟨v ++ '<' :: s, rfl, hhead ▸ hword, List.append_cons v '<' s ▸ hcloses.behind (v ++ ['<'])⟩
    refine hplain attrs' content' rest' ?_
    rwa [Text.after?_eq_some.mp hv, List.append_assoc, ← List.cons_append, ← tagOpen_eq]

theorem Splits.normalized (h : Splits t ps) (hpackage : ¬tagClose <:+: package) :
    Splits (render (ps.map (·.normalize package))) (ps.map (·.normalize package)) := by
  induction h with
  | done => exact .done
  | plain h hs ih =>
    rw [List.map_cons, render_cons]
    exact .plain (not_begins_normalized h hs package) ih
  | article h _ ih =>
    rw [List.map_cons, render_cons]
    exact .article (h.normalized hpackage _) ih

theorem Part.normalize_again (p : Part) (package other : Text) :
    (p.normalize package).normalize other = p.normalize package := by
  cases p with
  | plain c => rfl
  | article attrs content =>
    rw [normalize, normalize, normalizeAttrs_again,
      normalizeContent_of_keywords (keywords_normalizeContent package content)]

theorem Part.id?_normalize (p : Part) (package : Text) : (p.normalize package).id? = p.id? := by
  cases p with
  | plain c => rfl
  | article attrs content => rw [normalize, id?, normalizeAttrs_again, id?]

theorem Part.named_id (h : p.id? = some id) : Named id := by
  cases p with
  | plain c => simp [id?] at h
  | article attrs content => exact named_attrs h

theorem parts_collect (hpackage : ¬tagClose <:+: package) (body : Text) :
    parts (collect body package).document = (parts body).map (·.normalize package) :=
  ((splits_parts body).normalized hpackage).parts_eq

def Part.outside : Part → Option Char
  | plain c => some c
  | article _ _ => none

theorem Part.outside_normalize (p : Part) (package : Text) :
    (p.normalize package).outside = p.outside := by
  cases p with
  | plain c => rfl
  | article attrs content => rfl

/-- Normalizing settles a body: once normalized, for whatever package, it stays as it is. Its ids
are in a namespace, its articles have keywords, and around them it reads as before. -/
theorem articles_settled (body package other : Text)
    (hpackage : Text.contains tagClose package = false) :
    collect (collect body package).document other = collect body package ∧
      (∀ id ∈ (collect body package).ids,
        Text.startsWith "plgn_".toList id = true ∨ Text.startsWith "pkg_".toList id = true) ∧
      (∀ attrs content, .article attrs content ∈ parts (collect body package).document →
        Text.contains "<keywords".toList content = true) ∧
      (parts (collect body package).document).map Part.outside = (parts body).map Part.outside ∧
      render (parts (collect body package).document) = (collect body package).document ∧
      render (parts body) = body := by
  have hparts := parts_collect (Text.contains_eq_false.mp hpackage) body
  refine ⟨?_, ?_, ?_, ?_, (splits_parts _).render_eq, (splits_parts body).render_eq⟩
  · rw [collect, hparts, collect, List.map_map, List.filterMap_map]
    simp only [Function.comp_def, Part.normalize_again, Part.id?_normalize]
  · intro id hid
    obtain ⟨p, -, hp⟩ := List.mem_filterMap.mp hid
    exact Part.named_id hp
  · intro attrs content hmem
    rw [hparts] at hmem
    obtain ⟨p, -, hp⟩ := List.mem_map.mp hmem
    cases p with
    | plain c => simp [Part.normalize] at hp
    | article attrs' content' =>
      obtain ⟨-, rfl⟩ := Part.article.inj hp
      exact keywords_normalizeContent package content'
  · rw [hparts, List.map_map]
    exact List.map_congr_left fun p _ => Part.outside_normalize p package

def bareBody : Text := "<article <article x id=\"a\">b</article>c".toList

def settledBody : Text :=
  "<article <article x id=\"plgn_a\"><keywords><keyword>p</keyword></keywords>b</article>c".toList

theorem articles_settled_bare : Text.contains tagClose ['p'] = false ∧
    collect bareBody ['p'] = ⟨settledBody, ["plgn_a".toList]⟩ ∧
    collect (collect bareBody ['p']).document ['q'] = collect bareBody ['p'] :=
  ⟨by decide, by decide, (articles_settled bareBody ['p'] ['q'] (by decide)).1⟩

end Article

end ScriptFeed
