import ScriptFeed.Article
import ScriptFeed.Layout
import ScriptFeed.Proofs.FaultyLines
import ScriptFeed.Proofs.Physical

namespace ScriptFeed

namespace Text

variable {x : Char}

theorem join_pieces (x : Char) (t : Text) : join x (pieces x t) = t := by
  induction t with
  | nil => rfl
  | cons c t ih =>
    obtain ⟨p, ps, hp⟩ := List.exists_cons_of_ne_nil (pieces_ne_nil x t)
    rw [hp] at ih
    rw [pieces, hp]
    by_cases hc : c = x
    · rw [if_pos hc, join, ih, List.nil_append, hc]
    · rw [if_neg hc]
      cases ps with
      | nil => rw [← ih]; rfl
      | cons q ps => rw [← ih]; rfl

theorem join_concat (ps : List Text) (p u : Text) :
    join x (ps ++ [p]) ++ u = join x (ps ++ [p ++ u]) := by
  induction ps with
  | nil => rfl
  | cons q ps ih =>
    cases ps with
    | nil => simp [join]
    | cons q' ps =>
      simp only [List.cons_append, join, List.append_assoc] at ih ⊢
      rw [ih]

theorem join_begins (ps : List Text) (p : Text) (qs : List Text) :
    join x (ps ++ [p]) <+: join x (ps ++ p :: qs) := by
  induction ps with
  | nil =>
    cases qs with
    | nil => exact List.prefix_refl p
    | cons q qs => exact List.prefix_append p _
  | cons q ps ih =>
    cases ps with
    | nil =>
      rw [List.nil_append, List.nil_append] at ih
      exact (List.prefix_append_right_inj q).mpr (List.cons_prefix_cons.mpr ⟨rfl, ih⟩)
    | cons q' ps => exact (List.prefix_append_right_inj q).mpr (List.cons_prefix_cons.mpr ⟨rfl, ih⟩)

end Text

namespace Path

variable {p q : Path} {name ext : Text} {back : List Text}

theorem anchor_append {t : Text} (hne : t ≠ []) (hdot : t ≠ ['.']) (u : Text) :
    anchor ⟨t ++ u⟩ = anchor ⟨t⟩ := by
  cases t with
  | nil => exact absurd rfl hne
  | cons c t =>
    by_cases hslash : c = '/'
    · subst hslash
      rfl
    · by_cases hc : c = '.'
      · subst hc
        cases t with
        | nil => exact absurd rfl hdot
        | cons d t =>
          by_cases hd : d = '/'
          · subst hd
            rfl
          · simp [anchor, hd]
      · simp [anchor, hslash, hc]

theorem anchor_begins (p : Path) : p.anchor <+: p.text := by
  unfold anchor
  split
  next h => exact h ▸ ⟨_, rfl⟩
  next h => exact h ▸ List.prefix_rfl
  next h => exact h ▸ ⟨_, rfl⟩
  · exact List.nil_prefix

theorem text_eq (p : Path) : p.text = p.anchor ++ Text.join '/' p.body := by
  obtain ⟨t, ht⟩ := p.anchor_begins
  rw [body, Text.join_pieces, ← ht, List.drop_left]

theorem body_backwards (h : p.backwards = name :: back) :
    isIdle name = false ∧ ∃ idle, p.body = back.reverse ++ name :: idle := by
  have hhead := List.head?_dropWhile_not isIdle p.body.reverse
  have hsplit := List.takeWhile_append_dropWhile (p := isIdle) (l := p.body.reverse)
  rw [← backwards, h] at hhead hsplit
  refine ⟨by simpa using hhead, (p.body.reverse.takeWhile isIdle).reverse, ?_⟩
  have hreverse := congrArg List.reverse hsplit
  rw [List.reverse_reverse] at hreverse
  exact hreverse.symm.trans (by simp)

theorem backwards_longer (h : p.backwards = name :: back) {u : Text} (hne : u ≠ []) (hu : '/' ∉ u)
    (hq : q.text = p.anchor ++ Text.join '/' (back.reverse ++ [name ++ u])) :
    q.backwards = (name ++ u) :: back := by
  obtain ⟨hidle, idle, hbody⟩ := body_backwards h
  have hname : name ≠ [] ∧ name ≠ ['.'] := by simpa [isIdle] using hidle
  have hfree (s : Text) (hs : s ∈ p.body) : '/' ∉ s := Text.not_mem_pieces hs
  -- both texts begin alike, up to the end of the step
  let t := p.anchor ++ Text.join '/' (back.reverse ++ [name])
  obtain ⟨w, hw⟩ : t <+: p.text := by
    rw [p.text_eq, hbody]
    exact (List.prefix_append_right_inj _).mpr (Text.join_begins _ _ _)
  have hqt : q.text = t ++ u := by rw [hq, List.append_assoc, Text.join_concat]
  have hlast : name <:+ t := by
    refine List.IsSuffix.trans ?_ (List.suffix_append p.anchor _)
    cases back with
    | nil => exact List.suffix_refl name
    | cons s back =>
      rw [← List.nil_append name, ← Text.join_concat]
      exact List.suffix_append _ name
  have ht : t ≠ [] ∧ t ≠ ['.'] := by
    constructor
    · intro he
      rw [he] at hlast
      exact hname.1 (List.suffix_nil.mp hlast)
    · intro he
      rw [he] at hlast
      rcases List.suffix_cons_iff.mp hlast with he | he
      · exact hname.2 he
      · exact hname.1 (List.suffix_nil.mp he)
  have hanchor : q.anchor = p.anchor := by
    have hpt : p.anchor = anchor ⟨t⟩ := by
      rw [← anchor_append ht.1 ht.2 w, hw]
    have hqa : q.anchor = anchor ⟨t⟩ := by
      rw [← anchor_append ht.1 ht.2 u, ← hqt]
    rw [hpt, hqa]
  have hqbody : q.body = back.reverse ++ [name ++ u] := by
    rw [body, hanchor, hq, List.drop_left]
    apply Text.pieces_join (by simp)
    intro s hs
    rcases List.mem_append.mp hs with hs | hs
    · exact hfree s (hbody ▸ List.mem_append_left _ hs)
    · have hn : '/' ∉ name := hfree name (by simp [hbody])
      rw [List.mem_singleton.mp hs, List.mem_append, not_or]
      exact ⟨hn, hu⟩
  have hlonger : isIdle (name ++ u) = false := by
    have hlength : 2 ≤ (name ++ u).length := by
      have := List.length_pos_iff.mpr hname.1
      have := List.length_pos_iff.mpr hne
      rw [List.length_append]
      omega
    rw [isIdle, Bool.or_eq_false_iff, beq_eq_false_iff_ne, beq_eq_false_iff_ne]
    constructor
    · intro he
      simp [he] at hlength
    · intro he
      simp [he] at hlength
  rw [backwards, hqbody, List.reverse_append, List.reverse_reverse]
  exact List.dropWhile_cons_of_neg (by rw [hlonger]; exact Bool.false_ne_true)

theorem fileName?_backwards (h : p.fileName? = some name) : ∃ back, p.backwards = name :: back := by
  unfold fileName? at h
  cases hback : p.backwards with
  | nil => simp [hback] at h
  | cons last back =>
    simp only [hback, Option.ite_none_left_eq_some, Option.some.injEq] at h
    exact ⟨back, by rw [h.2]⟩

theorem splitName_none (h : (splitName name).2 = none) : (splitName name).1 = name := by
  unfold splitName at h ⊢
  cases hcut : Text.cutLast '.' name with
  | none => rfl
  | some x =>
    rw [hcut] at h
    dsimp only at h ⊢
    by_cases hstem : x.1 = []
    · rw [if_pos hstem]
    · simp [hstem] at h

theorem splitName_dot (hne : name ≠ []) (hdot : '.' ∉ ext) :
    splitName (name ++ '.' :: ext) = (name, some ext) := by
  rw [splitName, Text.cutLast_append hdot]
  exact if_neg hne

def completed (p : Path) (ext : Text) : Path :=
  if p.extension?.isNone then p.withExtension ext else p

structure Plain (ext : Text) : Prop where
  filled : ext ≠ []
  undotted : '.' ∉ ext
  level : '/' ∉ ext

theorem completed_cases (p : Path) (hext : ext ≠ []) : p.completed ext = p ∨
    ∃ name back, p.backwards = name :: back ∧ name ≠ [] ∧
      (p.completed ext).text =
        p.anchor ++ Text.join '/' (back.reverse ++ [name ++ '.' :: ext]) := by
  cases he : p.extension? with
  | some e => exact .inl (by rw [completed, he]; rfl)
  | none =>
    have hcompleted : p.completed ext = p.withExtension ext := by rw [completed, he]; rfl
    cases hfile : p.fileName? with
    | none => exact .inl (by rw [hcompleted, withExtension, hfile])
    | some name =>
      obtain ⟨back, hback⟩ := fileName?_backwards hfile
      have hbare : (splitName name).2 = none := by
        rw [extension?, hfile] at he
        exact he
      have hidle : name ≠ [] ∧ name ≠ ['.'] := by simpa [isIdle] using (body_backwards hback).1
      refine .inr ⟨name, back, hback, hidle.1, ?_⟩
      rw [hcompleted, withExtension, hfile, hback]
      dsimp only
      rw [if_neg hext, splitName_none hbare, List.append_assoc, Text.join_concat]

theorem completed_again (p : Path) (h : Plain ext) :
    (p.completed ext).completed ext = p.completed ext := by
  rcases p.completed_cases h.filled with hself | ⟨name, back, hback, hname, htext⟩
  · rw [hself, hself]
  · have hslash : '/' ∉ '.' :: ext := by
      rw [List.mem_cons, not_or]
      exact ⟨by decide, h.level⟩
    have hlonger := backwards_longer hback (List.cons_ne_nil _ _) hslash htext
    have hup : name ++ '.' :: ext ≠ ['.', '.'] := by
      intro he
      have hlength := congrArg List.length he
      have := List.length_pos_iff.mpr hname
      have := List.length_pos_iff.mpr h.filled
      simp only [List.length_append, List.length_cons, List.length_nil] at hlength
      omega
    have hext : (p.completed ext).extension? = some ext := by
      have hfile : (p.completed ext).fileName? = some (name ++ '.' :: ext) := by
        rw [fileName?, hlonger]
        exact if_neg hup
      rw [extension?, hfile, Option.bind_some, splitName_dot hname h.undotted]
    conv_lhs => rw [completed, hext]
    rfl

theorem completed_text (p : Path) (hext : ext ≠ []) :
    (p.completed ext).text = p.text ∨
      ∃ t, t <+: p.text ∧ (p.completed ext).text = t ++ '.' :: ext := by
  rcases p.completed_cases hext with hself | ⟨name, back, hback, -, htext⟩
  · rw [hself]
    exact .inl rfl
  · obtain ⟨-, idle, hbody⟩ := body_backwards hback
    refine .inr ⟨p.anchor ++ Text.join '/' (back.reverse ++ [name]), ?_, ?_⟩
    · rw [p.text_eq, hbody]
      exact (List.prefix_append_right_inj _).mpr (Text.join_begins _ _ _)
    · rw [htext, List.append_assoc, Text.join_concat]

theorem join_last {c : Char} (h : (p.join q).text.getLast? = some c) :
    c = '/' ∨ q.text.getLast? = some c := by
  unfold join at h
  by_cases hq : q.text = []
  · have habsolute : q.isAbsolute = false := by rw [isAbsolute, hq]; rfl
    rw [habsolute, if_neg Bool.false_ne_true, hq] at h
    by_cases hp : (decide (p.text = []) || p.text.getLast? == some '/') = true
    · rw [if_pos hp, List.append_nil] at h
      rw [h, Bool.or_eq_true, decide_eq_true_eq, beq_iff_eq, Option.some.injEq] at hp
      rcases hp with hp | hp
      · simp [hp] at h
      · exact .inl hp
    · rw [if_neg hp, List.getLast?_concat, Option.some.injEq] at h
      exact .inl h.symm
  · refine .inr ?_
    split at h
    · exact h
    · split at h
      · rwa [List.getLast?_append_of_ne_nil _ hq] at h
      · rwa [List.getLast?_append_of_ne_nil _ (List.cons_ne_nil _ _),
          List.getLast?_cons_of_ne_nil hq] at h

theorem not_mem_join {c : Char} (hc : c ≠ '/') (hp : c ∉ p.text) (hq : c ∉ q.text) :
    c ∉ (p.join q).text := by
  unfold join
  split
  · exact hq
  · split <;> simp [hc, hp, hq]

end Path

namespace Roots

variable {r : Roots} {p : Path} {name ext t : Text} {c : Char}

theorem resolve?_eq (r : Roots) (name ext : Text) : r.resolve? name ext =
    if cleaned name = [] then none
    else some ((r.place (cleaned name)).completed (ext.dropWhile (· == '.'))) := by
  unfold resolve?
  cases cleaned name with
  | nil => rfl
  | cons c t => rw [if_neg (List.cons_ne_nil c t)]; rfl

theorem not_mem_cleaned (name : Text) : '\\' ∉ cleaned name := by
  intro h
  obtain ⟨c, -, hc⟩ := List.mem_map.mp h
  by_cases hback : c = '\\'
  · rw [if_pos hback] at hc
    exact absurd hc (by decide)
  · rw [if_neg hback] at hc
    exact hback hc

theorem cleaned_last (h : (cleaned name).getLast? = some c) : Text.isBlank c = false := by
  rw [cleaned, List.getLast?_map] at h
  obtain ⟨d, hd, rfl⟩ := Option.map_eq_some_iff.mp h
  split
  · decide
  · exact (Text.trimmed_iff.mp (Text.trim_trimmed _)).2 d hd

theorem cleaned_self (htrim : Text.Trimmed t) (hquote : t.head? ≠ some '"') (hback : '\\' ∉ t) :
    cleaned t = t := by
  have hunquoted : unquoted t = t := by
    unfold unquoted
    split
    · exact absurd rfl hquote
    · rfl
  have hmap : t.map (fun c => if c = '\\' then '/' else c) = t := by
    conv_rhs => rw [← List.map_id t]
    apply List.map_congr_left
    intro c hc
    have hne : c ≠ '\\' := fun he => hback (he ▸ hc)
    exact if_neg hne
  rw [Text.Trimmed] at htrim
  rw [cleaned, htrim, hunquoted, htrim, hmap]

theorem withoutSlashes_last (h : (withoutSlashes t).text.getLast? = some c) :
    t.getLast? = some c := by
  obtain ⟨u, hu⟩ : (withoutSlashes t).text <:+ t := List.dropWhile_suffix _
  have hne : (withoutSlashes t).text ≠ [] := by
    intro he
    simp [he] at h
  rwa [← hu, List.getLast?_append_of_ne_nil _ hne]

theorem place_cases (r : Roots) (name : Text) :
    (∃ token rest, name = token ++ rest ∧ (r.place name = r.home.join (withoutSlashes rest) ∨
      r.place name = r.scripts.join (withoutSlashes rest))) ∨
    r.place name = ⟨name⟩ ∨ r.place name = r.scripts.join ⟨name⟩ := by
  unfold place
  split
  next rest hrest => exact .inl ⟨_, rest, Text.after?_eq_some.mp hrest, .inl rfl⟩
  · split
    next rest hrest => exact .inl ⟨_, rest, Text.after?_eq_some.mp hrest, .inr rfl⟩
    · split
      · exact .inr (.inl rfl)
      · exact .inr (.inr rfl)

theorem place_last (h : (r.place name).text.getLast? = some c) :
    c = '/' ∨ name.getLast? = some c := by
  rcases r.place_cases name with ⟨token, rest, hname, hplace⟩ | hplace | hplace
  · have hlast : c = '/' ∨ (withoutSlashes rest).text.getLast? = some c := by
      rcases hplace with hplace | hplace
      · exact Path.join_last (hplace ▸ h)
      · exact Path.join_last (hplace ▸ h)
    refine hlast.imp_right fun hw => ?_
    have hrest := withoutSlashes_last hw
    have hne : rest ≠ [] := by
      intro he
      simp [he] at hrest
    rwa [hname, List.getLast?_append_of_ne_nil _ hne]
  · rw [hplace] at h
    exact .inr h
  · rw [hplace] at h
    exact Path.join_last h

theorem not_mem_place (hc : c ≠ '/') (hhome : c ∉ r.home.text) (hscripts : c ∉ r.scripts.text)
    (hname : c ∉ name) : c ∉ (r.place name).text := by
  rcases r.place_cases name with ⟨token, rest, he, hplace⟩ | hplace | hplace
  · have hrest : c ∉ (withoutSlashes rest).text := by
      intro hmem
      have hsuffix : (withoutSlashes rest).text <:+ rest := List.dropWhile_suffix _
      exact hname (he ▸ List.mem_append_right token (hsuffix.subset hmem))
    rcases hplace with hplace | hplace
    · rw [hplace]
      exact Path.not_mem_join hc hhome hrest
    · rw [hplace]
      exact Path.not_mem_join hc hscripts hrest
  · rw [hplace]
    exact hname
  · rw [hplace]
    exact Path.not_mem_join hc hscripts hname

theorem isDrive_letter (h : isDrive t = true) : ∃ c u, t = c :: u ∧ Text.isLetter c = true := by
  unfold isDrive at h
  split at h
  · exact ⟨_, _, rfl, h⟩
  · exact absurd h Bool.false_ne_true

theorem fixed_head (h : p.isAbsolute = true ∨ isDrive p.text = true) :
    ∃ c, p.text.head? = some c ∧ Text.isBlank c = false ∧ c ≠ '"' ∧ c ≠ '<' := by
  rcases h with h | h
  · exact ⟨'/', beq_iff_eq.mp h, by decide, by decide, by decide⟩
  · obtain ⟨c, u, ht, hc⟩ := isDrive_letter h
    have hname : Text.isNameChar c = true := by rw [Text.isNameChar, hc]; rfl
    exact ⟨c, by rw [ht]; rfl, Text.isBlank_of_isNameChar hname,
      Text.ne_of_isNameChar hname (by decide), Text.ne_of_isNameChar hname (by decide)⟩

theorem place_self (r : Roots) (h : p.isAbsolute = true ∨ isDrive p.text = true) :
    r.place p.text = p := by
  obtain ⟨c, hc, -, -, htoken⟩ := fixed_head h
  have hnone (token : Text) : Text.after? ('<' :: token) p.text = none := by
    cases ht : p.text with
    | nil => rfl
    | cons d u =>
      rw [ht, List.head?_cons, Option.some.injEq] at hc
      rw [Text.after?, if_neg]
      rw [hc]
      exact Ne.symm htoken
  have hhome : Text.after? "<>".toList p.text = none := hnone ['>']
  have hscripts : Text.after? "<scriptpath>".toList p.text = none := hnone "scriptpath>".toList
  rw [place, hhome, hscripts]
  dsimp only
  by_cases hdrive : isDrive p.text = true
  · rw [if_pos hdrive]
  · rw [if_neg hdrive, Path.join, if_pos (h.resolve_right hdrive)]

theorem not_mem_resolve (h : r.resolve? name ext = some p) (hne : ext.dropWhile (· == '.') ≠ [])
    (hc : c ≠ '/') (hdot : c ≠ '.') (hhome : c ∉ r.home.text) (hscripts : c ∉ r.scripts.text)
    (hname : c ∉ cleaned name) (hext : c ∉ ext) : c ∉ p.text := by
  rw [resolve?_eq] at h
  split at h
  · exact absurd h (by simp)
  · obtain rfl := Option.some.inj h
    have hplace : c ∉ (r.place (cleaned name)).text := not_mem_place hc hhome hscripts hname
    rcases (r.place (cleaned name)).completed_text hne with htext | ⟨t, ht, htext⟩
    · rwa [htext]
    · rw [htext, List.mem_append, List.mem_cons, not_or, not_or]
      exact ⟨fun hmem => hplace (ht.subset hmem), hdot,
        fun hmem => hext ((List.dropWhile_suffix _).subset hmem)⟩

theorem resolve_last (h : r.resolve? name ext = some p) (hne : ext.dropWhile (· == '.') ≠ [])
    (hlast : p.text.getLast? = some c) :
    c = '/' ∨ (cleaned name).getLast? = some c ∨ ext.getLast? = some c := by
  rw [resolve?_eq] at h
  split at h
  · exact absurd h (by simp)
  · obtain rfl := Option.some.inj h
    rcases (r.place (cleaned name)).completed_text hne with htext | ⟨t, ht, htext⟩
    · rw [htext] at hlast
      exact (place_last hlast).imp_right .inl
    · obtain ⟨u, hu⟩ : ext.dropWhile (· == '.') <:+ ext := List.dropWhile_suffix _
      rw [htext, List.getLast?_append_of_ne_nil _ (List.cons_ne_nil _ _),
        List.getLast?_cons_of_ne_nil hne] at hlast
      refine .inr (.inr ?_)
      rwa [← hu, List.getLast?_append_of_ne_nil _ hne]

def extensions : List Text :=
  [Inclusion.scriptExtension, Layout.fileExtension, Article.fileExtension]

theorem extensions_plain (h : ext ∈ extensions) :
    Path.Plain (ext.dropWhile (· == '.')) ∧ ∀ c ∈ ext, c = '.' ∨ Text.isNameChar c = true := by
  have hplain : Path.Plain (ext.dropWhile (· == '.')) ∧
      ext.all (fun c => c == '.' || Text.isNameChar c) = true := by
    simp only [extensions, List.mem_cons, List.not_mem_nil, or_false] at h
    rcases h with rfl | rfl | rfl <;> exact ⟨⟨by decide, by decide, by decide⟩, by decide⟩
  refine ⟨hplain.1, fun c hc => ?_⟩
  simpa using List.all_eq_true.mp hplain.2 c hc

theorem resolution_idempotent (r : Roots) (name ext : Text) (p : Path)
    (hhome : '\\' ∉ r.home.text) (hscripts : '\\' ∉ r.scripts.text) (hext : ext ∈ extensions)
    (h : r.resolve? name ext = some p) (hfixed : p.isAbsolute = true ∨ isDrive p.text = true) :
    r.resolve? p.text ext = some p := by
  obtain ⟨hplain, hchars⟩ := extensions_plain hext
  obtain ⟨c, hhead, hblank, hquote, -⟩ := fixed_head hfixed
  have hback : '\\' ∉ p.text := by
    refine not_mem_resolve h hplain.filled (by decide) (by decide) hhome hscripts
      (not_mem_cleaned name) fun hmem => ?_
    exact absurd (hchars _ hmem) (by decide)
  have htrimmed : Text.Trimmed p.text := by
    refine Text.trimmed_iff.mpr ⟨fun d hd => ?_, fun d hd => ?_⟩
    · rw [hhead, Option.some.injEq] at hd
      rwa [← hd]
    · rcases resolve_last h hplain.filled hd with rfl | hd | hd
      · decide
      · exact cleaned_last hd
      · rcases hchars d (List.mem_of_getLast? hd) with rfl | hname
        · decide
        · exact Text.isBlank_of_isNameChar hname
  have hself : cleaned p.text = p.text := by
    refine cleaned_self htrimmed ?_ hback
    rw [hhead, Ne, Option.some.injEq]
    exact hquote
  have hne : p.text ≠ [] := by
    intro he
    simp [he] at hhead
  have hcompleted : p.completed (ext.dropWhile (· == '.')) = p := by
    rw [resolve?_eq] at h
    split at h
    · exact absurd h (by simp)
    · rw [← Option.some.inj h]
      exact Path.completed_again _ hplain
  rw [resolve?_eq, hself, if_neg hne, place_self r hfixed, hcompleted]

def driveRoots : Roots := ⟨⟨"/opt/n.d ".toList⟩, ⟨"C:".toList⟩⟩

theorem resolution_idempotent_drive :
    driveRoots.resolve? "\" <>\\\"".toList Layout.fileExtension = some ⟨"/opt/n.d /".toList⟩ ∧
      driveRoots.resolve? "/opt/n.d /".toList Layout.fileExtension = some ⟨"/opt/n.d /".toList⟩ ∧
      driveRoots.resolve? "a\\.b/.".toList Layout.fileExtension = some ⟨"C:/a/.b.nlyt".toList⟩ ∧
      driveRoots.resolve? "C:/a/.b.nlyt".toList Layout.fileExtension =
        some ⟨"C:/a/.b.nlyt".toList⟩ := by
  have hhome : '\\' ∉ driveRoots.home.text := by decide
  have hscripts : '\\' ∉ driveRoots.scripts.text := by decide
  have hext : Layout.fileExtension ∈ extensions := by decide
  have htoken : driveRoots.resolve? "\" <>\\\"".toList Layout.fileExtension =
      some ⟨"/opt/n.d /".toList⟩ := by decide
  have hdrive : driveRoots.resolve? "a\\.b/.".toList Layout.fileExtension =
      some ⟨"C:/a/.b.nlyt".toList⟩ := by decide
  exact ⟨htoken, resolution_idempotent _ _ _ _ hhome hscripts hext htoken (.inl rfl),
    hdrive, resolution_idempotent _ _ _ _ hhome hscripts hext hdrive (.inr rfl)⟩

end Roots

end ScriptFeed
