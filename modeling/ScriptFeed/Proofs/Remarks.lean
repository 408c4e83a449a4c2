import ScriptFeed.Proofs.LinesAhead
import ScriptFeed.Proofs.Scopes

namespace ScriptFeed

variable {fs fs' : Files} {code old new : Text} {b : Bool} {ts before after : List Text}

theorem Keyword.leading_around {x : Char} (hmark : x ∉ breakMark) (hblank : Text.isBlank x = false)
    (hname : Text.isNameChar x = false) (s t : Text) : leading (s ++ x :: t) = leading s := by
  have hstart (s : Text) : (Text.trimStart (s ++ x :: t)).takeWhile Text.isNameChar =
      (Text.trimStart s).takeWhile Text.isNameChar := by
    induction s with
    | nil => simp [Text.trimStart, hblank, hname]
    | cons c s ih =>
      cases hc : Text.isBlank c with
      | true => simpa [Text.trimStart, hc] using ih
      | false =>
        simp only [Text.trimStart, List.cons_append, List.dropWhile_cons, hc, Bool.false_eq_true,
          if_false]
        rw [← List.cons_append, List.takeWhile_append]
        split
        next hall =>
          have hbegins := List.takeWhile_prefix Text.isNameChar (l := c :: s)
          rw [List.takeWhile_cons_of_neg (by simp [hname]), List.append_nil,
            hbegins.eq_of_length hall]
        · rfl
  rw [leading, unmarked, Text.after?_around hmark, leading, unmarked]
  cases Text.after? breakMark s with
  | none => exact hstart s
  | some u => exact hstart u

theorem Comment.stripLine_remark (h : quotes code % 2 = 0) (old new : Text) :
    stripLine (code ++ lineMark ++ old) false = stripLine (code ++ lineMark ++ new) false := by
  have hself :
      beforeLineMark false lineStart false (code ++ lineMark) ≠ some (code ++ lineMark) := by
    intro he
    have hodd := (beforeLineMark_eq_self (by decide)).mp he code [] (by rw [List.append_nil])
    omega
  rcases beforeLineMark_cases lineStart false (code ++ lineMark) with ⟨hall, -⟩ | ⟨u, v, -, -, hcut⟩
  · exact absurd hall hself
  · have hu : u ≠ code ++ lineMark := fun he => hself (he ▸ hcut)
    rw [stripLine_scan, stripLine_scan, scanLine, scanLine, beforeLineMark_append_of_cut hcut hu,
      beforeLineMark_append_of_cut hcut hu]
    rfl

theorem Text.endsWith_around {pat : Text} {x : Char} (hx : x ∉ pat) (s t : Text) :
    endsWith pat (s ++ x :: t) = endsWith pat t := by
  have hreverse : (s ++ x :: t).reverse = t.reverse ++ x :: s.reverse := by simp
  rw [endsWith, hreverse, startsWith_around (by simpa using hx), endsWith]

namespace Inclusion

open Package Comment LineReader

def sifted (b : Bool) : List Text → List Text
  | [] => []
  | t :: ts =>
    if opensSection b (joinedWith t ts).1 then
      sifted false (passedWith (isSection installClose) (joinedWith t ts).2).2
    else
      (strip b (joinedWith t ts).1).1 :: sifted (strip b (joinedWith t ts).1).2 (joinedWith t ts).2
termination_by ts => ts.length
decreasing_by
  · have hpassed := passedWith_length (isSection installClose) (joinedWith t ts).2
    have hjoined := joinedWith_length t ts
    simp only [List.length_cons]
    omega
  · have hjoined := joinedWith_length t ts
    simp only [List.length_cons]
    omega

theorem scanned_of_offers {r : LineReader} (h : Offers fs ts r) (b : Bool) :
    ∃ r' b', Scanned fs (fun _ _ => false) r b (sifted b ts) r' b' := by
  fun_induction sifted b ts generalizing r with
  | case1 b =>
    obtain ⟨r', hn⟩ := h.nextLogical_end fun _ _ => false
    exact ⟨r', b, .done hn⟩
  | case2 b t ts ho ih =>
    obtain ⟨n, r₁, hn, hs⟩ := h.nextLogical
    obtain ⟨r₂, ht, hs⟩ := hs.through (isSection installClose)
    obtain ⟨r', b', hrest⟩ := ih hs
    exact ⟨r', b', .passed hn ho ht hrest⟩
  | case3 b t ts ho ih =>
    obtain ⟨n, r₁, hn, hs⟩ := h.nextLogical
    obtain ⟨r', b', hrest⟩ := ih hs
    exact ⟨r', b', .line hn (Bool.eq_false_iff.mpr ho) hrest⟩

def sectionAfter (inside : Bool) (ts : List Text) : Bool :=
  ts.foldl (fun inside t => if inside then !isSection installClose t else isSection installOpen t)
    inside

theorem passedWith_section (h : sectionAfter true before = false) : ∃ rest, rest <:+ before ∧
    rest.length < before.length ∧ sectionAfter false rest = false ∧
    ∀ ts, (passedWith (isSection installClose) (before ++ ts)).2 = rest ++ ts := by
  induction before with
  | nil => exact absurd h (by decide)
  | cons t before ih =>
    have hcons (ts : List Text) := passedWith_left (isSection installClose) (t :: (before ++ ts))
    cases hclose : isSection installClose t with
    | true =>
      refine ⟨before, List.suffix_cons t before, by simp, ?_, ?_⟩
      · simpa [sectionAfter, hclose] using h
      · intro ts
        rw [List.cons_append, hcons, List.dropWhile_cons_of_neg (by simp [hclose]), List.tail_cons]
    | false =>
      have hrest : sectionAfter true before = false := by simpa [sectionAfter, hclose] using h
      obtain ⟨rest, hsuffix, hlength, hout, hpassed⟩ := ih hrest
      refine ⟨rest, hsuffix.trans (List.suffix_cons t before), ?_, hout, ?_⟩
      · simp only [List.length_cons]
        omega
      · intro ts
        rw [List.cons_append, hcons,
          List.dropWhile_cons_of_pos (by simp [hclose]), ← passedWith_left, hpassed]

theorem isSection_remark {marker : Text} (hm : '#' ∉ marker) (code old : Text) :
    isSection marker (code ++ lineMark ++ old) = (Text.startsWith marker code ||
      (Keyword.leading code == Scope.globalKeyword &&
        (Text.contains marker code || Text.contains marker old))) := by
  have hline : code ++ lineMark ++ old = code ++ '#' :: ([] ++ '#' :: old) := by simp [lineMark]
  have hempty : Text.contains marker [] = true → Text.contains marker old = true := by
    intro h
    rw [Text.contains_iff] at h ⊢
    exact h.trans List.nil_infix
  rw [isSection, hline, Text.startsWith_around hm, Text.contains_around hm, Text.contains_around hm,
    Keyword.leading_around (by decide) (by decide) (by decide)]
  cases hnil : Text.contains marker [] with
  | false => rfl
  | true => rw [hempty hnil, Bool.or_self]

/-- Two texts of a line comment behind a code, outside quotes, that come to the same. For a global
it matters whether they name the start of a section. -/
structure Remarked (code old new : Text) : Prop where
  outside : quotes code % 2 = 0
  last : Text.endsWith continuation old = false
  last' : Text.endsWith continuation new = false
  section_iff : Keyword.leading code = Scope.globalKeyword →
    Text.contains installOpen code = false →
    Text.contains installOpen old = Text.contains installOpen new

theorem Remarked.opensSection (h : Remarked code old new) :
    opensSection false (code ++ lineMark ++ old) =
      opensSection false (code ++ lineMark ++ new) := by
  change isSection installOpen _ = isSection installOpen _
  rw [isSection_remark (by decide), isSection_remark (by decide)]
  by_cases hg : Keyword.leading code = Scope.globalKeyword
  · cases hc : Text.contains installOpen code with
    | true => simp only [Bool.true_or]
    | false => rw [h.section_iff hg hc]
  · have hne : (Keyword.leading code == Scope.globalKeyword) = false := by simpa using hg
    rw [hne, Bool.false_and, Bool.false_and]

theorem continues_remark (h : Text.endsWith continuation old = false) :
    continues (code ++ lineMark ++ old) = false := by
  apply continues_of_endsWith
  have hline : code ++ lineMark ++ old = (code ++ ['#']) ++ '#' :: old := by simp [lineMark]
  rw [hline, Text.endsWith_around (by decide), h]

theorem strip_unmarked {t : Text} (h : Text.contains blockOpen t = false) :
    (strip false t).2 = false := by
  have hbegins : ¬blockOpen <:+: stripLine t false := fun hopen =>
    Text.contains_eq_false.mp h (hopen.trans (stripLine_begins t false).isInfix)
  rw [strip_outside, stripBlock_unmarked (Text.contains_eq_false.mpr hbegins)]

theorem sifted_remark (h : Remarked code old new)
    (hplain : ∀ t ∈ before, Text.contains blockOpen t = false ∧
      Text.endsWith continuation t = false)
    (hout : sectionAfter false before = false) (after : List Text) :
    sifted false (before ++ (code ++ lineMark ++ old) :: after) =
      sifted false (before ++ (code ++ lineMark ++ new) :: after) := by
  induction hn : before.length using Nat.strong_induction_on generalizing before with
  | h n ih =>
    cases before with
    | nil =>
      rw [List.nil_append, List.nil_append, sifted, sifted,
        joinedWith_single (continues_remark h.last), joinedWith_single (continues_remark h.last')]
      dsimp only
      rw [h.opensSection, strip_outside, strip_outside, stripLine_remark h.outside old new]
    | cons t before =>
      obtain ⟨⟨hblock, hend⟩, hplain⟩ := List.forall_mem_cons.mp hplain
      simp only [List.length_cons] at hn
      have hsingle (ts : List Text) := joinedWith_single (continues_of_endsWith hend) ts
      rw [List.cons_append, List.cons_append, sifted, sifted, hsingle, hsingle]
      dsimp only
      cases ho : isSection installOpen t with
      | true =>
        -- The section ends before the line with the comment, so the same lines are passed over.
        have hinside : sectionAfter true before = false := by simpa [sectionAfter, ho] using hout
        obtain ⟨rest, hsuffix, hlength, hrest, hpassed⟩ := passedWith_section hinside
        have hopens : opensSection false t = true := ho
        rw [if_pos hopens, if_pos hopens, hpassed, hpassed]
        exact ih _ (by omega) (fun u hu => hplain u (hsuffix.subset hu)) hrest rfl
      | false =>
        have hopens : ¬opensSection false t = true := by
          intro he
          exact absurd (ho.symm.trans he) (by decide)
        have hrest : sectionAfter false before = false := by simpa [sectionAfter, ho] using hout
        rw [if_neg hopens, if_neg hopens, strip_unmarked hblock, ih _ (by omega) hplain hrest rfl]

/-- Two files that differ in what a line comment says, outside sections and not on the line of a
global where it makes the difference of a section, give the same lines. -/
theorem remarks_unseen (fs fs' : Files) (r r' : LineReader) (scope : Scope)
    (before after : List Text) (code old new : Text)
    (hstream : r.stream ≠ .directory) (hstream' : r'.stream ≠ .directory)
    (hfresh : r.ended = false) (hfresh' : r'.ended = false)
    (hlines : r.texts fs = before ++ (code ++ lineMark ++ old) :: after)
    (hlines' : r'.texts fs' = before ++ (code ++ lineMark ++ new) :: after)
    (hplain : ∀ t ∈ before, Text.contains blockOpen t = false ∧
      Text.endsWith continuation t = false)
    (hout : sectionAfter false before = false) (hremark : Remarked code old new) :
    ∃ lines i i', Exhausts fs (fun _ _ => false) ⟨r, scope, false⟩ lines i ∧
      Exhausts fs' (fun _ _ => false) ⟨r', scope, false⟩ lines i' := by
  have hs := offers_texts fs hstream hfresh
  have hs' := offers_texts fs' hstream' hfresh'
  rw [hlines] at hs
  rw [hlines'] at hs'
  obtain ⟨x, b, hscan⟩ := scanned_of_offers hs false
  obtain ⟨x', b', hscan'⟩ := scanned_of_offers hs' false
  rw [← sifted_remark hremark hplain hout after] at hscan'
  exact ⟨_, _, _, hscan.exhausts scope, hscan'.exhausts scope⟩

def includedFile (source : String) : Files := Processor.scriptFiles [("inc.nscr", source)]

def includedReader : LineReader := { path := ⟨"s/inc.nscr".toList⟩, stream := .file 0 0 }

theorem remarks_unseen_markers :
    let before := ["<install>".toList, "global x".toList, "<endinstall> \"".toList]
    let code := "define a \"##\" ".toList
    let after := ["global b #* c".toList, "*# define d".toList]
    let fs := includedFile
      "<install>\nglobal x\n<endinstall> \"\ndefine a \"##\" ## <install>\nglobal b #* c\n*# define d"
    let fs' := includedFile
      "<install>\nglobal x\n<endinstall> \"\ndefine a \"##\" ## #* \"\nglobal b #* c\n*# define d\n"
    includedReader.texts fs = before ++ (code ++ lineMark ++ " <install>".toList) :: after ∧
    includedReader.texts fs' = before ++ (code ++ lineMark ++ " #* \"".toList) :: after ∧
    sectionAfter false before = false ∧ Remarked code " <install>".toList " #* \"".toList ∧
    ∃ i i', Exhausts fs (fun _ _ => false) ⟨includedReader, .all, false⟩
        ["define a \"##\"".toList, "global b".toList, "define d".toList] i ∧
      Exhausts fs' (fun _ _ => false) ⟨includedReader, .all, false⟩
        ["define a \"##\"".toList, "global b".toList, "define d".toList] i' := by
  intro before code after fs fs'
  have hlines : includedReader.texts fs =
      before ++ (code ++ lineMark ++ " <install>".toList) :: after := by decide +kernel
  have hlines' : includedReader.texts fs' =
      before ++ (code ++ lineMark ++ " #* \"".toList) :: after := by decide +kernel
  have hplain : before.all (fun t =>
      !Text.contains blockOpen t && !Text.endsWith continuation t) = true := by decide +kernel
  have hout : sectionAfter false before = false := by decide +kernel
  have hremark : Remarked code " <install>".toList " #* \"".toList := by
    refine ⟨by decide, by decide, by decide, fun hglobal => ?_⟩
    exact absurd hglobal (by decide +kernel)
  obtain ⟨lines, i, i', hi, hi'⟩ :=
    remarks_unseen fs fs' includedReader includedReader .all before after
    code _ _ (by decide) (by decide) rfl rfl hlines hlines' (by simpa using hplain) hout hremark
  have hrun : returned? fs (fun _ _ => false) 9 ⟨includedReader, .all, false⟩ =
      some ["define a \"##\"".toList, "global b".toList, "define d".toList] := by decide +kernel
  obtain rfl := hi.returned (returns_of_returned? 9 hrun)
  exact ⟨hlines, hlines', hout, hremark, i, i', hi, hi'⟩

theorem remark_opens_section :
    quotes "global a = 1 ".toList % 2 = 0 ∧
    Returns (includedFile "global a = 1 ## see <install>\ndefine b\n") (fun _ _ => false)
      ⟨includedReader, .all, false⟩ [] ∧
    Returns (includedFile "global a = 1 ## see below\ndefine b\n") (fun _ _ => false)
      ⟨includedReader, .all, false⟩ ["global a = 1".toList, "define b".toList] := by
  refine ⟨by decide, ?_, ?_⟩
  · exact returns_of_returned? 9 (by decide +kernel)
  · exact returns_of_returned? 9 (by decide +kernel)

end Inclusion

end ScriptFeed
