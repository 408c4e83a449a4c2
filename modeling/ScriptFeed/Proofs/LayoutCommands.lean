import ScriptFeed.Proofs.Changes
import ScriptFeed.Proofs.FileNames
import ScriptFeed.Proofs.Provenance

namespace ScriptFeed

namespace Text

variable {c : Char} {t : Text}

theorem mem_trim (hc : isBlank c = false) (h : c ∈ t) : c ∈ trim t := by
  have hdrop {u : Text} (hu : c ∈ u) : c ∈ u.dropWhile isBlank := by
    rw [← List.takeWhile_append_dropWhile (p := isBlank) (l := u), List.mem_append] at hu
    refine hu.resolve_left fun hblank => ?_
    rw [List.mem_takeWhile_imp hblank] at hc
    exact absurd hc (by decide)
  rw [trim, trimEnd, List.mem_reverse]
  exact hdrop (List.mem_reverse.mpr (hdrop h))

end Text

namespace Argument

variable {t : Text} {c : Char}

theorem unquote_pair (hquote : c ≠ '"') (t : Text) :
    unquote ('\\' :: c :: t) = '\\' :: c :: unquote t := by
  rw [unquote]
  exact hquote

theorem quoted_induction {motive : Text → Prop} (nil : motive []) (back : motive ['\\'])
    (escaped : ∀ r, motive r → motive ('\\' :: '"' :: r))
    (pair : ∀ c r, c ≠ '"' → motive r → motive ('\\' :: c :: r))
    (quote : ∀ r, motive ('"' :: r))
    (plain : ∀ c r, c ≠ '\\' → c ≠ '"' → motive r → motive (c :: r)) (t : Text) : motive t := by
  induction t using unquote.induct with
  | case1 => exact nil
  | case2 => exact back
  | case3 r ih => exact escaped r ih
  | case4 c r hc ih => exact pair c r hc ih
  | case5 r => exact quote r
  | case6 c r hlone hescaped hpair hquote ih =>
    refine plain c r (fun hc => ?_) hquote ih
    cases r with
    | nil => exact hlone hc rfl
    | cons d r => exact hpair d r hc rfl

theorem unquote_short (t : Text) : (unquote (t ++ ['"'])).length ≤ t.length := by
  induction t using quoted_induction with
  | nil => exact Nat.le_refl 0
  | back => exact Nat.le_refl 1
  | escaped r ih =>
    simp only [List.cons_append, unquote, List.length_cons]
    omega
  | pair c r hc ih =>
    simp only [List.cons_append, unquote_pair hc, List.length_cons]
    omega
  | quote r => exact Nat.zero_le _
  | plain c r hback hquote ih =>
    simp only [List.cons_append, unquote_plain hback hquote, List.length_cons]
    omega

theorem unquote_shorter (h : '"' ∈ t) : (unquote (t ++ ['"'])).length < t.length := by
  induction t using quoted_induction with
  | nil => simp at h
  | back => simp at h
  | escaped r _ =>
    -- the quote is kept, at the cost of its backslash
    have := unquote_short r
    simp only [List.cons_append, unquote, List.length_cons]
    omega
  | pair c r hc ih =>
    have := ih (by simpa [Ne.symm hc] using h)
    simp only [List.cons_append, unquote_pair hc, List.length_cons]
    omega
  | quote r => exact Nat.zero_lt_succ _
  | plain c r hback hquote ih =>
    have := ih (by simpa [Ne.symm hquote] using h)
    simp only [List.cons_append, unquote_plain hback hquote, List.length_cons]
    omega

theorem unquote_free (h : '"' ∉ t) (hlast : t.getLast? ≠ some '\\') : unquote (t ++ ['"']) = t := by
  have htail {c : Char} {r : Text} (h : (c :: r).getLast? ≠ some '\\') :
      r.getLast? ≠ some '\\' := by
    cases r with
    | nil => simp
    | cons d r => rwa [List.getLast?_cons_cons] at h
  induction t using quoted_induction with
  | nil => rfl
  | back => exact absurd rfl hlast
  | escaped r _ => simp at h
  | pair c r hc ih =>
    rw [List.cons_append, List.cons_append, unquote_pair hc,
      ih (fun hr => h (by simp [hr])) (htail (htail hlast))]
  | quote r => simp at h
  | plain c r hback hquote ih =>
    rw [List.cons_append, unquote_plain hback hquote, ih (fun hr => h (by simp [hr])) (htail hlast)]

theorem unquote_eq_self (hlast : t.getLast? ≠ some '\\') : unquote (t ++ ['"']) = t ↔ '"' ∉ t := by
  constructor
  · intro he hquote
    have hlt := unquote_shorter hquote
    rw [he] at hlt
    exact Nat.lt_irrefl _ hlt
  · exact fun h => unquote_free h hlast

theorem read_quote (t : Text) : read ('"' :: t) = unquote t := rfl

end Argument

namespace Roots

variable {name : Text} {c : Char}

theorem mem_unquoted (hc : c ≠ '"') (h : c ∈ name) : c ∈ unquoted name := by
  unfold unquoted
  split
  next r =>
    have hr : c ∈ r := by simpa [hc] using h
    split
    next hlast =>
      obtain ⟨s, hs⟩ := List.getLast?_eq_some_iff.mp (beq_iff_eq.mp hlast)
      rw [hs, List.dropLast_concat]
      simpa [hs, hc] using hr
    · exact h
  · exact h

theorem cleaned_nil (h : cleaned name = []) (hc : c ∈ name) : Text.isBlank c = true ∨ c = '"' := by
  by_contra hno
  obtain ⟨hblank, hquote⟩ := not_or.mp hno
  rw [Bool.not_eq_true] at hblank
  have hmem : c ∈ Text.trim (unquoted (Text.trim name)) :=
    Text.mem_trim hblank (mem_unquoted hquote (Text.mem_trim hblank hc))
  rw [List.map_eq_nil_iff.mp h] at hmem
  exact List.not_mem_nil hmem

theorem unquoted_part (t : Text) : unquoted t <:+: t := by
  unfold unquoted
  split
  next r =>
    split
    · have hbegins : r.dropLast <+: r := List.dropLast_prefix r
      exact hbegins.isInfix.trans (List.suffix_cons _ _).isInfix
    · exact List.infix_rfl
  next => exact List.infix_rfl

theorem mem_of_mem_cleaned (h : c ∈ cleaned name) : c = '/' ∨ c ∈ name := by
  obtain ⟨d, hd, rfl⟩ := List.mem_map.mp h
  split
  · exact .inl rfl
  · have hpart := ((Text.trim_part _).trans (unquoted_part _)).trans (Text.trim_part name)
    exact .inr (hpart.subset hd)

end Roots

theorem Files.write_named {fs fs' : Files} {p : Path} {b : Bytes} (h : fs.write p b = .ok fs') :
    p.text ≠ [] := by
  intro he
  have hstart : fs.start p = .error .notFound := by rw [start, he]; rfl
  rw [write, openWrite, parentOf, hstart] at h
  exact absurd h (by simp [bind, Except.bind])

namespace Layout

variable {roots : Roots} {l : Layout} {p : Path}

theorem fileExtension_plain : Path.Plain (fileExtension.dropWhile (· == '.')) :=
  (Roots.extensions_plain (by decide)).1

theorem path_last (roots : Roots) (l : Layout) : (l.path roots).text.getLast? ≠ some '\\' := by
  intro hlast
  unfold path at hlast
  cases h : roots.resolve? l.file fileExtension with
  | none =>
    rw [h] at hlast
    have hcleaned : Roots.cleaned l.file = [] := by
      rw [Roots.resolve?_eq] at h
      by_contra hne
      rw [if_neg hne] at h
      exact absurd h (by simp)
    have hmem : '\\' ∈ l.file := List.mem_of_getLast? hlast
    exact absurd (Roots.cleaned_nil hcleaned hmem) (by decide)
  | some p =>
    rw [h] at hlast
    rcases Roots.resolve_last h fileExtension_plain.filled hlast with hc | hc | hc
    · exact absurd hc (by decide)
    · exact Roots.not_mem_cleaned l.file (List.mem_of_getLast? hc)
    · exact absurd hc (by decide)

theorem path_free (hhome : '"' ∉ roots.home.text) (hscripts : '"' ∉ roots.scripts.text)
    (hfile : '"' ∉ l.file) : '"' ∉ (l.path roots).text := by
  unfold path
  cases h : roots.resolve? l.file fileExtension with
  | none => exact hfile
  | some p =>
    have hcleaned : '"' ∉ Roots.cleaned l.file := by
      intro hmem
      exact (Roots.mem_of_mem_cleaned hmem).elim (by decide) hfile
    exact Roots.not_mem_resolve h fileExtension_plain.filled (by decide) (by decide) hhome hscripts
      hcleaned (by decide)

theorem command_eq (p : Path) : command p = keyword ++ ' ' :: '"' :: (p.text ++ ['"']) := by
  simp [command]

theorem readAt_command (p : Path) :
    Argument.readAt (command p) (Text.utf8Size (keyword ++ [' '])) =
      Argument.unquote (p.text ++ ['"']) := by
  have hdrop : Text.dropBytes (Text.utf8Size (keyword ++ [' '])) (command p) =
      some ('"' :: (p.text ++ ['"'])) := by
    rw [command_eq]
    rfl
  rw [Argument.readAt, hdrop]
  exact Argument.read_quote _

theorem parse?_command (p : Path) : (parse? (command p)).map (·.file) =
    if Argument.unquote (p.text ++ ['"']) = [] then none
    else some (Argument.unquote (p.text ++ ['"'])) := by
  have hafter : Text.after? keyword (command p) = some (' ' :: '"' :: (p.text ++ ['"'])) := by
    rw [command_eq]
    exact Text.after?_eq_some.mpr rfl
  have htrim : Text.trimStart (' ' :: '"' :: (p.text ++ ['"'])) = '"' :: (p.text ++ ['"']) := rfl
  unfold parse?
  rw [hafter]
  dsimp only
  rw [htrim, Argument.read_quote]
  cases Argument.unquote (p.text ++ ['"']) with
  | nil => rfl
  | cons c file => rfl

end Layout

namespace Processor

variable {p q : Processor} {line command : Text} {l : Layout}

structure Saves (l : Layout) (p : Processor) (command : Text) (q : Processor) : Prop where
  files : p.files.write (l.path p.settings.roots) (Utf8.encode l.render) = .ok q.files
  command : command = Layout.command (l.path p.settings.roots)
  told : q.events.getLast? = some (.layoutWritten (l.path p.settings.roots) (l.body.length + 1))

theorem saveLayout_saves (line : Text) (l : Layout) (p : Processor) :
    Ends (saveLayout line l) p (Saves l p) (fun _ _ => True) := by
  let p₁ := if l.complete then p else p.emit (.layoutOpen l.file)
  have hfiles : p₁.files = p.files := by
    unfold p₁
    split <;> rfl
  have hroots : p₁.settings.roots = p.settings.roots := by
    unfold p₁
    split <;> rfl
  simp only [saveLayout, ends_bind, ends_modify, ends_get]
  change Ends _ p₁ _ _
  split
  · exact trivial
  next files hwrite =>
    simp only [ends_bind, ends_set, ends_pure]
    change p₁.files.write (l.path p₁.settings.roots) _ = _ at hwrite
    rw [hfiles, hroots] at hwrite
    refine ⟨hwrite, ?_, ?_⟩
    · rw [← hroots]
    · rw [← hroots]
      exact List.getLast?_concat

theorem saveLayout_some (h : (do return some (← saveLayout line l)) p = .ok (some command) q) :
    Saves l p command q := by
  obtain ⟨c, r, hsave, h⟩ := bind_eq_ok h
  simp only [pure_run, EStateM.Result.ok.injEq, Option.some.injEq] at h
  obtain ⟨rfl, rfl⟩ := h
  exact (saveLayout_saves line l p).ok hsave

theorem writeLayout_saves (h : writeLayout line p = .ok (some command) q) :
    ∃ l l', Layout.parse? line = some l ∧ Layout.file l' = l.file ∧ Saves l' p command q := by
  unfold writeLayout at h
  cases hparse : Layout.parse? line with
  | none => simp [hparse, pure_run] at h
  | some l =>
    simp only [hparse] at h
    rw [bind_ok (get_run p)] at h
    cases hs : p.session with
    | none =>
      simp only [hs] at h
      exact ⟨l, l, rfl, rfl, saveLayout_some h⟩
    | some s =>
      simp only [hs] at h
      cases hbody : l.readBody p.files s.reader with
      | error e =>
        have hfail : lift (.error e : Except Fault (Layout × LineReader)) p = .error (.files e) p :=
          rfl
        rw [hbody, bind_error hfail] at h
        exact absurd h (by simp)
      | ok x =>
        obtain ⟨l', reader⟩ := x
        rw [hbody] at h
        have hsaves : Saves l' (p.setReader reader) command q := saveLayout_some h
        exact ⟨l, l', rfl, readBody_file hbody, hsaves.files, hsaves.command, hsaves.told⟩

/-- The command names the file that was written exactly if the path has no quote in it: the quotes
around the path are read back, quotes inside it are not. -/
theorem layout_command_names_file (p q : Processor) (line command : Text)
    (h : writeLayout line p = .ok (some command) q) :
    ∃ l path text n, Layout.parse? line = some l ∧ path = l.path p.settings.roots ∧
      p.files.write path (Utf8.encode text) = .ok q.files ∧
      q.events.getLast? = some (.layoutWritten path n) ∧
      (Argument.readAt command (Text.utf8Size "layout ".toList) = path.text ↔ '"' ∉ path.text) ∧
      ((Layout.parse? command).map (·.file) = some path.text ↔ '"' ∉ path.text) ∧
      ('"' ∉ p.settings.home.text → '"' ∉ p.settings.scripts.text → '"' ∉ l.file →
        '"' ∉ path.text) := by
  obtain ⟨l, l', hparse, hfile, hsaves⟩ := writeLayout_saves h
  have hpath : l'.path p.settings.roots = l.path p.settings.roots := by
    rw [Layout.path, Layout.path, hfile]
  obtain ⟨hwrite, rfl, htold⟩ := hsaves
  rw [hpath] at hwrite htold ⊢
  have hread : Argument.unquote ((l.path p.settings.roots).text ++ ['"']) =
      (l.path p.settings.roots).text ↔ '"' ∉ (l.path p.settings.roots).text :=
    Argument.unquote_eq_self (Layout.path_last _ l)
  refine ⟨l, l.path p.settings.roots, _, _, hparse, rfl, hwrite, htold, ?_, ?_, ?_⟩
  · rw [← hread, ← Layout.readAt_command]
    rfl
  · rw [Layout.parse?_command, ← hread]
    constructor
    · intro hsome
      split at hsome
      · exact absurd hsome (by simp)
      · exact Option.some.inj hsome
    · intro he
      rw [he, if_neg (Files.write_named hwrite)]
  · intro hhome hscripts hfile
    exact Layout.path_free hhome hscripts hfile

def commandOf : Outcome (Option Text) → Option Text
  | .ok command _ => command
  | .error _ _ => none

theorem commandOf_run {o : Outcome (Option Text)} (h : commandOf o = some command) :
    o = .ok (some command) (stateOf o) := by
  cases o with
  | ok c r =>
    rw [commandOf] at h
    rw [h]
    rfl
  | error e r => simp [commandOf] at h

def laidOut : Processor := openedMain false [("main.nscr", "group\n endlayout x\nz")]

def spacedLine : Text := "layout  \".\\a b\" -w".toList

theorem layout_command_names_file_spaced :
    ∃ q, writeLayout spacedLine laidOut = .ok (some "layout \"s/./a b.nlyt\"".toList) q ∧
      q.files.read ⟨"s/a b.nlyt".toList⟩ =
        .ok (Utf8.encode "layout -w\n\tgroup\n\tendlayout\n".toList) ∧
      Argument.readAt "layout \"s/./a b.nlyt\"".toList (Text.utf8Size "layout ".toList) =
        "s/./a b.nlyt".toList ∧
      (Layout.parse? "layout \"s/./a b.nlyt\"".toList).map (·.file) =
        some "s/./a b.nlyt".toList := by
  have hcommand : commandOf (writeLayout spacedLine laidOut) =
      some "layout \"s/./a b.nlyt\"".toList := by decide +kernel
  have hfile : (stateOf (writeLayout spacedLine laidOut)).files.read ⟨"s/a b.nlyt".toList⟩ =
      .ok (Utf8.encode "layout -w\n\tgroup\n\tendlayout\n".toList) := by decide +kernel
  have hpath : (Layout.parse? spacedLine).map (·.path laidOut.settings.roots) =
      some ⟨"s/./a b.nlyt".toList⟩ := by decide +kernel
  obtain ⟨l, path, -, -, hparse, rfl, -, -, hread, hagain, -⟩ :=
    layout_command_names_file _ _ _ _ (commandOf_run hcommand)
  rw [hparse, Option.map_some, Option.some.injEq] at hpath
  rw [hpath] at hread hagain
  exact ⟨_, commandOf_run hcommand, hfile, hread.mpr (by decide), hagain.mpr (by decide)⟩

def quotedLine : Text := "layout \"a\\\"b\" endlayout".toList

theorem quoted_file_misnamed :
    ∃ q, writeLayout quotedLine laidOut = .ok (some "layout \"s/a\"b.nlyt\"".toList) q ∧
      q.files.read ⟨"s/a\"b.nlyt".toList⟩ = .ok (Utf8.encode "layout endlayout\n".toList) ∧
      Argument.readAt "layout \"s/a\"b.nlyt\"".toList (Text.utf8Size "layout ".toList) =
        "s/a".toList ∧
      (Layout.parse? "layout \"s/a\"b.nlyt\"".toList).map (·.file) = some "s/a".toList := by
  have hcommand : commandOf (writeLayout quotedLine laidOut) =
      some "layout \"s/a\"b.nlyt\"".toList := by decide +kernel
  have hfile : (stateOf (writeLayout quotedLine laidOut)).files.read ⟨"s/a\"b.nlyt".toList⟩ =
      .ok (Utf8.encode "layout endlayout\n".toList) := by decide +kernel
  exact ⟨_, commandOf_run hcommand, hfile, by decide, by decide⟩

end Processor

end ScriptFeed
