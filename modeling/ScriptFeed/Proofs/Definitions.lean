import ScriptFeed.Proofs.Cutting

namespace ScriptFeed

namespace LocalFunction

open Text

def written (f : LocalFunction) : Text :=
  "lclfunc ".toList ++ (f.name ++ '(' :: (commaList f.params ++ (") := ".toList ++ f.body)))

structure WellFormed (f : LocalFunction) : Prop where
  name : isIdentifier f.name = true
  params : ∀ p ∈ f.params, isIdentifier p = true
  nonempty : f.body ≠ []
  trimmed : Trimmed f.body

variable {f : LocalFunction} {params : List Text}

theorem commaList_free {c : Char} (hcomma : c ≠ ',') (hspace : c ≠ ' ')
    (h : ∀ p ∈ params, c ∉ p) : c ∉ commaList params := by
  induction params with
  | nil => simp [commaList]
  | cons p ps ih =>
    obtain ⟨hp, hps⟩ := List.forall_mem_cons.mp h
    cases ps with
    | nil => simpa [commaList] using hp
    | cons q ps =>
      rw [commaList_cons]
      simpa [hp, hcomma, hspace] using ih hps

theorem commaList_ne_nil {p : Text} (hp : p ≠ []) (ps : List Text) : commaList (p :: ps) ≠ [] := by
  cases ps with
  | nil => simpa [commaList] using hp
  | cons q ps =>
    rw [commaList_cons]
    exact fun he => hp (List.append_eq_nil_iff.mp he).1

theorem commaList_trimmed (h : ∀ p ∈ params, isIdentifier p = true) :
    Trimmed (commaList params) := by
  induction params with
  | nil => rfl
  | cons p ps ih =>
    obtain ⟨hp, hps⟩ := List.forall_mem_cons.mp h
    obtain ⟨hne, hword⟩ := isIdentifier_word hp
    cases ps with
    | nil => simpa [commaList] using word_trimmed hword
    | cons q ps =>
      have hq := commaList_ne_nil (isIdentifier_word (hps q List.mem_cons_self)).1 ps
      have hend := (trimmed_iff.mp (ih hps)).2
      rw [commaList_cons]
      refine .append hne (List.cons_ne_nil _ _) (trimmed_iff.mp (word_trimmed hword)).1 ?_
      have hlast := List.getLast?_append_of_ne_nil [',', ' '] hq
      rwa [← hlast] at hend

theorem parameters_commaList (h : ∀ p ∈ params, isIdentifier p = true) :
    parameters (commaList params) = .ok params := by
  have htrim : trim (commaList params) = commaList params := commaList_trimmed h
  unfold parameters
  dsimp only
  rw [htrim]
  cases params with
  | nil => rfl
  | cons p ps =>
    have hne := commaList_ne_nil (isIdentifier_word (h p List.mem_cons_self)).1 ps
    have hfree : ∀ q ∈ p :: ps, ',' ∉ q := fun q hq =>
      not_mem_word (isIdentifier_word (h q hq)).2 (by decide)
    have hpieces : (pieces ',' (commaList (p :: ps))).map trim = p :: ps := by
      rw [pieces_commaList (List.cons_ne_nil p ps) hfree]
      refine (List.map_congr_left fun q hq => ?_).trans (List.map_id _)
      exact word_trimmed (isIdentifier_word (h q hq)).2
    rw [if_neg hne, hpieces, if_pos (List.all_eq_true.mpr h)]

theorem signature_written (hname : isIdentifier f.name = true)
    (h : ∀ p ∈ f.params, isIdentifier p = true) :
    signature (f.name ++ '(' :: (commaList f.params ++ [')'])) = .ok (f.name, f.params) := by
  obtain ⟨-, hword⟩ := isIdentifier_word hname
  have hopen : cutAt '(' (f.name ++ '(' :: (commaList f.params ++ [')'])) =
      some (f.name, commaList f.params ++ [')']) :=
    cut_append [] (not_mem_word hword (by decide)) _
  have hclose : cutLast ')' (commaList f.params ++ [')']) = some (commaList f.params, []) :=
    cutLast_append (by simp) _
  have htrim : trim f.name = f.name := word_trimmed hword
  unfold signature
  rw [hopen]
  dsimp only
  rw [hclose]
  dsimp only
  rw [htrim, if_pos hname, parameters_commaList h]
  rfl

theorem definitionText_written (h : f.WellFormed) : definitionText f.written =
    f.name ++ '(' :: (commaList f.params ++ (") := ".toList ++ f.body)) := by
  obtain ⟨hne, hword⟩ := isIdentifier_word h.name
  have hunmarked : Keyword.unmarked f.written = f.written := by
    have hmark : after? Keyword.breakMark f.written = none := after?_cons_ne (by decide) _ _
    rw [Keyword.unmarked, hmark]
    exact trimStart_cons (by decide) _
  have hkeyword : after? keyword f.written =
      some (' ' :: (f.name ++ '(' :: (commaList f.params ++ (") := ".toList ++ f.body)))) :=
    after?_eq_some.mpr rfl
  have htrimmed :
      Trimmed (f.name ++ '(' :: (commaList f.params ++ (") := ".toList ++ f.body))) := by
    refine .append hne (List.cons_ne_nil _ _) (trimmed_iff.mp (word_trimmed hword)).1 ?_
    rw [← List.append_assoc, ← List.cons_append, List.getLast?_append_of_ne_nil _ h.nonempty]
    exact (trimmed_iff.mp h.trimmed).2
  rw [definitionText, hunmarked, hkeyword]
  exact (trim_cons_blank (by decide) _).trans htrimmed

theorem parse_written (h : f.WellFormed) : parse f.written = .ok f := by
  obtain ⟨hne, hword⟩ := isIdentifier_word h.name
  let head := f.name ++ '(' :: (commaList f.params ++ [')'])
  -- the first `:=` is the one behind the head, whatever the body contains
  have hfree : ':' ∉ head ++ [' '] := by
    have hparams : ':' ∉ commaList f.params := commaList_free (by decide) (by decide) fun p hp =>
      not_mem_word (isIdentifier_word (h.params p hp)).2 (by decide)
    simp [head, not_mem_word hword (by decide : isNameChar ':' = false), hparams]
  have hcut : cut [':', '='] (definitionText f.written) = some (head ++ [' '], ' ' :: f.body) := by
    rw [definitionText_written h, ← cut_append ['='] hfree (' ' :: f.body)]
    simp [head]
  have hbody : trim (' ' :: f.body) = f.body := (trim_cons_blank (by decide) _).trans h.trimmed
  have hhead : trim (head ++ [' ']) = head := by
    rw [trim_concat_blank (by decide)]
    refine Trimmed.append hne (List.cons_ne_nil _ _) (trimmed_iff.mp (word_trimmed hword)).1 ?_
    intro c hc
    rw [← List.cons_append, List.getLast?_concat] at hc
    obtain rfl := Option.some.inj hc
    decide
  unfold parse
  rw [hcut]
  dsimp only
  rw [hbody, if_neg h.nonempty, hhead, signature_written h.name h.params]
  rfl

end LocalFunction

namespace LocalFunctions

open LocalFunction

variable {fs gs : LocalFunctions} {f : LocalFunction}

theorem get?_insert_self (fs : LocalFunctions) (f : LocalFunction) :
    (fs.insert f).get? f.name = some f := by
  rw [insert, get?, List.find?_cons_of_pos (by simp)]

theorem get?_insert_other (fs : LocalFunctions) {name : Text} (h : name ≠ f.name) :
    (fs.insert f).get? name = fs.get? name := by
  rw [insert, get?, List.find?_cons_of_neg (by simpa using Ne.symm h), List.find?_filter, get?]
  congr 1
  funext g
  by_cases hg : g.name = name
  · simp [hg, h]
  · simp [hg]

theorem insert_alone (fs : LocalFunctions) (f : LocalFunction) :
    (fs.insert f).defs.filter (·.name = f.name) = [f] := by
  have hothers : (fs.defs.filter (·.name != f.name)).filter (·.name = f.name) = [] := by
    rw [List.filter_filter, List.filter_eq_nil_iff]
    intro g _
    simp
  rw [insert, List.filter_cons_of_pos (by simp), hothers]

theorem define_written (h : f.WellFormed) (fs : LocalFunctions) (marked : Bool) :
    fs.define (Keyword.markedIf marked f.written) = .ok (f, fs.insert f) := by
  have hplain : fs.define f.written = .ok (f, fs.insert f) := by
    rw [define, parse_written h]
    rfl
  cases marked with
  | false => exact hplain
  | true =>
    have hstart : Text.startsWith Keyword.breakMark f.written = false :=
      Text.startsWith_cons_ne (by decide) _ _
    rw [Keyword.markedIf_true, define_withMark fs hstart, hplain]

def defineAll (fs : LocalFunctions) (lines : List Text) : LocalFunctions :=
  lines.foldl (fun fs line => ((fs.define line).toOption.map Prod.snd).getD fs) fs

theorem define_error {line : Text} {cause : Mistake} :
    fs.define line = .error cause ↔ parse line = .error cause := by
  rw [define]
  cases parse line <;> simp [Except.map]

theorem defineAll_refused {line : Text} {cause : Mistake} (h : fs.define line = .error cause)
    (xs ys : List Text) : fs.defineAll (xs ++ line :: ys) = fs.defineAll (xs ++ ys) := by
  -- whether a line is refused does not depend on the store
  have hrefused : ∀ gs : LocalFunctions, gs.define line = .error cause :=
    fun gs => define_error.mpr (define_error.mp h)
  rw [defineAll, List.foldl_append, List.foldl_cons, hrefused, defineAll, List.foldl_append]
  rfl

end LocalFunctions

namespace Processor

theorem command?_refused {p : Processor} {line : Text} {cause : LocalFunction.Mistake}
    (hmode : p.installMode = false) (hprocedure : Keyword.startsProcedure line = false)
    (hdefinition : LocalFunction.isDefinition line = true)
    (h : p.functions.define line = .error cause) :
    command? line p = .error (.badDefinition line cause) p := by
  unfold command?
  simp only [bind_run, get_run, hmode, hprocedure, hdefinition, h, Bool.false_eq_true, if_false,
    if_true]
  rfl

end Processor

namespace LocalFunctions

open LocalFunction

theorem definitions_stored (fs : LocalFunctions) :
    (∀ (name : Text) (params : List Text) (body : Text) (marked : Bool),
      Text.isIdentifier name = true → (∀ p ∈ params, Text.isIdentifier p = true) → body ≠ [] →
      Text.Trimmed body →
      ∃ gs, fs.define (Keyword.markedIf marked (written ⟨name, params, body⟩)) =
          .ok (⟨name, params, body⟩, gs) ∧
        gs.get? name = some ⟨name, params, body⟩ ∧
        gs.defs.filter (·.name = name) = [⟨name, params, body⟩] ∧
        ∀ other, other ≠ name → gs.get? other = fs.get? other) ∧
    ∀ line cause, fs.define line = .error cause →
      (∀ xs ys, fs.defineAll (xs ++ line :: ys) = fs.defineAll (xs ++ ys)) ∧
      ∀ p : Processor, p.functions = fs → p.installMode = false →
        Keyword.startsProcedure line = false → isDefinition line = true →
        Processor.command? line p = .error (.badDefinition line cause) p := by
  constructor
  · intro name params body marked hname hparams hne htrimmed
    let f : LocalFunction := ⟨name, params, body⟩
    have hf : f.WellFormed := ⟨hname, hparams, hne, htrimmed⟩
    exact ⟨fs.insert f, define_written hf fs marked, get?_insert_self fs f, insert_alone fs f,
      fun other hother => get?_insert_other fs hother⟩
  · intro line cause h
    refine ⟨defineAll_refused h, ?_⟩
    rintro p rfl hmode hprocedure hdefinition
    exact Processor.command?_refused hmode hprocedure hdefinition h

def couple : LocalFunctions :=
  ⟨[⟨"f".toList, [], "1".toList⟩, ⟨"g".toList, ["x".toList], "x".toList⟩]⟩

theorem definitions_stored_couple :
    (∃ gs, couple.define (Keyword.markedIf true
          (written ⟨"f".toList, ["a".toList, "b".toList], "g(b := \", )\"".toList⟩)) =
        .ok (⟨"f".toList, ["a".toList, "b".toList], "g(b := \", )\"".toList⟩, gs) ∧
      gs.get? "f".toList =
        some ⟨"f".toList, ["a".toList, "b".toList], "g(b := \", )\"".toList⟩ ∧
      gs.defs.filter (·.name = "f".toList) =
        [⟨"f".toList, ["a".toList, "b".toList], "g(b := \", )\"".toList⟩] ∧
      ∀ other, other ≠ "f".toList → gs.get? other = couple.get? other) ∧
    couple.define "lclfunc g(x y) := x".toList = .error .badParameter ∧
    ∀ xs ys, couple.defineAll (xs ++ "lclfunc g(x y) := x".toList :: ys) =
      couple.defineAll (xs ++ ys) := by
  have hbody : Text.trim "g(b := \", )\"".toList = "g(b := \", )\"".toList := by decide
  have hrefused : couple.define "lclfunc g(x y) := x".toList = .error .badParameter := by decide
  obtain ⟨hstored, hkept⟩ := definitions_stored couple
  exact ⟨hstored "f".toList ["a".toList, "b".toList] "g(b := \", )\"".toList true (by decide)
    (by decide) (by decide) hbody, hrefused, (hkept _ _ hrefused).1⟩

end LocalFunctions

end ScriptFeed
