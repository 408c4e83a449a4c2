import ScriptFeed.Settings
import ScriptFeed.Proofs.Cutting

namespace ScriptFeed

namespace Text

variable {c : Char} {t : Text}

theorem isBlank_of_isAsciiBlank (h : isAsciiBlank c = true) : isBlank c = true := by
  simp only [isAsciiBlank, isBlank, Bool.or_eq_true, Bool.and_eq_true, decide_eq_true_eq,
    beq_iff_eq] at h ⊢
  omega

theorem isAsciiBlank_of_isNameChar (h : isNameChar c = true) : isAsciiBlank c = false := by
  rw [← Bool.not_eq_true]
  intro hblank
  have hb := isBlank_of_isAsciiBlank hblank
  rw [isBlank_of_isNameChar h] at hb
  exact absurd hb (by simp)

theorem cutAt_eq_none (h : c ∉ t) : cutAt c t = none := by
  cases hcut : cutAt c t with
  | none => rfl
  | some x =>
    rw [cut_eq_some hcut] at h
    exact absurd (by simp) h

end Text

namespace Settings

inductive Field where
  | log
  | docs
  | scripts
  | yes
deriving DecidableEq, Repr

def Field.name : Field → Text
  | log => "log_file".toList
  | docs => "docs_dir".toList
  | scripts => "script_dir".toList
  | yes => "yes_answer".toList

def put (s : Settings) (v : Text) : Field → Settings
  | .log => { s with logSet := some ⟨v⟩ }
  | .docs => { s with docsSet := some ⟨v⟩ }
  | .scripts => { s with scripts := ⟨v⟩ }
  | .yes => { s with yes := v }

def escape (v : Text) : Text := v.flatMap fun c => if c = '\\' ∨ c = '"' then ['\\', c] else [c]

def inQuotes (v : Text) : Text := '"' :: (escape v ++ ['"'])

def setLine (name : Text) (between : Char) (v : Text) : Text :=
  "set ".toList ++ (name ++ between :: inQuotes v)

variable {s s' : Settings} {c : Char} {name v t : Text}

theorem wordsFrom_nil (quoted : Bool) (word : Text) :
    wordsFrom quoted word [] = if word = [] then [] else [word.reverse] := by
  rw [wordsFrom]

theorem wordsFrom_quote (quoted : Bool) (word t : Text) :
    wordsFrom quoted word ('"' :: t) = wordsFrom (!quoted) word t := by
  rw [wordsFrom]

theorem wordsFrom_escape (word v t : Text) :
    wordsFrom true word (escape v ++ t) = wordsFrom true (v.reverse ++ word) t := by
  induction v generalizing word with
  | nil => rfl
  | cons c v ih =>
    have hrest : wordsFrom true (c :: word) (escape v ++ t) =
        wordsFrom true ((c :: v).reverse ++ word) t := by
      rw [ih, List.reverse_cons, List.append_assoc, List.singleton_append]
    rw [← hrest, escape, List.flatMap_cons, ← escape]
    by_cases hc : c = '\\' ∨ c = '"'
    · -- behind a backslash every character is taken, a quote or another backslash too
      rw [if_pos hc]
      rfl
    · obtain ⟨hback, hquote⟩ := not_or.mp hc
      rw [if_neg hc, List.singleton_append, List.cons_append, wordsFrom]
      · exact hquote
      · exact fun _ _ h _ => hback h
      · exact fun h _ => hback h

theorem wordsFrom_inQuotes (word v : Text) :
    wordsFrom false word (inQuotes v) = wordsFrom false (v.reverse ++ word) [] := by
  rw [inQuotes, wordsFrom_quote, Bool.not_false, wordsFrom_escape, wordsFrom_quote, Bool.not_true]

theorem wordsFrom_plain (hquote : c ≠ '"') (hblank : Text.isAsciiBlank c = false) (word t : Text) :
    wordsFrom false word (c :: t) = wordsFrom false (c :: word) t := by
  rw [wordsFrom, hblank]
  · rfl
  · simpa using hquote

theorem wordsFrom_name (hname : ∀ c ∈ name, Text.isNameChar c = true) (word t : Text) :
    wordsFrom false word (name ++ t) = wordsFrom false (name.reverse ++ word) t := by
  induction name generalizing word with
  | nil => rfl
  | cons c name ih =>
    obtain ⟨hc, hrest⟩ := List.forall_mem_cons.mp hname
    rw [List.cons_append, wordsFrom_plain (Text.ne_of_isNameChar hc (by decide))
      (Text.isAsciiBlank_of_isNameChar hc), ih hrest, List.reverse_cons, List.append_assoc,
      List.singleton_append]

theorem words_sign (hname : ∀ c ∈ name, Text.isNameChar c = true) (v : Text) :
    words (name ++ '=' :: inQuotes v) = [name ++ '=' :: v] := by
  rw [words, wordsFrom_name hname, wordsFrom_plain (by decide) (by decide), wordsFrom_inQuotes,
    wordsFrom_nil]
  simp

theorem words_space (hname : ∀ c ∈ name, Text.isNameChar c = true) (hne : name ≠ [])
    (hv : v ≠ []) : words (name ++ ' ' :: inQuotes v) = [name, v] := by
  -- the space ends the name, and the quotes make one more word of the value, whatever is in it
  have hword : wordsFrom false (name.reverse ++ []) (' ' :: inQuotes v) =
      name :: wordsFrom false [] (inQuotes v) := by
    rw [wordsFrom, if_pos (by decide), if_neg (by simpa using hne)]
    · simp
    · decide
  rw [words, wordsFrom_name hname, hword, wordsFrom_inQuotes, wordsFrom_nil]
  simp [hv]

theorem directive?_set (hne : t ≠ []) (h : Text.Trimmed t) :
    directive? ("set ".toList ++ t) = some t := by
  -- the line has no blank at its ends, so the first trimming does nothing
  have hline : Text.trim ("set ".toList ++ t) = "set ".toList ++ t := by
    refine Text.Trimmed.append (by decide) hne ?_ (Text.trimmed_iff.mp h).2
    rintro c ⟨⟩
    decide
  have hremark : Text.startsWith ['#', '#'] ("set ".toList ++ t) = false := rfl
  have hset : ("set ".toList ++ t).takeWhile (!Text.isAsciiBlank ·) = "set".toList := rfl
  have hspace : Text.trim (' ' :: t) = t := (Text.trim_cons_blank (by decide) t).trans h
  unfold directive?
  dsimp only
  rw [hline, hremark, if_neg Bool.false_ne_true, if_pos hset]
  exact congrArg some hspace

theorem trimmed_inQuotes (hname : ∀ c ∈ name, Text.isNameChar c = true) (hne : name ≠ [])
    (between : Char) (v : Text) : Text.Trimmed (name ++ between :: inQuotes v) := by
  apply Text.Trimmed.append hne (List.cons_ne_nil _ _)
  · intro c hc
    exact Text.isBlank_of_isNameChar (hname c (List.mem_of_head? hc))
  · intro c hc
    rw [inQuotes, ← List.cons_append, ← List.cons_append, List.getLast?_concat] at hc
    cases hc
    decide

theorem applyLine_sign (hname : ∀ c ∈ name, Text.isNameChar c = true) (hne : name ≠ [])
    (s : Settings) (v : Text) : s.applyLine (setLine name '=' v) = s.assign name v := by
  have hcut : Text.cutAt '=' (name ++ '=' :: v) = some (name, v) :=
    Text.cut_append [] (Text.not_mem_word hname (by decide)) v
  have hassigned : assignment [name ++ '=' :: v] = .ok (name, v) := by
    simp only [assignment, hcut]
  rw [applyLine, setLine, directive?_set (by simp [hne]) (trimmed_inQuotes hname hne '=' v)]
  dsimp only
  rw [words_sign hname, hassigned]
  rfl

theorem applyLine_space (hname : ∀ c ∈ name, Text.isNameChar c = true) (hne : name ≠ [])
    (hv : v ≠ []) (s : Settings) : s.applyLine (setLine name ' ' v) = s.assign name v := by
  have hcut : Text.cutAt '=' name = none := Text.cutAt_eq_none (Text.not_mem_word hname (by decide))
  have hassigned : assignment [name, v] = .ok (name, v) := by
    simp only [assignment, hcut, Text.join]
  rw [applyLine, setLine, directive?_set (by simp [hne]) (trimmed_inQuotes hname hne ' ' v)]
  dsimp only
  rw [words_space hname hne hv, hassigned]
  rfl

theorem lines_single (hne : t ≠ []) (hfeed : '\n' ∉ t) : lines t = [t] := by
  unfold lines
  rw [Text.pieces_of_free hfeed, List.reverse_singleton]
  split
  next hempty => exact absurd (List.cons.inj hempty).1 hne
  · rfl

theorem apply_line (hne : t ≠ []) (hfeed : '\n' ∉ t) (h : s.applyLine t = .ok s') :
    s.apply t = (s', []) := by
  rw [apply, lines_single hne hfeed, applyLines, h]
  rfl

theorem not_mem_escape (h : '\n' ∉ v) : '\n' ∉ escape v := by
  rw [escape, List.mem_flatMap]
  rintro ⟨c, hc, hfeed⟩
  split at hfeed
  · grind
  · grind

theorem setLine_ne_nil (name : Text) (between : Char) (v : Text) : setLine name between v ≠ [] :=
  List.append_ne_nil_of_left_ne_nil (by decide) _

theorem not_mem_setLine (hname : ∀ c ∈ name, Text.isNameChar c = true) (h : '\n' ∉ v)
    {between : Char} (hbetween : between ≠ '\n') : '\n' ∉ setLine name between v := by
  have hfree : '\n' ∉ name := Text.not_mem_word hname (by decide)
  have hescape := not_mem_escape h
  simp [setLine, inQuotes, hfree, hescape, hbetween.symm]

namespace Field

theorem name_word (k : Field) : ∀ c ∈ k.name, Text.isNameChar c = true := by
  cases k <;> exact List.all_eq_true.mp (by decide)

theorem name_ne_nil (k : Field) : k.name ≠ [] := by
  cases k <;> decide

end Field

theorem assign_field (s : Settings) (k : Field) (h : k = .yes → v ≠ []) :
    s.assign k.name v = .ok (s.put v k) := by
  cases k with
  | log => rfl
  | docs => rfl
  | scripts => rfl
  | yes => exact if_neg (h rfl)

/-- A line that sets a value in quotes changes this field and no other, and nothing is reported. The
form with a space needs a value that is not empty. -/
theorem value_read_back (s : Settings) (k : Field) (v : Text) (hfeed : '\n' ∉ v)
    (hyes : k = .yes → v ≠ []) :
    s.apply (setLine k.name '=' v) = (s.put v k, []) ∧
    (v ≠ [] → s.apply (setLine k.name ' ' v) = (s.put v k, [])) := by
  constructor
  · apply apply_line (setLine_ne_nil _ _ _) (not_mem_setLine k.name_word hfeed (by decide))
    rw [applyLine_sign k.name_word k.name_ne_nil, assign_field s k hyes]
  · intro hv
    apply apply_line (setLine_ne_nil _ _ _) (not_mem_setLine k.name_word hfeed (by decide))
    rw [applyLine_space k.name_word k.name_ne_nil hv, assign_field s k hyes]

def awkward : Text := " ##x=\"y\\ ".toList

theorem value_read_back_awkward :
    setLine Field.yes.name ' ' awkward = "set yes_answer \" ##x=\\\"y\\\\ \"".toList ∧
    (rooted ⟨[]⟩).apply (setLine Field.yes.name '=' awkward) =
      ({ rooted ⟨[]⟩ with yes := awkward }, []) ∧
    (rooted ⟨[]⟩).apply (setLine Field.yes.name ' ' awkward) =
      ({ rooted ⟨[]⟩ with yes := awkward }, []) := by
  have hne : awkward ≠ [] := by decide
  obtain ⟨hsign, hspace⟩ := value_read_back (rooted ⟨[]⟩) .yes awkward (by decide) fun _ => hne
  exact ⟨by decide, hsign, hspace hne⟩

end Settings

end ScriptFeed
