import ScriptFeed.Proofs.ArgumentLists
import ScriptFeed.Proofs.Cutting

namespace ScriptFeed.LocalFunctions

open Comment

variable {fs : LocalFunctions} {before call new t out : Text}

def IsCall (fs : LocalFunctions) (f : LocalFunction) (args : List Text) (call : Text) : Prop :=
  ∃ word n texts, call = word ++ (List.replicate n ' ' ++ '(' :: (Text.join ',' texts ++ [')'])) ∧
    word ≠ [] ∧ (∀ c ∈ word, Text.isNameChar c = true) ∧ fs.get? word = some f ∧
    texts ≠ [] ∧ (∀ t ∈ texts, IsArgument t) ∧ args = argumentsOf texts ∧
    args.length = f.params.length

def expansion (f : LocalFunction) (args : List Text) : Text :=
  '(' :: bind f.body f.params args ++ [')']

/-- A call that follows `before` in a line counts outside quotes and if its name is a whole word. -/
structure Eligible (fs : LocalFunctions) (before call new : Text) : Prop where
  outside : quotes before % 2 = 0
  whole : ∀ c, before.getLast? = some c → Text.isNameChar c = false
  isCall : ∃ f args, IsCall fs f args call ∧ new = expansion f args

def HasCall (fs : LocalFunctions) (line : Text) : Prop :=
  ∃ before call rest new, line = before ++ (call ++ rest) ∧ Eligible fs before call new

inductive Rewritten (fs : LocalFunctions) : (before t out : Text) → Prop
  | done (before : Text) : Rewritten fs before [] []
  | copied {before : Text} {c : Char} {t out : Text}
      (hc : ∀ call rest new, c :: t = call ++ rest → ¬Eligible fs before call new)
      (ht : Rewritten fs (before ++ [c]) t out) : Rewritten fs before (c :: t) (c :: out)
  | replaced {before call new t out : Text} (hcall : Eligible fs before call new)
      (ht : Rewritten fs (before ++ call) t out) : Rewritten fs before (call ++ t) (new ++ out)

theorem takeWhile_whole {word : Text} (hword : ∀ c ∈ word, Text.isNameChar c = true)
    (ht : ∀ c, t.head? = some c → Text.isNameChar c = false) :
    (word ++ t).takeWhile Text.isNameChar = word := by
  rw [List.takeWhile_append_of_pos hword]
  cases t with
  | nil => exact List.append_nil word
  | cons c t =>
    rw [List.takeWhile_cons_of_neg (by rw [ht c rfl]; exact Bool.false_ne_true), List.append_nil]

theorem takeWhile_word {word : Text} (hword : ∀ c ∈ word, Text.isNameChar c = true) (n : Nat)
    (t : Text) :
    (word ++ (List.replicate n ' ' ++ '(' :: t)).takeWhile Text.isNameChar = word := by
  apply takeWhile_whole hword
  intro c hc
  cases n with
  | zero =>
    obtain rfl : '(' = c := Option.some.inj hc
    decide
  | succ n =>
    obtain rfl : ' ' = c := Option.some.inj hc
    decide

theorem callHere?_word {word : Text} (h : (word ++ t).takeWhile Text.isNameChar = word)
    {width : Nat} :
    fs.callHere? (word ++ t) = some (new, width) ↔ ∃ f list, fs.get? word = some f ∧
      arguments? t = some list ∧ list.args.length = f.params.length ∧ expansion f list.args = new ∧
      word.length + list.width = width := by
  unfold callHere?
  dsimp only
  rw [h, List.drop_left]
  cases fs.get? word with
  | none => simp
  | some f =>
    cases arguments? t with
    | none => simp
    | some list =>
      by_cases harity : list.args.length = f.params.length
      · simp [harity, expansion]
      · simp [harity]

theorem callHere?_eq_some {c : Char} (hc : Text.isNameChar c = true) {width : Nat} :
    fs.callHere? (c :: t) = some (new, width) ↔ ∃ f args call rest, c :: t = call ++ rest ∧
      IsCall fs f args call ∧ new = expansion f args ∧ width = call.length := by
  constructor
  · intro h
    obtain ⟨r, hr⟩ := List.takeWhile_prefix (p := Text.isNameChar) (l := c :: t)
    have hword : ∀ d ∈ (c :: t).takeWhile Text.isNameChar, Text.isNameChar d = true :=
      fun d hd => List.mem_takeWhile_imp hd
    have hne : (c :: t).takeWhile Text.isNameChar ≠ [] := by
      rw [List.takeWhile_cons_of_pos hc]
      exact List.cons_ne_nil _ _
    -- the word that the scan takes is the longest one
    generalize hw : (c :: t).takeWhile Text.isNameChar = word at hr hword hne
    rw [← hr] at h hw ⊢
    obtain ⟨f, list, hf, hlist, harity, rfl, rfl⟩ := (callHere?_word hw).mp h
    obtain ⟨n, texts, rest, rfl, htexts, hargs, rfl⟩ := arguments?_eq_some.mp hlist
    refine ⟨f, argumentsOf texts, word ++ (List.replicate n ' ' ++ '(' ::
      (Text.join ',' texts ++ [')'])), rest, by simp, ?_, rfl, ?_⟩
    · exact ⟨word, n, texts, rfl, hne, hword, hf, htexts, hargs, rfl, harity⟩
    · simp only [List.length_append, List.length_replicate, List.length_cons, List.length_nil]
      omega
  · rintro ⟨f, args, call, rest, ht, hcall, rfl, rfl⟩
    obtain ⟨word, n, texts, rfl, hne, hword, hf, htexts, hargs, rfl, harity⟩ := hcall
    have hlist : arguments? (List.replicate n ' ' ++ '(' :: (Text.join ',' texts ++ ')' :: rest)) =
        some ⟨argumentsOf texts, n + (Text.join ',' texts).length + 2⟩ :=
      arguments?_eq_some.mpr ⟨n, texts, rest, rfl, htexts, hargs, rfl⟩
    have htext : c :: t =
        word ++ (List.replicate n ' ' ++ '(' :: (Text.join ',' texts ++ ')' :: rest)) := by
      rw [ht]
      simp
    rw [htext]
    refine (callHere?_word (takeWhile_word hword n _)).mpr ⟨f, _, hf, hlist, harity, rfl, ?_⟩
    simp only [List.length_append, List.length_replicate, List.length_cons, List.length_nil]
    omega

def pass (fs : LocalFunctions) (before t : Text) : Option Text :=
  expandFrom fs 0 (before.getLast?.getD lineStart) (quotedThrough lineStart false before) t

theorem pass_nil (fs : LocalFunctions) (before : Text) : pass fs before [] = none := by
  rw [pass, expandFrom]

theorem expandFrom_skip (fs : LocalFunctions) (prev : Char) (quoted : Bool) (s t : Text) :
    expandFrom fs s.length prev quoted (s ++ t) =
      expandFrom fs 0 (s.getLast?.getD prev) quoted t := by
  induction s generalizing prev with
  | nil => rfl
  | cons c s ih =>
    rw [List.length_cons, List.cons_append, expandFrom, ih, List.getLast?_cons]
    rfl

theorem quotedThrough_join {texts : List Text} (h : ∀ t ∈ texts, IsArgument t) {prev : Char}
    (hprev : prev ≠ '\\') : quotedThrough prev false (Text.join ',' texts) = false := by
  have hclosed : ∀ (t : Text) (prev : Char), prev ≠ '\\' → IsArgument t →
      quotedThrough prev false t = false := fun t prev hp ht => ((isArgument_iff hp).mp ht).closed
  induction texts generalizing prev with
  | nil => rfl
  | cons t texts ih =>
    obtain ⟨ht, htexts⟩ := List.forall_mem_cons.mp h
    cases texts with
    | nil => exact hclosed t prev hprev ht
    | cons u texts =>
      rw [Text.join, quotedThrough_append, hclosed t prev hprev ht, quotedThrough,
        quotedAfter_plain (by decide)]
      exact ih htexts (by decide)

theorem quotedThrough_isCall {f : LocalFunction} {args : List Text} (h : IsCall fs f args call)
    (prev : Char) : quotedThrough prev false call = false := by
  obtain ⟨word, n, texts, rfl, -, hword, -, -, htexts, -⟩ := h
  have hw : '"' ∉ word := Text.not_mem_word hword (by decide)
  have hs : '"' ∉ List.replicate n ' ' := fun hq => absurd (List.eq_of_mem_replicate hq) (by decide)
  rw [quotedThrough_append, quotedThrough_plain hw, quotedThrough_append, quotedThrough_plain hs,
    quotedThrough, quotedAfter_plain (by decide), quotedThrough_append,
    quotedThrough_join htexts (by decide)]
  rfl

theorem eligible_iff : Eligible fs before call new ↔ quotedThrough lineStart false before = false ∧
    Text.isNameChar (before.getLast?.getD lineStart) = false ∧
    ∃ f args, IsCall fs f args call ∧ new = expansion f args := by
  have houtside : quotedThrough lineStart false before = false ↔ quotes before % 2 = 0 := by
    rw [quotedThrough_quotes (by decide), decide_eq_false_iff_not]
    omega
  have hwhole : Text.isNameChar (before.getLast?.getD lineStart) = false ↔
      ∀ c, before.getLast? = some c → Text.isNameChar c = false := by
    cases before.getLast? with
    | none => simp [show Text.isNameChar lineStart = false by decide]
    | some c => simp
  rw [houtside, hwhole]
  constructor
  · intro h
    exact ⟨h.outside, h.whole, h.isCall⟩
  · rintro ⟨houtside, hwhole, hcall⟩
    exact ⟨houtside, hwhole, hcall⟩

theorem isCall_cons {f : LocalFunction} {args : List Text} (h : IsCall fs f args call) :
    ∃ c s, call = c :: s ∧ Text.isNameChar c = true := by
  obtain ⟨word, n, texts, rfl, hne, hword, -⟩ := h
  obtain ⟨c, word, rfl⟩ := List.exists_cons_of_ne_nil hne
  exact ⟨c, _, rfl, hword c List.mem_cons_self⟩

theorem pass_call (h : Eligible fs before call new) (t : Text) :
    pass fs before (call ++ t) = some (new ++ (pass fs (before ++ call) t).getD t) := by
  obtain ⟨hquoted, hprev, f, args, hcall, hnew⟩ := eligible_iff.mp h
  have hthrough := quotedThrough_isCall hcall (before.getLast?.getD lineStart)
  obtain ⟨c, s, rfl, hc⟩ := isCall_cons hcall
  have hq : c ≠ '"' := Text.ne_of_isNameChar hc (by decide)
  have hhere : fs.callHere? (c :: (s ++ t)) = some (new, (c :: s).length) :=
    (callHere?_eq_some hc).mpr ⟨f, args, c :: s, t, rfl, hcall, hnew, rfl⟩
  have hafter : pass fs (before ++ c :: s) t = expandFrom fs 0 (s.getLast?.getD c) false t := by
    rw [pass, quotedThrough_append, hquoted, hthrough, List.getLast?_append, List.getLast?_cons]
    rfl
  rw [hafter, pass, List.cons_append, expandFrom, hquoted]
  simp only [quotedAfter_plain hq, hc, hprev, Bool.not_true, Bool.or_false, Bool.false_eq_true,
    if_false, hhere, List.length_cons, Nat.add_sub_cancel, expandFrom_skip, List.drop_left]

theorem pass_copy {c : Char}
    (h : ∀ call rest new, c :: t = call ++ rest → ¬Eligible fs before call new) :
    pass fs before (c :: t) = (pass fs (before ++ [c]) t).map (c :: ·) := by
  have hnone : (if quotedAfter (before.getLast?.getD lineStart) c
        (quotedThrough lineStart false before) || !Text.isNameChar c ||
        Text.isNameChar (before.getLast?.getD lineStart) then none
      else fs.callHere? (c :: t)) = none := by
    split
    · rfl
    next hplace =>
      simp only [Bool.or_eq_true, Bool.not_eq_true', not_or, Bool.not_eq_false, Bool.not_eq_true]
        at hplace
      obtain ⟨⟨hquoted, hc⟩, hprev⟩ := hplace
      cases hhere : fs.callHere? (c :: t) with
      | none => rfl
      | some x =>
        obtain ⟨f, args, call, rest, ht, hcall, hnew, -⟩ := (callHere?_eq_some hc).mp hhere
        rw [quotedAfter_plain (Text.ne_of_isNameChar hc (by decide))] at hquoted
        exact absurd (eligible_iff.mpr ⟨hquoted, hprev, f, args, hcall, hnew⟩) (h call rest _ ht)
  rw [pass, expandFrom, hnone, pass, quotedThrough_append, List.getLast?_concat]
  rfl

theorem call_or_none (fs : LocalFunctions) (before t : Text) :
    (∃ call rest new, t = call ++ rest ∧ Eligible fs before call new) ∨
      ∀ call rest new, t = call ++ rest → ¬Eligible fs before call new := by
  by_cases h : ∃ call rest new, t = call ++ rest ∧ Eligible fs before call new
  · exact .inl h
  · right
    intro call rest new ht hcall
    exact h ⟨call, rest, new, ht, hcall⟩

theorem rewritten_exists (fs : LocalFunctions) (before t : Text) :
    ∃ out, Rewritten fs before t out := by
  -- on the length, since a call is passed over as a whole
  induction h : t.length using Nat.strong_induction_on generalizing before t with
  | _ n ih =>
    rcases call_or_none fs before t with ⟨call, rest, new, rfl, hcall⟩ | hnone
    · obtain ⟨f, args, hf, -⟩ := hcall.isCall
      obtain ⟨c, s, rfl, -⟩ := isCall_cons hf
      obtain ⟨out, hout⟩ := ih rest.length (by simp at h; omega) (before ++ c :: s) rest rfl
      exact ⟨new ++ out, .replaced hcall hout⟩
    · cases t with
      | nil => exact ⟨[], .done before⟩
      | cons c t =>
        obtain ⟨out, hout⟩ := ih t.length (by simp at h; omega) (before ++ [c]) t rfl
        exact ⟨c :: out, .copied hnone hout⟩

theorem Rewritten.eq_pass (h : Rewritten fs before t out) : out = (pass fs before t).getD t := by
  induction h with
  | done before => rw [pass_nil, Option.getD_none]
  | copied hc ht ih =>
    rw [pass_copy hc, ih]
    cases pass fs _ _ <;> rfl
  | replaced hcall ht ih => rw [pass_call hcall, ih, Option.getD_some]

theorem rewritten_iff : Rewritten fs before t out ↔ out = (pass fs before t).getD t := by
  constructor
  · exact Rewritten.eq_pass
  · rintro rfl
    obtain ⟨out, h⟩ := rewritten_exists fs before t
    rwa [← h.eq_pass]

theorem pass_eq_none : pass fs before t = none ↔
    ∀ a call rest new, t = a ++ (call ++ rest) → ¬Eligible fs (before ++ a) call new := by
  induction t generalizing before with
  | nil =>
    refine iff_of_true (pass_nil fs before) fun a call rest new ht h => ?_
    obtain ⟨f, args, hf, -⟩ := h.isCall
    obtain ⟨c, s, rfl, -⟩ := isCall_cons hf
    simp at ht
  | cons c t ih =>
    rcases call_or_none fs before (c :: t) with ⟨call, rest, new, ht, hcall⟩ | hc
    · refine iff_of_false ?_ fun h => ?_
      · rw [ht, pass_call hcall]
        simp
      · exact h [] call rest new ht (by rwa [List.append_nil])
    · rw [pass_copy hc, Option.map_eq_none_iff, ih]
      constructor
      · intro h a call rest new ht
        cases a with
        | nil =>
          rw [List.append_nil]
          exact hc call rest new ht
        | cons d a =>
          obtain ⟨rfl, htail⟩ := List.cons.inj ht
          have := h a call rest new htail
          rwa [List.append_assoc] at this
      · intro h a call rest new ht
        have := h (c :: a) call rest new (by rw [ht]; rfl)
        rwa [List.append_assoc]

theorem expandOnce_eq (fs : LocalFunctions) (line : Text) :
    fs.expandOnce line = pass fs [] line := rfl

theorem expandOnce_eq_none {line : Text} : fs.expandOnce line = none ↔ ¬HasCall fs line := by
  rw [expandOnce_eq, pass_eq_none]
  constructor
  · rintro h ⟨a, call, rest, new, hline, hcall⟩
    exact h a call rest new hline hcall
  · rintro h a call rest new hline hcall
    exact h ⟨a, call, rest, new, hline, hcall⟩

theorem expandOnce_eq_some {line : Text} :
    fs.expandOnce line = some out ↔ HasCall fs line ∧ Rewritten fs [] line out := by
  rw [rewritten_iff, ← expandOnce_eq]
  cases h : fs.expandOnce line with
  | none =>
    have hnone := expandOnce_eq_none.mp h
    simp [hnone]
  | some u =>
    have hcall : HasCall fs line := by
      by_contra hnone
      rw [expandOnce_eq_none.mpr hnone] at h
      exact absurd h (by simp)
    simp [hcall, eq_comm]

theorem lt_of_isNameChar {c : Char} (h : Text.isNameChar c = true) : '(' < c := by
  simp only [Text.isNameChar, Text.isLetter, Text.isDigit, Bool.or_eq_true, Bool.and_eq_true,
    decide_eq_true_eq, beq_iff_eq] at h
  rcases h with ((h | h) | h) | rfl
  · exact Std.lt_of_lt_of_le (by decide : '(' < 'a') h.1
  · exact Std.lt_of_lt_of_le (by decide : '(' < 'A') h.1
  · exact Std.lt_of_lt_of_le (by decide : '(' < '0') h.1
  · decide

theorem pass_lt (h : pass fs before t = some out) : out < t := by
  induction t generalizing before out with
  | nil => simp [pass_nil] at h
  | cons c t ih =>
    rcases call_or_none fs before (c :: t) with ⟨call, rest, new, ht, hcall⟩ | hc
    · rw [ht, pass_call hcall, Option.some.injEq] at h
      obtain ⟨f, args, hf, rfl⟩ := hcall.isCall
      obtain ⟨d, s, rfl, hd⟩ := isCall_cons hf
      rw [ht, ← h, expansion, List.cons_append, List.cons_append]
      -- a parenthesis, which is below every name character, takes the place of a name
      exact List.cons_lt_cons_iff.mpr (.inl (lt_of_isNameChar hd))
    · rw [pass_copy hc] at h
      obtain ⟨u, hu, rfl⟩ := Option.map_eq_some_iff.mp h
      exact List.cons_lt_cons_iff.mpr (.inr ⟨rfl, ih hu⟩)

inductive Passes (fs : LocalFunctions) : (n : Nat) → (line out : Text) → Prop
  | done (line : Text) : Passes fs 0 line line
  | more {n : Nat} {line next out : Text} (h : fs.expandOnce line = some next)
      (hout : Passes fs n next out) : Passes fs (n + 1) line out

theorem Passes.lt {n : Nat} {line : Text} (h : Passes fs n line out) (hn : 0 < n) : out < line := by
  induction h with
  | done line => exact absurd hn (Nat.lt_irrefl 0)
  | @more n line next out h hout ih =>
    rw [expandOnce_eq] at h
    have hnext : next < line := pass_lt h
    cases n with
    | zero =>
      cases hout
      exact hnext
    | succ n => exact List.lt_trans (ih n.succ_pos) hnext

theorem Passes.unique {m n : Nat} {line : Text} (hm : Passes fs m line out)
    (hn : Passes fs n line out) : m = n := by
  -- each pass makes the line smaller, so no line comes back
  induction hm generalizing n with
  | done line =>
    rcases Nat.eq_zero_or_pos n with rfl | hpos
    · rfl
    · exact absurd (hn.lt hpos) (List.lt_irrefl line)
  | @more m line next out h hout ih =>
    cases hn with
    | done => exact absurd ((Passes.more h hout).lt m.succ_pos) (List.lt_irrefl line)
    | more h' hout' =>
      obtain rfl := Option.some.inj (h.symm.trans h')
      rw [ih hout']

theorem expandWithin_passes (fs : LocalFunctions) (limit : Nat) (line : Text) : ∃ n ≤ limit,
    Passes fs n line (fs.expandWithin limit line) ∧
      (n < limit → fs.expandOnce (fs.expandWithin limit line) = none) := by
  induction limit generalizing line with
  | zero => exact ⟨0, Nat.le_refl 0, .done line, fun h => absurd h (Nat.lt_irrefl 0)⟩
  | succ limit ih =>
    rw [expandWithin]
    cases h : fs.expandOnce line with
    | none => exact ⟨0, Nat.zero_le _, .done line, fun _ => h⟩
    | some next =>
      obtain ⟨n, hn, hpasses, hlast⟩ := ih next
      exact ⟨n + 1, by omega, .more h hpasses, fun hlt => hlast (by omega)⟩

theorem get?_of_isEmpty (h : fs.isEmpty = true) (word : Text) : fs.get? word = none := by
  have hdefs : fs.defs = [] := List.isEmpty_iff.mp h
  rw [get?, hdefs, List.find?_nil]

theorem substitute_eq (fs : LocalFunctions) (line : Text) :
    fs.substitute line = fs.expandWithin maxPasses line := by
  rw [substitute]
  by_cases hempty : fs.isEmpty = true
  · rw [if_pos hempty]
    have hnone : fs.expandOnce line = none := by
      rw [expandOnce_eq_none]
      rintro ⟨before, call, rest, new, -, hcall⟩
      obtain ⟨f, args, ⟨word, n, texts, -, -, -, hf, -⟩, -⟩ := hcall.isCall
      rw [get?_of_isEmpty hempty] at hf
      exact absurd hf (by simp)
    rw [maxPasses, expandWithin, hnone]
  · rw [if_neg hempty]

/-- A pass finds nothing to replace exactly in a line without calls, and else it replaces the calls
and copies the rest. Repeated passes leave a line without calls, unless the limit is reached. -/
theorem expansion_pass (fs : LocalFunctions) (line : Text) :
    (fs.expandOnce line = none ↔ ¬HasCall fs line) ∧
    (∀ out, fs.expandOnce line = some out ↔ HasCall fs line ∧ Rewritten fs [] line out) ∧
    (¬HasCall fs line → fs.substitute line = line) ∧
    (∃ n ≤ 32, Passes fs n line (fs.substitute line)) ∧
    ∀ n < 32, Passes fs n line (fs.substitute line) → ¬HasCall fs (fs.substitute line) := by
  obtain ⟨k, hk, hpasses, hlast⟩ := expandWithin_passes fs maxPasses line
  rw [← substitute_eq] at hpasses hlast
  refine ⟨expandOnce_eq_none, fun out => expandOnce_eq_some, fun h => ?_, ⟨k, hk, hpasses⟩,
    fun n hn hn' => ?_⟩
  · rw [substitute_eq, maxPasses, expandWithin, expandOnce_eq_none.mpr h]
  · obtain rfl := hpasses.unique hn'
    exact expandOnce_eq_none.mp (hlast hn)

end ScriptFeed.LocalFunctions
