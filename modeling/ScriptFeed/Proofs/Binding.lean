import ScriptFeed.Proofs.Expansions

namespace ScriptFeed.LocalFunctions

open Comment

variable {bindings : List (Text × Text)} {run word a b s t : Text} {c : Char}

def HasWord (word t : Text) : Prop :=
  word ≠ [] ∧ (∀ c ∈ word, Text.isNameChar c = true) ∧ ∃ a b, t = a ++ (word ++ b) ∧
    (∀ c, a.getLast? = some c → Text.isNameChar c = false) ∧
    ∀ c, b.head? = some c → Text.isNameChar c = false

theorem bindFrom_word (h : ∀ c ∈ word, Text.isNameChar c = true) (run t : Text) :
    bindFrom bindings run (word ++ t) = bindFrom bindings (word.reverse ++ run) t := by
  induction word generalizing run with
  | nil => rfl
  | cons c word ih =>
    obtain ⟨hc, hword⟩ := List.forall_mem_cons.mp h
    rw [List.cons_append, bindFrom, if_pos hc, ih hword, List.reverse_cons, List.append_assoc]
    rfl

theorem bindFrom_append (hc : Text.isNameChar c = false) (run a t : Text) :
    bindFrom bindings run (a ++ c :: t) =
      bindFrom bindings run a ++ c :: bindFrom bindings [] t := by
  induction a generalizing run with
  | nil => simp [bindFrom, hc]
  | cons d a ih =>
    rw [List.cons_append, bindFrom, bindFrom]
    split
    · exact ih (d :: run)
    · rw [ih, List.append_assoc]
      rfl

theorem bindFrom_cons (bindings : List (Text × Text)) (hc : Text.isNameChar c = false) (t : Text) :
    bindFrom bindings [] (c :: t) = c :: bindFrom bindings [] t := by
  simp [bindFrom, hc]

theorem bindFrom_behind (ha : ∀ c, a.getLast? = some c → Text.isNameChar c = false) (t : Text) :
    bindFrom bindings [] (a ++ t) = bindFrom bindings [] a ++ bindFrom bindings [] t := by
  rcases List.eq_nil_or_concat' a with rfl | ⟨a, c, rfl⟩
  · rfl
  · have hc : Text.isNameChar c = false := ha c List.getLast?_concat
    rw [List.append_assoc, List.singleton_append, bindFrom_append hc, bindFrom_append hc]
    simp [bindFrom]

theorem bindFrom_whole (hne : word ≠ []) (hword : ∀ c ∈ word, Text.isNameChar c = true)
    (hb : ∀ c, b.head? = some c → Text.isNameChar c = false) :
    bindFrom bindings [] (word ++ b) = bound bindings word.reverse ++ bindFrom bindings [] b := by
  have hrun : word.reverse ≠ [] := by simpa using hne
  rw [bindFrom_word hword, List.append_nil]
  cases b with
  | nil => simp [bindFrom, hne]
  | cons c b =>
    have hc : ¬Text.isNameChar c = true := by simp [hb c rfl]
    rw [bindFrom, if_neg hc, if_neg hrun, bindFrom, if_neg hc, if_pos rfl, List.nil_append]

theorem bound_of_none (h : bindings.lookup word = none) : bound bindings word.reverse = word := by
  rw [bound, List.reverse_reverse, h]

theorem bound_of_some {arg : Text} (h : bindings.lookup word = some arg) :
    bound bindings word.reverse = '(' :: arg ++ [')'] := by
  rw [bound, List.reverse_reverse, h]

theorem words_induction {P : Text → Prop} (nil : P [])
    (cons : ∀ c t, Text.isNameChar c = false → P t → P (c :: t))
    (append : ∀ word t, word ≠ [] → (∀ c ∈ word, Text.isNameChar c = true) →
      (∀ c, t.head? = some c → Text.isNameChar c = false) → P t → P (word ++ t)) (t : Text) :
    P t := by
  induction h : t.length using Nat.strong_induction_on generalizing t with
  | _ n ih =>
    cases t with
    | nil => exact nil
    | cons c t =>
      rw [List.length_cons] at h
      by_cases hc : Text.isNameChar c = true
      · have htake : (c :: t).takeWhile Text.isNameChar = c :: t.takeWhile Text.isNameChar :=
          List.takeWhile_cons_of_pos hc
        have hdrop : (c :: t).dropWhile Text.isNameChar = t.dropWhile Text.isNameChar :=
          List.dropWhile_cons_of_pos hc
        have hlen := (List.dropWhile_sublist (l := t) Text.isNameChar).length_le
        rw [← List.takeWhile_append_dropWhile (p := Text.isNameChar) (l := c :: t)]
        refine append _ _ ?_ (fun d hd => List.mem_takeWhile_imp hd) (fun d hd => ?_) ?_
        · rw [htake]
          exact List.cons_ne_nil _ _
        · have hnot := List.head?_dropWhile_not Text.isNameChar (c :: t)
          rw [hd] at hnot
          simpa using hnot
        · rw [hdrop]
          exact ih _ (by omega) _ rfl
      · exact cons c t (by simpa using hc) (ih t.length (by omega) t rfl)

theorem HasWord.cons (h : HasWord word t) (hc : Text.isNameChar c = false) :
    HasWord word (c :: t) := by
  obtain ⟨hne, hword, a, b, rfl, ha, hb⟩ := h
  refine ⟨hne, hword, c :: a, b, rfl, fun d hd => ?_, hb⟩
  rw [List.getLast?_cons] at hd
  cases hlast : a.getLast? with
  | none =>
    obtain rfl : c = d := by simpa [hlast] using hd
    exact hc
  | some e =>
    obtain rfl : e = d := by simpa [hlast] using hd
    exact ha e hlast

theorem HasWord.append (h : HasWord word t) (ht : ∀ c, t.head? = some c → Text.isNameChar c = false)
    (s : Text) : HasWord word (s ++ t) := by
  obtain ⟨hne, hword, a, b, rfl, ha, hb⟩ := h
  cases a with
  | nil =>
    obtain ⟨c, w, rfl⟩ := List.exists_cons_of_ne_nil hne
    have hc := hword c List.mem_cons_self
    rw [ht c rfl] at hc
    exact absurd hc (by simp)
  | cons c a =>
    refine ⟨hne, hword, s ++ c :: a, b, by simp, fun d hd => ha d ?_, hb⟩
    rwa [List.getLast?_append_of_ne_nil _ (List.cons_ne_nil c a)] at hd

theorem bindFrom_kept (h : ∀ name, HasWord name t → bindings.lookup name = none) :
    bindFrom bindings [] t = t := by
  induction t using words_induction with
  | nil => rfl
  | cons c t hc ih =>
    rw [bindFrom_cons bindings hc, ih fun name hn => h name (hn.cons hc)]
  | append word t hne hword ht ih =>
    have hword' : HasWord word (word ++ t) := ⟨hne, hword, [], t, rfl, by simp, ht⟩
    rw [bindFrom_whole hne hword ht, bound_of_none (h word hword'),
      ih fun name hn => h name (hn.append ht word)]

theorem count_bindFrom (bindings : List (Text × Text)) (t : Text) :
    t.count '(' ≤ (bindFrom bindings [] t).count '(' := by
  induction t using words_induction with
  | nil => exact Nat.le_refl _
  | cons c t hc ih =>
    rw [bindFrom_cons bindings hc, List.count_cons, List.count_cons]
    omega
  | append word t hne hword ht ih =>
    have hzero : word.count '(' = 0 := List.count_eq_zero.mpr (Text.not_mem_word hword (by decide))
    rw [bindFrom_whole hne hword ht, List.count_append, List.count_append, hzero]
    omega

theorem bindFrom_ne {arg : Text} (h : HasWord word t) (hbound : bindings.lookup word = some arg) :
    bindFrom bindings [] t ≠ t := by
  -- the word has no parenthesis, and what takes its place has one
  obtain ⟨hne, hword, a, b, rfl, ha, hb⟩ := h
  have hzero : word.count '(' = 0 := List.count_eq_zero.mpr (Text.not_mem_word hword (by decide))
  have hcount₁ := count_bindFrom bindings a
  have hcount₂ := count_bindFrom bindings b
  intro he
  have hcount := congrArg (List.count '(') he
  rw [bindFrom_behind ha, bindFrom_whole hne hword hb, bound_of_some hbound] at hcount
  simp only [List.count_append, List.count_cons_self, hzero] at hcount
  omega

theorem lookup_zip {params args : List Text} (h : params.length = args.length) (name : Text) :
    (params.zip args).lookup name = none ↔ name ∉ params := by
  have hkeys : (params.zip args).map Prod.fst = params := List.map_fst_zip (Nat.le_of_eq h)
  rw [List.lookup_eq_none_iff]
  constructor
  · intro hnone hmem
    rw [← hkeys] at hmem
    obtain ⟨x, hx, rfl⟩ := List.mem_map.mp hmem
    simpa using hnone x hx
  · intro hnot x hx
    have hmem : x.1 ∈ params := hkeys ▸ List.mem_map_of_mem hx
    rw [bne_iff_ne]
    rintro rfl
    exact hnot hmem

theorem bind_eq_self {params args : List Text} (h : params.length = args.length) :
    bind t params args = t ↔ ∀ p ∈ params, ¬HasWord p t := by
  constructor
  · intro hself p hp hword
    cases hbound : (params.zip args).lookup p with
    | none => exact (lookup_zip h p).mp hbound hp
    | some arg => exact bindFrom_ne hword hbound hself
  · intro hnone
    exact bindFrom_kept fun name hword => (lookup_zip h name).mpr fun hmem => hnone name hmem hword

def literal (s : Text) : Text := '"' :: s ++ ['"']

/-- The body has a literal `s` between `a` and `b`: the quotes around it are outside quotes and have
no backslash in front, and there is no such quote in it. -/
structure HasLiteral (body a s b : Text) : Prop where
  split : body = a ++ literal s ++ b
  outside : quotes a % 2 = 0
  opened : a.getLast? ≠ some '\\'
  inside : quotes s = 0
  closed : s.getLast? ≠ some '\\'

theorem bind_literal (a s b : Text) (params args : List Text) :
    bind (a ++ literal s ++ b) params args =
      bind a params args ++ literal (bind s params args) ++ bind b params args := by
  have hquote : Text.isNameChar '"' = false := by decide
  have htext : a ++ literal s ++ b = a ++ '"' :: (s ++ '"' :: b) := by simp [literal]
  rw [htext, bind, bindFrom_append hquote, bindFrom_append hquote]
  simp [literal, bind]

theorem expandOnce_isCall {fs : LocalFunctions} {f : LocalFunction} {args : List Text} {call : Text}
    (h : IsCall fs f args call) : fs.expandOnce call = some (expansion f args) := by
  have hcall : Eligible fs [] call (expansion f args) := ⟨rfl, by simp, f, args, h, rfl⟩
  have hpass := pass_call hcall []
  rw [pass_nil, Option.getD_none, List.append_nil, List.append_nil] at hpass
  rw [expandOnce_eq, hpass]

/-- A call is replaced by the body in parentheses, in which a literal keeps its place and its
quotes. It is kept as it is exactly if no parameter is a whole word in it. -/
theorem literals_kept {fs : LocalFunctions} {f : LocalFunction} {args : List Text} {call : Text}
    (hcall : IsCall fs f args call) {a s b : Text} (hbody : HasLiteral f.body a s b) :
    (fs.expandOnce call = some ('(' :: bind a f.params args ++ literal (bind s f.params args) ++
      (bind b f.params args ++ [')']))) ∧
    (bind s f.params args = s ↔ ∀ p ∈ f.params, ¬HasWord p s) ∧
    ((∀ p ∈ f.params, ¬HasWord p s) →
      ∃ out, fs.expandOnce call = some out ∧ literal s <:+: out) := by
  have harity : f.params.length = args.length := by
    obtain ⟨-, -, -, -, -, -, -, -, -, -, harity⟩ := hcall
    exact harity.symm
  have hout : fs.expandOnce call = some ('(' :: bind a f.params args ++
      literal (bind s f.params args) ++ (bind b f.params args ++ [')'])) := by
    rw [expandOnce_isCall hcall, expansion, hbody.split, bind_literal]
    simp
  refine ⟨hout, bind_eq_self harity, fun hnone => ⟨_, hout, ?_⟩⟩
  rw [(bind_eq_self harity).mpr hnone]
  exact ⟨_, _, rfl⟩

def greeting : LocalFunction :=
  { name := "f".toList, params := ["x".toList], body := "say \"max_x\" + x".toList }

theorem greeting_call : IsCall ⟨[greeting]⟩ greeting ["g(\"a)\", 2)".toList]
    "f ( g(\"a)\", 2) )".toList :=
  ⟨"f".toList, 1, [" g(\"a)\", 2) ".toList], by decide, by decide,
    List.all_eq_true.mp (by decide), rfl, by decide, List.forall_mem_singleton.mpr (by decide),
    by decide, by decide⟩

theorem greeting_literal : HasLiteral greeting.body "say ".toList "max_x".toList " + x".toList :=
  ⟨by decide, by decide, by decide, by decide, by decide⟩

theorem literals_kept_greeting :
    IsCall ⟨[greeting]⟩ greeting ["g(\"a)\", 2)".toList] "f ( g(\"a)\", 2) )".toList ∧
    HasLiteral greeting.body "say ".toList "max_x".toList " + x".toList ∧
    bind "max_x".toList greeting.params ["g(\"a)\", 2)".toList] = "max_x".toList ∧
    ∃ out, expandOnce ⟨[greeting]⟩ "f ( g(\"a)\", 2) )".toList = some out ∧
      literal "max_x".toList <:+: out := by
  obtain ⟨-, hself, hkept⟩ := literals_kept greeting_call greeting_literal
  have hbind : bind "max_x".toList greeting.params ["g(\"a)\", 2)".toList] = "max_x".toList := by
    decide
  exact ⟨greeting_call, greeting_literal, hbind, hkept (hself.mp hbind)⟩

def echo : LocalFunction :=
  { name := "f".toList, params := ["x".toList], body := "\"x\"".toList }

theorem literal_rebound :
    IsCall ⟨[echo]⟩ echo ["1".toList] "f(1)".toList ∧ HasLiteral echo.body [] "x".toList [] ∧
    expandOnce ⟨[echo]⟩ "f(1)".toList = some "(\"(1)\")".toList ∧
    ¬literal "x".toList <:+: "(\"(1)\")".toList := by
  refine ⟨⟨"f".toList, 0, ["1".toList], by decide, by decide, List.all_eq_true.mp (by decide), rfl,
    by decide, List.forall_mem_singleton.mpr (by decide), by decide, by decide⟩,
    ⟨by decide, by decide, by decide, by decide, by decide⟩, by decide, ?_⟩
  rw [← Text.contains_eq_false]
  decide

end ScriptFeed.LocalFunctions
