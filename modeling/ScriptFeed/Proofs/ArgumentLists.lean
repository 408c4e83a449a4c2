import Mathlib.Data.List.TakeWhile
import ScriptFeed.Proofs.Scanning

namespace ScriptFeed

theorem Text.join_cons (x c : Char) (t : Text) (ps : List Text) :
    join x ((c :: t) :: ps) = c :: join x (t :: ps) := by
  cases ps <;> rfl

namespace Comment

theorem quotedThrough_append (prev : Char) (quoted : Bool) (s t : Text) :
    quotedThrough prev quoted (s ++ t) =
      quotedThrough (s.getLast?.getD prev) (quotedThrough prev quoted s) t := by
  induction s generalizing prev quoted with
  | nil => rfl
  | cons c s ih =>
    rw [List.cons_append, quotedThrough, ih, quotedThrough, List.getLast?_cons]
    rfl

theorem quotedThrough_plain {t : Text} (h : '"' ∉ t) (prev : Char) (quoted : Bool) :
    quotedThrough prev quoted t = quoted := by
  induction t generalizing prev with
  | nil => rfl
  | cons c t ih =>
    rw [quotedThrough, quotedAfter_plain (Ne.symm (List.ne_of_not_mem_cons h)),
      ih (List.not_mem_of_not_mem_cons h)]

def outside : (prev : Char) → (quoted : Bool) → Text → Text
  | _, _, [] => []
  | prev, quoted, c :: t =>
    let rest := outside c (quotedAfter prev c quoted) t
    if quoted then rest else c :: rest

def levelFrom (prev : Char) (quoted : Bool) (t : Text) : Int :=
  (outside prev quoted t).count '(' - (outside prev quoted t).count ')'

def level (t : Text) : Int := levelFrom lineStart false t

theorem levelFrom_nil (prev : Char) (quoted : Bool) : levelFrom prev quoted [] = 0 := rfl

theorem levelFrom_cons (prev : Char) (quoted : Bool) (c : Char) (t : Text) :
    levelFrom prev quoted (c :: t) =
      levelFrom prev quoted [c] + levelFrom c (quotedAfter prev c quoted) t := by
  cases quoted with
  | true => simp [levelFrom, outside]
  | false =>
    simp only [levelFrom, outside, Bool.false_eq_true, if_false, List.count_cons, List.count_nil]
    omega

theorem levelFrom_single (prev : Char) (quoted : Bool) (c : Char) : levelFrom prev quoted [c] =
    if quotedAfter prev c quoted then 0 else if c = '(' then 1 else if c = ')' then -1 else 0 := by
  by_cases hc : c = '"'
  · subst hc
    cases quoted <;> simp [levelFrom, outside]
  · rw [quotedAfter_plain hc]
    cases quoted with
    | true => rfl
    | false =>
      by_cases hopen : c = '('
      · subst hopen
        rfl
      · by_cases hclose : c = ')'
        · subst hclose
          rfl
        · simp [levelFrom, outside, hopen, hclose]

theorem levelFrom_prev {prev : Char} (h : prev ≠ '\\') (t : Text) :
    levelFrom prev false t = level t := by
  cases t with
  | nil => rfl
  | cons c t =>
    rw [level, levelFrom_cons, levelFrom_cons lineStart,
      quotedAfter_prev h (by decide : lineStart ≠ '\\')]
    rfl

end Comment

namespace LocalFunctions

open Comment

structure IsArgument (t : Text) : Prop where
  closed : quotes t % 2 = 0
  matched : level t = 0
  nested : ∀ a b, t = a ++ b → 0 ≤ level a
  single : ∀ a b, t = a ++ ',' :: b → quotes a % 2 = 0 → 0 < level a

/-- The text finishes an argument that is read up to some place in `depth` parentheses. -/
structure Finishes (depth : Int) (quoted : Bool) (prev : Char) (t : Text) : Prop where
  closed : quotedThrough prev quoted t = false
  matched : depth + levelFrom prev quoted t = 1
  nested : ∀ a b, t = a ++ b → 1 ≤ depth + levelFrom prev quoted a
  single : ∀ a b, t = a ++ ',' :: b → quotedThrough prev quoted a = false →
    1 < depth + levelFrom prev quoted a

variable {depth : Int} {quoted : Bool} {prev c : Char} {t : Text}

theorem isArgument_iff (h : prev ≠ '\\') : IsArgument t ↔ Finishes 1 false prev t := by
  have hquoted : ∀ a, quotedThrough prev false a = false ↔ quotes a % 2 = 0 := by
    intro a
    rw [quotedThrough_quotes h, decide_eq_false_iff_not]
    omega
  constructor
  · rintro ⟨hclosed, hmatched, hnested, hsingle⟩
    refine ⟨(hquoted t).mpr hclosed, ?_, fun a b hab => ?_, fun a b hab ha => ?_⟩
    · rw [levelFrom_prev h, hmatched]
      rfl
    · have := hnested a b hab
      rw [levelFrom_prev h]
      omega
    · have := hsingle a b hab ((hquoted a).mp ha)
      rw [levelFrom_prev h]
      omega
  · rintro ⟨hclosed, hmatched, hnested, hsingle⟩
    rw [levelFrom_prev h] at hmatched
    refine ⟨(hquoted t).mp hclosed, by omega, fun a b hab => ?_, fun a b hab ha => ?_⟩
    · have := hnested a b hab
      rw [levelFrom_prev h] at this
      omega
    · have := hsingle a b hab ((hquoted a).mpr ha)
      rw [levelFrom_prev h] at this
      omega

theorem finishes_nil : Finishes depth quoted prev [] ↔ quoted = false ∧ depth = 1 := by
  constructor
  · rintro ⟨hclosed, hmatched, -, -⟩
    rw [levelFrom_nil] at hmatched
    exact ⟨hclosed, by omega⟩
  · rintro ⟨rfl, rfl⟩
    refine ⟨rfl, rfl, fun a b hab => ?_, fun a b hab => ?_⟩
    · obtain ⟨rfl, -⟩ := List.append_eq_nil_iff.mp hab.symm
      exact Int.le_refl 1
    · simp at hab

theorem finishes_cons : Finishes depth quoted prev (c :: t) ↔
    1 ≤ depth ∧ (c = ',' → quoted = false → 1 < depth) ∧
      Finishes (depth + levelFrom prev quoted [c]) (quotedAfter prev c quoted) c t := by
  constructor
  · rintro ⟨hclosed, hmatched, hnested, hsingle⟩
    refine ⟨?_, ?_, hclosed, ?_, fun a b hab => ?_, fun a b hab ha => ?_⟩
    · simpa [levelFrom_nil] using hnested [] (c :: t) rfl
    · rintro rfl hq
      simpa [levelFrom_nil] using hsingle [] t rfl hq
    · rw [levelFrom_cons] at hmatched
      omega
    · have := hnested (c :: a) b (by rw [hab]; rfl)
      rw [levelFrom_cons] at this
      omega
    · have := hsingle (c :: a) b (by rw [hab]; rfl) ha
      rw [levelFrom_cons] at this
      omega
  · rintro ⟨hdepth, hcomma, hclosed, hmatched, hnested, hsingle⟩
    -- the empty beginning is the only one that is not a beginning of `t` behind `c`
    refine ⟨hclosed, ?_, fun a b hab => ?_, fun a b hab ha => ?_⟩
    · rw [levelFrom_cons]
      omega
    · cases a with
      | nil =>
        rw [levelFrom_nil]
        omega
      | cons d a =>
        obtain ⟨rfl, rfl⟩ := List.cons.inj hab
        have := hnested a b rfl
        rw [levelFrom_cons]
        omega
    · cases a with
      | nil =>
        obtain ⟨rfl, rfl⟩ := List.cons.inj hab
        have := hcomma rfl ha
        rw [levelFrom_nil]
        omega
      | cons d a =>
        obtain ⟨rfl, rfl⟩ := List.cons.inj hab
        have := hsingle a b rfl ha
        rw [levelFrom_cons]
        omega

instance decidableFinishes : (depth : Int) → (quoted : Bool) → (prev : Char) → (t : Text) →
    Decidable (Finishes depth quoted prev t)
  | _, _, _, [] => decidable_of_iff _ finishes_nil.symm
  | depth, quoted, prev, c :: t =>
    have := decidableFinishes (depth + levelFrom prev quoted [c]) (quotedAfter prev c quoted) c t
    decidable_of_iff _ finishes_cons.symm

instance : DecidablePred IsArgument := fun _ =>
  decidable_of_iff _ (isArgument_iff (by decide : lineStart ≠ '\\')).symm

theorem Finishes.depth_pos (h : Finishes depth quoted prev t) : 1 ≤ depth := by
  simpa [levelFrom_nil] using h.nested [] t rfl

theorem argumentsFrom_more {depth n : Nat} (hn : (n : Int) = depth + levelFrom prev quoted [c])
    (hpos : 1 ≤ n) (hcomma : c = ',' → quoted = false → 1 < depth) (args : List Text) (arg : Text)
    (width : Nat) (t : Text) : argumentsFrom depth quoted prev args arg width (c :: t) =
      argumentsFrom n (quotedAfter prev c quoted) c args (c :: arg) (width + 1) t := by
  rw [levelFrom_single] at hn
  rw [argumentsFrom]
  cases hq : quotedAfter prev c quoted with
  | true =>
    obtain rfl : n = depth := by simpa [hq, Int.natCast_inj] using hn
    rfl
  | false =>
    -- outside quotes the scan counts a parenthesis as `levelFrom` does, and `n` is the new count
    simp only [hq, Bool.false_eq_true, if_false] at hn ⊢
    by_cases hopen : c = '('
    · obtain rfl : n = depth + 1 := by
        rw [if_pos hopen] at hn
        omega
      rw [if_pos hopen]
    · rw [if_neg hopen] at hn ⊢
      by_cases hclose : c = ')'
      · rw [if_pos hclose] at hn ⊢
        rw [if_neg (by omega), show depth - 1 = n by omega]
      · obtain rfl : n = depth := by
          rw [if_neg hclose] at hn
          omega
        rw [if_neg hclose, if_neg]
        intro h
        simp only [Bool.and_eq_true, decide_eq_true_eq, beq_iff_eq] at h
        obtain ⟨rfl, rfl⟩ := h
        rw [quotedAfter_plain (by decide)] at hq
        exact absurd (hcomma rfl hq) (Nat.lt_irrefl 1)

theorem argumentsFrom_argument {depth : Nat} {p : Text} (h : Finishes depth quoted prev p)
    (args : List Text) (arg : Text) (width : Nat) (t : Text) :
    argumentsFrom depth quoted prev args arg width (p ++ t) =
      argumentsFrom 1 false (p.getLast?.getD prev) args (p.reverse ++ arg)
        (width + p.length) t := by
  induction p generalizing depth quoted prev arg width with
  | nil =>
    obtain ⟨rfl, hdepth⟩ := finishes_nil.mp h
    obtain rfl : depth = 1 := by omega
    rfl
  | cons c p ih =>
    obtain ⟨-, hcomma, hrest⟩ := finishes_cons.mp h
    have hpos := hrest.depth_pos
    obtain ⟨n, hn⟩ := Int.eq_ofNat_of_zero_le (show 0 ≤ depth + levelFrom prev quoted [c] by omega)
    rw [List.cons_append, argumentsFrom_more hn.symm (by omega) (fun hc hq => by
      have := hcomma hc hq
      omega), ih (hn ▸ hrest), List.getLast?_cons, List.length_cons, List.reverse_cons,
      List.append_assoc, Nat.add_assoc, Nat.add_comm 1]
    rfl

theorem argumentsFrom_close (prev : Char) (args : List Text) (arg : Text) (width : Nat) (t : Text) :
    argumentsFrom 1 false prev args arg width (')' :: t) =
      some ⟨Call.close args (Text.trim arg.reverse), width + 1⟩ := by
  simp [argumentsFrom, quotedAfter_plain]

theorem argumentsFrom_comma (prev : Char) (args : List Text) (arg : Text) (width : Nat) (t : Text) :
    argumentsFrom 1 false prev args arg width (',' :: t) =
      argumentsFrom 1 false ',' (args ++ [Text.trim arg.reverse]) [] (width + 1) t := by
  simp [argumentsFrom, quotedAfter_plain]

def argumentsOf (texts : List Text) : List Text :=
  if texts.map Text.trim = [[]] then [] else texts.map Text.trim

def closeAll (args texts : List Text) : List Text :=
  if args = [] then argumentsOf texts else args ++ texts.map Text.trim

theorem closeAll_single (args : List Text) (t : Text) :
    closeAll args [t] = Call.close args (Text.trim t) := by
  by_cases h : args = [] <;> simp [closeAll, argumentsOf, Call.close, h]

theorem closeAll_cons (args : List Text) (t u : Text) (texts : List Text) :
    closeAll args (t :: u :: texts) = closeAll (args ++ [Text.trim t]) (u :: texts) := by
  by_cases h : args = [] <;> simp [closeAll, argumentsOf, h]

theorem argumentsFrom_complete {p : Text} {ps : List Text} (hp : IsArgument p)
    (hps : ∀ q ∈ ps, IsArgument q) (hprev : prev ≠ '\\') (args : List Text) (width : Nat)
    (t : Text) :
    argumentsFrom 1 false prev args [] width (Text.join ',' (p :: ps) ++ ')' :: t) =
      some ⟨closeAll args (p :: ps), width + (Text.join ',' (p :: ps)).length + 1⟩ := by
  induction ps generalizing p prev args width with
  | nil =>
    have hscan := argumentsFrom_argument ((isArgument_iff hprev).mp hp) args [] width (')' :: t)
    rw [Text.join, closeAll_single]
    refine hscan.trans ?_
    rw [argumentsFrom_close, List.append_nil, List.reverse_reverse]
  | cons q ps ih =>
    have hq : IsArgument q := hps q List.mem_cons_self
    have hrest : ∀ x ∈ ps, IsArgument x := fun x hx => hps x (List.mem_cons_of_mem q hx)
    have hscan := argumentsFrom_argument ((isArgument_iff hprev).mp hp) args [] width
      (',' :: (Text.join ',' (q :: ps) ++ ')' :: t))
    rw [Text.join, List.append_assoc, closeAll_cons]
    refine hscan.trans ?_
    rw [argumentsFrom_comma, ih hq hrest (by decide), List.append_nil, List.reverse_reverse,
      List.length_append, List.length_cons]
    congr 2
    omega

theorem character_cases {depth : Nat} (hdepth : 1 ≤ depth) (quoted : Bool) (prev c : Char) :
    (∃ n : Nat, (n : Int) = depth + levelFrom prev quoted [c] ∧ 1 ≤ n ∧
      (c = ',' → quoted = false → 1 < depth)) ∨
    quoted = false ∧ depth = 1 ∧ (c = ')' ∨ c = ',') := by
  by_cases hend : quoted = false ∧ depth = 1 ∧ (c = ')' ∨ c = ',')
  · exact .inr hend
  · have hlevel : 1 ≤ depth + levelFrom prev quoted [c] := by
      rw [levelFrom_single]
      by_cases hclose : c = ')'
      · subst hclose
        rw [quotedAfter_plain (by decide)]
        cases quoted with
        | true => simpa using Int.ofNat_le.mpr hdepth
        | false =>
          have hne : depth ≠ 1 := fun h => hend ⟨rfl, h, .inl rfl⟩
          simp only [Bool.false_eq_true, if_false, if_true]
          rw [if_neg (by decide)]
          omega
      · rw [if_neg hclose]
        split
        · omega
        · split <;> omega
    refine .inl ⟨(depth + levelFrom prev quoted [c]).toNat, by omega, by omega, fun hc hq => ?_⟩
    have hne : depth ≠ 1 := fun h => hend ⟨hq, h, .inr hc⟩
    omega

theorem argumentsFrom_sound {depth : Nat} {args : List Text} {arg : Text} {width : Nat}
    {call : Call} (hdepth : 1 ≤ depth)
    (h : argumentsFrom depth quoted prev args arg width t = some call) :
    ∃ p ps rest, t = Text.join ',' (p :: ps) ++ ')' :: rest ∧ Finishes depth quoted prev p ∧
      (∀ q ∈ ps, IsArgument q) ∧
      call = ⟨closeAll args ((arg.reverse ++ p) :: ps),
        width + (Text.join ',' (p :: ps)).length + 1⟩ := by
  -- on the text: the first argument is begun already, and `p` is what is left of it
  induction t generalizing depth quoted prev args arg width with
  | nil => simp [argumentsFrom] at h
  | cons c t ih =>
    rcases character_cases hdepth quoted prev c with ⟨n, hn, hpos, hcomma⟩ | ⟨rfl, rfl, rfl | rfl⟩
    · rw [argumentsFrom_more hn hpos hcomma] at h
      obtain ⟨p, ps, rest, ht, hp, hps, hcall⟩ := ih hpos h
      refine ⟨c :: p, ps, rest, ?_, ?_, hps, ?_⟩
      · rw [Text.join_cons, ht]
        rfl
      · refine finishes_cons.mpr ⟨by omega, fun hc hq => ?_, hn ▸ hp⟩
        have := hcomma hc hq
        omega
      · rw [hcall, Text.join_cons, List.length_cons, List.reverse_cons, List.append_assoc]
        congr 1
        omega
    · rw [argumentsFrom_close, Option.some.injEq] at h
      refine ⟨[], [], t, rfl, finishes_nil.mpr ⟨rfl, rfl⟩, ?_, ?_⟩
      · intro q hq
        exact absurd hq List.not_mem_nil
      · rw [← h, closeAll_single, List.append_nil]
        rfl
    · rw [argumentsFrom_comma] at h
      obtain ⟨p, ps, rest, ht, hp, hps, hcall⟩ := ih (Nat.le_refl 1) h
      have harg : IsArgument p := (isArgument_iff (by decide)).mpr hp
      refine ⟨[], p :: ps, rest, ?_, finishes_nil.mpr ⟨rfl, rfl⟩, ?_, ?_⟩
      · rw [ht]
        rfl
      · exact List.forall_mem_cons.mpr ⟨harg, hps⟩
      · rw [hcall, closeAll_cons, List.append_nil, Text.join, List.nil_append, List.length_cons]
        congr 1
        omega

theorem spaces_append (n : Nat) {c : Char} (hc : c ≠ ' ') (t : Text) :
    (List.replicate n ' ' ++ c :: t).takeWhile (· == ' ') = List.replicate n ' ' ∧
      (List.replicate n ' ' ++ c :: t).dropWhile (· == ' ') = c :: t := by
  induction n with
  | zero => simp [hc]
  | succ n ih => simpa [List.replicate_succ] using ih

theorem arguments?_eq_some {call : Call} : arguments? t = some call ↔
    ∃ n ps rest, t = List.replicate n ' ' ++ '(' :: (Text.join ',' ps ++ ')' :: rest) ∧ ps ≠ [] ∧
      (∀ p ∈ ps, IsArgument p) ∧ call = ⟨argumentsOf ps, n + (Text.join ',' ps).length + 2⟩ := by
  constructor
  · intro h
    unfold arguments? at h
    dsimp only at h
    split at h
    next r hr =>
      obtain ⟨p, ps, rest, ht, hp, hps, hcall⟩ := argumentsFrom_sound (Nat.le_refl 1) h
      have harg : IsArgument p := (isArgument_iff (by decide)).mpr hp
      have hspaces : t.takeWhile (· == ' ') =
          List.replicate (t.takeWhile (· == ' ')).length ' ' := by
        refine List.eq_replicate_of_mem fun c hc => ?_
        simpa using List.mem_takeWhile_imp hc
      refine ⟨(t.takeWhile (· == ' ')).length, p :: ps, rest, ?_, List.cons_ne_nil p ps,
        List.forall_mem_cons.mpr ⟨harg, hps⟩, ?_⟩
      · rw [← hspaces, ← ht, ← hr, List.takeWhile_append_dropWhile]
      · rw [hcall, List.reverse_nil, List.nil_append, closeAll, if_pos rfl]
        congr 1
        omega
    · simp at h
  · rintro ⟨n, ps, rest, rfl, hne, hps, rfl⟩
    obtain ⟨p, ps, rfl⟩ := List.exists_cons_of_ne_nil hne
    obtain ⟨hp, hps⟩ := List.forall_mem_cons.mp hps
    obtain ⟨htake, hdrop⟩ := spaces_append n (by decide : '(' ≠ ' ')
      (Text.join ',' (p :: ps) ++ ')' :: rest)
    unfold arguments?
    dsimp only
    rw [htake, hdrop]
    refine (argumentsFrom_complete hp hps (by decide) [] _ rest).trans ?_
    rw [List.length_replicate, closeAll, if_pos rfl]
    congr 2
    omega

end LocalFunctions

end ScriptFeed
