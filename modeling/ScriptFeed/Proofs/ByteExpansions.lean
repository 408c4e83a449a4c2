import ScriptFeed.Proofs.Renaming
import ScriptFeed.Proofs.ByteScans

namespace ScriptFeed

namespace LocalFunctions

open Text (byte byteAt byteBefore isNameByte quoteAt quoteBehind runEnd slice utf8Size)

def argumentAt (args : List Text) (k : Nat) : Except Slip Text :=
  match args[k]? with
  | some arg => .ok arg
  | none => .error .argument

def bindBytes (body : Text) (params args : List Text) (i copied : Nat) (out : Text) :
    Except Slip Text :=
  if i < utf8Size body then do
    if isNameByte (← byteAt body i) then
      match _hstop : runEnd isNameByte body (i + 1) with
      | .error slip => throw slip
      | .ok stop =>
        match params.idxOf? (← slice body i stop) with
        | some k =>
          let arg ← argumentAt args k
          bindBytes body params args stop stop
            (out ++ (← slice body copied i) ++ '(' :: arg ++ [')'])
        | none => bindBytes body params args stop copied out
    else bindBytes body params args (i + 1) copied out
  else return out ++ (← slice body copied (utf8Size body))
termination_by utf8Size body - i
decreasing_by
  · have hle := Text.le_runEnd _hstop
    omega
  · have hle := Text.le_runEnd _hstop
    omega
  · omega

def bindAllBytes (body : Text) (params args : List Text) : Except Slip Text :=
  if params = [] then return body else bindBytes body params args 0 0 []

def argumentBytes (line : Text) (i depth : Nat) (quoted : Bool) (args : List Text) (start : Nat) :
    Except Slip (Option (List Text × Nat)) :=
  if i < utf8Size line then do
    let b ← byteAt line i
    let quoted := (← quoteBehind line i) != quoted
    if quoted then argumentBytes line (i + 1) depth quoted args start
    else if b = byte '(' then argumentBytes line (i + 1) (depth + 1) quoted args start
    else if b = byte ')' then
      let depth ← minus depth 1
      if depth = 0 then return some (Call.close args (Text.trim (← slice line start i)), i + 1)
      else argumentBytes line (i + 1) depth quoted args start
    else if b = byte ',' ∧ depth = 1 then
      argumentBytes line (i + 1) depth quoted (args ++ [Text.trim (← slice line start i)]) (i + 1)
    else argumentBytes line (i + 1) depth quoted args start
  else return none
termination_by utf8Size line - i

theorem lt_of_argumentBytes {line : Text} {i depth start finish : Nat} {quoted : Bool}
    {args texts : List Text}
    (h : argumentBytes line i depth quoted args start = .ok (some (texts, finish))) :
    i < finish := by
  induction i, depth, quoted, args, start using argumentBytes.induct line with
  | case1 i depth quoted args start hi ihsame ihopen ihclose ihcomma =>
    rw [argumentBytes, if_pos hi] at h
    obtain ⟨b, -, h⟩ := Slip.bind_eq_ok.mp h
    obtain ⟨q, -, h⟩ := Slip.bind_eq_ok.mp h
    dsimp only at h
    split at h
    · exact (Nat.lt_succ_self i).trans (ihsame q h)
    split at h
    · exact (Nat.lt_succ_self i).trans (ihopen q h)
    split at h
    · obtain ⟨d, -, h⟩ := Slip.bind_eq_ok.mp h
      split at h
      · obtain ⟨last, -, h⟩ := Slip.bind_eq_ok.mp h
        cases h
        exact Nat.lt_succ_self i
      · exact (Nat.lt_succ_self i).trans (ihclose q d h)
    split at h
    · obtain ⟨arg, -, h⟩ := Slip.bind_eq_ok.mp h
      exact (Nat.lt_succ_self i).trans (ihcomma q arg h)
    · exact (Nat.lt_succ_self i).trans (ihsame q h)
  | case2 i depth quoted args start hi =>
    rw [argumentBytes, if_neg hi] at h
    cases h

def argumentsAt (line : Text) (i : Nat) : Except Slip (Option (List Text × Nat)) :=
  argumentBytes line i 0 false [] (i + 1)

def listAt (line : Text) (i : Nat) : Except Slip (Option (List Text × Nat)) := do
  let list ← runEnd (· == byte ' ') line i
  if (Utf8.encode line)[list]? = some (byte '(') then argumentsAt line list else return none

def callAt (fs : LocalFunctions) (line : Text) (i stop : Nat) :
    Except Slip (Option (Text × Nat)) := do
  match fs.get? (← slice line i stop) with
  | some f =>
    match ← listAt line stop with
    | some (args, finish) =>
      if args.length = f.params.length then
        return some ('(' :: (← bindAllBytes f.body f.params args) ++ [')'], finish)
      else return none
    | none => return none
  | none => return none

theorem lt_of_listAt {line : Text} {args : List Text} {i finish : Nat}
    (h : listAt line i = .ok (some (args, finish))) : i < finish := by
  obtain ⟨list, hlist, h⟩ := Slip.bind_eq_ok.mp h
  split at h
  · exact lt_of_le_of_lt (Text.le_runEnd hlist) (lt_of_argumentBytes h)
  · cases h

theorem lt_of_callAt {fs : LocalFunctions} {line new : Text} {i stop finish : Nat}
    (h : callAt fs line i stop = .ok (some (new, finish))) : stop < finish := by
  obtain ⟨word, -, h⟩ := Slip.bind_eq_ok.mp h
  split at h
  · obtain ⟨call, hcall, h⟩ := Slip.bind_eq_ok.mp h
    split at h
    · split at h
      · obtain ⟨bound, -, h⟩ := Slip.bind_eq_ok.mp h
        cases h
        exact lt_of_listAt hcall
      · cases h
    · cases h
  · cases h

def nameBefore (t : Text) (i : Nat) : Except Slip Bool :=
  if i = 0 then return false else return isNameByte (← byteBefore t i)

def expandBytes (fs : LocalFunctions) (line : Text) (i : Nat) (out : Text) (changed quoted : Bool)
    (copied : Nat) :
    Except Slip (Option Text) :=
  if i < utf8Size line then do
    let b ← byteAt line i
    if ← quoteAt line i then expandBytes fs line (i + 1) out changed (!quoted) copied
    else if quoted || !isNameByte b then expandBytes fs line (i + 1) out changed quoted copied
    else if ← nameBefore line i then expandBytes fs line (i + 1) out changed quoted copied
    else
      match _hstop : runEnd isNameByte line (i + 1) with
      | .error slip => throw slip
      | .ok stop =>
        match _hcall : callAt fs line i stop with
        | .error slip => throw slip
        | .ok none => expandBytes fs line stop out changed quoted copied
        | .ok (some (new, finish)) =>
          expandBytes fs line finish (out ++ (← slice line copied i) ++ new) true quoted finish
  else if changed then return some (out ++ (← slice line copied (utf8Size line)))
  else return none
termination_by utf8Size line - i
decreasing_by
  · omega
  · omega
  · omega
  · have hle := Text.le_runEnd _hstop
    omega
  · have hle := Text.le_runEnd _hstop
    have hlt := lt_of_callAt _hcall
    omega

def expandOnceBytes (fs : LocalFunctions) (line : Text) : Except Slip (Option Text) :=
  expandBytes fs line 0 [] false false 0

variable {body line t word arg out : Text} {params args : List Text} {c : Char}
  {i stop copied : Nat} {x : UInt8}
  {quoted changed : Bool} {fs : LocalFunctions}

theorem runEnd_word (hc : Text.isNameChar c = true) (a t : Text) :
    runEnd isNameByte (a ++ c :: t) (utf8Size a + 1) =
      .ok (utf8Size (a ++ (c :: t).takeWhile Text.isNameChar)) := by
  have hnarrow : c.toNat < 0x80 := lt_of_le_of_lt (Text.isNameChar_range hc).2 (by decide)
  rw [← Text.utf8Size_concat hnarrow, List.append_cons,
    Text.runEnd_append (fun _ _ => Text.isNameByte_eq),
    List.takeWhile_cons_of_pos hc, ← List.append_cons]

theorem bindBytes_other (hbyte : byteAt body i = .ok x) (hx : isNameByte x = false) :
    bindBytes body params args i copied out = bindBytes body params args (i + 1) copied out := by
  rw [bindBytes, if_pos (Text.lt_of_byteAt hbyte), Slip.bind_ok hbyte,
    if_neg (by rw [hx]; exact Bool.false_ne_true)]

theorem bindBytes_word (hbyte : byteAt body i = .ok x) (hx : isNameByte x = true)
    (hstop : runEnd isNameByte body (i + 1) = .ok stop) (hword : slice body i stop = .ok word) :
    bindBytes body params args i copied out =
      (params.idxOf? word).elim (bindBytes body params args stop copied out) fun k =>
        argumentAt args k >>= fun arg => slice body copied i >>= fun between =>
          bindBytes body params args stop stop (out ++ between ++ '(' :: arg ++ [')']) := by
  rw [bindBytes, if_pos (Text.lt_of_byteAt hbyte), Slip.bind_ok hbyte, if_pos hx]
  split
  next hslip => cases hstop.symm.trans hslip
  next stop' hstop' =>
    obtain rfl := Except.ok.inj (hstop.symm.trans hstop')
    rw [Slip.bind_ok hword]
    cases params.idxOf? word <;> rfl

theorem bindBytes_append (hlength : params.length = args.length) (a m t out : Text) :
    bindBytes (a ++ m ++ t) params args (utf8Size (a ++ m)) (utf8Size a) out =
      .ok (out ++ m ++ bindFrom (params.zip args) [] t) := by
  induction t using words_induction generalizing a m out with
  | nil =>
    rw [List.append_nil, bindBytes, if_neg (lt_irrefl _), Slip.bind_ok (Text.slice_rest a m),
      bindFrom, if_pos rfl, List.append_nil]
    rfl
  | cons c t hc ih =>
    have hpass : bindBytes (a ++ m ++ c :: t) params args (utf8Size (a ++ m)) (utf8Size a) out =
        bindBytes (a ++ m ++ c :: t) params args (utf8Size (a ++ m ++ [c])) (utf8Size a) out := by
      apply Text.pass_char
        (F := fun i => bindBytes (a ++ m ++ c :: t) params args i (utf8Size a) out)
      intro i x hx hbyte
      exact bindBytes_other hbyte ((Text.isNameByte_eq hx).trans hc)
    have hmore := ih a (m ++ [c]) out
    rw [← List.append_assoc, ← List.append_cons] at hmore
    rw [hpass, hmore, bindFrom_cons _ hc]
    simp
  | append word t hne hword ht ih =>
    obtain ⟨c, w, rfl⟩ := List.exists_cons_of_ne_nil hne
    have hc : Text.isNameChar c = true := hword c List.mem_cons_self
    have htake : (c :: (w ++ t)).takeWhile Text.isNameChar = c :: w := takeWhile_whole hword ht
    obtain ⟨x, hx, hbyte⟩ := Text.byteAt_first (a ++ m) (w ++ t) c
    have hstop := runEnd_word hc (a ++ m) (w ++ t)
    rw [htake] at hstop
    have hslice := Text.slice_parts (a ++ m) (c :: w) t
    rw [List.append_assoc _ (c :: w) t] at hslice
    rw [List.cons_append,
      bindBytes_word hbyte ((Text.isNameByte_eq hx).trans hc) hstop hslice, ← List.cons_append,
      bindFrom_whole hne hword ht]
    have hlookup := lookup_zip_eq params args (c :: w)
    cases hk : params.idxOf? (c :: w) with
    | none =>
      rw [hk, Option.bind_none] at hlookup
      have hmore := ih a (m ++ c :: w) out
      rw [← List.append_assoc a m, List.append_assoc (a ++ m)] at hmore
      rw [Option.elim_none, hmore, bound_of_none hlookup]
      simp only [List.append_assoc]
    | some k =>
      obtain ⟨hk', -⟩ := List.idxOf?_eq_some_iff.mp hk
      have harg : args[k]? = some args[k] := List.getElem?_eq_getElem (hlength ▸ hk')
      rw [hk, Option.bind_some, harg] at hlookup
      have hargument : argumentAt args k = .ok args[k] := by rw [argumentAt, harg]
      have hbetween := Text.slice_parts a m (c :: w ++ t)
      have hmore := ih (a ++ m ++ c :: w) [] (out ++ m ++ '(' :: args[k] ++ [')'])
      rw [List.append_nil, List.append_assoc (a ++ m)] at hmore
      rw [Option.elim_some, Slip.bind_ok hargument, Slip.bind_ok hbetween, hmore,
        bound_of_some hlookup]
      simp only [List.append_assoc, List.append_nil]

theorem bindAllBytes_eq (body : Text) (hlength : params.length = args.length) :
    bindAllBytes body params args = .ok (bind body params args) := by
  rw [bindAllBytes, bind]
  by_cases hnil : params = []
  · rw [if_pos hnil, hnil, List.zip_nil_left, bindFrom_kept (fun _ _ => rfl)]
    rfl
  · rw [if_neg hnil]
    exact bindBytes_append hlength [] [] body []

theorem argumentBytes_step {start depth : Nat} {q : Bool} (hbyte : byteAt line i = .ok x)
    (hquote : quoteBehind line i = .ok q) : argumentBytes line i depth quoted args start =
      if (q != quoted) = true then argumentBytes line (i + 1) depth (q != quoted) args start
      else if x = byte '(' then argumentBytes line (i + 1) (depth + 1) (q != quoted) args start
      else if x = byte ')' then
        minus depth 1 >>= fun d =>
          if d = 0 then slice line start i >>= fun last =>
            .ok (some (Call.close args (Text.trim last), i + 1))
          else argumentBytes line (i + 1) d (q != quoted) args start
      else if x = byte ',' ∧ depth = 1 then
        slice line start i >>= fun arg =>
          argumentBytes line (i + 1) depth (q != quoted) (args ++ [Text.trim arg]) (i + 1)
      else argumentBytes line (i + 1) depth (q != quoted) args start := by
  rw [argumentBytes, if_pos (Text.lt_of_byteAt hbyte), Slip.bind_ok hbyte, Slip.bind_ok hquote]
  rfl

theorem argumentBytes_wide {start depth : Nat} (hbyte : byteAt line i = .ok x)
    (hx : 0x80 ≤ x.toNat) :
    argumentBytes line i depth quoted args start =
      argumentBytes line (i + 1) depth quoted args start := by
  have hquote : x ≠ byte '"' := Text.ne_byte hx (by decide)
  have hopen : x ≠ byte '(' := Text.ne_byte hx (by decide)
  have hclose : x ≠ byte ')' := Text.ne_byte hx (by decide)
  have hcomma : ¬(x = byte ',' ∧ depth = 1) := fun h => Text.ne_byte hx (by decide) h.1
  rw [argumentBytes_step hbyte (Text.quoteBehind_plain hbyte hquote), Bool.false_bne, if_neg hopen,
    if_neg hclose, if_neg hcomma, ite_self]

theorem argumentBytes_cons {before : Text} (hbefore : before ≠ []) (c : Char) (t : Text)
    (depth : Nat) (quoted : Bool) (args : List Text) (start : Nat) :
    argumentBytes (before ++ c :: t) (utf8Size before) depth quoted args start =
      if Comment.quotedAfter (Comment.lastOf before) c quoted = true then
        argumentBytes (before ++ c :: t) (utf8Size (before ++ [c])) depth
          (Comment.quotedAfter (Comment.lastOf before) c quoted) args start
      else if c = '(' then
        argumentBytes (before ++ c :: t) (utf8Size (before ++ [c])) (depth + 1)
          (Comment.quotedAfter (Comment.lastOf before) c quoted) args start
      else if c = ')' then
        minus depth 1 >>= fun d =>
          if d = 0 then
            slice (before ++ c :: t) start (utf8Size before) >>= fun last =>
              .ok (some (Call.close args (Text.trim last), utf8Size (before ++ [c])))
          else argumentBytes (before ++ c :: t) (utf8Size (before ++ [c])) d
            (Comment.quotedAfter (Comment.lastOf before) c quoted) args start
      else if c = ',' ∧ depth = 1 then
        slice (before ++ c :: t) start (utf8Size before) >>= fun arg =>
          argumentBytes (before ++ c :: t) (utf8Size (before ++ [c])) depth
            (Comment.quotedAfter (Comment.lastOf before) c quoted) (args ++ [Text.trim arg])
            (utf8Size (before ++ [c]))
      else argumentBytes (before ++ c :: t) (utf8Size (before ++ [c])) depth
        (Comment.quotedAfter (Comment.lastOf before) c quoted) args start := by
  by_cases hc : c.toNat < 0x80
  · have hquote := Text.quoteAt_append before c t
    rw [← Text.quoteBehind_eq (Text.utf8Size_pos hbefore).ne'] at hquote
    obtain ⟨x, hx, hbyte⟩ := Text.byteAt_first before t c
    have hopen : x = byte '(' ↔ c = '(' := Text.eq_byte_iff hx (by decide)
    have hclose : x = byte ')' ↔ c = ')' := Text.eq_byte_iff hx (by decide)
    have hcomma : x = byte ',' ↔ c = ',' := Text.eq_byte_iff hx (by decide)
    rw [argumentBytes_step hbyte hquote, Comment.quotedAfter_bne, Text.utf8Size_concat hc]
    simp only [hopen, hclose, hcomma]
  · have hwide : 0x80 ≤ c.toNat := Nat.le_of_not_lt hc
    have hpass : argumentBytes (before ++ c :: t) (utf8Size before) depth quoted args start =
        argumentBytes (before ++ c :: t) (utf8Size (before ++ [c])) depth quoted args start :=
      Text.pass_wide (F := fun i => argumentBytes (before ++ c :: t) i depth quoted args start)
        hwide fun _ _ => argumentBytes_wide
    have hquote : c ≠ '"' := Text.ne_of_wide hwide (by decide)
    have hopen : c ≠ '(' := Text.ne_of_wide hwide (by decide)
    have hclose : c ≠ ')' := Text.ne_of_wide hwide (by decide)
    have hcomma : ¬(c = ',' ∧ depth = 1) := fun h => Text.ne_of_wide hwide (by decide) h.1
    rw [hpass, Comment.quotedAfter_plain hquote, if_neg hopen, if_neg hclose, if_neg hcomma,
      ite_self]

def placed (before t : Text) (width : Nat) (call : Call) : List Text × Nat :=
  (call.args, utf8Size (before ++ t.take (call.width - width)))

theorem placed_cons (before t : Text) (c : Char) {width : Nat} {call : Call}
    (h : width < call.width) :
    placed (before ++ [c]) t (width + 1) call = placed before (c :: t) width call := by
  obtain ⟨n, hn⟩ := Nat.exists_eq_add_of_lt h
  have hnext : call.width - (width + 1) = n := by omega
  have hthis : call.width - width = n + 1 := by omega
  rw [placed, placed, hnext, hthis, List.take_succ_cons, ← List.append_cons]

theorem lt_of_argumentsFrom {depth width : Nat} {prev : Char} {call : Call} (hdepth : 1 ≤ depth)
    (h : argumentsFrom depth quoted prev args arg width t = some call) : width < call.width := by
  obtain ⟨p, ps, rest, -, -, -, hcall⟩ := argumentsFrom_sound hdepth h
  rw [hcall]
  dsimp only
  omega

theorem map_placed {depth : Nat} (hdepth : 1 ≤ depth) (before : Text) (c prev : Char) (width : Nat)
    (t : Text) :
    (argumentsFrom depth quoted prev args arg (width + 1) t).map
        (placed (before ++ [c]) t (width + 1)) =
      (argumentsFrom depth quoted prev args arg (width + 1) t).map
        (placed before (c :: t) width) := by
  cases h : argumentsFrom depth quoted prev args arg (width + 1) t with
  | none => rfl
  | some call =>
    have hwidth := lt_of_argumentsFrom hdepth h
    rw [Option.map_some, Option.map_some, placed_cons before t c (by omega)]

theorem argumentBytes_append {depth : Nat} (hdepth : 1 ≤ depth) {a : Text} (ha : a ≠ []) (m : Text)
    (quoted : Bool) (args : List Text) (width : Nat) (t : Text) :
    argumentBytes (a ++ m ++ t) (utf8Size (a ++ m)) depth quoted args (utf8Size a) =
      .ok ((argumentsFrom depth quoted (Comment.lastOf (a ++ m)) args m.reverse width t).map
        (placed (a ++ m) t width)) := by
  induction t generalizing depth a m quoted args width with
  | nil =>
    rw [List.append_nil, argumentBytes, if_neg (lt_irrefl _)]
    rfl
  | cons c t ih =>
    have hbefore : a ++ m ≠ [] := List.append_ne_nil_of_left_ne_nil ha m
    -- the argument goes on with `c`, or another one begins behind it
    have hsame (d : Nat) (hd : 1 ≤ d) (quoted : Bool) :
        argumentBytes (a ++ m ++ c :: t) (utf8Size (a ++ m ++ [c])) d quoted args (utf8Size a) =
          .ok ((argumentsFrom d quoted c args (c :: m.reverse) (width + 1) t).map
            (placed (a ++ m) (c :: t) width)) := by
      have hmore := ih hd ha (m ++ [c]) quoted args (width + 1)
      rw [← List.append_assoc, Comment.lastOf_concat, List.reverse_concat,
        map_placed hd, ← List.append_cons] at hmore
      exact hmore
    have hnew (quoted : Bool) (args : List Text) :
        argumentBytes (a ++ m ++ c :: t) (utf8Size (a ++ m ++ [c])) depth quoted args
          (utf8Size (a ++ m ++ [c])) =
          .ok ((argumentsFrom depth quoted c args [] (width + 1) t).map
            (placed (a ++ m) (c :: t) width)) := by
      have hmore := ih hdepth (List.concat_ne_nil c (a ++ m)) [] quoted args (width + 1)
      rw [List.append_nil, Comment.lastOf_concat, List.reverse_nil,
        map_placed hdepth, ← List.append_cons] at hmore
      exact hmore
    have hslice := Text.slice_parts a m (c :: t)
    rw [argumentBytes_cons hbefore, argumentsFrom]
    split
    · exact hsame depth hdepth _
    split
    · exact hsame (depth + 1) (by omega) _
    split
    · have hminus : minus depth 1 = .ok (depth - 1) := if_neg (by omega)
      rw [Slip.bind_ok hminus]
      by_cases hone : depth ≤ 1
      · rw [if_pos (by omega), Slip.bind_ok hslice, if_pos hone, Option.map_some, placed,
          List.reverse_reverse]
        simp
      · rw [if_neg (by omega), if_neg hone]
        exact hsame (depth - 1) (by omega) _
    · simp only [Bool.and_eq_true, decide_eq_true_eq, beq_iff_eq]
      split
      · rw [Slip.bind_ok hslice, List.reverse_reverse]
        exact hnew _ _
      · exact hsame depth hdepth _

theorem argumentsAt_append (s t : Text) (width : Nat) :
    argumentsAt (s ++ '(' :: t) (utf8Size s) =
      .ok ((argumentsFrom 1 false '(' [] [] (width + 1) t).map (placed s ('(' :: t) width)) := by
  obtain ⟨x, hx, hbyte⟩ := Text.byteAt_first s t '('
  have hopen : x = byte '(' := (Text.eq_byte_iff hx (by decide)).mpr rfl
  have hquote : x ≠ byte '"' := by
    rw [hopen]
    decide
  have hone : utf8Size (s ++ ['(']) = utf8Size s + 1 := Text.utf8Size_concat (by decide) s
  have hmore :=
    argumentBytes_append (le_refl 1) (List.concat_ne_nil '(' s) [] false [] (width + 1) t
  rw [List.append_nil, Comment.lastOf_concat, List.reverse_nil,
    map_placed (le_refl 1), ← List.append_cons, hone] at hmore
  rw [argumentsAt, argumentBytes_step hbyte (Text.quoteBehind_plain hbyte hquote),
    if_neg (by decide), if_pos hopen]
  exact hmore

theorem argumentsAt_open (h : byteAt line i = .ok (byte '(')) :
    ∃ rest, Text.dropBytes i line = some rest ∧ argumentsAt line i =
      .ok ((arguments? rest).map fun call => (call.args, i + utf8Size (rest.take call.width))) := by
  obtain ⟨s, t, rfl, rfl⟩ := Text.byteAt_split (by decide) h
  refine ⟨'(' :: t, Text.dropBytes_append s _, (argumentsAt_append s t 0).trans ?_⟩
  have hlist : arguments? ('(' :: t) = argumentsFrom 1 false '(' [] [] (0 + 1) t := rfl
  rw [hlist]
  refine congrArg (fun f => Except.ok (Option.map f _)) (funext fun call => ?_)
  rw [placed, Text.utf8Size_append, Nat.sub_zero]

theorem placed_append (before s t : Text) {call : Call} (h : s.length ≤ call.width) :
    placed (before ++ s) t s.length call = placed before (s ++ t) 0 call := by
  rw [placed, placed, Nat.sub_zero, List.take_append, List.take_of_length_le h, List.append_assoc]

theorem listAt_append (before r : Text) :
    listAt (before ++ r) (utf8Size before) = .ok ((arguments? r).map (placed before r 0)) := by
  have hspace : ∀ c, ∀ x ∈ Utf8.encodeChar c, (x == byte ' ') = (c == ' ') := by
    intro c x hx
    rw [Bool.eq_iff_iff, beq_iff_eq, beq_iff_eq, Text.eq_byte_iff hx (by decide)]
  have hsplit : r.takeWhile (· == ' ') ++ r.dropWhile (· == ' ') = r :=
    List.takeWhile_append_dropWhile
  have hbehind : before ++ r = before ++ r.takeWhile (· == ' ') ++ r.dropWhile (· == ' ') := by
    rw [List.append_assoc, hsplit]
  rw [listAt, Slip.bind_ok (Text.runEnd_append hspace before r), hbehind]
  by_cases hopen : (r.dropWhile (· == ' ')).head? = some '('
  · obtain ⟨t, ht⟩ := List.head?_eq_some_iff.mp hopen
    have hlist :
        arguments? r = argumentsFrom 1 false '(' [] [] ((r.takeWhile (· == ' ')).length + 1) t := by
      rw [arguments?, ht]
      rfl
    rw [if_pos ((Text.byte_behind (by decide) _ _).mpr hopen), ht,
      argumentsAt_append _ _ (r.takeWhile (· == ' ')).length, hlist]
    cases h : argumentsFrom 1 false '(' [] [] ((r.takeWhile (· == ' ')).length + 1) t with
    | none => rfl
    | some call =>
      have hwidth := lt_of_argumentsFrom (le_refl 1) h
      rw [Option.map_some, Option.map_some, placed_append _ _ _ (by omega), ← ht, hsplit]
  · have hnone : arguments? r = none := by
      unfold arguments?
      split
      next t ht => exact absurd (congrArg List.head? ht) hopen
      · rfl
    rw [if_neg (mt (Text.byte_behind (by decide) _ _).mp hopen), hnone]
    rfl

theorem callAt_append (fs : LocalFunctions) (a t : Text) :
    callAt fs (a ++ t) (utf8Size a) (utf8Size (a ++ t.takeWhile Text.isNameChar)) =
      .ok ((callHere? fs t).map fun x => (x.1, utf8Size (a ++ t.take x.2))) := by
  rw [callHere?]
  generalize hw : t.takeWhile Text.isNameChar = word
  have hbegins : word <+: t := by
    rw [← hw]
    exact List.takeWhile_prefix _
  have hsplit : word ++ t.drop word.length = t := List.prefix_iff_eq_append.mp hbegins
  have hword := Text.slice_parts a word (t.drop word.length)
  have hlist := listAt_append (a ++ word) (t.drop word.length)
  rw [List.append_assoc, hsplit] at hword hlist
  rw [callAt, Slip.bind_ok hword]
  cases fs.get? word with
  | none => rfl
  | some f =>
    dsimp only
    rw [Slip.bind_ok hlist]
    cases arguments? (t.drop word.length) with
    | none => rfl
    | some call =>
      have htake : a ++ word ++ (t.drop word.length).take call.width =
          a ++ t.take (word.length + call.width) := by
        have hfirst : t.take word.length = word := (List.prefix_iff_eq_take.mp hbegins).symm
        rw [List.take_add, hfirst, List.append_assoc]
      rw [Option.map_some, placed, Nat.sub_zero, htake]
      dsimp only
      by_cases hlength : call.args.length = f.params.length
      · rw [if_pos hlength, if_pos hlength]
        exact Slip.bind_ok (bindAllBytes_eq f.body hlength.symm) _
      · rw [if_neg hlength, if_neg hlength]
        rfl

theorem nameBefore_append (a t : Text) (c : Char) :
    nameBefore (a ++ c :: t) (utf8Size a) = .ok (Text.isNameChar (Comment.lastOf a)) := by
  rcases List.eq_nil_or_concat' a with rfl | ⟨a, d, rfl⟩
  · rfl
  · obtain ⟨x, hx, hbefore⟩ := Text.byteBefore_mem a d (c :: t)
    have hpos : utf8Size (a ++ [d]) ≠ 0 := (Text.utf8Size_pos (List.concat_ne_nil d a)).ne'
    rw [nameBefore, if_neg hpos, Slip.bind_ok hbefore, Comment.lastOf_concat, Text.isNameByte_eq hx]
    rfl

theorem expandBytes_quote (hbyte : byteAt line i = .ok x) (hquote : quoteAt line i = .ok true) :
    expandBytes fs line i out changed quoted copied =
      expandBytes fs line (i + 1) out changed (!quoted) copied := by
  rw [expandBytes, if_pos (Text.lt_of_byteAt hbyte), Slip.bind_ok hbyte, Slip.bind_ok hquote,
    if_pos rfl]

theorem expandBytes_skip (hbyte : byteAt line i = .ok x) (hquote : quoteAt line i = .ok false)
    (hskip : (quoted || !isNameByte x) = true) :
    expandBytes fs line i out changed quoted copied =
      expandBytes fs line (i + 1) out changed quoted copied := by
  rw [expandBytes, if_pos (Text.lt_of_byteAt hbyte), Slip.bind_ok hbyte, Slip.bind_ok hquote,
    if_neg Bool.false_ne_true, if_pos hskip]

theorem expandBytes_inside (hbyte : byteAt line i = .ok x) (hquote : quoteAt line i = .ok false)
    (hname : isNameByte x = true) (hbefore : nameBefore line i = .ok true) :
    expandBytes fs line i out changed false copied =
      expandBytes fs line (i + 1) out changed false copied := by
  rw [expandBytes, if_pos (Text.lt_of_byteAt hbyte), Slip.bind_ok hbyte, Slip.bind_ok hquote,
    if_neg Bool.false_ne_true, if_neg (by simp [hname]), Slip.bind_ok hbefore, if_pos rfl]

theorem expandBytes_word {call : Option (Text × Nat)} (hbyte : byteAt line i = .ok x)
    (hquote : quoteAt line i = .ok false) (hname : isNameByte x = true)
    (hbefore : nameBefore line i = .ok false)
    (hstop : runEnd isNameByte line (i + 1) = .ok stop) (hcall : callAt fs line i stop = .ok call) :
    expandBytes fs line i out changed false copied =
      call.elim (expandBytes fs line stop out changed false copied) fun y =>
        slice line copied i >>= fun between =>
          expandBytes fs line y.2 (out ++ between ++ y.1) true false y.2 := by
  rw [expandBytes, if_pos (Text.lt_of_byteAt hbyte), Slip.bind_ok hbyte, Slip.bind_ok hquote,
    if_neg Bool.false_ne_true, if_neg (by simp [hname]), Slip.bind_ok hbefore,
    if_neg Bool.false_ne_true]
  split
  next hslip => cases hstop.symm.trans hslip
  next stop' hstop' =>
    obtain rfl := Except.ok.inj (hstop.symm.trans hstop')
    split
    next hslip => cases hcall.symm.trans hslip
    next hnone =>
      obtain rfl := Except.ok.inj (hcall.symm.trans hnone)
      rfl
    next new finish hsome =>
      obtain rfl := Except.ok.inj (hcall.symm.trans hsome)
      rfl

theorem expandBytes_copy {before : Text}
    (h : (Comment.quotedAfter (Comment.lastOf before) c quoted || !Text.isNameChar c ||
      Text.isNameChar (Comment.lastOf before)) = true) (t : Text) :
    expandBytes fs (before ++ c :: t) (utf8Size before) out changed quoted copied =
      expandBytes fs (before ++ c :: t) (utf8Size (before ++ [c])) out changed
        (Comment.quotedAfter (Comment.lastOf before) c quoted) copied := by
  by_cases hc : c.toNat < 0x80
  · obtain ⟨x, hx, hbyte⟩ := Text.byteAt_first before t c
    have hname := Text.isNameByte_eq hx
    have hquote := Text.quoteAt_append before c t
    rw [Text.utf8Size_concat hc]
    rw [Comment.quotedAfter_bne] at h ⊢
    cases hq : c == '"' && Comment.lastOf before != '\\' with
    | true =>
      rw [hq] at hquote
      rw [expandBytes_quote hbyte hquote, Bool.true_bne]
    | false =>
      rw [hq] at hquote
      rw [hq, Bool.false_bne] at h
      rw [Bool.false_bne]
      by_cases hskip : (quoted || !isNameByte x) = true
      · exact expandBytes_skip hbyte hquote hskip
      · rw [← hname, Bool.eq_false_of_not_eq_true hskip, Bool.false_or] at h
        rw [Bool.or_eq_true, not_or, Bool.not_eq_true, Bool.not_eq_true, Bool.not_eq_false']
          at hskip
        have hbefore := nameBefore_append before t c
        rw [h] at hbefore
        rw [hskip.1]
        exact expandBytes_inside hbyte hquote hskip.2 hbefore
  · have hwide : 0x80 ≤ c.toNat := Nat.le_of_not_lt hc
    have hquote : c ≠ '"' := Text.ne_of_wide hwide (by decide)
    rw [Comment.quotedAfter_plain hquote]
    apply Text.pass_char
      (F := fun i => expandBytes fs (before ++ c :: t) i out changed quoted copied)
    intro i x hx hbyte
    refine expandBytes_skip hbyte
      (Text.quoteAt_plain hbyte (mt (Text.eq_byte_iff hx (by decide)).mp hquote)) ?_
    rw [Text.isNameByte_eq hx, Text.isNameChar_wide hwide, Bool.not_false, Bool.or_true]

theorem expandFrom_inside (fs : LocalFunctions) {prev : Char} (hprev : Text.isNameChar prev = true)
    (hword : ∀ c ∈ word, Text.isNameChar c = true) (quoted : Bool) (t : Text) :
    expandFrom fs 0 prev quoted (word ++ t) =
      (expandFrom fs 0 (word.getLast?.getD prev) quoted t).map (word ++ ·) := by
  induction word generalizing prev with
  | nil => exact Option.map_id'.symm
  | cons c word ih =>
    obtain ⟨hc, hrest⟩ := List.forall_mem_cons.mp hword
    have hquote : c ≠ '"' := Text.ne_of_isNameChar hc (by decide)
    rw [List.cons_append, expandFrom, Comment.quotedAfter_plain hquote, hprev]
    simp only [Bool.or_true, if_true]
    rw [ih hc hrest, List.getLast?_cons, Option.map_map]
    rfl

def passed (changed : Bool) (t : Text) (new : Option Text) : Option Text :=
  new.or (if changed then some t else none)

theorem map_passed (changed : Bool) (s t kept : Text) (new : Option Text) :
    (passed changed t new).map (kept ++ s ++ ·) =
      (passed changed (s ++ t) (new.map (s ++ ·))).map (kept ++ ·) := by
  cases new with
  | none => cases changed <;> simp [passed]
  | some u => simp [passed]

theorem passed_true (t : Text) (new : Option Text) : passed true t new = some (new.getD t) := by
  cases new <;> rfl

theorem expandBytes_append (fs : LocalFunctions) (a m t out : Text) (changed quoted : Bool) :
    expandBytes fs (a ++ m ++ t) (utf8Size (a ++ m)) out changed quoted (utf8Size a) =
      .ok ((passed changed t (expandFrom fs 0 (Comment.lastOf (a ++ m)) quoted t)).map
        (out ++ m ++ ·)) := by
  -- on the length of what is ahead: a word, or a call, is passed in one step
  induction h : t.length using Nat.strong_induction_on generalizing a m t out changed quoted with
  | h n ih =>
    cases t with
    | nil =>
      rw [List.append_nil, expandBytes, if_neg (lt_irrefl _), expandFrom,
        Slip.bind_ok (Text.slice_rest a m)]
      cases changed with
      | false => rfl
      | true => exact congrArg (Except.ok ∘ some) (List.append_nil _).symm
    | cons c t =>
      subst h
      rw [expandFrom]
      by_cases hcopy :
        (Comment.quotedAfter (Comment.lastOf (a ++ m)) c quoted || !Text.isNameChar c ||
          Text.isNameChar (Comment.lastOf (a ++ m))) = true
      · have hmore := ih t.length (by simp) a (m ++ [c]) t out changed
          (Comment.quotedAfter (Comment.lastOf (a ++ m)) c quoted) rfl
        rw [← List.append_assoc, Comment.lastOf_concat, ← List.append_cons, ← List.append_assoc,
          map_passed] at hmore
        rw [expandBytes_copy hcopy, hmore, if_pos hcopy]
        rfl
      · rw [if_neg hcopy]
        simp only [Bool.or_eq_true, Bool.not_eq_true', not_or, Bool.not_eq_true, Bool.not_eq_false]
          at hcopy
        obtain ⟨⟨hquoted, hc⟩, hlast⟩ := hcopy
        have hplain : c ≠ '"' := Text.ne_of_isNameChar hc (by decide)
        rw [Comment.quotedAfter_plain hplain] at hquoted ⊢
        subst hquoted
        obtain ⟨x, hx, hbyte⟩ := Text.byteAt_first (a ++ m) t c
        have hquote := Text.quoteAt_plain hbyte (mt (Text.eq_byte_iff hx (by decide)).mp hplain)
        have hbefore := nameBefore_append (a ++ m) t c
        rw [hlast] at hbefore
        rw [expandBytes_word hbyte hquote ((Text.isNameByte_eq hx).trans hc) hbefore
          (runEnd_word hc (a ++ m) t)
          (callAt_append fs (a ++ m) (c :: t))]
        cases hcall : callHere? fs (c :: t) with
        | none =>
          -- the scan goes on behind the word, where a pass by characters comes to as well
          have hsplit : t.takeWhile Text.isNameChar ++ t.dropWhile Text.isNameChar = t :=
            List.takeWhile_append_dropWhile
          have hword : ∀ d ∈ t.takeWhile Text.isNameChar, Text.isNameChar d = true :=
            fun d hd => List.mem_takeWhile_imp hd
          have hshort := (List.dropWhile_suffix (l := t) Text.isNameChar).length_le
          have hmore := ih _ (Nat.lt_succ_of_le hshort) a (m ++ c :: t.takeWhile Text.isNameChar)
            (t.dropWhile Text.isNameChar) out changed false rfl
          have hinside := expandFrom_inside fs hc hword false (t.dropWhile Text.isNameChar)
          rw [hsplit] at hinside
          rw [← List.append_assoc a, Comment.lastOf_cons, List.append_assoc (a ++ m),
            List.cons_append, hsplit,
            ← List.append_assoc out, map_passed, List.cons_append, hsplit] at hmore
          rw [Option.map_none, Option.elim_none, List.takeWhile_cons_of_pos hc, hmore, hinside,
            Option.map_map]
          rfl
        | some call =>
          obtain ⟨new, width⟩ := call
          -- the line is copied up to the end of the call, and the pass goes on there
          obtain ⟨f, args, call, rest, hsplit, hcalled, -, rfl⟩ := (callHere?_eq_some hc).mp hcall
          obtain ⟨d, s, rfl, -⟩ := isCall_cons hcalled
          rw [List.cons_append, List.cons.injEq] at hsplit
          obtain ⟨rfl, rfl⟩ := hsplit
          have htake : (c :: (s ++ rest)).take (c :: s).length = c :: s := List.take_left
          have hmore :=
            ih rest.length (by simp) (a ++ m ++ c :: s) [] rest (out ++ m ++ new) true false rfl
          rw [List.append_nil, Comment.lastOf_cons, passed_true, List.append_assoc (a ++ m),
            List.cons_append] at hmore
          rw [Option.map_some, Option.elim_some]
          dsimp only
          rw [htake, Slip.bind_ok (Text.slice_parts a m (c :: (s ++ rest))), hmore,
            List.length_cons, Nat.add_sub_cancel, expandFrom_skip, List.drop_left]
          simp [passed]

theorem expandOnceBytes_eq (fs : LocalFunctions) (line : Text) :
    expandOnceBytes fs line = .ok (fs.expandOnce line) := by
  refine (expandBytes_append fs [] [] line [] false false).trans (congrArg Except.ok ?_)
  change (passed false line (fs.expandOnce line)).map id = fs.expandOnce line
  rw [Option.map_id, passed]
  exact Option.or_none

end LocalFunctions

/-- On every line, for every flag and every store, the scans by offsets come to a result, so no
offset is outside a text or inside a character, no depth falls below zero and no argument is
missing; and the result is the one by characters. An argument list may begin at any offset that
has its parenthesis. -/
theorem byte_offsets_exact (line : Text) (keepDocs active : Bool) (fs : LocalFunctions) :
    Comment.stripLineBytes line keepDocs = .ok (Comment.stripLine line keepDocs) ∧
    Comment.stripBlockBytes line keepDocs active = .ok (Comment.stripBlock line keepDocs active) ∧
    Layout.parseBytes line = .ok (Layout.parse? line) ∧
    Marker.parseBytes line = .ok (Marker.parse? line) ∧
    fs.expandOnceBytes line = .ok (fs.expandOnce line) ∧
    (∀ i, Text.byteAt line i = .ok (Text.byte '(') → ∃ rest, Text.dropBytes i line = some rest ∧
      LocalFunctions.argumentsAt line i = .ok ((LocalFunctions.arguments? rest).map fun call =>
        (call.args, i + Text.utf8Size (rest.take call.width)))) ∧
    ∀ params args : List Text, params.length = args.length →
      LocalFunctions.bindAllBytes line params args = .ok (LocalFunctions.bind line params args) :=
  ⟨Comment.stripLineBytes_eq line keepDocs, Comment.stripBlockBytes_eq line keepDocs active,
    Layout.parseBytes_eq line, Marker.parseBytes_eq line, LocalFunctions.expandOnceBytes_eq fs line,
    fun _ => LocalFunctions.argumentsAt_open, fun _ _ => LocalFunctions.bindAllBytes_eq line⟩

def wideLine : Text := "é f(ü, \")\") ##".toList

theorem byte_offsets_exact_wide :
    Comment.stripLineBytes wideLine false = .ok "é f(ü, \")\") ".toList ∧
    LocalFunctions.argumentsAt wideLine 4 = .ok (some (["ü".toList, "\")\"".toList], 13)) ∧
    LocalFunctions.bindAllBytes wideLine ["f".toList] ["é".toList] =
      .ok "é (é)(ü, \")\") ##".toList ∧
    LocalFunctions.expandOnceBytes ⟨[⟨"f".toList, ["x".toList, "y".toList], "y é x".toList⟩]⟩
        wideLine =
      .ok (some "é ((\")\") é (ü)) ##".toList) := by
  obtain ⟨hline, -, -, -, hexpand, hlist, hbind⟩ := byte_offsets_exact wideLine false false
    ⟨[⟨"f".toList, ["x".toList, "y".toList], "y é x".toList⟩]⟩
  obtain ⟨rest, hrest, hlist⟩ := hlist 4 (by decide)
  have hbehind : Text.dropBytes 4 wideLine = some "(ü, \")\") ##".toList := by decide
  obtain rfl := Option.some.inj (hbehind.symm.trans hrest)
  exact ⟨hline.trans (by decide), hlist.trans (by decide),
    (hbind ["f".toList] ["é".toList] rfl).trans (by decide), hexpand.trans (by decide)⟩

end ScriptFeed
