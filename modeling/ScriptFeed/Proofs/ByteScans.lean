import ScriptFeed.Layout
import ScriptFeed.Proofs.PlacedScans
import ScriptFeed.Proofs.MarkerNames
import ScriptFeed.Proofs.Offsets

namespace ScriptFeed

namespace Text

def quoteBehind (t : Text) (i : Nat) : Except Slip Bool := do
  if (← byteAt t i) = byte '"' then return (← byteBefore t i) != byte '\\' else return false

def quoteAt (t : Text) (i : Nat) : Except Slip Bool := do
  if (← byteAt t i) = byte '"' then
    if i = 0 then return true else return (← byteBefore t i) != byte '\\'
  else return false

variable {t : Text} {i : Nat} {x : UInt8}

theorem quoteBehind_plain (hbyte : byteAt t i = .ok x) (hx : x ≠ byte '"') :
    quoteBehind t i = .ok false := by
  rw [quoteBehind, hbyte]
  exact if_neg hx

theorem quoteBehind_eq (hi : i ≠ 0) : quoteBehind t i = quoteAt t i := by
  simp only [quoteBehind, quoteAt, if_neg hi]

theorem quoteAt_plain (hbyte : byteAt t i = .ok x) (hx : x ≠ byte '"') :
    quoteAt t i = .ok false := by
  rw [quoteAt, hbyte]
  exact if_neg hx

theorem quoteAt_append (a : Text) (c : Char) (t : Text) :
    quoteAt (a ++ c :: t) (utf8Size a) = .ok (c == '"' && Comment.lastOf a != '\\') := by
  obtain ⟨x, hx, hbyte⟩ := byteAt_first a t c
  have hquote : x = byte '"' ↔ c = '"' := eq_byte_iff hx (by decide)
  by_cases hc : c = '"'
  · rw [quoteAt, hbyte, beq_iff_eq.mpr hc, Bool.true_and]
    refine (if_pos (hquote.mpr hc)).trans ?_
    rcases List.eq_nil_or_concat' a with rfl | ⟨a, d, rfl⟩
    · rfl
    · obtain ⟨y, hy, hbefore⟩ := byteBefore_mem a d (c :: t)
      have hback : y = byte '\\' ↔ d = '\\' := eq_byte_iff hy (by decide)
      have hpos : utf8Size (a ++ [d]) ≠ 0 := (utf8Size_pos (by simp)).ne'
      rw [if_neg hpos, hbefore, Comment.lastOf_concat]
      refine congrArg Except.ok ?_
      rw [Bool.eq_iff_iff, bne_iff_ne, bne_iff_ne, ne_eq, ne_eq, hback]
  · rw [quoteAt_plain hbyte (mt hquote.mp hc), beq_eq_false_iff_ne.mpr hc, Bool.false_and]

end Text

namespace Comment

open Text (quoteAt)

def countQuote (t : Text) (i n : Nat) : Except Slip Nat := return if ← quoteAt t i then n + 1 else n

def lineBytes (keepDocs : Bool) (line : Text) (i n : Nat) : Except Slip Text :=
  if i < Text.utf8Size line then do
    let n ← countQuote line i n
    if n % 2 ≠ 0 then lineBytes keepDocs line (i + 1) n
    else
      let rest ← Text.bytesFrom line i
      if keepDocs && Text.startsBytes lineDocMark rest then return line
      else if Text.startsBytes lineMark rest then Text.slice line 0 i
      else lineBytes keepDocs line (i + 1) n
  else return line
termination_by Text.utf8Size line - i

def stripLineBytes (line : Text) (keepDocs : Bool) : Except Slip Text :=
  if line = lineMark then return []
  else if !hasMarker line then return line
  else lineBytes keepDocs line 0 0

def cutComment (t : Text) (i : Nat) : Except Slip (Option Text) := do
  let inside := i + Text.utf8Size blockOpen
  match Text.find? blockClose (← Text.slice t inside (Text.utf8Size t)) with
  | some body => return some (← Text.cutOut t i (inside + body + Text.utf8Size blockClose))
  | none => return none

theorem cutComment_shorter {t u : Text} {i : Nat} (h : cutComment t i = .ok (some u)) :
    Text.utf8Size u < Text.utf8Size t := by
  obtain ⟨inside, -, h⟩ := Slip.bind_eq_ok.mp h
  split at h
  · obtain ⟨v, hcut, hv⟩ := Slip.bind_eq_ok.mp h
    cases hv
    have hsize := Text.cutOut_size hcut
    have hopen : Text.utf8Size blockOpen = 2 := by decide
    omega
  · cases h

def blockBytes (keepDocs : Bool) (line : Text) (active : Bool) (t : Text) (i n : Nat) :
    Except Slip (Text × Bool) :=
  if i < Text.utf8Size t then do
    let n ← countQuote t i n
    if n % 2 ≠ 0 then blockBytes keepDocs line active t (i + 1) n
    else
      let rest ← Text.bytesFrom t i
      if keepDocs && Text.startsBytes blockDocOpen rest then return (line, active)
      else if Text.startsBytes blockOpen rest then
        match _hcut : cutComment t i with
        | .ok (some t) => blockBytes keepDocs line active t i n
        | .ok none => return (← Text.slice t 0 i, true)
        | .error slip => throw slip
      else blockBytes keepDocs line active t (i + 1) n
  else return (t, active)
termination_by Text.utf8Size t - i
decreasing_by
  · omega
  · have hshort := cutComment_shorter _hcut
    omega
  · omega

def stripBlockBytes (line : Text) (keepDocs active : Bool) : Except Slip (Text × Bool) :=
  if line = blockOpen then return ([], true)
  else if !hasMarker line then return (line, active)
  else blockBytes keepDocs line active line 0 0

variable {line t : Text} {bytes : Bytes} {keepDocs active : Bool} {i m n : Nat} {x : UInt8}

theorem countQuote_plain (hbyte : Text.byteAt t i = .ok x) (hx : x ≠ Text.byte '"') (n : Nat) :
    countQuote t i n = .ok n := by
  rw [countQuote, Text.quoteAt_plain hbyte hx]
  rfl

theorem countQuote_append (a : Text) (c : Char) (t : Text) (n : Nat) :
    countQuote (a ++ c :: t) (Text.utf8Size a) n = .ok (passQuote (a ++ c :: t) a.length n) := by
  rw [countQuote, Text.quoteAt_append, passQuote_eq]
  refine congrArg Except.ok ?_
  simp only [Bool.and_eq_true, beq_iff_eq, bne_iff_ne]

theorem lineBytes_step (hcount : countQuote line i n = .ok m)
    (hbytes : Text.bytesFrom line i = .ok bytes)
    (hi : i < Text.utf8Size line) : lineBytes keepDocs line i n =
      if m % 2 = 0 ∧ keepDocs = true ∧ Text.startsBytes lineDocMark bytes = true then .ok line
      else if m % 2 = 0 ∧ Text.startsBytes lineMark bytes = true then Text.slice line 0 i
      else lineBytes keepDocs line (i + 1) m := by
  rw [lineBytes, if_pos hi, hcount]
  change (if m % 2 ≠ 0 then _ else _) = _
  rw [hbytes]
  change (if m % 2 ≠ 0 then _ else if _ then Except.ok line else _) = _
  by_cases hm : m % 2 = 0
  · simp [hm]
  · simp [hm]

theorem lineBytes_wide (hbyte : Text.byteAt line i = .ok x) (hx : 0x80 ≤ x.toNat) :
    lineBytes keepDocs line i n = lineBytes keepDocs line (i + 1) n := by
  obtain ⟨bytes, hbytes⟩ := Text.bytesFrom_of_byteAt hbyte
  have hquote : x ≠ Text.byte '"' := Text.ne_byte hx (by decide)
  rw [lineBytes_step (countQuote_plain hbyte hquote n) hbytes (Text.lt_of_byteAt hbyte),
    lineDocMark, lineMark,
    Text.startsBytes_wide (by decide) hx, Text.startsBytes_wide (by decide) hx]
  simp

theorem lineBytes_cons (keepDocs : Bool) (a : Text) (c : Char) (t : Text) (n : Nat) :
    lineBytes keepDocs (a ++ c :: t) (Text.utf8Size a) n =
      if passQuote (a ++ c :: t) a.length n % 2 = 0 ∧ keepDocs = true ∧
        Text.startsWith lineDocMark (c :: t) = true then .ok (a ++ c :: t)
      else if passQuote (a ++ c :: t) a.length n % 2 = 0 ∧
        Text.startsWith lineMark (c :: t) = true then .ok a
      else lineBytes keepDocs (a ++ c :: t) (Text.utf8Size (a ++ [c]))
        (passQuote (a ++ c :: t) a.length n) := by
  by_cases hc : c.toNat < 0x80
  · rw [lineBytes_step (countQuote_append a c t n) (Text.bytesFrom_append a (c :: t))
      (Text.utf8Size_lt a c t),
      Text.startsBytes_encode (by decide), Text.startsBytes_encode (by decide), Text.slice_start,
      Text.utf8Size_concat hc]
  · -- no byte of the character is looked for: the scan by bytes passes them all
    have hwide : 0x80 ≤ c.toNat := Nat.le_of_not_lt hc
    have hpass : lineBytes keepDocs (a ++ c :: t) (Text.utf8Size a) n =
        lineBytes keepDocs (a ++ c :: t) (Text.utf8Size (a ++ [c])) n :=
      Text.pass_wide (F := fun i => lineBytes keepDocs (a ++ c :: t) i n) hwide fun _ _ =>
        lineBytes_wide
    have hquote : c ≠ '"' := Text.ne_of_wide hwide (by decide)
    have hmark : '#' ≠ c := (Text.ne_of_wide hwide (by decide)).symm
    rw [hpass, passQuote_eq]
    simp [hquote, Text.startsWith, Text.after?, lineDocMark, lineMark, hmark]

theorem lineBytes_append (keepDocs : Bool) (a t : Text) (n : Nat) :
    lineBytes keepDocs (a ++ t) (Text.utf8Size a) n =
      .ok (lineFrom keepDocs (a ++ t) a.length n) := by
  induction t generalizing a n with
  | nil =>
    rw [List.append_nil, lineBytes, if_neg (lt_irrefl _), lineFrom, if_neg (lt_irrefl _)]
    rfl
  | cons c t ih =>
    have hmore := ih (a ++ [c]) (passQuote (a ++ c :: t) a.length n)
    rw [← List.append_cons, List.length_append, List.length_singleton] at hmore
    have hlength : a.length < (a ++ c :: t).length := by simp
    rw [lineBytes_cons, lineFrom, if_pos hlength, hmore]
    simp only [List.drop_left, List.take_left]
    split_ifs <;> rfl

theorem stripLineBytes_eq (line : Text) (keepDocs : Bool) :
    stripLineBytes line keepDocs = .ok (stripLine line keepDocs) := by
  have hscan : lineBytes keepDocs line 0 0 = .ok (lineFrom keepDocs line 0 0) :=
    lineBytes_append keepDocs [] line 0
  rw [stripLineBytes, stripLine, hscan, scanLine_places]
  split_ifs <;> rfl

theorem cutComment_append (a r : Text) :
    cutComment (a ++ blockOpen ++ r) (Text.utf8Size a) =
      .ok ((Text.cut blockClose r).map fun x => a ++ x.2) := by
  have hinside := Text.slice_rest (a ++ blockOpen) r
  rw [Text.utf8Size_append a blockOpen] at hinside
  rw [cutComment, Slip.bind_ok hinside, Text.find?]
  cases hcut : Text.cut blockClose r with
  | none => rfl
  | some x =>
    obtain ⟨body, rest⟩ := x
    have hparts : a ++ blockOpen ++ r = a ++ (blockOpen ++ body ++ blockClose) ++ rest := by
      rw [Text.cut_eq_some hcut]
      simp only [List.append_assoc]
    have hgone := Text.cutOut_parts a (blockOpen ++ body ++ blockClose) rest
    simp only [Text.utf8Size_append, ← Nat.add_assoc] at hgone
    rw [hparts]
    exact Slip.bind_ok hgone _

theorem blockBytes_step (hcount : countQuote t i n = .ok m)
    (hbytes : Text.bytesFrom t i = .ok bytes)
    (hi : i < Text.utf8Size t) : blockBytes keepDocs line active t i n =
      if m % 2 = 0 ∧ keepDocs = true ∧ Text.startsBytes blockDocOpen bytes = true then
        .ok (line, active)
      else if m % 2 = 0 ∧ Text.startsBytes blockOpen bytes = true then
        match cutComment t i with
        | .ok (some t) => blockBytes keepDocs line active t i m
        | .ok none => return (← Text.slice t 0 i, true)
        | .error slip => throw slip
      else blockBytes keepDocs line active t (i + 1) m := by
  rw [blockBytes, if_pos hi, hcount]
  change (if m % 2 ≠ 0 then _ else _) = _
  rw [hbytes]
  change (if m % 2 ≠ 0 then _ else if _ then Except.ok (line, active) else _) = _
  by_cases hm : m % 2 = 0
  · simp only [hm, ne_eq, not_true, if_false, Bool.and_eq_true, true_and]
    congr 2
    split
    next hcut => rw [hcut]
    next hcut => rw [hcut]
    next hcut => rw [hcut]
  · simp [hm]

theorem blockBytes_wide (hbyte : Text.byteAt t i = .ok x) (hx : 0x80 ≤ x.toNat) :
    blockBytes keepDocs line active t i n = blockBytes keepDocs line active t (i + 1) n := by
  obtain ⟨bytes, hbytes⟩ := Text.bytesFrom_of_byteAt hbyte
  have hquote : x ≠ Text.byte '"' := Text.ne_byte hx (by decide)
  rw [blockBytes_step (countQuote_plain hbyte hquote n) hbytes (Text.lt_of_byteAt hbyte),
    blockDocOpen, blockOpen,
    Text.startsBytes_wide (by decide) hx, Text.startsBytes_wide (by decide) hx]
  simp

theorem blockBytes_cons (keepDocs : Bool) (line : Text) (active : Bool) (a : Text) (c : Char)
    (t : Text) (n : Nat) :
    blockBytes keepDocs line active (a ++ c :: t) (Text.utf8Size a) n =
      if passQuote (a ++ c :: t) a.length n % 2 = 0 ∧ keepDocs = true ∧
        Text.startsWith blockDocOpen (c :: t) = true then .ok (line, active)
      else if passQuote (a ++ c :: t) a.length n % 2 = 0 ∧
        Text.startsWith blockOpen (c :: t) = true then
        (Text.cut blockClose (t.drop 1)).elim (.ok (a, true)) fun x =>
          blockBytes keepDocs line active (a ++ x.2) (Text.utf8Size a)
            (passQuote (a ++ c :: t) a.length n)
      else blockBytes keepDocs line active (a ++ c :: t) (Text.utf8Size (a ++ [c]))
        (passQuote (a ++ c :: t) a.length n) := by
  by_cases hc : c.toNat < 0x80
  · rw [blockBytes_step (countQuote_append a c t n) (Text.bytesFrom_append a (c :: t))
      (Text.utf8Size_lt a c t),
      Text.startsBytes_encode (by decide), Text.startsBytes_encode (by decide),
      Text.utf8Size_concat hc]
    refine if_congr Iff.rfl rfl ?_
    by_cases hopen : Text.startsWith blockOpen (c :: t) = true
    · obtain ⟨r, hr⟩ := Text.startsWith_iff.mp hopen
      obtain rfl : t.drop 1 = r := congrArg (List.drop 2) hr
      have hcut := cutComment_append a (t.drop 1)
      rw [List.append_assoc, ← hr] at hcut
      rw [hcut]
      refine if_congr Iff.rfl ?_ rfl
      cases Text.cut blockClose (t.drop 1) with
      | none => exact Slip.bind_ok (Text.slice_start a (c :: t)) _
      | some x => rfl
    · rw [if_neg (fun h => hopen h.2), if_neg (fun h => hopen h.2)]
  · have hwide : 0x80 ≤ c.toNat := Nat.le_of_not_lt hc
    have hpass : blockBytes keepDocs line active (a ++ c :: t) (Text.utf8Size a) n =
        blockBytes keepDocs line active (a ++ c :: t) (Text.utf8Size (a ++ [c])) n :=
      Text.pass_wide (F := fun i => blockBytes keepDocs line active (a ++ c :: t) i n) hwide
        fun _ _ => blockBytes_wide
    have hquote : c ≠ '"' := Text.ne_of_wide hwide (by decide)
    have hmark : '#' ≠ c := (Text.ne_of_wide hwide (by decide)).symm
    rw [hpass, passQuote_eq]
    simp [hquote, Text.startsWith, Text.after?, blockDocOpen, blockOpen, hmark]

theorem blockBytes_append (keepDocs : Bool) (line : Text) (active : Bool) (a t : Text) (n : Nat) :
    blockBytes keepDocs line active (a ++ t) (Text.utf8Size a) n =
      .ok (blocksFrom keepDocs line active (a ++ t) a.length n) := by
  -- on the length of what is ahead: a comment that is cut out takes more than one character away
  induction h : t.length using Nat.strong_induction_on generalizing a t n with
  | h k ih =>
    cases t with
    | nil =>
      rw [List.append_nil, blockBytes, if_neg (lt_irrefl _), blocksFrom, if_neg (lt_irrefl _)]
      rfl
    | cons c t =>
      subst h
      have hmore := ih t.length (by simp) (a ++ [c]) t (passQuote (a ++ c :: t) a.length n) rfl
      rw [← List.append_cons, List.length_append, List.length_singleton] at hmore
      have hlength : a.length < (a ++ c :: t).length := by simp
      have hbehind : (a ++ c :: t).drop (a.length + blockOpen.length) = t.drop 1 := by
        rw [List.drop_length_add_append]
        rfl
      rw [blockBytes_cons, blocksFrom, if_pos hlength, hmore]
      simp only [List.drop_left, List.take_left]
      split
      · rfl
      · split
        · split
          next body rest hcut =>
            rw [hbehind] at hcut
            have hshort := congrArg List.length (Text.cut_eq_some hcut)
            simp only [List.length_append, List.length_drop, blockClose, List.length_cons,
              List.length_nil] at hshort
            rw [hcut, Option.elim_some]
            exact ih rest.length (by simp; omega) a rest _ rfl
          next hcut =>
            rw [hbehind] at hcut
            rw [hcut, Option.elim_none]
        · rfl

theorem stripBlockBytes_eq (line : Text) (keepDocs active : Bool) :
    stripBlockBytes line keepDocs active = .ok (stripBlock line keepDocs active) := by
  have hscan : blockBytes keepDocs line active line 0 0 =
      .ok (blocksFrom keepDocs line active line 0 0) :=
    blockBytes_append keepDocs line active [] line 0
  rw [stripBlockBytes, stripBlock, hscan, scanBlock_places]
  split_ifs <;> rfl

end Comment

namespace Layout

open Text (byteAt quoteBehind slice utf8Size)

def spaceBytes (line : Text) (i n : Nat) : Except Slip Text :=
  if i < utf8Size line then do
    let n := if ← quoteBehind line i then n + 1 else n
    if n % 2 = 0 ∧ (← byteAt line i) = Text.byte ' ' then slice line i (utf8Size line)
    else spaceBytes line (i + 1) n
  else return []
termination_by utf8Size line - i

def endBytes (t : Text) : Except Slip (Text × Bool) :=
  match Text.find? endKeyword t with
  | some i => return (← slice t 0 (i + utf8Size endKeyword), true)
  | none => return (t, false)

def parseBytes (line : Text) : Except Slip (Option Layout) :=
  match Text.after? keyword line with
  | none => return none
  | some rest => do
    let offset := utf8Size keyword + (← minus (utf8Size rest) (utf8Size (Text.trimStart rest)))
    match Argument.readAt line offset with
    | [] => return none
    | file =>
      let (header, complete) ← endBytes (keyword ++ (← spaceBytes line offset 0))
      return some { file, header, complete }

variable {a line : Text} {prev : Char} {quoted : Bool} {i n : Nat} {x : UInt8}

theorem spaceBytes_step (hquote : quoteBehind line i = .ok quoted) (hbyte : byteAt line i = .ok x) :
    spaceBytes line i n =
      if (if quoted then n + 1 else n) % 2 = 0 ∧ x = Text.byte ' ' then slice line i (utf8Size line)
      else spaceBytes line (i + 1) (if quoted then n + 1 else n) := by
  rw [spaceBytes, if_pos (Text.lt_of_byteAt hbyte), Slip.bind_ok hquote, Slip.bind_ok hbyte]

theorem spaceBytes_wide (hbyte : byteAt line i = .ok x) (hx : 0x80 ≤ x.toNat) :
    spaceBytes line i n = spaceBytes line (i + 1) n := by
  have hquote : x ≠ Text.byte '"' := Text.ne_byte hx (by decide)
  have hspace : x ≠ Text.byte ' ' := Text.ne_byte hx (by decide)
  rw [spaceBytes_step (Text.quoteBehind_plain hbyte hquote) hbyte, if_neg (fun h => hspace h.2)]
  rfl

theorem spaceBytes_cons (ha : a ≠ []) (c : Char) (t : Text) (n : Nat) :
    spaceBytes (a ++ c :: t) (utf8Size a) n =
      if Comment.quotedAfter (Comment.lastOf a) c (decide (n % 2 = 1)) = false ∧ c = ' ' then
        .ok (c :: t)
      else spaceBytes (a ++ c :: t) (utf8Size (a ++ [c]))
        (if c = '"' ∧ Comment.lastOf a ≠ '\\' then n + 1 else n) := by
  by_cases hc : c.toNat < 0x80
  · have hquote := Text.quoteAt_append a c t
    rw [← Text.quoteBehind_eq (Text.utf8Size_pos ha).ne'] at hquote
    obtain ⟨x, hx, hbyte⟩ := Text.byteAt_first a t c
    have hspace : x = Text.byte ' ' ↔ c = ' ' := Text.eq_byte_iff hx (by decide)
    rw [spaceBytes_step hquote hbyte, Text.slice_rest, Comment.quotedAfter_parity,
      Text.utf8Size_concat hc]
    simp only [Bool.and_eq_true, beq_iff_eq, bne_iff_ne, hspace, decide_eq_false_iff_not,
      Nat.mod_two_not_eq_one]
  · have hwide : 0x80 ≤ c.toNat := Nat.le_of_not_lt hc
    have hpass : spaceBytes (a ++ c :: t) (utf8Size a) n =
        spaceBytes (a ++ c :: t) (utf8Size (a ++ [c])) n :=
      Text.pass_wide (F := fun i => spaceBytes (a ++ c :: t) i n) hwide fun _ _ => spaceBytes_wide
    have hquote : c ≠ '"' := Text.ne_of_wide hwide (by decide)
    have hspace : c ≠ ' ' := Text.ne_of_wide hwide (by decide)
    rw [hpass, if_neg (fun h => hspace h.2), if_neg (fun h => hquote h.1)]

theorem spaceBytes_append (ha : a ≠ []) (t : Text) (n : Nat) :
    spaceBytes (a ++ t) (utf8Size a) n =
      .ok (fromSpace (Comment.lastOf a) (decide (n % 2 = 1)) t) := by
  induction t generalizing a n with
  | nil =>
    rw [List.append_nil, spaceBytes, if_neg (lt_irrefl _)]
    rfl
  | cons c t ih =>
    have hmore :=
      ih (List.concat_ne_nil c a) (if c = '"' ∧ Comment.lastOf a ≠ '\\' then n + 1 else n)
    rw [← List.append_cons, Comment.lastOf_concat, ← Comment.quotedAfter_parity] at hmore
    rw [spaceBytes_cons ha, hmore, fromSpace]
    simp only [Bool.and_eq_true, Bool.not_eq_true', beq_iff_eq]
    split_ifs <;> rfl

theorem fromSpace_prev (hprev : prev ≠ '\\') (quoted : Bool) (t : Text) :
    fromSpace prev quoted t = fromSpace Comment.lineStart quoted t := by
  cases t with
  | nil => rfl
  | cons c t =>
    have hstart : Comment.lineStart ≠ '\\' := by decide
    simp only [fromSpace, Comment.quotedAfter, bne_iff_ne.mpr hprev, bne_iff_ne.mpr hstart]

theorem endBytes_eq (t : Text) : endBytes t = .ok (upToEnd t) := by
  rw [endBytes, upToEnd, Text.find?]
  cases hcut : Text.cut endKeyword t with
  | none => rfl
  | some x =>
    obtain ⟨before, after⟩ := x
    have hslice := Text.slice_start (before ++ endKeyword) after
    rw [← Text.cut_eq_some hcut, Text.utf8Size_append] at hslice
    exact Slip.bind_ok hslice _

theorem parseBytes_eq (line : Text) : parseBytes line = .ok (parse? line) := by
  rw [parseBytes, parse?]
  cases hafter : Text.after? keyword line with
  | none => rfl
  | some rest =>
    -- the text is cut where the file name begins: behind the keyword and the blanks
    have hrest : rest.takeWhile Text.isBlank ++ Text.trimStart rest = rest :=
      List.takeWhile_append_dropWhile
    have hline : line = keyword ++ rest.takeWhile Text.isBlank ++ Text.trimStart rest := by
      rw [List.append_assoc, hrest]
      exact Text.after?_eq_some.mp hafter
    have hsize := congrArg Text.utf8Size hrest
    rw [Text.utf8Size_append] at hsize
    have hminus : minus (utf8Size rest) (utf8Size (Text.trimStart rest)) =
        .ok (utf8Size (rest.takeWhile Text.isBlank)) := by
      rw [minus, if_neg (by omega), ← hsize, Nat.add_sub_cancel]
    have hfront : keyword ++ rest.takeWhile Text.isBlank ≠ [] :=
      List.append_ne_nil_of_left_ne_nil (by decide) _
    have hlast : Comment.lastOf (keyword ++ rest.takeWhile Text.isBlank) ≠ '\\' := by
      apply Comment.lastOf_ne
      rw [List.mem_append, not_or]
      exact ⟨by decide, fun h => absurd (List.mem_takeWhile_imp h) (by decide)⟩
    have hspace := spaceBytes_append hfront (Text.trimStart rest) 0
    rw [fromSpace_prev hlast, ← hline] at hspace
    have hread : Argument.readAt line (utf8Size (keyword ++ rest.takeWhile Text.isBlank)) =
        Argument.read (Text.trimStart rest) := by
      rw [Argument.readAt, hline, Text.dropBytes_append]
    dsimp only
    rw [Slip.bind_ok hminus, ← Text.utf8Size_append, hread]
    cases Argument.read (Text.trimStart rest) with
    | nil => rfl
    | cons c file => exact (Slip.bind_ok hspace _).trans (Slip.bind_ok (endBytes_eq _) _)

end Layout

namespace Scope

def named (t : Text) : Scope :=
  if Text.contains "defines".toList t then defines
  else if Text.contains "globals".toList t then globals
  else if Text.contains "procedures".toList t then procedures
  else all

def suffixBytes (t : Text) : Except Slip Scope :=
  match Text.find? [':'] t with
  | some i => return named (← Text.slice t (i + 1) (Text.utf8Size t))
  | none => return all

theorem suffixBytes_eq (t : Text) : suffixBytes t = .ok (ofSuffix t) := by
  rw [suffixBytes, ofSuffix, Text.find?, Text.cutAt]
  cases hcut : Text.cut [':'] t with
  | none => rfl
  | some x =>
    obtain ⟨a, b⟩ := x
    have hslice := Text.slice_rest (a ++ [':']) b
    rw [← Text.cut_eq_some hcut, Text.utf8Size_concat (by decide)] at hslice
    exact Slip.bind_ok hslice _

end Scope

namespace Marker

open Text (slice utf8Size)

def colonBytes (word : Text) : Option Nat :=
  match Text.findLast? ':' word with
  | some i =>
    let behind := (Utf8.encode word)[2]?
    if i = 1 ∧ (behind = some (Text.byte '/') ∨ behind = some (Text.byte '\\')) then none
    else some i
  | none => none

def splitBytes (t : Text) : Except Slip (Text × Text) :=
  match Text.after? ['"'] t with
  | some inner =>
    match Text.find? ['"'] inner with
    | some i => return (← slice inner 0 i, ← slice inner (i + 1) (utf8Size inner))
    | none => return (inner, [])
  | none => do
    let stop := (Text.find? [' '] t).getD (utf8Size t)
    match colonBytes (← slice t 0 stop) with
    | some i => return (← slice t 0 i, ← slice t i (utf8Size t))
    | none => return (← slice t 0 stop, ← slice t stop (utf8Size t))

def parseBytes (line : Text) : Except Slip (Option Marker) :=
  match Text.after? ['@'] line with
  | none => return none
  | some rest =>
    if rest = [] ∨ Text.startsWith [' '] rest = true then return none
    else do
      let (name, suffix) ← splitBytes rest
      return some ⟨name, ← Scope.suffixBytes suffix⟩

variable {before after : Text} {c : Char}

theorem isDriveColon_iff : isDriveColon before after = true ↔
    utf8Size before = 1 ∧ (after.head? = some '/' ∨ after.head? = some '\\') := by
  match before with
  | [] => simp [isDriveColon, Text.utf8Size]
  | [c] =>
    have hsize : utf8Size [c] = c.utf8Size := rfl
    cases after with
    | nil => simp [isDriveColon]
    | cons d r =>
      by_cases hslash : d = '/'
      · simp [isDriveColon, hslash, hsize]
      · by_cases hback : d = '\\'
        · simp [isDriveColon, hback, hsize]
        · simp [isDriveColon, hslash, hback]
  | c :: d :: before =>
    have hc := Char.utf8Size_pos c
    have hd := Char.utf8Size_pos d
    have hsize : utf8Size (c :: d :: before) ≠ 1 := by
      rw [Text.utf8Size_cons, Text.utf8Size_cons]
      omega
    simp [isDriveColon, hsize]

theorem colonBytes_eq (word : Text) : colonBytes word =
    (Text.cutLast ':' word).bind fun x =>
      if isDriveColon x.1 x.2 then none else some (utf8Size x.1) := by
  rw [colonBytes, Text.findLast?]
  cases hcut : Text.cutLast ':' word with
  | none => rfl
  | some x =>
    obtain ⟨before, after⟩ := x
    -- behind one byte and a colon, the third byte is the first one of the rest
    have hthird (e : Char) (he : e.toNat < 0x80) (hone : utf8Size before = 1) :
        (Utf8.encode word)[2]? = some (Text.byte e) ↔ after.head? = some e := by
      have hsize : utf8Size (before ++ [':']) = 2 := by rw [Text.utf8Size_concat (by decide), hone]
      have hbehind := Text.byte_behind he (before ++ [':']) after
      rwa [hsize, ← List.append_cons, ← Text.cutLast_eq_some hcut] at hbehind
    have hdrive : (utf8Size before = 1 ∧ ((Utf8.encode word)[2]? = some (Text.byte '/') ∨
        (Utf8.encode word)[2]? = some (Text.byte '\\'))) ↔ isDriveColon before after = true := by
      rw [isDriveColon_iff]
      refine and_congr_right fun hone => ?_
      rw [hthird '/' (by decide) hone, hthird '\\' (by decide) hone]
    simp only [Option.map_some, Option.bind_some, hdrive]

theorem splitBytes_quoted (r : Text) :
    splitBytes ('"' :: r) = .ok ((Text.cutAt '"' r).getD (r, [])) := by
  have hafter : Text.after? ['"'] ('"' :: r) = some r := rfl
  rw [splitBytes, hafter, Text.cutAt]
  dsimp only
  rw [Text.find?]
  cases hcut : Text.cut ['"'] r with
  | none => rfl
  | some x =>
    obtain ⟨name, suffix⟩ := x
    have hr : r = name ++ ['"'] ++ suffix := Text.cut_eq_some hcut
    have hname := Text.slice_start name (['"'] ++ suffix)
    have hsuffix := Text.slice_rest (name ++ ['"']) suffix
    rw [← List.append_assoc, ← hr] at hname
    rw [← hr, Text.utf8Size_concat (by decide)] at hsuffix
    exact (Slip.bind_ok hname _).trans (Slip.bind_ok hsuffix _)

theorem splitBytes_bare (hc : c ≠ '"') (r : Text) :
    splitBytes (c :: r) = .ok (splitBare (c :: r)) := by
  have hafter : Text.after? ['"'] (c :: r) = none := by simp [Text.after?, hc.symm]
  rw [splitBytes, hafter, splitBare]
  dsimp only
  rw [Text.getD_find?]
  generalize hw : (c :: r).takeWhile (· ≠ ' ') = word
  have hbegins : word <+: c :: r := by
    rw [← hw]
    exact List.takeWhile_prefix _
  have hsplit : word ++ (c :: r).drop word.length = c :: r := List.prefix_iff_eq_append.mp hbegins
  have hword := Text.slice_start word ((c :: r).drop word.length)
  have hrest := Text.slice_rest word ((c :: r).drop word.length)
  rw [hsplit] at hword hrest
  have hwhole : (do return (← slice (c :: r) 0 (utf8Size word),
      ← slice (c :: r) (utf8Size word) (utf8Size (c :: r)))) =
        Except.ok (word, (c :: r).drop word.length) :=
          (Slip.bind_ok hword _).trans (Slip.bind_ok hrest _)
  rw [Slip.bind_ok hword, colonBytes_eq]
  cases hcut : Text.cutLast ':' word with
  | none => exact hwhole
  | some x =>
    obtain ⟨name, suffix⟩ := x
    rw [Option.bind_some]
    dsimp only
    cases isDriveColon name suffix with
    | true => exact hwhole
    | false =>
      have hname := Text.slice_start name (':' :: suffix ++ (c :: r).drop word.length)
      have hsuffix := Text.slice_rest name (':' :: suffix ++ (c :: r).drop word.length)
      rw [← List.append_assoc, ← Text.cutLast_eq_some hcut, hsplit] at hname hsuffix
      exact (Slip.bind_ok hname _).trans (Slip.bind_ok hsuffix _)

theorem parseBytes_at (t : Text) : parseBytes ('@' :: t) = .ok (parse? ('@' :: t)) := by
  have hafter : Text.after? ['@'] ('@' :: t) = some t := rfl
  cases t with
  | nil => rfl
  | cons c r =>
    rcases eq_or_ne c ' ' with rfl | hspace
    · rfl
    have hnamed : ¬(c :: r = [] ∨ Text.startsWith [' '] (c :: r) = true) := by
      simp [Text.startsWith, Text.after?, hspace.symm]
    rw [parseBytes, hafter]
    dsimp only
    rw [if_neg hnamed]
    rcases eq_or_ne c '"' with rfl | hquote
    · rw [Slip.bind_ok (splitBytes_quoted r), parse?]
      cases Text.cutAt '"' r with
      | none => rfl
      | some x => exact Slip.bind_ok (Scope.suffixBytes_eq x.2) _
    · rw [Slip.bind_ok (splitBytes_bare hquote r), parse?_at hspace hquote]
      exact Slip.bind_ok (Scope.suffixBytes_eq _) _

theorem parseBytes_eq (line : Text) : parseBytes line = .ok (parse? line) := by
  cases line with
  | nil => rfl
  | cons c t =>
    by_cases hc : c = '@'
    · rw [hc, parseBytes_at]
    · have hafter : Text.after? ['@'] (c :: t) = none := by simp [Text.after?, Ne.symm hc]
      have hnone : parse? (c :: t) = none := by simp [parse?, hc]
      rw [parseBytes, hafter, hnone]
      rfl

end Marker

end ScriptFeed
