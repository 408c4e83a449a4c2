import ScriptFeed.Proofs.Cutting
import ScriptFeed.Proofs.Scanning

namespace ScriptFeed

namespace Argument

open Comment

variable {needle key word v t rest : Text} {prev c : Char} {quoted : Bool}

def escape (v : Text) : Text := v.flatMap fun c => if c = '"' then ['\\', '"'] else [c]

theorem escape_quote (v : Text) : escape ('"' :: v) = '\\' :: '"' :: escape v := by
  simp [escape]

theorem escape_cons (hc : c ≠ '"') (v : Text) : escape (c :: v) = c :: escape v := by
  simp [escape, hc]

theorem unquote_escape (h : '\\' ∉ v) (rest : Text) : unquote (escape v ++ '"' :: rest) = v := by
  induction v with
  | nil => rfl
  | cons c v ih =>
    have hrest := ih (List.not_mem_of_not_mem_cons h)
    have hslash : c ≠ '\\' := Ne.symm (List.ne_of_not_mem_cons h)
    by_cases hc : c = '"'
    · subst hc
      rw [escape_quote, List.cons_append, List.cons_append, unquote, hrest]
    · rw [escape_cons hc, List.cons_append, unquote_plain hslash hc, hrest]

theorem read_escape (h : '\\' ∉ v) (rest : Text) : read ('"' :: (escape v ++ '"' :: rest)) = v := by
  rw [read, Text.trimStart_cons (by decide)]
  exact unquote_escape h rest

def behind (needle : Text) (prev : Char) (quoted : Bool) (t : Text) : Option Text :=
  (locate needle prev quoted t).map Prod.snd

theorem value?_eq (t key : Text) :
    value? t key = (behind (key ++ ['=']) lineStart false t).map read := by
  rw [value?, find?, behind, Option.map_map]
  rfl

theorem behind_cons (h : quoted = true ∨ c = '"' ∧ prev ≠ '\\' ∨ Text.isNameChar prev = true ∨
    Text.after? needle (c :: t) = none) :
    behind needle prev quoted (c :: t) = behind needle c (quotedAfter prev c quoted) t := by
  rw [behind, locate, behind, quotedAfter]
  by_cases hquote : (c == '"' && prev != '\\') = true
  · rw [if_pos hquote, if_pos hquote, Option.map_map]
    rfl
  · rw [if_neg hquote, if_neg hquote]
    have hnone : (if quoted || Text.isNameChar prev then none else Text.after? needle (c :: t)) =
        none := by
      rcases h with rfl | h | h | h
      · rfl
      · exact absurd h (by simpa using hquote)
      · rw [h, Bool.or_true, if_pos rfl]
      · rw [h, ite_self]
    rw [hnone]
    dsimp only
    rw [Option.map_map]
    rfl

theorem behind_escape (h : '\\' ∉ v) (hprev : prev ≠ '\\') (rest : Text) :
    behind needle prev true (escape v ++ '"' :: rest) = behind needle '"' false rest := by
  induction v generalizing prev with
  | nil =>
    change behind needle prev true ('"' :: rest) = _
    rw [behind_cons (.inl rfl)]
    simp [quotedAfter, hprev]
  | cons c v ih =>
    have hv : '\\' ∉ v := List.not_mem_of_not_mem_cons h
    by_cases hc : c = '"'
    · -- the quote has a backslash in front and does not end the value
      subst hc
      rw [escape_quote, List.cons_append, List.cons_append, behind_cons (.inl rfl),
        quotedAfter_plain (by decide), behind_cons (.inl rfl)]
      exact ih hv (by decide)
    · rw [escape_cons hc, List.cons_append, behind_cons (.inl rfl), quotedAfter_plain hc]
      exact ih hv (Ne.symm (List.ne_of_not_mem_cons h))

theorem behind_word (hword : ∀ c ∈ word, Text.isNameChar c = true)
    (hprev : Text.isNameChar prev = true) (t : Text) :
    behind needle prev false (word ++ '=' :: t) = behind needle '=' false t := by
  induction word generalizing prev with
  | nil =>
    rw [List.nil_append, behind_cons (.inr (.inr (.inl hprev))), quotedAfter_plain (by decide)]
  | cons c word ih =>
    obtain ⟨hc, hword⟩ := List.forall_mem_cons.mp hword
    have hquote : c ≠ '"' := Text.ne_of_isNameChar hc (by decide)
    rw [List.cons_append, behind_cons (.inr (.inr (.inl hprev))), quotedAfter_plain hquote]
    exact ih hword hc

theorem after?_key (hword : ∀ c ∈ word, Text.isNameChar c = true)
    (hkey : ∀ c ∈ key, Text.isNameChar c = true) (t : Text) :
    Text.after? (key ++ ['=']) (word ++ '=' :: t) = if word = key then some t else none := by
  by_cases he : word = key
  · rw [if_pos he, he, Text.after?_eq_some, List.append_assoc]
    rfl
  · rw [if_neg he, Option.eq_none_iff_forall_ne_some]
    intro rest hrest
    rw [Text.after?_eq_some, List.append_assoc] at hrest
    -- neither word has the sign in it, so both sides are cut at the same place
    have hleft : Text.cut ['='] (word ++ '=' :: t) = some (word, t) :=
      Text.cut_append [] (Text.not_mem_word hword (by decide)) t
    have hright : Text.cut ['='] (key ++ (['='] ++ rest)) = some (key, rest) :=
      Text.cut_append [] (Text.not_mem_word hkey (by decide)) rest
    rw [hrest, hright] at hleft
    injection hleft with hpair
    exact he (congrArg Prod.fst hpair).symm

theorem behind_here (hprev : Text.isNameChar prev = false) (hc : c ≠ '"')
    (h : Text.after? needle (c :: t) = some rest) :
    behind needle prev false (c :: t) = some rest := by
  have hquote : ¬(c == '"' && prev != '\\') = true := by simp [hc]
  rw [behind, locate, if_neg hquote, Bool.false_or, if_neg (Bool.eq_false_iff.mp hprev), h]
  rfl

def field (key v : Text) : Text := key ++ '=' :: '"' :: (escape v ++ ['"'])

theorem field_append (key v t : Text) :
    field key v ++ t = key ++ '=' :: '"' :: (escape v ++ '"' :: t) := by
  simp [field]

theorem behind_field (hne : word ≠ []) (hword : ∀ c ∈ word, Text.isNameChar c = true)
    (hkey : ∀ c ∈ key, Text.isNameChar c = true) (hprev : Text.isNameChar prev = false)
    (hv : '\\' ∉ v) (t : Text) :
    behind (key ++ ['=']) prev false (field word v ++ t) =
      if word = key then some ('"' :: (escape v ++ '"' :: t))
      else behind (key ++ ['=']) '"' false t := by
  have hafter := after?_key hword hkey ('"' :: (escape v ++ '"' :: t))
  obtain ⟨c, w, rfl⟩ := List.exists_cons_of_ne_nil hne
  obtain ⟨hc, hw⟩ := List.forall_mem_cons.mp hword
  have hquote : c ≠ '"' := Text.ne_of_isNameChar hc (by decide)
  rw [field_append]
  by_cases he : c :: w = key
  · rw [if_pos he] at hafter ⊢
    exact behind_here hprev hquote hafter
  · rw [if_neg he] at hafter ⊢
    rw [List.cons_append] at hafter ⊢
    rw [behind_cons (.inr (.inr (.inr hafter))), quotedAfter_plain hquote,
      behind_word hw hc, behind_cons (.inr (.inl ⟨rfl, by decide⟩))]
    exact behind_escape hv (by decide) t

def write (fields : List (Text × Text)) : Text := Text.join ' ' (fields.map fun x => field x.1 x.2)

theorem write_cons (x y : Text × Text) (fields : List (Text × Text)) :
    write (x :: y :: fields) = field x.1 x.2 ++ ' ' :: write (y :: fields) := rfl

theorem write_single (x : Text × Text) : write [x] = field x.1 x.2 ++ [] := by
  rw [List.append_nil]
  rfl

structure Readable (fields : List (Text × Text)) : Prop where
  named : ∀ x ∈ fields, x.1 ≠ []
  words : ∀ x ∈ fields, ∀ c ∈ x.1, Text.isNameChar c = true
  plain : ∀ x ∈ fields, '\\' ∉ x.2

theorem Readable.tail {x : Text × Text} {fields : List (Text × Text)} (h : Readable (x :: fields)) :
    Readable fields where
  named y hy := h.named y (List.mem_cons_of_mem x hy)
  words y hy := h.words y (List.mem_cons_of_mem x hy)
  plain y hy := h.plain y (List.mem_cons_of_mem x hy)

theorem behind_space (hkey : ∀ c ∈ key, Text.isNameChar c = true) (t : Text) :
    behind (key ++ ['=']) prev false (' ' :: t) = behind (key ++ ['=']) ' ' false t := by
  have hafter : Text.after? (key ++ ['=']) (' ' :: t) = none := by
    cases key with
    | nil => rfl
    | cons c key => exact if_neg (Text.ne_of_isNameChar (hkey c List.mem_cons_self) (by decide))
  rw [behind_cons (.inr (.inr (.inr hafter))), quotedAfter_plain (by decide)]

theorem behind_write {fields : List (Text × Text)} (h : Readable fields)
    (hkey : ∀ c ∈ key, Text.isNameChar c = true) (hprev : Text.isNameChar prev = false) :
    (behind (key ++ ['=']) prev false (write fields)).map read = fields.lookup key := by
  induction fields generalizing prev with
  | nil => rfl
  | cons x fields ih =>
    have hplain : '\\' ∉ x.2 := h.plain x List.mem_cons_self
    have hfield (t : Text) := behind_field (h.named x List.mem_cons_self)
      (h.words x List.mem_cons_self) hkey hprev hplain t
    -- what stands behind the field is looked at only if the key is another one
    have hstep (t : Text) (ht : (behind (key ++ ['=']) '"' false t).map read = fields.lookup key) :
        (behind (key ++ ['=']) prev false (field x.1 x.2 ++ t)).map read =
          (x :: fields).lookup key := by
      obtain ⟨word, v⟩ := x
      rw [hfield, List.lookup_cons]
      by_cases he : word = key
      · rw [if_pos he, Option.map_some, read_escape hplain, beq_iff_eq.mpr he.symm]
      · rw [if_neg he, ht, beq_eq_false_iff_ne.mpr (Ne.symm he)]
    cases fields with
    | nil =>
      rw [write_single]
      exact hstep [] rfl
    | cons y fields =>
      rw [write_cons]
      apply hstep
      rw [behind_space hkey]
      exact ih h.tail (by decide)

theorem value?_write {fields : List (Text × Text)} (h : Readable fields)
    (hkey : ∀ c ∈ key, Text.isNameChar c = true) :
    value? (write fields) key = fields.lookup key := by
  rw [value?_eq]
  exact behind_write h hkey (by decide)

theorem write_closed {fields : List (Text × Text)} (hne : fields ≠ []) :
    ∃ t, write fields = t ++ ['"'] := by
  induction fields with
  | nil => exact absurd rfl hne
  | cons x fields ih =>
    cases fields with
    | nil => exact ⟨x.1 ++ '=' :: '"' :: escape x.2, by simp [write_single, field]⟩
    | cons y fields =>
      obtain ⟨t, ht⟩ := ih (List.cons_ne_nil y fields)
      exact ⟨field x.1 x.2 ++ ' ' :: t, by simp [write_cons, ht]⟩

theorem write_trimmed {fields : List (Text × Text)} (h : Readable fields) :
    Text.Trimmed (write fields) := by
  cases fields with
  | nil => rfl
  | cons x fields =>
    obtain ⟨c, w, hx⟩ := List.exists_cons_of_ne_nil (h.named x List.mem_cons_self)
    have hc : Text.isNameChar c = true :=
      h.words x List.mem_cons_self c (hx ▸ List.mem_cons_self)
    have hhead : (write (x :: fields)).head? = some c := by
      cases fields with
      | nil => simp [write_single, field, hx]
      | cons y fields => simp [write_cons, field, hx]
    obtain ⟨t, ht⟩ := write_closed (List.cons_ne_nil x fields)
    rw [Text.trimmed_iff, hhead, ht, List.getLast?_concat]
    constructor
    · rintro _ ⟨⟩
      exact Text.isBlank_of_isNameChar hc
    · rintro _ ⟨⟩
      decide

end Argument

namespace Text

theorem trimOf_free {x : Char} {t : Text} (h : x ∉ t) : trimOf x t = t := by
  have hdrop (u : Text) (hu : x ∉ u) : u.dropWhile (· == x) = u := by
    cases u with
    | nil => rfl
    | cons c u =>
      refine List.dropWhile_cons_of_neg ?_
      rw [beq_iff_eq]
      exact Ne.symm (List.ne_of_not_mem_cons hu)
  rw [trimOf, hdrop t h, hdrop t.reverse (by simpa using h), List.reverse_reverse]

end Text

theorem Argument.list_commaList {ps : List Text}
    (h : ∀ p ∈ ps, ',' ∉ p ∧ '"' ∉ p ∧ Text.Trimmed p) :
    list (Text.commaList ps) = ps.filter (· ≠ []) := by
  by_cases hne : ps = []
  · subst hne
    rfl
  · have hpieces := Text.pieces_commaList hne fun p hp => (h p hp).1
    have hentry (p : Text) (hp : p ∈ ps) : Text.trim (Text.trimOf '"' (Text.trim p)) = p := by
      obtain ⟨-, hquote, htrimmed⟩ := h p hp
      rw [htrimmed, Text.trimOf_free hquote, htrimmed]
    have hlist : (Text.pieces ',' (Text.commaList ps)).map
        (fun p => Text.trim (Text.trimOf '"' (Text.trim p))) = ps := by
      calc
        _ = ((Text.pieces ',' (Text.commaList ps)).map Text.trim).map
            (fun p => Text.trim (Text.trimOf '"' p)) := by rw [List.map_map]; rfl
        _ = ps.map fun p => Text.trim (Text.trimOf '"' (Text.trim p)) := by
          rw [hpieces, List.map_map]
          rfl
        _ = ps.map id := List.map_congr_left hentry
        _ = ps := List.map_id ps
    rw [list, hlist]

namespace Comment

variable {kept a t v : Text} {c : Char}

theorem eraseFrom_cons (h : kept.head? = some '#' → c ≠ '*') (t : Text) :
    eraseFrom false kept (c :: t) = eraseFrom false (c :: kept) t := by
  rw [eraseFrom]
  rintro k hkept rfl
  exact h (by rw [hkept]; rfl) rfl

theorem eraseFrom_free (h : '*' ∉ a) (kept t : Text) :
    eraseFrom false kept (a ++ t) = eraseFrom false (a.reverse ++ kept) t := by
  induction a generalizing kept with
  | nil => rfl
  | cons c a ih =>
    rw [List.cons_append, eraseFrom_cons fun _ => Ne.symm (List.ne_of_not_mem_cons h),
      ih (List.not_mem_of_not_mem_cons h), List.reverse_cons, List.append_assoc]
    rfl

theorem eraseFrom_escape (h : ¬blockOpen <:+: v)
    (hkept : kept.head? = some '#' → v.head? ≠ some '*') (t : Text) :
    eraseFrom false kept (Argument.escape v ++ t) =
      eraseFrom false ((Argument.escape v).reverse ++ kept) t := by
  induction v generalizing kept with
  | nil => rfl
  | cons c v ih =>
    have hv : ¬blockOpen <:+: v := fun hpart => h (hpart.trans (List.suffix_cons c v).isInfix)
    by_cases hc : c = '"'
    · subst hc
      rw [Argument.escape_quote, List.cons_append, List.cons_append, eraseFrom_cons (by simp),
        eraseFrom_cons (by simp), ih hv (by simp)]
      simp
    · have hnext : (c :: kept).head? = some '#' → v.head? ≠ some '*' := by
        rintro ⟨⟩ hstar
        obtain ⟨u, rfl⟩ := List.head?_eq_some_iff.mp hstar
        exact h (List.prefix_append blockOpen u).isInfix
      rw [Argument.escape_cons hc, List.cons_append,
        eraseFrom_cons fun hk he => hkept hk (congrArg some he), ih hv hnext]
      simp

theorem eraseFrom_field {key : Text} (hkey : ∀ c ∈ key, Text.isNameChar c = true)
    (hv : ¬blockOpen <:+: v) (kept t : Text) :
    eraseFrom false kept (Argument.field key v ++ t) =
      eraseFrom false ((Argument.field key v).reverse ++ kept) t := by
  have hopen : '*' ∉ key ++ ['=', '"'] := by
    simpa using Text.not_mem_word hkey (by decide)
  have hsplit : Argument.field key v ++ t =
      key ++ ['=', '"'] ++ (Argument.escape v ++ (['"'] ++ t)) := by
    simp [Argument.field]
  -- the value stands behind a quote, so its first character ends no opener
  have hkept : ((key ++ ['=', '"']).reverse ++ kept).head? = some '#' → v.head? ≠ some '*' := by
    simp
  rw [hsplit, eraseFrom_free hopen, eraseFrom_escape hv hkept, eraseFrom_free (by decide)]
  simp [Argument.field]

theorem eraseFrom_write {fields : List (Text × Text)} (h : Argument.Readable fields)
    (hopen : ∀ x ∈ fields, ¬blockOpen <:+: x.2) (kept : Text) :
    eraseFrom false kept (Argument.write fields) = kept.reverse ++ Argument.write fields := by
  induction fields generalizing kept with
  | nil => exact (List.append_nil _).symm
  | cons x fields ih =>
    obtain ⟨hx, hfields⟩ := List.forall_mem_cons.mp hopen
    have hfield := eraseFrom_field (h.words x List.mem_cons_self) hx kept
    cases fields with
    | nil =>
      rw [Argument.write_single, hfield]
      simp [eraseFrom]
    | cons y fields =>
      rw [Argument.write_cons, hfield, eraseFrom_cons (by simp), ih h.tail hfields]
      simp

end Comment

namespace Package

inductive Key where
  | name
  | packages
  | version
  | license
  | flags
deriving DecidableEq

def Key.text : Key → String
  | name => "name"
  | packages => "requirepackages"
  | version => "requireversion"
  | license => "license"
  | flags => "flags"

theorem Key.text_word (k : Key) :
    k.text.toList ≠ [] ∧ ∀ c ∈ k.text.toList, Text.isNameChar c = true := by
  cases k <;> exact ⟨by decide, List.all_eq_true.mp (by decide)⟩

theorem Key.text_inj {k k' : Key} (h : k.text.toList = k'.text.toList) : k = k' := by
  cases k <;> cases k' <;> first | rfl | exact absurd h (by decide)

namespace Header

variable {fields : List (Key × Text)}

def written (fields : List (Key × Text)) : Text :=
  Argument.write (fields.map fun x => (x.1.text.toList, x.2))

theorem lookup_text (fields : List (Key × Text)) (k : Key) :
    (fields.map fun x => (x.1.text.toList, x.2)).lookup k.text.toList = fields.lookup k := by
  induction fields with
  | nil => rfl
  | cons x fields ih =>
    obtain ⟨k', v⟩ := x
    rw [List.map_cons, List.lookup_cons, List.lookup_cons, ih]
    by_cases hk : k = k'
    · simp [hk]
    · have htext : (k.text.toList == k'.text.toList) = false :=
        beq_eq_false_iff_ne.mpr fun he => hk (Key.text_inj he)
      rw [htext, beq_eq_false_iff_ne.mpr hk]

theorem written_readable (h : ∀ x ∈ fields, '\\' ∉ x.2) :
    Argument.Readable (fields.map fun x => (x.1.text.toList, x.2)) where
  named := List.forall_mem_map.mpr fun x _ => x.1.text_word.1
  words := List.forall_mem_map.mpr fun x _ => x.1.text_word.2
  plain := List.forall_mem_map.mpr h

theorem value?_written (h : ∀ x ∈ fields, '\\' ∉ x.2) (k : Key) :
    value? (written fields) k.text = fields.lookup k := by
  rw [value?, written, Argument.value?_write (written_readable h) k.text_word.2, lookup_text]

theorem parse_eq_ofText (h : ∀ x ∈ fields, '\\' ∉ x.2 ∧ ¬Comment.blockOpen <:+: x.2) :
    parse (written fields) = ofText (written fields) := by
  have hreadable := written_readable fun x hx => (h x hx).1
  have herase : Comment.eraseBlocks (written fields) = written fields :=
    Comment.eraseFrom_write hreadable (List.forall_mem_map.mpr fun x hx => (h x hx).2) []
  have htrim : Text.trim (written fields) = written fields := Argument.write_trimmed hreadable
  rw [parse, herase, htrim]

/-- A header says what its fields were written with; a key that is not there says the default. -/
structure Says (header : Header) (fields : List (Key × Text)) : Prop where
  text : header.text = written fields
  name : header.name = (fields.lookup .name).getD []
  packages : header.packages = ((fields.lookup .packages).map Argument.list).getD []
  entries : ∀ ps, fields.lookup .packages = some (Text.commaList ps) →
    (∀ p ∈ ps, ',' ∉ p ∧ '"' ∉ p ∧ Text.Trimmed p) → header.packages = ps.filter (· ≠ [])
  required : header.required = (fields.lookup .version).map Version.required
  license : header.license = fields.lookup .license
  fullLogging : header.fullLogging = true ↔
    ∃ v, fields.lookup .flags = some v ∧ "ENABLE_FULL_LOGGING".toList <:+: v
  quiet : header.quiet = true ↔
    ∃ v, fields.lookup .flags = some v ∧ "DISABLE_SCREEN_OUTPUT".toList <:+: v

theorem contains_getD {flag : Text} (hne : flag ≠ []) (v : Option Text) :
    Text.contains flag (v.getD []) = true ↔ ∃ u, v = some u ∧ flag <:+: u := by
  rw [Text.contains_iff]
  cases v with
  | none => simpa using hne
  | some u => simp

theorem header_read_back (fields : List (Key × Text))
    (h : ∀ x ∈ fields, '\\' ∉ x.2 ∧ ¬Comment.blockOpen <:+: x.2) :
    Says (parse (written fields)) fields := by
  have hvalue := value?_written fun x hx => (h x hx).1
  have hpackages : (ofText (written fields)).packages =
      ((fields.lookup .packages).map Argument.list).getD [] := by
    rw [← hvalue .packages]
    rfl
  rw [parse_eq_ofText h]
  constructor
  case text => rfl
  case name =>
    rw [← hvalue .name]
    rfl
  case packages => exact hpackages
  case entries =>
    intro ps hps hentries
    rw [hpackages, hps, Option.map_some, Option.getD_some, Argument.list_commaList hentries]
  case required =>
    rw [← hvalue .version]
    rfl
  case license =>
    rw [← hvalue .license]
    rfl
  case fullLogging =>
    rw [← hvalue .flags]
    exact contains_getD (by decide) _
  case quiet =>
    rw [← hvalue .flags]
    exact contains_getD (by decide) _

def sample : List (Key × Text) :=
  [(.license, "MIT name=\"x\" license=".toList),
    (.packages, Text.commaList ["base".toList, [], "plot two".toList]),
    (.flags, "none, DISABLE_SCREEN_OUTPUT".toList), (.name, "a#\"*# flags=".toList)]

theorem header_read_back_sample :
    (∀ x ∈ sample, '\\' ∉ x.2 ∧ ¬Comment.blockOpen <:+: x.2) ∧
      (parse (written sample)).name = "a#\"*# flags=".toList ∧
      (parse (written sample)).packages = ["base".toList, "plot two".toList] ∧
      (parse (written sample)).required = none ∧
      (parse (written sample)).license = some "MIT name=\"x\" license=".toList ∧
      (parse (written sample)).quiet = true := by
  have hplain : ∀ x ∈ sample, '\\' ∉ x.2 ∧ ¬Comment.blockOpen <:+: x.2 := by
    simp only [sample, List.forall_mem_cons, ← Text.contains_eq_false]
    decide
  have hheader := header_read_back sample hplain
  refine ⟨hplain, hheader.name, ?_, hheader.required, hheader.license, ?_⟩
  · refine hheader.entries ["base".toList, [], "plot two".toList] rfl ?_
    simp only [List.forall_mem_cons, Text.Trimmed]
    decide
  · rw [hheader.quiet]
    exact ⟨_, rfl, Text.contains_iff.mp (by decide)⟩

end Header

end Package

end ScriptFeed
