import ScriptFeed.Proofs.Cutting
import ScriptFeed.Proofs.LinesAhead
import ScriptFeed.Proofs.Provenance

namespace ScriptFeed

namespace Text

theorem utf8Size_cons (c : Char) (t : Text) : utf8Size (c :: t) = c.utf8Size + utf8Size t := rfl

theorem utf8Size_append (s t : Text) : utf8Size (s ++ t) = utf8Size s + utf8Size t := by
  induction s with
  | nil => simp [utf8Size]
  | cons c s ih => rw [List.cons_append, utf8Size_cons, utf8Size_cons, ih, Nat.add_assoc]

theorem utf8Size_pos {t : Text} (h : t ≠ []) : 0 < utf8Size t := by
  obtain ⟨c, t, rfl⟩ := List.exists_cons_of_ne_nil h
  have hc := Char.utf8Size_pos c
  rw [utf8Size_cons]
  omega

end Text

namespace Utf8

variable {bytes : Bytes} {t : Text} {c : Char} {a b d e : UInt8}

theorem decode?_one (h : a.toNat < 0x80) (bytes : Bytes) :
    decode? (a :: bytes) = (decode? bytes).map (Char.ofNat a.toNat :: ·) := by
  rw [decode?.eq_def]
  simp only [h, if_true]

theorem decode?_two (h : 0xC0 ≤ a.toNat) (h' : a.toNat < 0xE0) (b : UInt8) (bytes : Bytes) :
    decode? (a :: b :: bytes) = (tail? b).bind fun x =>
      (char? 0x80 ((a.toNat - 0xC0) * 0x40 + x)).bind fun c => (decode? bytes).map (c :: ·) := by
  rw [decode?.eq_def]
  simp only [show ¬a.toNat < 0x80 by omega, if_false, h, h', and_self, if_true, Option.map_eq_bind]
  rfl

theorem decode?_three (h : 0xE0 ≤ a.toNat) (h' : a.toNat < 0xF0) (b d : UInt8) (bytes : Bytes) :
    decode? (a :: b :: d :: bytes) = (tail? b).bind fun x => (tail? d).bind fun y =>
      (char? 0x800 (((a.toNat - 0xE0) * 0x40 + x) * 0x40 + y)).bind fun c =>
        (decode? bytes).map (c :: ·) := by
  rw [decode?.eq_def]
  simp only [show ¬a.toNat < 0x80 by omega, show ¬a.toNat < 0xE0 by omega, if_false, h, h',
    and_false,
    and_self, if_true, Option.map_eq_bind]
  rfl

theorem decode?_four (h : 0xF0 ≤ a.toNat) (h' : a.toNat < 0xF8) (b d e : UInt8) (bytes : Bytes) :
    decode? (a :: b :: d :: e :: bytes) = (tail? b).bind fun x => (tail? d).bind fun y =>
      (tail? e).bind fun z =>
        (char? 0x10000 ((((a.toNat - 0xF0) * 0x40 + x) * 0x40 + y) * 0x40 + z)).bind fun c =>
          (decode? bytes).map (c :: ·) := by
  rw [decode?.eq_def]
  simp only [show ¬a.toNat < 0x80 by omega, show ¬a.toNat < 0xE0 by omega,
    show ¬a.toNat < 0xF0 by omega, if_false, h, h', and_false, and_self, if_true,
    Option.map_eq_bind]
  rfl

theorem tail?_toUInt8 {n : Nat} (h : n < 0x40) : tail? (0x80 + n).toUInt8 = some n := by
  rw [tail?, UInt8.toNat_ofNat_of_lt' (show _ < 256 by omega), if_pos (by omega),
    Nat.add_sub_cancel_left]

theorem char?_toNat {low : Nat} (h : low ≤ c.toNat) : char? low c.toNat = some c := by
  rw [char?, if_pos ⟨h, c.valid⟩, Char.ofNat_toNat]

theorem toNat_lt (c : Char) : c.toNat < 0x110000 := by
  rcases c.valid with h | h
  · exact lt_trans h (by decide)
  · exact h.2

theorem decode?_encodeChar (c : Char) (bytes : Bytes) :
    decode? (encodeChar c ++ bytes) = (decode? bytes).map (c :: ·) := by
  have hlt := toNat_lt c
  have htail (n : Nat) : tail? (0x80 + n % 0x40).toUInt8 = some (n % 0x40) :=
    tail?_toUInt8 (Nat.mod_lt n (by decide))
  unfold encodeChar
  dsimp only
  split
  · have ha : c.toNat.toUInt8.toNat = c.toNat := UInt8.toNat_ofNat_of_lt' (show _ < 256 by omega)
    rw [List.singleton_append, decode?_one (by omega), ha, Char.ofNat_toNat]
  · split
    · have ha : (0xC0 + c.toNat / 0x40).toUInt8.toNat = 0xC0 + c.toNat / 0x40 :=
        UInt8.toNat_ofNat_of_lt' (show _ < 256 by omega)
      have hc : (0xC0 + c.toNat / 0x40 - 0xC0) * 0x40 + c.toNat % 0x40 = c.toNat := by omega
      rw [List.cons_append, List.singleton_append, decode?_two (by omega) (by omega), htail, ha,
        Option.bind_some, hc, char?_toNat (by omega), Option.bind_some]
    · split
      · have ha : (0xE0 + c.toNat / 0x1000).toUInt8.toNat = 0xE0 + c.toNat / 0x1000 :=
          UInt8.toNat_ofNat_of_lt' (show _ < 256 by omega)
        have hc : ((0xE0 + c.toNat / 0x1000 - 0xE0) * 0x40 + c.toNat / 0x40 % 0x40) * 0x40 +
            c.toNat % 0x40 = c.toNat := by omega
        rw [List.cons_append, List.cons_append, List.singleton_append,
          decode?_three (by omega) (by omega), htail, htail, ha, Option.bind_some, Option.bind_some,
          hc, char?_toNat (by omega), Option.bind_some]
      · have ha : (0xF0 + c.toNat / 0x40000).toUInt8.toNat = 0xF0 + c.toNat / 0x40000 :=
          UInt8.toNat_ofNat_of_lt' (show _ < 256 by omega)
        have hc : (((0xF0 + c.toNat / 0x40000 - 0xF0) * 0x40 + c.toNat / 0x1000 % 0x40) * 0x40 +
            c.toNat / 0x40 % 0x40) * 0x40 + c.toNat % 0x40 = c.toNat := by omega
        rw [List.cons_append, List.cons_append, List.cons_append, List.singleton_append,
          decode?_four (by omega) (by omega), htail, htail, htail, ha, Option.bind_some,
          Option.bind_some, Option.bind_some, hc, char?_toNat (by omega), Option.bind_some]

theorem decode?_encode (t : Text) : decode? (encode t) = some t := by
  induction t with
  | nil => rfl
  | cons c t ih =>
    rw [encode, List.flatMap_cons, decode?_encodeChar, ← encode, ih]
    rfl

theorem decodeLine_encode (t : Text) : decodeLine (encode t) = t := by
  rw [decodeLine, decode?_encode, Option.getD_some]

theorem char?_eq_some {low n : Nat} (h : char? low n = some c) : low ≤ n ∧ c.toNat = n := by
  unfold char? at h
  by_cases hn : low ≤ n ∧ n.isValidChar
  · rw [if_pos hn] at h
    refine ⟨hn.1, ?_⟩
    rw [← Option.some.inj h, Char.ofNat, dif_pos hn.2]
    rfl
  · rw [if_neg hn] at h
    cases h

theorem eq_toUInt8 {n : Nat} (h : b.toNat = n) : b = n.toUInt8 := by
  rw [← h]
  simp

theorem tail?_eq_some {n : Nat} (h : tail? b = some n) : n < 0x40 ∧ b = (0x80 + n).toUInt8 := by
  unfold tail? at h
  split at h
  · obtain rfl := Option.some.inj h
    exact ⟨by omega, eq_toUInt8 (by omega)⟩
  · exact absurd h (by simp)

theorem encode_cons (c : Char) (t : Text) : encode (c :: t) = encodeChar c ++ encode t :=
  List.flatMap_cons

theorem encode_append (s t : Text) : encode (s ++ t) = encode s ++ encode t := List.flatMap_append

theorem eq_encode_of_decode? (h : decode? bytes = some t) : bytes = encode t := by
  -- The cases are the lengths of the first character. Its least value for each length leaves out
  -- the bytes that a shorter form has already.
  induction bytes using decode?.induct generalizing t with
  | case1 =>
    rw [decode?, Option.some.injEq] at h
    rw [← h]
    rfl
  | case2 a r ha ih =>
    rw [decode?_one ha] at h
    obtain ⟨u, hu, rfl⟩ := Option.map_eq_some_iff.mp h
    have hchar : char? 0 a.toNat = some (Char.ofNat a.toNat) :=
      if_pos ⟨Nat.zero_le _, .inl (by omega)⟩
    have hc : (Char.ofNat a.toNat).toNat = a.toNat := (char?_eq_some hchar).2
    rw [encode_cons, ← ih hu, encodeChar, hc, if_pos ha, ← eq_toUInt8 rfl, List.singleton_append]
  | case3 a ha => simp [decode?, ha] at h
  | case4 a ha b r hab ih =>
    rw [decode?_two hab.1 hab.2] at h
    obtain ⟨x, hx, h⟩ := Option.bind_eq_some_iff.mp h
    obtain ⟨c, hc, h⟩ := Option.bind_eq_some_iff.mp h
    obtain ⟨u, hu, rfl⟩ := Option.map_eq_some_iff.mp h
    obtain ⟨hx, hb⟩ := tail?_eq_some hx
    obtain ⟨hlow, hc⟩ := char?_eq_some hc
    have hlead : 0xC0 + c.toNat / 0x40 = a.toNat := by omega
    have hlast : c.toNat % 0x40 = x := by omega
    rw [encode_cons, ← ih hu, encodeChar, if_neg (by omega), if_pos (by omega), hlead, hlast, ← hb,
      ← eq_toUInt8 rfl]
    rfl
  | case5 a ha b hab => simp [decode?, ha, hab] at h
  | case6 a ha b hab d r had ih =>
    rw [decode?_three had.1 had.2] at h
    obtain ⟨x, hx, h⟩ := Option.bind_eq_some_iff.mp h
    obtain ⟨y, hy, h⟩ := Option.bind_eq_some_iff.mp h
    obtain ⟨c, hc, h⟩ := Option.bind_eq_some_iff.mp h
    obtain ⟨u, hu, rfl⟩ := Option.map_eq_some_iff.mp h
    obtain ⟨hx, hb⟩ := tail?_eq_some hx
    obtain ⟨hy, hd⟩ := tail?_eq_some hy
    obtain ⟨hlow, hc⟩ := char?_eq_some hc
    have hlead : 0xE0 + c.toNat / 0x1000 = a.toNat := by omega
    have hmid : c.toNat / 0x40 % 0x40 = x := by omega
    have hlast : c.toNat % 0x40 = y := by omega
    rw [encode_cons, ← ih hu, encodeChar, if_neg (by omega), if_neg (by omega), if_pos (by omega),
      hlead, hmid, hlast, ← hb, ← hd, ← eq_toUInt8 rfl]
    rfl
  | case7 a ha b hab d had => simp [decode?, ha, hab, had] at h
  | case8 a ha b hab d had e r hae ih =>
    rw [decode?_four hae.1 hae.2] at h
    obtain ⟨x, hx, h⟩ := Option.bind_eq_some_iff.mp h
    obtain ⟨y, hy, h⟩ := Option.bind_eq_some_iff.mp h
    obtain ⟨z, hz, h⟩ := Option.bind_eq_some_iff.mp h
    obtain ⟨c, hc, h⟩ := Option.bind_eq_some_iff.mp h
    obtain ⟨u, hu, rfl⟩ := Option.map_eq_some_iff.mp h
    obtain ⟨hx, hb⟩ := tail?_eq_some hx
    obtain ⟨hy, hd⟩ := tail?_eq_some hy
    obtain ⟨hz, he⟩ := tail?_eq_some hz
    obtain ⟨hlow, hc⟩ := char?_eq_some hc
    have hlead : 0xF0 + c.toNat / 0x40000 = a.toNat := by omega
    have hsecond : c.toNat / 0x1000 % 0x40 = x := by omega
    have hthird : c.toNat / 0x40 % 0x40 = y := by omega
    have hlast : c.toNat % 0x40 = z := by omega
    rw [encode_cons, ← ih hu, encodeChar, if_neg (by omega), if_neg (by omega), if_neg (by omega),
      hlead, hsecond, hthird, hlast, ← hb, ← hd, ← he, ← eq_toUInt8 rfl]
    rfl
  | case9 a ha b hab d had e r hae => simp [decode?, ha, hab, had, hae] at h

theorem mem_encodeChar (hc : 0x80 ≤ c.toNat) (hb : b ∈ encodeChar c) : 0x80 ≤ b.toNat := by
  have hlt := toNat_lt c
  have hbyte {n : Nat} (hn : 0x80 ≤ n) (hlt : n < 256) : 0x80 ≤ n.toUInt8.toNat := by
    rwa [UInt8.toNat_ofNat_of_lt' hlt]
  unfold encodeChar at hb
  dsimp only at hb
  split at hb
  · omega
  · split at hb
    · simp only [List.mem_cons, List.not_mem_nil, or_false] at hb
      rcases hb with rfl | rfl <;> exact hbyte (by omega) (by omega)
    · split at hb
      · simp only [List.mem_cons, List.not_mem_nil, or_false] at hb
        rcases hb with rfl | rfl | rfl <;> exact hbyte (by omega) (by omega)
      · simp only [List.mem_cons, List.not_mem_nil, or_false] at hb
        rcases hb with rfl | rfl | rfl | rfl <;> exact hbyte (by omega) (by omega)

open LineReader (newline)

theorem newline_mem_encodeChar : newline ∈ encodeChar c ↔ c = '\n' := by
  constructor
  · intro h
    by_cases hc : c.toNat < 0x80
    · rw [encodeChar, if_pos hc, List.mem_singleton] at h
      have hn := congrArg UInt8.toNat h
      rw [UInt8.toNat_ofNat_of_lt' (show _ < 256 by omega)] at hn
      exact Char.toNat_inj.mp hn.symm
    · exact absurd (mem_encodeChar (Nat.le_of_not_lt hc) h) (by decide)
  · rintro rfl
    decide

theorem newline_mem_encode : newline ∈ encode t ↔ '\n' ∈ t := by
  rw [encode, List.mem_flatMap]
  constructor
  · rintro ⟨c, hc, hn⟩
    rwa [← newline_mem_encodeChar.mp hn]
  · exact fun h => ⟨'\n', h, newline_mem_encodeChar.mpr rfl⟩

theorem encodeChar_ne_nil (c : Char) : encodeChar c ≠ [] := by
  unfold encodeChar
  dsimp only
  split_ifs <;> exact List.cons_ne_nil _ _

theorem encodeChar_length (c : Char) : (encodeChar c).length = c.utf8Size := by
  unfold encodeChar Char.utf8Size
  simp only [UInt32.le_iff_toNat_le]
  change List.length (if c.toNat < 0x80 then _ else _) =
    if c.toNat ≤ 0x7F then 1 else if c.toNat ≤ 0x7FF then 2 else if c.toNat ≤ 0xFFFF then 3 else 4
  by_cases h₁ : c.toNat < 0x80
  · rw [if_pos h₁, if_pos (show c.toNat ≤ 0x7F by omega)]
    rfl
  · rw [if_neg h₁, if_neg (show ¬c.toNat ≤ 0x7F by omega)]
    by_cases h₂ : c.toNat < 0x800
    · rw [if_pos h₂, if_pos (show c.toNat ≤ 0x7FF by omega)]
      rfl
    · rw [if_neg h₂, if_neg (show ¬c.toNat ≤ 0x7FF by omega)]
      by_cases h₃ : c.toNat < 0x10000
      · rw [if_pos h₃, if_pos (show c.toNat ≤ 0xFFFF by omega)]
        rfl
      · rw [if_neg h₃, if_neg (show ¬c.toNat ≤ 0xFFFF by omega)]
        rfl

theorem encode_length (t : Text) : (encode t).length = Text.utf8Size t := by
  induction t with
  | nil => rfl
  | cons c t ih => rw [encode_cons, List.length_append, encodeChar_length, ih, Text.utf8Size_cons]

theorem encode_ne_nil (h : t ≠ []) : encode t ≠ [] := by
  rw [← List.length_pos_iff, encode_length]
  exact Text.utf8Size_pos h

theorem feed_mem_latin (h : '\n' ∈ latin bytes) : newline ∈ bytes := by
  obtain ⟨b, hb, hc⟩ := List.mem_map.mp h
  have hchar : char? 0 b.toNat = some (Char.ofNat b.toNat) :=
    if_pos ⟨Nat.zero_le _, .inl (lt_trans b.toNat_lt (by decide))⟩
  have hn := (char?_eq_some hchar).2
  rw [hc] at hn
  obtain rfl : newline = b := UInt8.toNat_inj.mp hn
  exact hb

theorem feed_mem_decodeLine (h : '\n' ∈ decodeLine bytes) : newline ∈ bytes := by
  unfold decodeLine at h
  cases hd : decode? bytes with
  | none =>
    rw [hd, Option.getD_none] at h
    exact feed_mem_latin h
  | some t =>
    rw [hd, Option.getD_some] at h
    rw [eq_encode_of_decode? hd]
    exact newline_mem_encode.mpr h

theorem decodeLine_concat (bytes : Bytes) :
    ∃ u, decodeLine (bytes ++ [newline]) = u ++ ['\n'] ∧ ('\n' ∈ u → newline ∈ bytes) := by
  unfold decodeLine
  cases hd : decode? (bytes ++ [newline]) with
  | none =>
    refine ⟨latin bytes, ?_, feed_mem_latin⟩
    rw [Option.getD_none, latin, latin, List.map_append]
    rfl
  | some t =>
    have he := eq_encode_of_decode? hd
    rcases List.eq_nil_or_concat t with rfl | ⟨u, c, rfl⟩
    · simp [encode] at he
    · -- the line feed is the last byte of the last character, so it is all of it
      rw [List.concat_eq_append, encode_append] at he
      have hc : encode [c] = encodeChar c := by rw [encode, List.flatMap_singleton]
      rw [hc] at he
      have hlast : newline ∈ encodeChar c := by
        have hl := congrArg List.getLast? he
        rw [List.getLast?_concat, List.getLast?_append_of_ne_nil _ (encodeChar_ne_nil c)] at hl
        exact List.mem_of_getLast? hl.symm
      obtain rfl := newline_mem_encodeChar.mp hlast
      obtain ⟨rfl, -⟩ := List.append_inj' he rfl
      exact ⟨u, by rw [Option.getD_some, List.concat_eq_append], newline_mem_encode.mpr⟩

end Utf8

namespace LineReader

variable {fs : Files} {r r' : LineReader} {t : Text} {ts : List Text} {s : Bytes}

theorem textOf_unbroken (h : newline ∉ s.dropLast) : '\n' ∉ textOf s := by
  intro hmem
  have hline : '\n' ∈ Utf8.decodeLine s := (Text.trim_part _).subset hmem
  rcases List.eq_nil_or_concat s with rfl | ⟨a, b, rfl⟩
  · exact absurd hline (by decide)
  · rw [List.concat_eq_append] at hline hmem h
    rw [List.dropLast_concat] at h
    by_cases hb : b = newline
    · subst hb
      obtain ⟨u, hu, hfeed⟩ := Utf8.decodeLine_concat a
      rw [textOf, hu, Text.trim_concat_blank (by decide)] at hmem
      exact h (hfeed ((Text.trim_part u).subset hmem))
    · rcases List.mem_append.mp (Utf8.feed_mem_decodeLine hline) with hn | hn
      · exact h hn
      · exact hb (List.mem_singleton.mp hn).symm

theorem splitLine_unbroken (s : Bytes) : newline ∉ (splitLine s).1.dropLast := by
  by_cases hs : s = []
  · subst hs
    simp [splitLine]
  · apply (segments_cut s).unbroken
    rw [segments_splitLine hs]
    exact List.mem_cons_self

theorem next_unbroken (h : r.next fs = .ok (some t, r')) : '\n' ∉ t := by
  unfold next at h
  split at h
  · simp at h
  · cases hp : r.prepare fs with
    | error e => simp [hp] at h
    | ok r₁ =>
      simp only [hp] at h
      split at h
      · simp at h
      · simp only [Except.ok.injEq, Prod.mk.injEq, Option.some.injEq] at h
        rw [← h.1]
        exact textOf_unbroken (splitLine_unbroken _)

theorem segments_line (h : newline ∉ s) (rest : Bytes) :
    segments (s ++ newline :: rest) = (s ++ [newline]) :: segments rest := by
  induction s with
  | nil => rw [List.nil_append, segments, if_pos rfl, List.nil_append]
  | cons b s ih =>
    rw [List.cons_append, segments, if_neg (Ne.symm (List.ne_of_not_mem_cons h)),
      ih (List.not_mem_of_not_mem_cons h)]
    rfl

theorem segments_unbroken (h : newline ∉ s) (hne : s ≠ []) : segments s = [s] := by
  induction s with
  | nil => exact absurd rfl hne
  | cons b s ih =>
    rw [segments, if_neg (Ne.symm (List.ne_of_not_mem_cons h))]
    by_cases hs : s = []
    · rw [hs, segments]
    · rw [ih (List.not_mem_of_not_mem_cons h) hs]

def written (ts : List Text) : Bytes := Utf8.encode (ts.flatMap (· ++ ['\n']))

theorem written_cons (t : Text) (ts : List Text) :
    written (t :: ts) = Utf8.encode t ++ newline :: written ts := by
  rw [written, List.flatMap_cons, Utf8.encode_append, Utf8.encode_append, List.append_assoc]
  rfl

theorem written_append (s t : List Text) : written (s ++ t) = written s ++ written t := by
  rw [written, List.flatMap_append, Utf8.encode_append]
  rfl

theorem textOf_written (t : Text) : textOf (Utf8.encode t ++ [newline]) = Text.trim t := by
  have hfeed : Utf8.encode t ++ [newline] = Utf8.encode (t ++ ['\n']) := by
    rw [Utf8.encode_append]
    rfl
  rw [textOf, hfeed, Utf8.decodeLine_encode, Text.trim_concat_blank (by decide)]

theorem segments_written_append (h : ∀ t ∈ ts, '\n' ∉ t) (rest : Bytes) :
    segments (written ts ++ rest) = ts.map (Utf8.encode · ++ [newline]) ++ segments rest := by
  induction ts with
  | nil => rfl
  | cons t ts ih =>
    obtain ⟨ht, hts⟩ := List.forall_mem_cons.mp h
    rw [written_cons, List.append_assoc, List.cons_append,
      segments_line fun hn => ht (Utf8.newline_mem_encode.mp hn), ih hts]
    rfl

theorem map_textOf_written (ts : List Text) :
    (ts.map (Utf8.encode · ++ [newline])).map textOf = ts.map Text.trim := by
  rw [List.map_map]
  exact List.map_congr_left fun t _ => textOf_written t

theorem segments_written (h : ∀ t ∈ ts, '\n' ∉ t) :
    (segments (written ts)).map textOf = ts.map Text.trim := by
  have hall := segments_written_append h []
  rw [List.append_nil, segments, List.append_nil] at hall
  rw [hall, map_textOf_written]

theorem offers_written (hstream : r.stream ≠ .directory) (hended : r.ended = false)
    (hpending : r.pending fs = written ts) (h : ∀ t ∈ ts, '\n' ∉ t) :
    Offers fs (ts.map Text.trim) r := by
  have hoffers := offers_texts fs hstream hended
  rwa [texts, hpending, segments_written h] at hoffers

end LineReader

end ScriptFeed
