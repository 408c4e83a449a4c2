import ScriptFeed.Proofs.Encoding

namespace ScriptFeed

inductive Slip where
  -- an offset outside the text, or an end before its beginning
  | outside
  | inside
  | below
  | argument
deriving DecidableEq, Repr

def minus (m n : Nat) : Except Slip Nat := if m < n then .error .below else .ok (m - n)

theorem Slip.bind_ok {α β : Type} {x : Except Slip α} {a : α} (h : x = .ok a)
    (f : α → Except Slip β) :
    x >>= f = f a := by
  rw [h]
  rfl

theorem Slip.bind_eq_ok {α β : Type} {x : Except Slip α} {f : α → Except Slip β} {b : β} :
    x >>= f = .ok b ↔ ∃ a, x = .ok a ∧ f a = .ok b := by
  constructor
  · intro h
    cases x with
    | error slip => cases h
    | ok a => exact ⟨a, rfl, h⟩
  · rintro ⟨a, rfl, h⟩
    exact h

namespace Text

def byteAt (t : Text) (i : Nat) : Except Slip UInt8 :=
  match (Utf8.encode t)[i]? with
  | some b => .ok b
  | none => .error .outside

def byteBefore (t : Text) (i : Nat) : Except Slip UInt8 := do byteAt t (← minus i 1)

def bytesFrom (t : Text) (i : Nat) : Except Slip Bytes :=
  if utf8Size t < i then .error .outside else .ok ((Utf8.encode t).drop i)

def slice (t : Text) (i j : Nat) : Except Slip Text :=
  if j < i ∨ utf8Size t < j then .error .outside
  else
    match dropBytes i t, dropBytes j t with
    | some r, some s => .ok (r.take (r.length - s.length))
    | _, _ => .error .inside

def cutOut (t : Text) (i j : Nat) : Except Slip Text := do
  let _ ← slice t i j
  return (← slice t 0 i) ++ (← slice t j (utf8Size t))

def runEnd (p : UInt8 → Bool) (t : Text) (i : Nat) : Except Slip Nat :=
  if i < utf8Size t then do
    if p (← byteAt t i) then runEnd p t (i + 1) else return i
  else return i
termination_by utf8Size t - i

def find? (pat t : Text) : Option Nat := (cut pat t).map fun x => utf8Size x.1

def findLast? (x : Char) (t : Text) : Option Nat := (cutLast x t).map fun y => utf8Size y.1

def byte (c : Char) : UInt8 := c.toNat.toUInt8

def isNameByte (b : UInt8) : Bool := isNameChar (Char.ofNat b.toNat)

def startsBytes (pat : Text) (bytes : Bytes) : Bool := (Utf8.encode pat).isPrefixOf bytes

example : slice "aé".toList 0 1 = .ok ['a'] ∧ slice "aé".toList 0 2 = .error .inside := by decide

variable {a b t u : Text} {c d e : Char} {i j k : Nat} {x : UInt8}

theorem encodeChar_narrow (hc : c.toNat < 0x80) : Utf8.encodeChar c = [byte c] := by
  rw [Utf8.encodeChar, if_pos hc, byte]

theorem utf8Size_narrow (hc : c.toNat < 0x80) : c.utf8Size = 1 := by
  rw [← Utf8.encodeChar_length, encodeChar_narrow hc, List.length_singleton]

theorem utf8Size_lt (a : Text) (c : Char) (t : Text) : utf8Size a < utf8Size (a ++ c :: t) := by
  rw [utf8Size_append]
  exact Nat.lt_add_of_pos_right (utf8Size_pos (List.cons_ne_nil c t))

theorem utf8Size_concat (hc : c.toNat < 0x80) (a : Text) :
    utf8Size (a ++ [c]) = utf8Size a + 1 := by
  rw [utf8Size_append, ← utf8Size_narrow hc]
  rfl

theorem toNat_byte (hc : c.toNat < 0x80) : (byte c).toNat = c.toNat :=
  UInt8.toNat_ofNat_of_lt' (show _ < 256 by omega)

theorem ne_of_wide (hc : 0x80 ≤ c.toNat) (he : e.toNat < 0x80) : c ≠ e := by
  rintro rfl
  omega

theorem ne_byte (hx : 0x80 ≤ x.toNat) (he : e.toNat < 0x80) : x ≠ byte e := by
  rintro rfl
  rw [toNat_byte he] at hx
  omega

theorem eq_byte_iff (hx : x ∈ Utf8.encodeChar c) (he : e.toNat < 0x80) : x = byte e ↔ c = e := by
  by_cases hc : c.toNat < 0x80
  · rw [encodeChar_narrow hc, List.mem_singleton] at hx
    rw [hx, ← UInt8.toNat_inj, toNat_byte hc, toNat_byte he, Char.toNat_inj]
  -- the bytes of a longer form are all above the ASCII range
  · have hwide := Utf8.mem_encodeChar (Nat.le_of_not_lt hc) hx
    exact iff_of_false (ne_byte hwide he) (ne_of_wide (Nat.le_of_not_lt hc) he)

theorem isNameChar_wide (hc : 0x80 ≤ c.toNat) : isNameChar c = false := by
  rw [← Bool.not_eq_true]
  intro h
  have := isNameChar_range h
  omega

theorem isNameByte_eq (hx : x ∈ Utf8.encodeChar c) : isNameByte x = isNameChar c := by
  by_cases hc : c.toNat < 0x80
  · rw [encodeChar_narrow hc, List.mem_singleton] at hx
    rw [isNameByte, hx, toNat_byte hc, Char.ofNat_toNat]
  · have hwide := Utf8.mem_encodeChar (Nat.le_of_not_lt hc) hx
    have hchar : Utf8.char? 0 x.toNat = some (Char.ofNat x.toNat) :=
      if_pos ⟨Nat.zero_le _, .inl (lt_trans x.toNat_lt (by decide))⟩
    rw [isNameByte, isNameChar_wide (hwide.trans_eq (Utf8.char?_eq_some hchar).2.symm),
      isNameChar_wide (Nat.le_of_not_lt hc)]

theorem byteAt_eq_ok : byteAt t i = .ok x ↔ (Utf8.encode t)[i]? = some x := by
  unfold byteAt
  cases (Utf8.encode t)[i]? <;> simp

theorem lt_of_byteAt (h : byteAt t i = .ok x) : i < utf8Size t := by
  rw [byteAt_eq_ok, List.getElem?_eq_some_iff] at h
  rw [← Utf8.encode_length]
  exact h.1

theorem byteAt_of_lt (h : i < utf8Size t) : ∃ x, byteAt t i = .ok x := by
  rw [← Utf8.encode_length] at h
  exact ⟨_, byteAt_eq_ok.mpr (List.getElem?_eq_getElem h)⟩

theorem byteAt_mem (a b : Text) (hk : k < c.utf8Size) :
    ∃ x ∈ Utf8.encodeChar c, byteAt (a ++ c :: b) (utf8Size a + k) = .ok x := by
  rw [← Utf8.encodeChar_length] at hk
  refine ⟨(Utf8.encodeChar c)[k], List.getElem_mem hk, byteAt_eq_ok.mpr ?_⟩
  rw [Utf8.encode_append, Utf8.encode_cons, ← Utf8.encode_length,
    List.getElem?_append_right (by omega),
    Nat.add_sub_cancel_left, List.getElem?_append_left hk, List.getElem?_eq_getElem hk]

theorem byteAt_split (he : e.toNat < 0x80) (h : byteAt t i = .ok (byte e)) :
    ∃ a b, t = a ++ e :: b ∧ utf8Size a = i := by
  rw [byteAt_eq_ok] at h
  induction t generalizing i with
  | nil => cases h
  | cons c t ih =>
    rw [Utf8.encode_cons] at h
    rcases Nat.lt_or_ge i (Utf8.encodeChar c).length with hi | hi
    · rw [List.getElem?_append_left hi] at h
      obtain rfl := (eq_byte_iff (List.mem_of_getElem? h) he).mp rfl
      rw [encodeChar_narrow he, List.length_singleton, Nat.lt_one_iff] at hi
      exact ⟨[], t, rfl, hi.symm⟩
    · rw [List.getElem?_append_right hi] at h
      obtain ⟨a, b, rfl, ha⟩ := ih h
      refine ⟨c :: a, b, rfl, ?_⟩
      rw [Utf8.encodeChar_length] at hi ha
      rw [utf8Size_cons]
      omega

theorem byteAt_first (a b : Text) (c : Char) :
    ∃ x ∈ Utf8.encodeChar c, byteAt (a ++ c :: b) (utf8Size a) = .ok x :=
  byteAt_mem a b (Char.utf8Size_pos c)

theorem byteBefore_mem (a : Text) (c : Char) (b : Text) :
    ∃ x ∈ Utf8.encodeChar c, byteBefore (a ++ [c] ++ b) (utf8Size (a ++ [c])) = .ok x := by
  have hpos := Char.utf8Size_pos c
  have hsize : utf8Size (a ++ [c]) = utf8Size a + c.utf8Size := utf8Size_append a [c]
  rw [byteBefore, minus, if_neg (by omega), hsize, Nat.add_sub_assoc hpos, ← List.append_cons]
  exact byteAt_mem a b (by omega)

theorem pass_char {β : Type} {F : Nat → β}
    (hstep : ∀ i, ∀ x ∈ Utf8.encodeChar c, byteAt (a ++ c :: b) i = .ok x → F i = F (i + 1)) :
    F (utf8Size a) = F (utf8Size (a ++ [c])) := by
  have hall : ∀ k ≤ c.utf8Size, F (utf8Size a) = F (utf8Size a + k) := by
    intro k
    induction k with
    | zero => exact fun _ => rfl
    | succ k ih =>
      intro hk
      obtain ⟨x, hx, hbyte⟩ := byteAt_mem a b (Nat.lt_of_succ_le hk)
      rw [ih (by omega), hstep _ x hx hbyte, Nat.add_assoc]
  rw [utf8Size_append]
  exact hall c.utf8Size le_rfl

theorem pass_wide {β : Type} {F : Nat → β} (hc : 0x80 ≤ c.toNat)
    (hstep : ∀ i x, byteAt (a ++ c :: b) i = .ok x → 0x80 ≤ x.toNat → F i = F (i + 1)) :
    F (utf8Size a) = F (utf8Size (a ++ [c])) :=
  pass_char fun i x hx hbyte => hstep i x hbyte (Utf8.mem_encodeChar hc hx)

theorem byte_behind (he : e.toNat < 0x80) (a t : Text) :
    (Utf8.encode (a ++ t))[utf8Size a]? = some (byte e) ↔ t.head? = some e := by
  rw [Utf8.encode_append, ← Utf8.encode_length, List.getElem?_append_right (le_refl _),
    Nat.sub_self]
  cases t with
  | nil => simp [Utf8.encode]
  | cons c t =>
    obtain ⟨x, xs, hx⟩ := List.exists_cons_of_ne_nil (Utf8.encodeChar_ne_nil c)
    have hmem : x ∈ Utf8.encodeChar c := hx ▸ List.mem_cons_self
    rw [Utf8.encode_cons, hx, List.cons_append, List.getElem?_cons_zero, Option.some.injEq,
      eq_byte_iff hmem he, List.head?_cons, Option.some.injEq]

theorem bytesFrom_append (a b : Text) : bytesFrom (a ++ b) (utf8Size a) = .ok (Utf8.encode b) := by
  rw [bytesFrom, if_neg (by rw [utf8Size_append]; omega), Utf8.encode_append, ← Utf8.encode_length,
    List.drop_left]

theorem bytesFrom_of_byteAt (h : byteAt t i = .ok x) :
    ∃ rest, bytesFrom t i = .ok (x :: rest) := by
  have hi := lt_of_byteAt h
  rw [byteAt_eq_ok, List.getElem?_eq_some_iff] at h
  obtain ⟨hlt, hx⟩ := h
  exact ⟨_, by rw [bytesFrom, if_neg (by omega), List.drop_eq_getElem_cons hlt, hx]⟩

theorem startsBytes_cons {pat : Text} (he : e.toNat < 0x80) (bytes : Bytes) :
    startsBytes (e :: pat) (x :: bytes) = (byte e == x && startsBytes pat bytes) := by
  rw [startsBytes, Utf8.encode_cons, encodeChar_narrow he]
  rfl

theorem startsBytes_encode {pat : Text} (hpat : pat.all (·.toNat < 0x80) = true) (t : Text) :
    startsBytes pat (Utf8.encode t) = startsWith pat t := by
  induction pat generalizing t with
  | nil => rfl
  | cons e pat ih =>
    rw [List.all_cons, Bool.and_eq_true, decide_eq_true_iff] at hpat
    obtain ⟨he, hrest⟩ := hpat
    cases t with
    | nil => simp [startsBytes, startsWith, after?, Utf8.encode, encodeChar_narrow he]
    | cons c t =>
      by_cases hce : c = e
      · rw [hce, Utf8.encode_cons, encodeChar_narrow he, List.singleton_append, startsBytes_cons he,
          ih hrest]
        simp [startsWith, after?]
      · obtain ⟨x, xs, hx⟩ := List.exists_cons_of_ne_nil (Utf8.encodeChar_ne_nil c)
        have hmem : x ∈ Utf8.encodeChar c := hx ▸ List.mem_cons_self
        have hne : ¬byte e = x := fun h => hce ((eq_byte_iff hmem he).mp h.symm)
        rw [Utf8.encode_cons, hx, List.cons_append, startsBytes_cons he]
        simp [startsWith, after?, hne, Ne.symm hce]

theorem startsBytes_wide {pat : Text} (he : e.toNat < 0x80) (hx : 0x80 ≤ x.toNat) (bytes : Bytes) :
    startsBytes (e :: pat) (x :: bytes) = false := by
  rw [startsBytes_cons he, beq_eq_false_iff_ne.mpr (ne_byte hx he).symm, Bool.false_and]

theorem dropBytes_append (a b : Text) : dropBytes (utf8Size a) (a ++ b) = some b := by
  induction a with
  | nil => cases b <;> rfl
  | cons c a ih =>
    have hpos := Char.utf8Size_pos c
    obtain ⟨n, hn⟩ : ∃ n, utf8Size (c :: a) = n + 1 := ⟨utf8Size (c :: a) - 1, by
      rw [utf8Size_cons]; omega⟩
    rw [hn, List.cons_append, dropBytes, ← hn, utf8Size_cons, if_pos (Nat.le_add_right _ _),
      Nat.add_sub_cancel_left, ih]

theorem dropBytes_eq_some : dropBytes i t = some b ↔ ∃ a, t = a ++ b ∧ utf8Size a = i := by
  constructor
  · intro h
    induction i, t using dropBytes.induct with
    | case1 t =>
      rw [dropBytes, Option.some.injEq] at h
      exact ⟨[], by rw [h]; rfl, rfl⟩
    | case2 n => simp [dropBytes] at h
    | case3 n c r hle ih =>
      rw [dropBytes, if_pos hle] at h
      obtain ⟨a, ha, hsize⟩ := ih h
      exact ⟨c :: a, by rw [ha]; rfl, by rw [utf8Size_cons, hsize]; omega⟩
    | case4 n c r hlt => simp [dropBytes, hlt] at h
  · rintro ⟨a, rfl, rfl⟩
    exact dropBytes_append a b

theorem slice_eq_ok : slice t i j = .ok b ↔
    ∃ a c, t = a ++ b ++ c ∧ utf8Size a = i ∧ utf8Size (a ++ b) = j := by
  rw [slice]
  constructor
  · intro h
    split at h
    · cases h
    next hrange =>
      split at h
      next r s hr hs =>
        obtain ⟨a, ha, hi⟩ := dropBytes_eq_some.mp hr
        obtain ⟨u, hu, hj⟩ := dropBytes_eq_some.mp hs
        have hsplit : a ++ r = u ++ s := ha.symm.trans hu
        obtain ⟨m, rfl, rfl⟩ | ⟨m, rfl, rfl⟩ := List.append_eq_append_iff.mp hsplit
        · rw [List.length_append, Nat.add_sub_cancel, List.take_left, Except.ok.injEq] at h
          exact ⟨a, s, by rw [ha, ← h, List.append_assoc], hi, by rw [← h, hj]⟩
        · have hm : m = [] := by
            by_contra hne
            have hpos := utf8Size_pos hne
            rw [utf8Size_append] at hi
            omega
          subst hm
          rw [List.nil_append, Nat.sub_self, List.take_zero, Except.ok.injEq] at h
          rw [List.append_nil] at ha hi
          exact ⟨u, r, by rw [ha, ← h, List.append_nil], hi, by rw [← h, List.append_nil, hj]⟩
      · cases h
  · rintro ⟨a, c, rfl, rfl, rfl⟩
    have hsize := utf8Size_append (a ++ b) c
    have hsize' := utf8Size_append a b
    rw [if_neg (by omega), dropBytes_append, List.append_assoc, dropBytes_append]
    simp

theorem slice_parts (a b c : Text) : slice (a ++ b ++ c) (utf8Size a) (utf8Size (a ++ b)) = .ok b :=
  slice_eq_ok.mpr ⟨a, c, rfl, rfl, rfl⟩

theorem slice_start (a b : Text) : slice (a ++ b) 0 (utf8Size a) = .ok a := slice_parts [] a b

theorem slice_rest (a b : Text) : slice (a ++ b) (utf8Size a) (utf8Size (a ++ b)) = .ok b :=
  slice_eq_ok.mpr ⟨a, [], (List.append_nil _).symm, rfl, rfl⟩

theorem getD_find? (x : Char) (t : Text) :
    (find? [x] t).getD (utf8Size t) = utf8Size (t.takeWhile (· ≠ x)) := by
  induction t with
  | nil => rfl
  | cons c t ih =>
    by_cases hc : c = x
    · simp [find?, cut, after?, hc]
    · have hafter : after? [x] (c :: t) = none := by simp [after?, Ne.symm hc]
      rw [List.takeWhile_cons_of_pos (by simpa using hc), utf8Size_cons, utf8Size_cons, ← ih,
        find?, cut, hafter, find?]
      cases cut [x] t <;> rfl

theorem cutOut_parts (a b c : Text) :
    cutOut (a ++ b ++ c) (utf8Size a) (utf8Size (a ++ b)) = .ok (a ++ c) := by
  rw [cutOut, slice_parts, slice_rest, List.append_assoc, slice_start]
  rfl

theorem cutOut_size (h : cutOut t i j = .ok u) : utf8Size u + (j - i) = utf8Size t ∧ i ≤ j := by
  cases hb : slice t i j with
  | error e =>
    rw [cutOut, hb] at h
    cases h
  | ok b =>
    obtain ⟨a, c, rfl, rfl, rfl⟩ := slice_eq_ok.mp hb
    rw [cutOut_parts, Except.ok.injEq] at h
    rw [← h]
    simp only [utf8Size_append]
    omega

theorem runEnd_end (p : UInt8 → Bool) (t : Text) : runEnd p t (utf8Size t) = .ok (utf8Size t) := by
  rw [runEnd, if_neg (lt_irrefl _)]
  rfl

theorem runEnd_byte {p : UInt8 → Bool} (h : byteAt t i = .ok x) :
    runEnd p t i = if p x = true then runEnd p t (i + 1) else .ok i := by
  rw [runEnd, if_pos (lt_of_byteAt h), h]
  rfl

theorem le_runEnd {p : UInt8 → Bool} (h : runEnd p t i = .ok j) : i ≤ j := by
  induction i using runEnd.induct t with
  | case1 i hi ih =>
    obtain ⟨x, hx⟩ := byteAt_of_lt hi
    rw [runEnd_byte hx] at h
    split at h
    · exact (Nat.le_succ i).trans (ih h)
    · exact (Except.ok.inj h).le
  | case2 i hi =>
    rw [runEnd, if_neg hi] at h
    exact (Except.ok.inj h).le

theorem runEnd_append {p : UInt8 → Bool} {P : Char → Bool}
    (hp : ∀ c, ∀ x ∈ Utf8.encodeChar c, p x = P c)
    (a t : Text) : runEnd p (a ++ t) (utf8Size a) = .ok (utf8Size (a ++ t.takeWhile P)) := by
  induction t generalizing a with
  | nil => rw [List.takeWhile_nil, List.append_nil, runEnd_end]
  | cons c t ih =>
    cases hc : P c with
    | false =>
      obtain ⟨x, hx, hbyte⟩ := byteAt_first a t c
      rw [runEnd_byte hbyte, hp c x hx, hc, if_neg Bool.false_ne_true,
        List.takeWhile_cons_of_neg (by rw [hc]; exact Bool.false_ne_true), List.append_nil]
    | true =>
      have hpass : runEnd p (a ++ c :: t) (utf8Size a) =
          runEnd p (a ++ c :: t) (utf8Size (a ++ [c])) := by
        apply pass_char
        intro i x hx hbyte
        rw [runEnd_byte hbyte, hp c x hx, if_pos hc]
      rw [hpass, List.append_cons, ih, List.takeWhile_cons_of_pos hc, ← List.append_cons]

end Text

end ScriptFeed
