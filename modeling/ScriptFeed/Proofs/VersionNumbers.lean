import Mathlib.Data.Nat.Digits.Defs
import ScriptFeed.Proofs.Refusals

namespace ScriptFeed

namespace Version

variable {bound n : Nat} {c : Char} {s t : Text}

def IsNumeral (t : Text) : Prop := t ≠ [] ∧ ∀ c ∈ t, Text.isDigit c = true

def valueOf (t : Text) : Nat := Nat.ofDigits 10 (t.map fun c => c.toNat - '0'.toNat).reverse

theorem valueOf_cons (c : Char) (t : Text) :
    valueOf (c :: t) = (c.toNat - '0'.toNat) * 10 ^ t.length + valueOf t := by
  rw [valueOf, List.map_cons, List.reverse_cons, Nat.ofDigits_append, Nat.ofDigits_singleton,
    List.length_reverse, List.length_map, valueOf]
  ring

theorem readDigits_numeral (ht : ∀ c ∈ t, Text.isDigit c = true) (hn : n < bound) :
    readDigits bound n t =
      if n * 10 ^ t.length + valueOf t < bound then .ok (n * 10 ^ t.length + valueOf t)
      else .error .tooLarge := by
  induction t generalizing n with
  | nil => simp [readDigits, valueOf, hn]
  | cons c t ih =>
    obtain ⟨hc, ht⟩ := List.forall_mem_cons.mp ht
    have hvalue : n * 10 ^ (c :: t).length + valueOf (c :: t) =
        (n * 10 + (c.toNat - '0'.toNat)) * 10 ^ t.length + valueOf t := by
      rw [valueOf_cons, List.length_cons]
      ring
    -- a number that has come to the bound does not fall below it again
    rw [readDigits, if_pos hc, hvalue]
    dsimp only
    by_cases hless : n * 10 + (c.toNat - '0'.toNat) < bound
    · rw [if_pos hless]
      exact ih ht hless
    · rw [if_neg hless]
      have hpow : 1 ≤ 10 ^ t.length := Nat.one_le_pow _ _ (by decide)
      have hle := Nat.le_mul_of_pos_right (n * 10 + (c.toNat - '0'.toNat)) hpow
      rw [if_neg (by omega)]

theorem readNumber_numeral (ht : IsNumeral t) (hb : 0 < bound) :
    readNumber bound t =
      if valueOf t < bound then .ok (valueOf t) else .error .tooLarge := by
  obtain ⟨hne, hdigits⟩ := ht
  have hread := readDigits_numeral hdigits hb
  rw [Nat.zero_mul, Nat.zero_add] at hread
  rw [← hread]
  obtain ⟨c, t, rfl⟩ := List.exists_cons_of_ne_nil hne
  have hc : c ≠ '+' := by
    rintro rfl
    exact absurd (hdigits '+' List.mem_cons_self) (by decide)
  rw [readNumber]
  · exact List.cons_ne_nil c t
  all_goals simp [hc]

theorem required_numeral (hs : IsNumeral (digits s)) :
    required s = min (valueOf (digits s)) (2 ^ 64 - 1) := by
  rw [required, Nat.pow_eq, readNumber_numeral hs (by decide)]
  split_ifs with h
  · exact (Nat.min_eq_left (Nat.le_sub_one_of_lt h)).symm
  · dsimp only
    exact (Nat.min_eq_right (by omega)).symm

theorem flatten?_numeral (hs : IsNumeral (digits s)) :
    flatten? s = if valueOf (digits s) < 2 ^ 32 then some (valueOf (digits s)) else none := by
  rw [flatten?, Nat.pow_eq, readNumber_numeral hs (by decide)]
  split_ifs <;> rfl

end Version

namespace Processor

open Package

variable {p q : Processor} {line : Text} {h : Header}

theorem close_error {e : Failure} (hc : close p = .error e q) :
    ∃ path, e = .scriptNotFound [] path := by
  cases ho : p.isOpen with
  | false =>
    rw [close_run ho] at hc
    cases hc
  | true =>
    have hends : Ends close p (fun _ _ => True) (fun e _ => ∃ path, e = .scriptNotFound [] path) :=
      close_ends ho (fun _ _ => trivial) fun path _ _ =>
        openPath_ends (fun _ _ => trivial) fun _ _ => ⟨path, rfl⟩
    exact Ends.error hends hc

theorem readHeader_outdated (hh : Heads line p h) :
    ((∃ l required running q, readHeader line p = .error (.versionTooLow l required running) q) ↔
      Outdated p h) ∧
    (Outdated p h → ∃ q, readHeader line p =
      .error (.versionTooLow line (h.required.getD 0) p.settings.version) q) := by
  obtain ⟨t, w, header, tail, ha, hs, rfl⟩ := hh
  have hw := assemble_enlist_weighs ha (Header.parse header)
  have hout := (outdated_iff (Header.parse header) _).trans (Outdated.of_weighs hw)
  -- the versions are compared before anything that may fail
  have hrun := readHeader_run ha hs
  rw [weigh] at hrun
  by_cases hold : Outdated p (Header.parse header)
  · rw [if_pos (hout.mpr hold), hw.settings] at hrun
    exact ⟨iff_of_true ⟨_, _, _, _, hrun⟩ hold, fun _ => ⟨_, hrun⟩⟩
  · rw [if_neg fun hv => hold (hout.mp hv)] at hrun
    refine ⟨iff_of_false ?_ hold, fun h => absurd h hold⟩
    rintro ⟨l, required, running, q, hq⟩
    rw [hrun] at hq
    obtain ⟨ok, output, asked, hagree, -⟩ :=
      agree_run (Header.parse header) (w.enlist (Header.parse header))
    rw [hagree] at hq
    cases ok with
    | true => cases hq
    | false =>
      dsimp only at hq
      rw [bind_run] at hq
      split at hq
      · cases hq
      next hclose =>
        obtain ⟨path, rfl⟩ := close_error hclose
        cases hq

end Processor

open Package Processor

/-- Numbers of any length are compared as the numbers that they are: a required version counts up
to the largest 64-bit number, which no running version reaches. -/
theorem Version.comparison_exact {s : Text} (hs : IsNumeral (digits s)) :
    required s = min (valueOf (digits s)) (2 ^ 64 - 1) ∧
    (flatten? s = some (valueOf (digits s)) ↔ valueOf (digits s) < 2 ^ 32) ∧
    (2 ^ 32 ≤ valueOf (digits s) → flatten? s = none) ∧
    ∀ (p : Processor) (line : Text) (h : Header), p.settings.version < 2 ^ 32 → Heads line p h →
      Header.value? h.text "requireversion" = some s →
      ((∃ l required running q,
          readHeader line p = .error (.versionTooLow l required running) q) ↔
        p.settings.version < valueOf (digits s)) ∧
      (p.settings.version < valueOf (digits s) → ∃ q, readHeader line p =
        .error (.versionTooLow line (min (valueOf (digits s)) (2 ^ 64 - 1)) p.settings.version)
          q) := by
  have hflat := flatten?_numeral hs
  refine ⟨required_numeral hs, ?_, fun hlarge => ?_, fun p line h hversion hheads hvalue => ?_⟩
  · rw [hflat]
    split_ifs with hsmall
    · exact iff_of_true rfl hsmall
    · exact iff_of_false (by simp) hsmall
  · rw [hflat, if_neg (Nat.not_lt.mpr hlarge)]
  · have hrequired : h.required = some (min (valueOf (digits s)) (2 ^ 64 - 1)) := by
      obtain ⟨t, w, header, tail, -, -, rfl⟩ := hheads
      rw [← required_numeral hs]
      exact congrArg (Option.map required) hvalue
    have hold : Outdated p h ↔ p.settings.version < valueOf (digits s) := by
      rw [Outdated, hrequired]
      simp only [Option.some.injEq, exists_eq_left', Nat.lt_min]
      omega
    obtain ⟨hiff, hfails⟩ := readHeader_outdated hheads
    rw [hrequired] at hfails
    exact ⟨hiff.trans hold, fun hless => hfails (hold.mpr hless)⟩

def wideRequest : Text := "1844674407.37.09.551.626".toList

def wideHeader : Text := "<info>requireversion=1844674407.37.09.551.626<endinfo>".toList

def newProcessor : Processor := { settings := .rooted ⟨['r']⟩, files := { } }

theorem Version.comparison_exact_wide :
    IsNumeral (digits wideRequest) ∧ valueOf (digits wideRequest) = 2 ^ 64 + 10 ∧
    required wideRequest = 2 ^ 64 - 1 ∧ flatten? wideRequest = none ∧
    ∃ q, readHeader wideHeader newProcessor =
      .error (.versionTooLow wideHeader (2 ^ 64 - 1) 10) q := by
  have hnumeral : IsNumeral (digits wideRequest) :=
    ⟨by decide, List.all_eq_true.mp (by decide)⟩
  have hvalue : valueOf (digits wideRequest) = 2 ^ 64 + 10 := by decide
  have hheads : Heads wideHeader newProcessor
      (Header.parse "requireversion=1844674407.37.09.551.626".toList) := by
    refine ⟨wideHeader, newProcessor, _, [], ?_, by decide +kernel, rfl⟩
    rw [assemble, if_pos (by decide +kernel)]
    rfl
  obtain ⟨hrequired, -, hflat, hgate⟩ := Version.comparison_exact hnumeral
  rw [hvalue] at hrequired hflat hgate
  obtain ⟨q, hq⟩ := (hgate _ _ _ (by decide) hheads (by decide +kernel)).2 (by decide)
  exact ⟨hnumeral, hvalue, hrequired.trans (by decide), hflat (by decide), q, hq⟩

end ScriptFeed
