import Mathlib.Data.List.Infix
import ScriptFeed.Comment.Line
import ScriptFeed.Package.Header

namespace ScriptFeed

namespace Text

theorem after?_eq_some {pat t r : Text} : after? pat t = some r ↔ t = pat ++ r := by
  induction pat generalizing t with
  | nil => simp [after?, eq_comm]
  | cons p ps ih =>
    cases t with
    | nil => simp [after?]
    | cons c cs =>
      by_cases hc : p = c
      · simp [after?, hc, ih]
      · simp [after?, hc, Ne.symm hc]

theorem cut_self_append (x : Char) (ps t : Text) : cut (x :: ps) (x :: ps ++ t) = some ([], t) := by
  have hafter : after? (x :: ps) (x :: ps ++ t) = some t := after?_eq_some.mpr rfl
  rw [List.cons_append] at *
  rw [cut, hafter]

theorem cut_eq_some {pat t a b : Text} (h : cut pat t = some (a, b)) : t = a ++ pat ++ b := by
  induction t generalizing a b with
  | nil =>
    by_cases hp : pat = []
    · subst hp
      obtain ⟨rfl, rfl⟩ : [] = a ∧ [] = b := by simpa [cut] using h
      rfl
    · simp [cut, hp] at h
  | cons c r ih =>
    unfold cut at h
    cases ha : after? pat (c :: r) with
    | some rest =>
      simp only [ha, Option.some.injEq, Prod.mk.injEq] at h
      obtain ⟨rfl, rfl⟩ := h
      simpa using after?_eq_some.mp ha
    | none =>
      simp only [ha] at h
      obtain ⟨⟨a', b'⟩, hr, he⟩ := Option.map_eq_some_iff.mp h
      simp only [Prod.mk.injEq] at he
      obtain ⟨rfl, rfl⟩ := he
      simp [ih hr]

theorem trimStart_length (t : Text) : (trimStart t).length ≤ t.length :=
  (List.dropWhile_sublist _).length_le

theorem trimEnd_length (t : Text) : (trimEnd t).length ≤ t.length := by
  simpa [trimEnd] using (List.dropWhile_sublist (l := t.reverse) isBlank).length_le

theorem trim_length (t : Text) : (trim t).length ≤ t.length :=
  (trimEnd_length _).trans (trimStart_length t)

theorem trimOf_length (c : Char) (t : Text) : (trimOf c t).length ≤ t.length := by
  have h₁ := (List.dropWhile_sublist (l := t) (· == c)).length_le
  have h₂ := (List.dropWhile_sublist (l := (t.dropWhile (· == c)).reverse) (· == c)).length_le
  simp only [trimOf, List.length_reverse] at h₁ h₂ ⊢
  omega

theorem pieces_length (x : Char) (t : Text) : ∀ p ∈ pieces x t, p.length ≤ t.length := by
  induction t with
  | nil => simp [pieces]
  | cons c r ih =>
    unfold pieces
    split
    · simp only [List.mem_cons, List.length_cons]
      rintro p (rfl | hp)
      · simp
      · exact (ih p hp).trans (Nat.le_succ _)
    · cases hr : pieces x r with
      | nil => simp
      | cons q qs =>
        simp only [List.mem_cons, List.length_cons]
        rintro p (rfl | hp)
        · have := ih q (by simp [hr])
          simp only [List.length_cons]
          omega
        · exact (ih p (by simp [hr, hp])).trans (Nat.le_succ _)

end Text

namespace Comment

theorem beforeLineMark_begins {keepDocs quoted : Bool} {prev : Char} {t u : Text}
    (h : beforeLineMark keepDocs prev quoted t = some u) : u <+: t := by
  induction t generalizing prev quoted u with
  | nil =>
    simp only [beforeLineMark, Option.some.injEq] at h
    simp [← h]
  | cons c r ih =>
    unfold beforeLineMark at h
    dsimp only at h
    split at h
    · simp at h
    · split at h
      · simp only [Option.some.injEq] at h
        simp [← h]
      · obtain ⟨v, hv, rfl⟩ := Option.map_eq_some_iff.mp h
        exact (List.prefix_cons_inj c).mpr (ih hv)

theorem stripLine_begins (line : Text) (keepDocs : Bool) : stripLine line keepDocs <+: line := by
  unfold stripLine
  split
  · exact List.nil_prefix
  · split
    · exact List.prefix_refl line
    · unfold scanLine
      cases h : beforeLineMark keepDocs lineStart false line with
      | none => exact List.prefix_refl line
      | some u => exact beforeLineMark_begins h

theorem eraseFrom_sublist (inside : Bool) (kept t : Text) :
    (eraseFrom inside kept t).Sublist (kept.reverse ++ t) := by
  fun_induction eraseFrom inside kept t with
  | case1 => simp
  | case2 kept r ih =>
    exact ih.trans (((List.sublist_cons_self '#' r).cons '*').append_left kept.reverse)
  | case3 kept c r _ ih => exact ih.trans ((List.sublist_cons_self c r).append_left kept.reverse)
  | case4 kept r ih =>
    rw [List.reverse_cons]
    exact ih.trans
      ((List.sublist_append_left kept.reverse ['#']).append (List.sublist_cons_self '*' r))
  | case5 kept c r _ ih => simpa using ih

theorem eraseBlocks_sublist (t : Text) : (eraseBlocks t).Sublist t := eraseFrom_sublist false [] t

end Comment

namespace Argument

theorem unquote_length (t : Text) : (unquote t).length ≤ t.length := by
  fun_induction unquote t with
  | case1 => simp
  | case2 => simp
  | case3 r ih => simp only [List.length_cons]; omega
  | case4 c r hc ih => simp only [List.length_cons]; omega
  | case5 r => simp
  | case6 c r h₁ h₂ h₃ h₄ ih => simp only [List.length_cons]; omega

theorem read_length (t : Text) : (read t).length ≤ t.length := by
  have hs := Text.trimStart_length t
  unfold read
  split
  next r hr =>
    have := unquote_length r
    rw [hr] at hs
    simp only [List.length_cons] at hs
    omega
  · exact (List.takeWhile_sublist _).length_le.trans hs

theorem locate_append {needle a b t : Text} {prev : Char} {quoted : Bool}
    (h : locate needle prev quoted t = some (a, b)) : a ++ b = t := by
  induction t generalizing prev quoted a b with
  | nil => simp [locate] at h
  | cons c r ih =>
    unfold locate at h
    split at h
    · obtain ⟨⟨a', b'⟩, hr, he⟩ := Option.map_eq_some_iff.mp h
      simp only [Prod.mk.injEq] at he
      obtain ⟨rfl, rfl⟩ := he
      simp [ih hr]
    · split at h
      next rest hrest =>
        simp only [Option.some.injEq, Prod.mk.injEq] at h
        obtain ⟨rfl, rfl⟩ := h
        split at hrest
        · simp at hrest
        · exact (Text.after?_eq_some.mp hrest).symm
      · obtain ⟨⟨a', b'⟩, hr, he⟩ := Option.map_eq_some_iff.mp h
        simp only [Prod.mk.injEq] at he
        obtain ⟨rfl, rfl⟩ := he
        simp [ih hr]

theorem value?_length {t key v : Text} (h : value? t key = some v) : v.length ≤ t.length := by
  obtain ⟨⟨a, b⟩, hf, rfl⟩ := Option.map_eq_some_iff.mp h
  have hlen := congrArg List.length (locate_append hf)
  simp only [List.length_append] at hlen
  have := read_length b
  dsimp only
  omega

theorem list_length (t : Text) : ∀ e ∈ list t, e.length ≤ t.length := by
  intro e he
  obtain ⟨he, -⟩ := List.mem_filter.mp he
  obtain ⟨p, hp, rfl⟩ := List.mem_map.mp he
  calc (Text.trim (Text.trimOf '"' (Text.trim p))).length
      ≤ (Text.trimOf '"' (Text.trim p)).length := Text.trim_length _
    _ ≤ (Text.trim p).length := Text.trimOf_length _ _
    _ ≤ p.length := Text.trim_length p
    _ ≤ t.length := Text.pieces_length ',' t p hp

theorem unquote_plain {c : Char} (hback : c ≠ '\\') (hquote : c ≠ '"') (t : Text) :
    unquote (c :: t) = c :: unquote t := by
  rw [unquote]
  · exact fun h _ => hback h
  · exact fun _ h _ => hback h
  · exact fun _ _ h _ => hback h
  · exact hquote

end Argument

namespace Package

theorem splitInfo?_length {t header rest : Text} (h : splitInfo? t = some (header, rest)) :
    header.length + rest.length ≤ t.length := by
  unfold splitInfo? at h
  cases ho : Text.cut infoOpen t with
  | none => simp [ho] at h
  | some x =>
    obtain ⟨a, b⟩ := x
    simp only [ho] at h
    have h₁ := congrArg List.length (Text.cut_eq_some ho)
    have h₂ := congrArg List.length (Text.cut_eq_some h)
    simp only [List.length_append] at h₁ h₂
    omega

theorem header_text_length (t : Text) : (Header.parse t).text.length ≤ t.length := by
  exact (Text.trim_length _).trans (Comment.eraseBlocks_sublist t).length_le

theorem packages_length (t : Text) :
    ∀ name ∈ (Header.parse t).packages, name.length ≤ t.length := by
  intro name hname
  have htext : (Text.trim (Comment.eraseBlocks t)).length ≤ t.length := header_text_length t
  simp only [Header.parse, Header.ofText, Header.value?] at hname
  generalize "requirepackages".toList = key at hname
  cases hv : Argument.value? (Text.trim (Comment.eraseBlocks t)) key with
  | none => simp [hv] at hname
  | some v =>
    simp only [hv, Option.map_some, Option.getD_some] at hname
    exact (Argument.list_length v name hname).trans ((Argument.value?_length hv).trans htext)

end Package

end ScriptFeed
