import ScriptFeed.LineReader
import ScriptFeed.Proofs.Lengths

namespace ScriptFeed

namespace Utf8

theorem decode?_length {b : Bytes} {t : Text} (h : decode? b = some t) : t.length ≤ b.length := by
  induction b using decode?.induct generalizing t with
  | case1 =>
    obtain rfl : [] = t := by simpa [decode?] using h
    exact le_rfl
  | case2 a r ha ih =>
    rw [decode?.eq_def] at h
    simp only [ha, if_true] at h
    obtain ⟨u, hu, rfl⟩ := Option.map_eq_some_iff.mp h
    have := ih hu
    simp only [List.length_cons]
    omega
  | case3 a ha => simp [decode?, ha] at h
  | case4 a ha b r hab ih =>
    rw [decode?.eq_def] at h
    simp only [ha, hab, if_false, if_true, and_self] at h
    simp only [Option.bind_eq_bind, Option.bind_eq_some_iff, Option.pure_def, Option.some.injEq]
      at h
    obtain ⟨_, _, _, _, u, hu, rfl⟩ := h
    have := ih hu
    simp only [List.length_cons]
    omega
  | case5 a ha b hab => simp [decode?, ha, hab] at h
  | case6 a ha b hab c r hac ih =>
    rw [decode?.eq_def] at h
    simp only [ha, hab, hac, if_false, if_true, and_self] at h
    simp only [Option.bind_eq_bind, Option.bind_eq_some_iff, Option.pure_def, Option.some.injEq]
      at h
    obtain ⟨_, _, _, _, _, _, u, hu, rfl⟩ := h
    have := ih hu
    simp only [List.length_cons]
    omega
  | case7 a ha b hab c hac => simp [decode?, ha, hab, hac] at h
  | case8 a ha b hab c hac d r had ih =>
    rw [decode?.eq_def] at h
    simp only [ha, hab, hac, had, if_false, if_true, and_self] at h
    simp only [Option.bind_eq_bind, Option.bind_eq_some_iff, Option.pure_def, Option.some.injEq]
      at h
    obtain ⟨_, _, _, _, _, _, _, _, u, hu, rfl⟩ := h
    have := ih hu
    simp only [List.length_cons]
    omega
  | case9 a ha b hab c hac d r had => simp [decode?, ha, hab, hac, had] at h

theorem decodeLine_length (b : Bytes) : (decodeLine b).length ≤ b.length := by
  unfold decodeLine
  cases h : decode? b with
  | none => simp [latin]
  | some t => exact decode?_length h

end Utf8

namespace LineReader

variable {fs : Files} {r r' r'' : LineReader}

def file? (r : LineReader) : Option Nat :=
  match r.stream with
  | .file id _ => some id
  | _ => none

structure Reads (fs : Files) (r r' : LineReader) : Prop where
  path : r'.path = r.path
  file : r'.file? = r.file?
  pending : r'.pending fs <:+ r.pending fs

theorem Reads.refl (fs : Files) (r : LineReader) : Reads fs r r := ⟨rfl, rfl, List.suffix_refl _⟩

theorem Reads.trans (h : Reads fs r r') (h' : Reads fs r' r'') : Reads fs r r'' :=
  ⟨h'.path.trans h.path, h'.file.trans h.file, h'.pending.trans h.pending⟩

theorem fetch_pending (h : r.fetch fs = .ok r') : Reads fs r r' ∧ r'.buffer = r.pending fs := by
  unfold fetch at h
  cases hs : r.stream with
  | memory =>
    simp only [hs, Except.ok.injEq] at h
    subst h
    exact ⟨Reads.refl fs r, by simp [LineReader.pending, unfetched, hs]⟩
  | directory => simp [hs] at h
  | file id position =>
    simp only [hs, Except.ok.injEq] at h
    subst h
    refine ⟨⟨rfl, by simp [file?, hs], ?_⟩, rfl⟩
    have hrest : ((fs.bytes id).drop (position + ((fs.bytes id).drop position).length)) = [] := by
      apply List.drop_eq_nil_of_le
      simp only [List.length_drop]
      omega
    simp only [LineReader.pending, unfetched, hs, hrest, List.append_nil]
    exact List.suffix_refl _

theorem prepare_pending (h : r.prepare fs = .ok r') :
    Reads fs r r' ∧ (r'.buffer = [] → r.pending fs = []) := by
  unfold prepare at h
  by_cases hc : r.buffer.contains newline = true
  · rw [if_pos hc] at h
    obtain rfl : r = r' := by simpa using h
    refine ⟨Reads.refl fs r, fun he => ?_⟩
    simp [he] at hc
  · rw [if_neg hc] at h
    obtain ⟨hr, hb⟩ := fetch_pending h
    exact ⟨hr, fun he => hb ▸ he⟩

theorem splitLine_append (b : Bytes) : (splitLine b).1 ++ (splitLine b).2 = b := by
  induction b with
  | nil => rfl
  | cons x b ih =>
    unfold splitLine
    split
    · rfl
    · simpa using ih

theorem splitLine_length {b : Bytes} (h : b ≠ []) : 0 < (splitLine b).1.length := by
  cases b with
  | nil => exact absurd rfl h
  | cons x b =>
    unfold splitLine
    split <;> simp

theorem next_some {t : Text} (h : r.next fs = .ok (some t, r')) :
    Reads fs r r' ∧ (r'.pending fs).length < (r.pending fs).length ∧
      t.length + (r'.pending fs).length ≤ (r.pending fs).length := by
  unfold LineReader.next at h
  split at h
  · simp at h
  · cases hp : r.prepare fs with
    | error e => simp [hp] at h
    | ok r₁ =>
      obtain ⟨hr, -⟩ := prepare_pending hp
      simp only [hp] at h
      by_cases hb : r₁.buffer = []
      · simp [hb] at h
      · rw [if_neg hb] at h
        simp only [Except.ok.injEq, Prod.mk.injEq, Option.some.injEq] at h
        obtain ⟨rfl, rfl⟩ := h
        have hsplit := congrArg List.length (splitLine_append r₁.buffer)
        have hpos := splitLine_length hb
        have htext : (Text.trim (Utf8.decodeLine (splitLine r₁.buffer).1)).length ≤
            (splitLine r₁.buffer).1.length :=
          (Text.trim_length _).trans (Utf8.decodeLine_length _)
        have hrest : (splitLine r₁.buffer).2 ++ r₁.unfetched fs <:+ r₁.pending fs := by
          refine ⟨(splitLine r₁.buffer).1, ?_⟩
          rw [← List.append_assoc, splitLine_append]
          rfl
        have hlen := hr.pending.length_le
        refine ⟨hr.trans ⟨rfl, rfl, hrest⟩, ?_⟩
        simp only [LineReader.pending, unfetched, List.length_append] at hsplit hlen ⊢
        exact ⟨by omega, by omega⟩

theorem next_none (h : r.next fs = .ok (none, r')) : Reads fs r r' ∧ r'.ended = true := by
  unfold LineReader.next at h
  split at h
  · obtain rfl : r = r' := by simpa using h
    exact ⟨Reads.refl fs r, by assumption⟩
  · cases hp : r.prepare fs with
    | error e => simp [hp] at h
    | ok r₁ =>
      obtain ⟨hr, -⟩ := prepare_pending hp
      simp only [hp] at h
      split at h
      · simp only [Except.ok.injEq, Prod.mk.injEq, true_and] at h
        subst h
        exact ⟨hr.trans ⟨rfl, rfl, List.suffix_refl _⟩, rfl⟩
      · simp at h

theorem next_reads {o : Option Text} (h : r.next fs = .ok (o, r')) : Reads fs r r' := by
  cases o with
  | none => exact (next_none h).1
  | some t => exact (next_some h).1

theorem atEnd_reads (fs : Files) (r : LineReader) : Reads fs r (r.atEnd fs).2 := by
  unfold atEnd
  split
  · exact Reads.refl fs r
  · split
    · exact Reads.refl fs r
    · cases hf : r.fetch fs with
      | error e => exact Reads.refl fs r
      | ok r₁ => exact (fetch_pending hf).1

theorem unfetched_congr {fs' : Files} (h : ∀ id, r.file? = some id → fs'.bytes id = fs.bytes id) :
    r.unfetched fs' = r.unfetched fs := by
  cases hs : r.stream with
  | memory => simp [unfetched, hs]
  | directory => simp [unfetched, hs]
  | file id position =>
    have hid := h id (by simp [file?, hs])
    simp [unfetched, hs, hid]

theorem pending_congr {fs' : Files} (h : ∀ id, r.file? = some id → fs'.bytes id = fs.bytes id) :
    r.pending fs' = r.pending fs := by
  rw [LineReader.pending, unfetched_congr h, LineReader.pending]

section Gathering

variable {σ : Type} {more : σ → Bool} {add : σ → Text → σ}

theorem gatherWithin_keeps {I : σ → LineReader → Prop}
    (hadd : ∀ s r t r', more s = true → r.next fs = .ok (some t, r') → I s r → I (add s t) r')
    (hend : ∀ s r r', r.next fs = .ok (none, r') → I s r → I s r')
    {fuel : Nat} {s s' : σ} (h : gatherWithin fs more add fuel s r = .ok (s', r')) (hI : I s r) :
    I s' r' := by
  induction fuel generalizing s r with
  | zero =>
    simp only [gatherWithin, Except.ok.injEq, Prod.mk.injEq] at h
    exact h.1 ▸ h.2 ▸ hI
  | succ fuel ih =>
    unfold gatherWithin at h
    by_cases hmore : more s = true
    · rw [if_pos hmore] at h
      cases hn : r.next fs with
      | error e => simp [hn] at h
      | ok x =>
        obtain ⟨o, r₁⟩ := x
        cases o with
        | none =>
          simp only [hn, Except.ok.injEq, Prod.mk.injEq] at h
          exact h.1 ▸ h.2 ▸ hend s r r₁ hn hI
        | some t =>
          simp only [hn] at h
          exact ih h (hadd s r t r₁ hmore hn hI)
    · rw [if_neg hmore] at h
      simp only [Except.ok.injEq, Prod.mk.injEq] at h
      exact h.1 ▸ h.2 ▸ hI

theorem gather_reads {s s' : σ} (h : r.gather fs more add s = .ok (s', r')) : Reads fs r r' :=
  gatherWithin_keeps (I := fun _ r₁ => Reads fs r r₁)
    (fun _ _ _ _ _ hn hI => hI.trans (next_reads hn)) (fun _ _ _ hn hI => hI.trans (next_reads hn))
    h (Reads.refl fs r)

end Gathering

theorem through_reads {stop : Text → Bool} {p : Passage} (h : r.through fs stop = .ok (p, r')) :
    Reads fs r r' := gather_reads h

theorem through_size {stop : Text → Bool} {p : Passage} (h : r.through fs stop = .ok (p, r')) :
    (p.lines.flatMap (' ' :: ·)).length + 2 * (r'.pending fs).length ≤
      2 * (r.pending fs).length := by
  -- a line has no more characters than bytes, and its blank is paid for by the line feed
  apply gatherWithin_keeps (I := fun (p : Passage) r₁ =>
    (p.lines.flatMap (' ' :: ·)).length + 2 * (r₁.pending fs).length ≤ 2 * (r.pending fs).length)
    ?_ ?_ h (by simp)
  · intro s r₁ t r₂ _ hn hI
    obtain ⟨-, hlt, hle⟩ := next_some hn
    simp only [List.flatMap_append, List.flatMap_singleton, List.length_append, List.length_cons]
    omega
  · intro s r₁ r₂ hn hI
    have := (next_none hn).1.pending.length_le
    omega

theorem continued_length (t next : Text) : (continued t next).length ≤ t.length + next.length := by
  simp only [continued, List.length_append, List.length_dropLast]
  omega

theorem nextLogical_some {marked : Marked} {l : LogicalLine}
    (h : r.nextLogical fs marked = .ok (some l, r')) :
    Reads fs r r' ∧ (r'.pending fs).length < (r.pending fs).length ∧
      l.text.length + (r'.pending fs).length ≤ (r.pending fs).length + 3 := by
  unfold nextLogical at h
  cases hn : r.next fs with
  | error e => simp [hn] at h
  | ok x =>
    obtain ⟨o, r₁⟩ := x
    cases o with
    | none => simp [hn] at h
    | some t =>
      simp only [hn] at h
      cases hg : r₁.gather fs continues continued t with
      | error e => simp [hg] at h
      | ok y =>
        obtain ⟨t', r₂⟩ := y
        simp only [hg, Except.ok.injEq, Prod.mk.injEq, Option.some.injEq] at h
        obtain ⟨rfl, rfl⟩ := h
        obtain ⟨hr, hlt, hle⟩ := next_some hn
        have hr₂ := gather_reads hg
        have hlen := hr₂.pending.length_le
        have hsize : t'.length + (r₂.pending fs).length ≤ (r.pending fs).length := by
          apply gatherWithin_keeps (I := fun (t : Text) r₁ =>
            t.length + (r₁.pending fs).length ≤ (r.pending fs).length) ?_ ?_ hg hle
          · intro s r₁ t r₂ _ hn hI
            have := (next_some hn).2.2
            have := continued_length s t
            omega
          · intro s r₁ r₂ hn hI
            have := (next_none hn).1.pending.length_le
            omega
        have hmark : (mark t').length ≤ t'.length + 3 := by
          unfold mark
          split <;> simp [Keyword.breakMark]
        refine ⟨hr.trans hr₂, by omega, ?_⟩
        dsimp only
        split <;> omega

theorem nextLogical_none {marked : Marked} (h : r.nextLogical fs marked = .ok (none, r')) :
    Reads fs r r' ∧ r'.ended = true := by
  unfold nextLogical at h
  cases hn : r.next fs with
  | error e => simp [hn] at h
  | ok x =>
    obtain ⟨o, r₁⟩ := x
    cases o with
    | none =>
      simp only [hn, Except.ok.injEq, Prod.mk.injEq, true_and] at h
      exact h ▸ next_none hn
    | some t =>
      simp only [hn] at h
      cases hg : r₁.gather fs continues continued t <;> simp [hg] at h

theorem nextLogical_reads {marked : Marked} {o : Option LogicalLine}
    (h : r.nextLogical fs marked = .ok (o, r')) : Reads fs r r' := by
  cases o with
  | none => exact (nextLogical_none h).1
  | some l => exact (nextLogical_some h).1

end LineReader

end ScriptFeed
