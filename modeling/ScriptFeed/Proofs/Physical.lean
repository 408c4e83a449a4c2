import ScriptFeed.Proofs.Breakable
import ScriptFeed.Proofs.Counters

namespace ScriptFeed

theorem Text.trim_trimmed (t : Text) : Trimmed (trim t) := by
  have hstart (u : Text) : trimStart (trimStart u) = trimStart u := List.dropWhile_idempotent _ u
  have hend (u : Text) : trimEnd (trimEnd u) = trimEnd u := by
    unfold trimEnd
    rw [List.reverse_reverse, List.dropWhile_idempotent]
  calc trim (trim t)
    _ = trimEnd (trimStart (trimEnd (trimStart t))) := rfl
    _ = trimEnd (trim (trimStart t)) := by rw [trimStart_trimEnd]
    _ = trimEnd (trimEnd (trimStart (trimStart t))) := rfl
    _ = trim t := by rw [hstart, hend, trim]

namespace LineReader

variable {fs : Files} {r r' : LineReader} {t : Text} {ts ts' : List Text}

inductive Yields (fs : Files) : List Text → LineReader → LineReader → Prop
  | nil (r : LineReader) : Yields fs [] r r
  | cons {t : Text} {ts : List Text} {r r₁ r' : LineReader} (h : r.next fs = .ok (some t, r₁))
      (hs : Yields fs ts r₁ r') : Yields fs (t :: ts) r r'

theorem Yields.next (h : Yields fs (t :: ts) r r') :
    ∃ m, r.next fs = .ok (some t, m) ∧ Yields fs ts m r' := by
  cases h with
  | cons hn hs => exact ⟨_, hn, hs⟩

theorem Yields.of_append (h : Yields fs (ts ++ ts') r r') :
    ∃ m, Yields fs ts r m ∧ Yields fs ts' m r' := by
  induction ts generalizing r with
  | nil => exact ⟨r, .nil r, h⟩
  | cons t ts ih =>
    obtain ⟨_, hn, hs⟩ := h.next
    obtain ⟨m, hm, hm'⟩ := ih hs
    exact ⟨m, .cons hn hm, hm'⟩

theorem Yields.length (h : Yields fs ts r r') :
    ts.length + (r'.pending fs).length ≤ (r.pending fs).length := by
  induction h with
  | nil r => simp
  | cons hn _ ih =>
    obtain ⟨-, hlt, -⟩ := next_some hn
    simp only [List.length_cons]
    omega

theorem Yields.path {ts : List Text} (h : Yields fs ts r r') : r'.path = r.path := by
  induction h with
  | nil r => rfl
  | cons hn _ ih => exact ih.trans (next_reads hn).path

def lines? (fs : Files) : Nat → LineReader → Option (List Text × LineReader)
  | 0, r => some ([], r)
  | n + 1, r =>
    match r.next fs with
    | .ok (some t, r) => (lines? fs n r).map fun x => (t :: x.1, x.2)
    | _ => none

theorem yields_of_lines? {n : Nat} (h : lines? fs n r = some (ts, r')) : Yields fs ts r r' := by
  induction n generalizing r ts with
  | zero =>
    obtain ⟨rfl, rfl⟩ := Prod.mk.inj (Option.some.inj h)
    exact .nil r
  | succ n ih =>
    unfold lines? at h
    split at h
    next t r₁ hn =>
      obtain ⟨⟨us, r₂⟩, hs, he⟩ := Option.map_eq_some_iff.mp h
      obtain ⟨rfl, rfl⟩ := Prod.mk.inj he
      exact .cons hn (ih hs)
    · simp at h

theorem Yields.passage {stop : Text → Bool} (h : Yields fs ts r r')
    (hts : ∀ t ∈ ts, stop t = false) (fuel : Nat) (lines : List Text) :
    gatherWithin fs (!·.closed) (fun p t => ⟨p.lines ++ [t], stop t⟩) (ts.length + fuel)
        (⟨lines, false⟩ : Passage) r =
      gatherWithin fs (!·.closed) (fun p t => ⟨p.lines ++ [t], stop t⟩) fuel
        (⟨lines ++ ts, false⟩ : Passage) r' := by
  induction h generalizing lines with
  | nil r => simp
  | @cons t ts r r₁ r' hn _ ih =>
    have hfuel : (t :: ts).length + fuel = (ts.length + fuel) + 1 := by
      simp only [List.length_cons]
      omega
    have hrest := ih (fun t ht => hts t (List.mem_cons_of_mem _ ht)) (lines ++ [t])
    rw [hfuel, gatherWithin]
    simp only [hn, Bool.not_false, if_true, hts t List.mem_cons_self]
    rw [hrest, List.append_assoc, List.singleton_append]

theorem Yields.through {stop : Text → Bool} {last : Text} (h : Yields fs (ts ++ [last]) r r')
    (hts : ∀ t ∈ ts, stop t = false) (hlast : stop last = true) :
    r.through fs stop = .ok (⟨ts ++ [last], true⟩, r') := by
  have hlength := h.length
  obtain ⟨m, hm, hlines⟩ := h.of_append
  obtain ⟨_, hn, ⟨⟩⟩ := hlines.next
  obtain ⟨fuel, hfuel⟩ : ∃ fuel, (r.pending fs).length + 1 = ts.length + (fuel + 1 + 1) := by
    simp only [List.length_append, List.length_singleton] at hlength
    exact ⟨(r.pending fs).length - ts.length - 1, by omega⟩
  unfold LineReader.through gather
  rw [hfuel, hm.passage hts]
  simp [gatherWithin, hn, hlast]

theorem next_trimmed (h : r.next fs = .ok (some t, r')) : Text.Trimmed t := by
  unfold next at h
  split at h
  · simp at h
  · cases hp : r.prepare fs with
    | error e => simp [hp] at h
    | ok r₁ =>
      simp only [hp] at h
      split at h
      · simp at h
      · simp only [Except.ok.injEq, Prod.mk.injEq, Option.some.injEq] at h
        rw [← h.1]
        exact Text.trim_trimmed _

theorem nextLogical_single {marked : Marked} (h : r.next fs = .ok (some t, r'))
    (hm : ∀ path n, marked path n = false) (ht : continues t = false) :
    r.nextLogical fs marked = .ok (some ⟨t, r'.line⟩, r') := by
  unfold nextLogical
  simp [h, gather, gatherWithin, ht, hm]

theorem continues_of_endsWith (h : Text.endsWith continuation t = false) : continues t = false := by
  rw [continues, h, Bool.and_false]

theorem fetch_fetch (h : r.fetch fs = .ok r') : r'.fetch fs = .ok r' := by
  obtain ⟨path, stream, buffer, line, ended⟩ := r
  cases stream with
  | memory =>
    obtain rfl := Except.ok.inj h
    rfl
  | directory => cases h
  | file id position =>
    obtain rfl := Except.ok.inj h
    have hrest : (fs.bytes id).drop (position + ((fs.bytes id).drop position).length) = [] := by
      apply List.drop_eq_nil_of_le
      simp only [List.length_drop]
      omega
    simp only [fetch, pending, unfetched, hrest, List.append_nil, List.length_nil, Nat.add_zero]

theorem fetch_keeps (h : r.fetch fs = .ok r') : r'.ended = r.ended ∧ r'.line = r.line := by
  unfold fetch at h
  split at h
  · obtain rfl := Except.ok.inj h
    exact ⟨rfl, rfl⟩
  · simp at h
  · obtain rfl := Except.ok.inj h
    exact ⟨rfl, rfl⟩

theorem atEnd_line (fs : Files) (r : LineReader) : (r.atEnd fs).2.line = r.line := by
  unfold atEnd
  split
  · rfl
  · split
    · rfl
    · cases hf : r.fetch fs with
      | error e => rfl
      | ok r₁ => exact (fetch_keeps hf).2

theorem atEnd_counter (fs : Files) (r : LineReader) (n : Nat) :
    ({ r with line := n }.atEnd fs).1 = (r.atEnd fs).1 := by
  let base : LineReader := { r with line := 0 }
  have hbase (r' : LineReader) (h : r' = base.ahead r'.line) :
      (r'.atEnd fs).1 = (base.atEnd fs).1 := by
    rw [h, atEnd_ahead]
  rw [hbase r (by simp [base, ahead]), hbase _ (by simp [base, ahead])]

theorem next_atEnd (fs : Files) (r : LineReader) : (r.atEnd fs).2.next fs = r.next fs := by
  unfold atEnd
  by_cases hended : r.ended = true
  · rw [if_pos hended]
  · rw [if_neg hended]
    by_cases hbuffer : r.buffer ≠ []
    · rw [if_pos hbuffer]
    · rw [if_neg hbuffer]
      have hempty : r.buffer = [] := by simpa using hbuffer
      cases hf : r.fetch fs with
      | error e => rfl
      | ok r₁ =>
        have hprepare : r.prepare fs = .ok r₁ := by simp [prepare, hempty, hf]
        have hagain : r₁.prepare fs = .ok r₁ := by
          unfold prepare
          split
          · rfl
          · exact fetch_fetch hf
        simp only [next, (fetch_keeps hf).1, hprepare, hagain, if_neg hended]

theorem next_of_atEnd (h : (r.atEnd fs).1 = true) : ∃ r', r.next fs = .ok (none, r') := by
  unfold atEnd at h
  by_cases hended : r.ended = true
  · exact ⟨r, by simp [next, hended]⟩
  · rw [if_neg hended] at h
    by_cases hbuffer : r.buffer ≠ []
    · simp [hbuffer] at h
    · rw [if_neg hbuffer] at h
      have hempty : r.buffer = [] := by simpa using hbuffer
      cases hf : r.fetch fs with
      | error e => simp [hf] at h
      | ok r₁ =>
        have hnil : r₁.buffer = [] := by simpa [hf] using h
        exact ⟨{ r₁ with ended := true }, by simp [next, hended, prepare, hempty, hf, hnil]⟩

theorem nextLogical_atEnd (fs : Files) (marked : Marked) (r : LineReader) :
    (r.atEnd fs).2.nextLogical fs marked = r.nextLogical fs marked := by
  rw [nextLogical, next_atEnd, nextLogical]

end LineReader

end ScriptFeed
