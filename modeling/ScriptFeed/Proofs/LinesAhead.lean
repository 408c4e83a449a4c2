import ScriptFeed.Proofs.Segments

namespace ScriptFeed.LineReader

variable {fs : Files} {r r' : LineReader} {t : Text} {ts : List Text} {lines : List Bytes}

inductive Offers (fs : Files) : List Text → LineReader → Prop
  | done {r r' : LineReader} (h : r.next fs = .ok (none, r')) : Offers fs [] r
  | line {t : Text} {ts : List Text} {r r' : LineReader} (h : r.next fs = .ok (some t, r'))
      (hs : Offers fs ts r') : Offers fs (t :: ts) r

theorem Offers.next (h : Offers fs (t :: ts) r) :
    ∃ r', r.next fs = .ok (some t, r') ∧ Offers fs ts r' := by
  cases h with
  | line hn hs => exact ⟨_, hn, hs⟩

theorem offers_of_ended (h : r.ended = true) : Offers fs [] r := by
  apply Offers.done
  rw [LineReader.next, if_pos h]

theorem Offers.next_end (h : Offers fs [] r) :
    ∃ r', r.next fs = .ok (none, r') ∧ Offers fs [] r' := by
  cases h with
  | done hn => exact ⟨_, hn, offers_of_ended (next_none hn).2⟩

theorem Offers.length (h : Offers fs ts r) : ts.length ≤ (r.pending fs).length := by
  induction h with
  | done hn => exact Nat.zero_le _
  | line hn _ ih =>
    obtain ⟨-, hlt, -⟩ := next_some hn
    simp only [List.length_cons]
    omega

theorem At.offers (h : At fs lines r) : Offers fs ((lines.drop r.line).map textOf) r := by
  induction hn : lines.length - r.line generalizing r with
  | zero =>
    have hnone : lines[r.line]? = none := List.getElem?_eq_none (by omega)
    obtain ⟨r', hend, -⟩ := h.next_end hnone
    rw [List.drop_eq_nil_of_le (by omega)]
    exact .done hend
  | succ n ih =>
    have hlt : r.line < lines.length := by omega
    obtain ⟨r', hnext, hat, -, hline⟩ := h.next_line (List.getElem?_eq_getElem hlt)
    have hrest := ih hat (by omega)
    rw [hline] at hrest
    rw [List.drop_eq_getElem_cons hlt, List.map_cons]
    exact .line hnext hrest

def texts (fs : Files) (r : LineReader) : List Text := (segments (r.pending fs)).map textOf

theorem at_counted (fs : Files) (hstream : r.stream ≠ .directory) (hended : r.ended = false) :
    At fs (List.replicate r.line [] ++ segments (r.pending fs)) r := by
  -- the counted lines are of no account: any of that number will do
  refine ⟨hstream, by simp, by simp, fun he => ?_⟩
  exact absurd (hended.symm.trans he) (by decide)

theorem offers_texts (fs : Files) (hstream : r.stream ≠ .directory) (hended : r.ended = false) :
    Offers fs (r.texts fs) r := by
  have h := (at_counted fs hstream hended).offers
  rwa [List.drop_left' List.length_replicate] at h

section Gathering

variable {σ : Type}

def gathered (more : σ → Bool) (add : σ → Text → σ) : σ → List Text → σ × List Text
  | s, [] => (s, [])
  | s, t :: ts => if more s then gathered more add (add s t) ts else (s, t :: ts)

variable {more : σ → Bool} {add : σ → Text → σ}

theorem gathered_of_enough {s : σ} (h : more s = false) (ts : List Text) :
    gathered more add s ts = (s, ts) := by
  cases ts with
  | nil => rfl
  | cons t ts => rw [gathered, h, if_neg Bool.false_ne_true]

theorem gathered_length (s : σ) (ts : List Text) :
    (gathered more add s ts).2.length ≤ ts.length := by
  induction ts generalizing s with
  | nil => rfl
  | cons t ts ih =>
    unfold gathered
    split
    · have := ih (add s t)
      simp only [List.length_cons]
      omega
    · rfl

theorem Offers.gatherWithin (h : Offers fs ts r) (s : σ) {fuel : Nat} (hfuel : ts.length < fuel) :
    ∃ r', LineReader.gatherWithin fs more add fuel s r = .ok ((gathered more add s ts).1, r') ∧
      Offers fs (gathered more add s ts).2 r' := by
  induction fuel generalizing ts r s with
  | zero => omega
  | succ fuel ih =>
    rw [LineReader.gatherWithin]
    cases hmore : more s with
    | false =>
      rw [gathered_of_enough hmore]
      exact ⟨r, rfl, h⟩
    | true =>
      cases ts with
      | nil =>
        obtain ⟨r', hn, hend⟩ := h.next_end
        exact ⟨r', by rw [hn]; rfl, hend⟩
      | cons t ts =>
        obtain ⟨r₁, hn, hs⟩ := h.next
        simp only [List.length_cons] at hfuel
        obtain ⟨r', hg, hrest⟩ := ih hs (add s t) (by omega)
        rw [gathered, hmore, if_pos rfl]
        exact ⟨r', by rw [hn]; exact hg, hrest⟩

theorem Offers.gather (h : Offers fs ts r) (s : σ) :
    ∃ r', r.gather fs more add s = .ok ((gathered more add s ts).1, r') ∧
      Offers fs (gathered more add s ts).2 r' := by
  have hlength := h.length
  exact h.gatherWithin s (by omega)

end Gathering

def joinedWith (t : Text) (ts : List Text) : Text × List Text := gathered continues continued t ts

theorem joinedWith_single (h : continues t = false) (ts : List Text) : joinedWith t ts = (t, ts) :=
  gathered_of_enough h ts

theorem joinedWith_length (t : Text) (ts : List Text) : (joinedWith t ts).2.length ≤ ts.length :=
  gathered_length t ts

theorem Offers.nextLogical_end (h : Offers fs [] r) (marked : Marked) :
    ∃ r', r.nextLogical fs marked = .ok (none, r') := by
  obtain ⟨r', hn, -⟩ := h.next_end
  exact ⟨r', by rw [nextLogical, hn]⟩

theorem Offers.nextLogical (h : Offers fs (t :: ts) r) :
    ∃ n r', r.nextLogical fs (fun _ _ => false) = .ok (some ⟨(joinedWith t ts).1, n⟩, r') ∧
      Offers fs (joinedWith t ts).2 r' := by
  obtain ⟨r₁, hn, hs⟩ := h.next
  obtain ⟨r', hg, hrest⟩ : ∃ r', r₁.gather fs continues continued t =
      .ok ((joinedWith t ts).1, r') ∧
      Offers fs (joinedWith t ts).2 r' := hs.gather t
  refine ⟨r₁.line, r', ?_, hrest⟩
  rw [LineReader.nextLogical, hn]
  dsimp only
  rw [hg]
  rfl

def passedWith (stop : Text → Bool) (ts : List Text) : Passage × List Text :=
  gathered (!·.closed) (fun p t => ⟨p.lines ++ [t], stop t⟩) {} ts

theorem Offers.through (h : Offers fs ts r) (stop : Text → Bool) :
    ∃ r', r.through fs stop = .ok ((passedWith stop ts).1, r') ∧
      Offers fs (passedWith stop ts).2 r' := h.gather _

theorem passedWith_length (stop : Text → Bool) (ts : List Text) :
    (passedWith stop ts).2.length ≤ ts.length := gathered_length _ ts

theorem passedWith_left (stop : Text → Bool) (ts : List Text) :
    (passedWith stop ts).2 = (ts.dropWhile (!stop ·)).tail := by
  have hleft (lines : List Text) : (gathered (!·.closed) (fun p t => ⟨p.lines ++ [t], stop t⟩)
      (⟨lines, false⟩ : Passage) ts).2 = (ts.dropWhile (!stop ·)).tail := by
    induction ts generalizing lines with
    | nil => rfl
    | cons t ts ih =>
      rw [gathered, List.dropWhile_cons]
      simp only [Bool.not_false, if_true]
      cases ht : stop t with
      | false => exact ih (lines ++ [t])
      | true => rw [gathered_of_enough rfl]; rfl
  exact hleft []

theorem gathered_passage {stop : Text → Bool} {a : List Text} (h : ∀ t ∈ a, stop t = false)
    (lines ts : List Text) :
    gathered (!·.closed) (fun p t => ⟨p.lines ++ [t], stop t⟩) (⟨lines, false⟩ : Passage)
        (a ++ ts) =
      gathered (!·.closed) (fun p t => ⟨p.lines ++ [t], stop t⟩) ⟨lines ++ a, false⟩ ts := by
  induction a generalizing lines with
  | nil => simp
  | cons t a ih =>
    have hrest := ih (fun u hu => h u (List.mem_cons_of_mem _ hu)) (lines ++ [t])
    rw [List.cons_append, gathered]
    simp only [Bool.not_false, if_true, h t List.mem_cons_self]
    rw [hrest, List.append_assoc, List.singleton_append]

theorem passedWith_found {stop : Text → Bool} {a : List Text} {last : Text}
    (h : ∀ t ∈ a, stop t = false) (hlast : stop last = true) (left : List Text) :
    passedWith stop (a ++ last :: left) = (⟨a ++ [last], true⟩, left) := by
  rw [passedWith, gathered_passage h, gathered]
  simp only [Bool.not_false, if_true, hlast, List.nil_append]
  exact gathered_of_enough rfl left

theorem passedWith_missing {stop : Text → Bool} (h : ∀ t ∈ ts, stop t = false) :
    passedWith stop ts = (⟨ts, false⟩, []) := by
  have hall := gathered_passage h [] []
  rw [List.append_nil] at hall
  exact hall

end ScriptFeed.LineReader
