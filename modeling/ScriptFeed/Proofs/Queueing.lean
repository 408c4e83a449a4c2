import ScriptFeed.Proofs.Progress

namespace ScriptFeed.Package.Chain

inductive Step where
  | enqueue (origin package : Path)
  | advance
deriving DecidableEq, Repr

def Step.origin? : Step → Option Path
  | enqueue origin _ => some origin
  | advance => none

structure Trip where
  chain : Chain := {}
  returned : List Path := []
  -- a chain with entries had nothing left to move on to
  spent : Bool := false
deriving DecidableEq, Repr

namespace Trip

def step (x : Trip) : Step → Trip
  | .enqueue origin package => { x with chain := (x.chain.enqueue origin package).2 }
  | .advance =>
    { chain := x.chain.advance.2
      returned := x.returned ++ x.chain.advance.1.toList
      spent := x.spent || (!x.chain.isEmpty && x.chain.advance.1.isNone) }

def run (x : Trip) (steps : List Step) : Trip := steps.foldl step x

end Trip

variable {c : Chain} {origin package : Path} {x : Trip}

theorem enqueue_eq (c : Chain) (origin package : Path) : c.enqueue origin package =
    if (c.seed origin).contains package then (false, c.seed origin)
    else (true, { c.seed origin with entries := (c.seed origin).entries ++ [package] }) := rfl

theorem seed_cursor (c : Chain) (origin : Path) : (c.seed origin).cursor = c.cursor := by
  unfold seed
  split <;> rfl

theorem seed_of_ne_nil (h : c.entries ≠ []) (origin : Path) : c.seed origin = c := by
  rw [seed, if_neg h]

theorem entries_seed (h : c.entries = []) (origin : Path) : (c.seed origin).entries = [origin] := by
  rw [seed, if_pos h]

theorem seed_begins (c : Chain) (origin : Path) : c.entries <+: (c.seed origin).entries := by
  by_cases h : c.entries = []
  · rw [h]
    exact List.nil_prefix
  · rw [seed_of_ne_nil h]

theorem not_contains {p : Path} : c.contains p = false ↔ ∀ e ∈ c.entries, e.same p = false := by
  simp [contains]

theorem enqueue_new : (c.enqueue origin package).1 = true ↔
    ∀ e ∈ (c.seed origin).entries, e.same package = false := by
  rw [← not_contains, enqueue_eq]
  by_cases h : (c.seed origin).contains package <;> simp [h]

theorem enqueue_appends (c : Chain) (origin package : Path) :
    (c.enqueue origin package).2.entries = (c.seed origin).entries ++
      if (c.enqueue origin package).1 then [package] else [] := by
  rw [enqueue_eq]
  split <;> simp

theorem advance_entries (c : Chain) : c.advance.2.entries = c.entries := by
  unfold advance
  split <;> rfl

theorem advance_fst (c : Chain) : c.advance.1 = c.entries[c.cursor + 1]? := by
  unfold advance
  cases h : c.entries[c.cursor + 1]? <;> rfl

structure Sound (c : Chain) : Prop where
  distinct : c.entries.Pairwise fun a b => a.same b = false
  cursor : c.cursor ≤ c.entries.length

theorem Sound.seed (h : c.Sound) (origin : Path) : (c.seed origin).Sound := by
  by_cases he : c.entries = []
  · have hcursor := h.cursor
    refine ⟨?_, ?_⟩
    · rw [entries_seed he]
      exact List.pairwise_singleton _ _
    · rw [entries_seed he, seed_cursor]
      simp only [he, List.length_nil] at hcursor
      omega
  · rwa [seed_of_ne_nil he]

theorem Sound.enqueue (h : c.Sound) (origin package : Path) :
    (c.enqueue origin package).2.Sound := by
  obtain ⟨hdistinct, hcursor⟩ := h.seed origin
  have hentries := enqueue_appends c origin package
  refine ⟨?_, ?_⟩
  · rw [hentries]
    by_cases hnew : (c.enqueue origin package).1 = true
    · rw [if_pos hnew, List.pairwise_append]
      refine ⟨hdistinct, List.pairwise_singleton _ _, ?_⟩
      intro a ha b hb
      rw [List.mem_singleton.mp hb]
      exact enqueue_new.mp hnew a ha
    · rwa [if_neg hnew, List.append_nil]
  · rw [Processor.enqueue_cursor, hentries, List.length_append]
    rw [seed_cursor] at hcursor
    omega

theorem Sound.advance (h : c.Sound) : c.advance.2.Sound := by
  refine ⟨advance_entries c ▸ h.distinct, ?_⟩
  unfold Chain.advance
  cases hp : c.entries[c.cursor + 1]? with
  | none => exact le_rfl
  | some path =>
    obtain ⟨hlt, -⟩ := List.getElem?_eq_some_iff.mp hp
    dsimp only
    omega

theorem Sound.advance_le (h : c.Sound) : c.cursor ≤ c.advance.2.cursor := by
  unfold Chain.advance
  split
  · exact Nat.le_succ _
  · exact h.cursor

def passed (c : Chain) : List Path := (c.entries.take (c.cursor + 1)).tail

theorem passed_enqueue (hc : c.cursor = 0 ∨ c.cursor < c.entries.length) (origin package : Path) :
    (c.enqueue origin package).2.passed = c.passed := by
  have happend : (c.enqueue origin package).2.entries = (c.seed origin).entries ++ _ :=
    enqueue_appends c origin package
  rw [passed, Processor.enqueue_cursor, happend, passed]
  by_cases he : c.entries = []
  · have hzero : c.cursor = 0 := by
      simp only [he, List.length_nil] at hc
      omega
    simp [entries_seed he, he, hzero]
  · have hpos := List.length_pos_iff.mpr he
    rw [seed_of_ne_nil he, List.take_append_of_le_length (by omega)]

theorem enqueue_begins (c : Chain) (origin package : Path) :
    c.entries <+: (c.enqueue origin package).2.entries := by
  rw [enqueue_appends]
  exact (seed_begins c origin).trans (List.prefix_append _ _)

theorem passed_sublist (c : Chain) (origin package : Path) :
    c.passed.Sublist (c.enqueue origin package).2.passed := by
  rw [passed, passed, Processor.enqueue_cursor]
  exact ((enqueue_begins c origin package).take _).sublist.tail

theorem passed_advance {path : Path} (h : c.advance.1 = some path) :
    c.advance.2.passed = c.passed ++ [path] := by
  rw [advance_fst] at h
  have hne : c.entries.take (c.cursor + 1) ≠ [] := by
    intro hnil
    have hempty : c.entries = [] := by simpa using hnil
    simp [hempty] at h
  rw [passed, advance_entries]
  unfold Chain.advance
  rw [h]
  dsimp only
  rw [List.take_add_one, h, List.tail_append_of_ne_nil hne]
  rfl

theorem passed_exhausted (h : c.advance.1 = none) : c.advance.2.passed = c.entries.tail := by
  rw [advance_fst] at h
  rw [passed, advance_entries]
  unfold Chain.advance
  rw [h]
  dsimp only
  rw [List.take_of_length_le (Nat.le_succ _)]

namespace Trip

/-- What was returned stands in the chain in this order, up to the cursor; as long as the chain has
not come to its end, nothing between is left out. -/
structure Orderly (x : Trip) : Prop where
  sound : x.chain.Sound
  returned : x.returned.Sublist x.chain.passed
  gapless : x.spent = false → x.returned = x.chain.passed ∧
    (x.chain.cursor = 0 ∨ x.chain.cursor < x.chain.entries.length)

theorem Orderly.fresh : Orderly {} :=
  ⟨⟨.nil, le_rfl⟩, .slnil, fun _ => ⟨rfl, .inl rfl⟩⟩

theorem Orderly.enqueue (h : x.Orderly) (origin package : Path) :
    (x.step (.enqueue origin package)).Orderly := by
  refine ⟨h.sound.enqueue origin package, ?_, ?_⟩
  · exact h.returned.trans (passed_sublist x.chain origin package)
  · intro hspent
    obtain ⟨hreturned, hcursor⟩ := h.gapless hspent
    refine ⟨hreturned.trans (passed_enqueue hcursor origin package).symm, ?_⟩
    have hlength := (enqueue_begins x.chain origin package).length_le
    have hsame := Processor.enqueue_cursor x.chain origin package
    change (x.chain.enqueue origin package).2.cursor = 0 ∨
      (x.chain.enqueue origin package).2.cursor < (x.chain.enqueue origin package).2.entries.length
    omega

theorem Orderly.advance (h : x.Orderly) : (x.step .advance).Orderly := by
  refine ⟨h.sound.advance, ?_, ?_⟩
  · change (x.returned ++ x.chain.advance.1.toList).Sublist x.chain.advance.2.passed
    cases ha : x.chain.advance.1 with
    | some path =>
      rw [passed_advance ha]
      exact h.returned.append (.refl _)
    | none =>
      rw [passed_exhausted ha, Option.toList_none, List.append_nil]
      exact h.returned.trans (List.take_sublist _ _).tail
  · intro hspent
    obtain ⟨hbefore, hempty⟩ := Bool.or_eq_false_iff.mp hspent
    obtain ⟨hreturned, hcursor⟩ := h.gapless hbefore
    change x.returned ++ x.chain.advance.1.toList = x.chain.advance.2.passed ∧
      (x.chain.advance.2.cursor = 0 ∨ x.chain.advance.2.cursor < x.chain.advance.2.entries.length)
    cases ha : x.chain.advance.1 with
    | some path =>
      refine ⟨?_, .inr ?_⟩
      · rw [passed_advance ha, hreturned, Option.toList_some]
      · have hget := (advance_fst x.chain).symm.trans ha
        obtain ⟨hlt, -⟩ := List.getElem?_eq_some_iff.mp hget
        rw [advance_entries]
        unfold Chain.advance
        rw [hget]
        exact hlt
    | none =>
      -- only a chain without entries may have nothing left here
      have hnil : x.chain.entries = [] := by simpa [ha, Chain.isEmpty] using hempty
      have hget := (advance_fst x.chain).symm.trans ha
      refine ⟨?_, .inl ?_⟩
      · rw [passed_exhausted ha, hreturned, passed]
        simp [hnil]
      · unfold Chain.advance
        rw [hget, hnil]
        rfl

theorem Orderly.run (h : x.Orderly) (steps : List Step) : (x.run steps).Orderly := by
  induction steps generalizing x with
  | nil => exact h
  | cons s steps ih =>
    apply ih
    cases s with
    | enqueue origin package => exact h.enqueue origin package
    | advance => exact h.advance

theorem step_grows (h : x.Orderly) (s : Step) :
    x.chain.entries <+: (x.step s).chain.entries ∧ x.chain.cursor ≤ (x.step s).chain.cursor := by
  cases s with
  | enqueue origin package =>
    exact ⟨enqueue_begins x.chain origin package,
      (Processor.enqueue_cursor x.chain origin package).ge⟩
  | advance => exact ⟨(advance_entries x.chain).symm ▸ List.prefix_rfl, h.sound.advance_le⟩

theorem run_grows (h : x.Orderly) (steps : List Step) :
    x.chain.entries <+: (x.run steps).chain.entries ∧
      x.chain.cursor ≤ (x.run steps).chain.cursor := by
  induction steps generalizing x with
  | nil => exact ⟨List.prefix_rfl, le_rfl⟩
  | cons s steps ih =>
    obtain ⟨hentries, hcursor⟩ := step_grows h s
    obtain ⟨hentries', hcursor'⟩ := ih (h.run [s])
    exact ⟨hentries.trans hentries', hcursor.trans hcursor'⟩

theorem run_origin (x : Trip) (steps : List Step) : (x.run steps).chain.origin? =
    x.chain.origin?.or (steps.findSome? Step.origin?) := by
  induction steps generalizing x with
  | nil => rw [List.findSome?_nil, Option.or_none, run, List.foldl_nil]
  | cons s steps ih =>
    rw [run, List.foldl_cons, ← run, ih]
    cases s with
    | enqueue origin package =>
      have hfirst : (x.step (.enqueue origin package)).chain.origin? =
          x.chain.origin?.or (some origin) := by
        change (x.chain.enqueue origin package).2.entries.head? = x.chain.entries.head?.or _
        rw [enqueue_appends]
        cases he : x.chain.entries with
        | nil => rw [entries_seed he]; rfl
        | cons a l => rw [seed_of_ne_nil (by simp [he]), he]; rfl
      rw [hfirst, Option.or_assoc]
      rfl
    | advance =>
      change x.chain.advance.2.entries.head?.or _ = _
      rw [advance_entries]
      rfl

end Trip

/-- What holds of a chain after any steps, and of what they returned. -/
theorem chain_discipline (steps : List Step) :
    let x := Trip.run {} steps
    x.chain.entries.Pairwise (fun a b => a.same b = false) ∧
    x.chain.origin? = steps.findSome? Step.origin? ∧
    (∀ more, x.chain.entries <+: (x.run more).chain.entries ∧
      x.chain.cursor ≤ (x.run more).chain.cursor) ∧
    (∀ origin package, ((x.chain.enqueue origin package).1 = true ↔
        ∀ e ∈ (x.chain.seed origin).entries, e.same package = false) ∧
      (x.chain.enqueue origin package).2.entries = (x.chain.seed origin).entries ++
        if (x.chain.enqueue origin package).1 then [package] else []) ∧
    x.chain.advance.1 = x.chain.entries[x.chain.cursor + 1]? ∧
    x.returned.Pairwise (fun a b => a.same b = false) ∧
    (x.spent = false → x.returned = (x.chain.entries.take (x.chain.cursor + 1)).tail) := by
  intro x
  have h : x.Orderly := Trip.Orderly.fresh.run steps
  have hpassed : x.chain.passed.Sublist x.chain.entries :=
    (List.tail_sublist _).trans (List.take_sublist _ _)
  exact ⟨h.sound.distinct, Trip.run_origin {} steps, Trip.run_grows h,
    fun origin package => ⟨enqueue_new, enqueue_appends x.chain origin package⟩,
    advance_fst x.chain, h.sound.distinct.sublist (h.returned.trans hpassed),
    fun hspent => (h.gapless hspent).1⟩

example : (Trip.run {} [.enqueue ⟨['a']⟩ ⟨['b']⟩, .advance, .advance, .enqueue ⟨['a']⟩ ⟨['c']⟩,
    .advance]).returned = [⟨['b']⟩] := by decide

end ScriptFeed.Package.Chain
