import ScriptFeed.Proofs.Steady

/-!
Draining a script. In a run in which no file that is read is written to, the place in the chain, the
bytes left of the script and those of the included file, compared in this order, go down with every
turn; so every call returns, and after finitely many the script is closed.
-/

namespace ScriptFeed.Processor

open Package Comment

variable {p q r base : Processor} {first : Path} {notes : Notes}

theorem closeAtEnd_including (h : p.isIncluding = true) : closeAtEnd p = .ok ⟨⟩ p := by
  unfold closeAtEnd
  simp only [bind_run, get_run, h]
  rfl

theorem closeAtEnd_closed (hi : p.isIncluding = false) (hs : p.session = none) :
    closeAtEnd p = .ok ⟨⟩ p := by
  unfold closeAtEnd
  simp only [bind_run, get_run, hi, hs]
  rfl

theorem close_further (ho : p.isOpen = true) :
    Ends close p (fun _ q => q.isOpen = false ∨
      q.current.chain.cursor = p.current.chain.cursor + 1) (fun _ _ => True) := by
  refine close_ends ho (fun _ _ => .inl rfl) ?_
  intro path p₁ ha
  obtain ⟨i, chain, hi, hadv, rfl⟩ := advanceChain_some ha
  have hcur : p.current.chain = i.chain := by
    have hf := (closeRecord_frame p.shut false).current
    rw [show (p.shut.closeRecord false).2.current = i by simp [current, hi]] at hf
    exact hf.symm
  refine openPath_ends (fun x _ => .inr ?_) (fun _ _ => trivial)
  rw [hcur]
  change chain.cursor = i.chain.cursor + 1
  rw [(advance_some hadv).2]

theorem closeAtEnd_ended {s : Session} (hi : p.inclusion = none) (hs : p.session = some s)
    (he : s.reader.ended = true) :
    Ends closeAtEnd p (fun _ q => q.isOpen = false ∨
      q.current.chain.cursor = p.current.chain.cursor + 1) (fun _ _ => True) := by
  have hatEnd : s.reader.atEnd p.files = (true, s.reader) := by simp [LineReader.atEnd, he]
  rw [closeAtEnd, ends_bind, ends_get, isIncluding, hi, hs]
  simp only [Option.isSome_none, hatEnd]
  have ho : (p.setReader s.reader).isOpen = true := isOpen_of_session (session_setReader hs _)
  exact close_further (p := { p.setReader s.reader with lastServed := true }) ho

noncomputable def breadth (p : Processor) : Nat :=
  (packagePaths p.settings.roots p.longest).ncard

theorem Steady.cursor_le (h : Steady base first p) (ho : p.isOpen = true) :
    p.current.chain.cursor ≤ base.breadth := by
  obtain ⟨-, rest, hb, -⟩ := h.ordered.chain ho
  have hsub : ∀ path ∈ rest, path ∈ packagePaths base.settings.roots base.longest := by
    intro path hpath
    rcases hb.entries with he | ⟨-, rfl⟩
    · exact h.within path (by rw [he]; exact hpath)
    · simp at hpath
  have hnodup : rest.Nodup := by
    refine (List.pairwise_cons.mp hb.distinct).2.imp ?_
    rintro a b hab rfl
    simp [Path.same] at hab
  calc p.current.chain.cursor ≤ rest.length := hb.cursor
    _ = rest.toFinset.card := (List.toFinset_card_of_nodup hnodup).symm
    _ = (rest.toFinset : Set Path).ncard := (Set.ncard_coe_finset _).symm
    _ ≤ base.breadth := by
      refine Set.ncard_le_ncard ?_ (packagePaths_finite _ _)
      intro path hpath
      exact hsub path (by simpa using hpath)

noncomputable def rank (base p : Processor) : ℕ ×ₗ ℕ ×ₗ ℕ :=
  toLex (base.breadth - p.current.chain.cursor, toLex (p.left base.files, p.weight base.files))

theorem Ahead.rank_lt (h : Ahead base.files p q) (hq : Steady base first q)
    (ho : q.isOpen = true) : rank base q < rank base p := by
  have hle := hq.cursor_le ho
  rw [rank, rank, Prod.Lex.toLex_lt_toLex, Prod.Lex.toLex_lt_toLex]
  rcases h ho with hlt | ⟨heq, hlt⟩
  · exact .inl (by dsimp only; omega)
  · exact .inr ⟨by rw [heq], .inl hlt⟩

theorem rank_lt_of_weight (hs : q.session = p.session) (hc : q.current.chain = p.current.chain)
    (hw : q.weight base.files < p.weight base.files) : rank base q < rank base p := by
  rw [rank, rank, Prod.Lex.toLex_lt_toLex, Prod.Lex.toLex_lt_toLex]
  exact .inr ⟨by rw [hc], .inr ⟨by rw [left, hs, left], hw⟩⟩

theorem more_lowers {n : Notes} (h : Steady base first p) (ho : p.isOpen = true)
    (ht : turn notes p = .ok (.more n) q) (ha : Apart base.events.length q) :
    Steady base first q ∧ (q.isOpen = true → rank base q < rank base p) := by
  obtain ⟨hq, hahead | ⟨hs, hc, hw, -⟩ | ⟨-, -, -, hx⟩⟩ := turn_course h ho ht ha
  · exact ⟨hq, hahead.rank_lt hq⟩
  · exact ⟨hq, fun _ => rank_lt_of_weight hs hc hw⟩
  · cases hx

theorem command_lowers {t : Text} (h : Steady base first p) (ho : p.isOpen = true)
    (ht : turn notes p = .ok (.command t) q) (hc : closeAtEnd q = .ok ⟨⟩ r)
    (ha : Apart base.events.length r) :
    Steady base first r ∧ (r.isOpen = true → rank base r < rank base p) := by
  have hclose : Moves (.upTo base.longest) q r := (Ends.ok closeAtEnd_moving hc).1
  have hturn := turn_moves h.coherent notes
  rw [ht] at hturn
  have haq : Apart base.events.length q :=
    ha.mono (Moves.extends hclose) (Moves.contents hturn h.contents).length
  obtain ⟨hq, hcases⟩ := turn_course h ho ht haq
  obtain ⟨hr, hon⟩ := Moves.steady hclose hq ha
  refine ⟨hr, fun hor => ?_⟩
  rcases hcases with hahead | ⟨hs, hch, hw, hinc⟩ | ⟨⟨s, hs, hend⟩, hi, hch, -⟩
  · exact (hahead.trans_onward hon).rank_lt hr hor
  · have hincluding : q.isIncluding = true := by
      rcases hinc with hinc | ⟨n, hn⟩
      · exact hinc
      · cases hn
    rw [closeAtEnd_including hincluding] at hc
    obtain rfl : q = r := (EStateM.Result.ok.inj hc).2
    exact rank_lt_of_weight hs hch hw
  · have hahead : Ahead base.files p r := by
      rcases Ends.ok (closeAtEnd_ended hi hs hend) hc with hclosed | hcur
      · exact fun hopen => absurd (hclosed.symm.trans hopen) (by simp)
      · exact fun _ => .inl (by rw [hcur, hch]; exact Nat.lt_succ_self _)
    exact hahead.rank_lt hr hor

inductive Reached (p : Processor) : Notes → Processor → Prop
  | start : Reached p {} p
  | more {notes notes' : Notes} {q r : Processor} (h : Reached p notes q)
      (ht : turn notes q = .ok (.more notes') r) : Reached p notes' r
  | command {notes : Notes} {t : Text} {q r r' : Processor} (h : Reached p notes q)
      (ht : turn notes q = .ok (.command t) r) (hc : closeAtEnd r = .ok ⟨⟩ r') : Reached p {} r'

inductive Drains : Processor → List (Outcome Text) → Processor → Prop
  | done {p : Processor} (h : p.isOpen = false) : Drains p [] p
  | call {p q : Processor} {r : Outcome Text} {rs : List (Outcome Text)} (ho : p.isOpen = true)
      (hr : p.next? = some r) (h : Drains (stateOf r) rs q) : Drains p (r :: rs) q

theorem turn_idle (hi : p.inclusion = none) (hs : p.session = none) (notes : Notes) :
    turn notes p = .ok (.command []) p := by
  unfold turn readLine
  simp only [bind_run, get_run, hi, hs, pure_run]

theorem turn_closed (h : Coherent p) (ho : p.isOpen = false) (notes : Notes) :
    turn notes p = .ok (.command []) p := by
  have hi : p.inclusion = none := by
    cases hi : p.inclusion with
    | none => rfl
    | some i => exact absurd (h.inclusion (by simp [hi])) (by simp [ho])
  exact turn_idle hi (by simpa [isOpen] using ho) notes

theorem Coherent.closeAtEnd (h : Coherent p) (ho : p.isOpen = false) : p.closeAtEnd = .ok ⟨⟩ p := by
  have hi : p.isIncluding = false := by
    cases hi : p.isIncluding with
    | false => rfl
    | true => exact absurd (h.inclusion hi) (by simp [ho])
  exact closeAtEnd_closed hi (by simpa [isOpen] using ho)

theorem settle_closed (h : Coherent p) (ho : p.isOpen = false) (t : Text) :
    settle (.ok t p) = .ok t p := by
  simp only [settle, h.closeAtEnd ho]

theorem feed_returns {start : Processor} (k : ℕ ×ₗ ℕ ×ₗ ℕ)
    (hA : ∀ notes r, Reached start notes r → Apart base.events.length r) :
    ∀ notes p, rank base p = k → Steady base first p → Reached start notes p →
      ∃ o, feed? notes p = some o ∧ ((stateOf (settle o)).isOpen = true →
        Reached start {} (stateOf (settle o)) ∧ Steady base first (stateOf (settle o)) ∧
          rank base (stateOf (settle o)) < k) := by
  induction k using WellFoundedLT.induction with
  | _ k ih =>
    intro notes p hk h hreach
    cases ho : p.isOpen with
    | false =>
      refine ⟨.ok [] p, feed?_last (turn_closed h.coherent ho notes), ?_⟩
      rw [settle_closed h.coherent ho]
      exact fun hopen => absurd (ho.symm.trans hopen) (by simp)
    | true =>
      cases ht : turn notes p with
      | error e q =>
        exact ⟨.error e q, feed?_last ht, fun hopen =>
          absurd hopen (by simp [stateOf, settle, abort, teardown, isOpen])⟩
      | ok x q =>
        cases x with
        | command t =>
          refine ⟨.ok t q, feed?_last ht, ?_⟩
          cases hc : closeAtEnd q with
          | error e r =>
            simp only [settle, hc]
            exact fun hopen => absurd hopen (by simp [stateOf, abort, teardown, isOpen])
          | ok u r =>
            simp only [settle, hc, stateOf]
            intro hopen
            have hr : Reached start {} r := .command hreach ht hc
            obtain ⟨hsteady, hlt⟩ := command_lowers h ho ht hc (hA _ _ hr)
            exact ⟨hr, hsteady, hk ▸ hlt hopen⟩
        | more n =>
          have hr : Reached start n q := .more hreach ht
          obtain ⟨hsteady, hlt⟩ := more_lowers h ho ht (hA _ _ hr)
          cases hoq : q.isOpen with
          | false =>
            refine ⟨.ok [] q, feed?_more ht (feed?_last (turn_closed hsteady.coherent hoq n)), ?_⟩
            rw [settle_closed hsteady.coherent hoq]
            exact fun hopen => absurd (hoq.symm.trans hopen) (by simp)
          | true =>
            have hlt' := hk ▸ hlt hoq
            obtain ⟨o, hfeed, hafter⟩ := ih _ hlt' n q rfl hsteady hr
            refine ⟨o, feed?_more ht hfeed, fun hopen => ?_⟩
            obtain ⟨h₁, h₂, h₃⟩ := hafter hopen
            exact ⟨h₁, h₂, h₃.trans hlt'⟩

theorem drains {start : Processor} (k : ℕ ×ₗ ℕ ×ₗ ℕ)
    (hA : ∀ notes r, Reached start notes r → Apart base.events.length r) :
    ∀ p, rank base p = k → Steady base first p → Reached start {} p → ∃ rs q, Drains p rs q := by
  induction k using WellFoundedLT.induction with
  | _ k ih =>
    intro p hk h hreach
    cases ho : p.isOpen with
    | false => exact ⟨[], p, .done ho⟩
    | true =>
      obtain ⟨o, hfeed, hafter⟩ := feed_returns k hA {} p hk h hreach
      have hnext : p.next? = some (settle o) := by rw [next?, if_pos ho, hfeed]; rfl
      cases hopen : (stateOf (settle o)).isOpen with
      | false => exact ⟨[_], _, .call ho hnext (.done hopen)⟩
      | true =>
        obtain ⟨h₁, h₂, h₃⟩ := hafter hopen
        obtain ⟨rs, q, hd⟩ := ih _ h₃ _ rfl h₂ h₁
        exact ⟨_ :: rs, q, .call ho hnext hd⟩

end ScriptFeed.Processor
