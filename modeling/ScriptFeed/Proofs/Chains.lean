import ScriptFeed.Proofs.Contents

namespace ScriptFeed

namespace Package.Chain

variable {first package : Path} {rest : List Path} {c : Chain}

structure Behind (first : Path) (rest : List Path) (c : Chain) : Prop where
  entries : c.entries = first :: rest ∨ c.entries = [] ∧ rest = []
  distinct : (first :: rest).Pairwise fun a b => a.same b = false
  cursor : c.cursor ≤ rest.length

theorem Behind.seed (h : Behind first rest c) {origin : Path}
    (ho : c.entries = [] → origin = first) :
    (c.seed origin).entries = first :: rest ∧ (c.seed origin).cursor = c.cursor := by
  unfold Chain.seed
  rcases h.entries with he | ⟨he, rfl⟩
  · rw [if_neg (by simp [he])]
    exact ⟨he, rfl⟩
  · rw [if_pos he, ho he]
    exact ⟨rfl, rfl⟩

theorem Behind.enqueue (h : Behind first rest c) {origin : Path}
    (ho : c.entries = [] → origin = first) (package : Path) :
    (c.enqueue origin package).2.cursor = c.cursor ∧
      (c.enqueue origin package).2.entries ≠ [] ∧
      ∃ more, (∀ path ∈ more, path = package) ∧
        Behind first (rest ++ more) (c.enqueue origin package).2 := by
  obtain ⟨he, hc⟩ := h.seed ho
  unfold Chain.enqueue
  dsimp only
  by_cases hnot : (c.seed origin).contains package = true
  · rw [if_pos hnot]
    exact ⟨hc, by simp [he], [], by simp, ⟨.inl (by simp [he]), by simpa using h.distinct,
      by rw [hc]; simpa using h.cursor⟩⟩
  · rw [if_neg hnot]
    refine ⟨hc, by simp [he], [package], by simp, ⟨.inl (by simp [he]), ?_, ?_⟩⟩
    · rw [← List.cons_append, List.pairwise_append]
      refine ⟨h.distinct, by simp, ?_⟩
      intro a ha b hb
      obtain rfl : b = package := by simpa using hb
      simp only [Chain.contains, he, List.any_eq_true, not_exists, not_and, Bool.not_eq_true]
        at hnot
      exact hnot a ha
    · have := h.cursor
      simp only [hc, List.length_append, List.length_singleton]
      omega

theorem Behind.advance (h : Behind first rest c) {path : Path} {chain : Chain}
    (ha : c.advance = (some path, chain)) :
    rest[c.cursor]? = some path ∧ chain.cursor = c.cursor + 1 ∧ chain.entries ≠ [] ∧
      Behind first rest chain := by
  obtain ⟨hp, rfl⟩ := Processor.advance_some ha
  rcases h.entries with he | ⟨he, -⟩
  · rw [he, List.getElem?_cons_succ] at hp
    have hlt := (List.getElem?_eq_some_iff.mp hp).1
    exact ⟨hp, rfl, by simp [he], ⟨.inl he, h.distinct, hlt⟩⟩
  · simp [he] at hp

end Package.Chain

namespace Processor

open Package Comment

variable {N : Allowed} {p q : Processor} {n : Nat} {first : Path}

def sessions (n : Nat) (p : Processor) : List Path := (trail n p).filterMap Event.session?

theorem sessions_append {ev : List Event} (he : q.events = p.events ++ ev)
    (hn : n ≤ p.events.length) : sessions n q = sessions n p ++ ev.filterMap Event.session? := by
  rw [sessions, trail_append he hn, List.filterMap_append, sessions]

structure Ordered (n : Nat) (first : Path) (p : Processor) : Prop where
  length : n ≤ p.events.length
  distinct : (sessions n p).Pairwise fun a b => a.same b = false
  chain : p.isOpen = true → (p.current.chain.entries = [] → p.script = some first) ∧
    ∃ rest, p.current.chain.Behind first rest ∧
      sessions n p = first :: rest.take p.current.chain.cursor

theorem Ordered.of_chain (rest : List Path) (hn : n ≤ p.events.length)
    (hs : p.current.chain.entries = [] → p.script = some first)
    (hc : p.current.chain.Behind first rest)
    (he : sessions n p = first :: rest.take p.current.chain.cursor) : Ordered n first p := by
  refine ⟨hn, ?_, fun _ => ⟨hs, rest, hc, he⟩⟩
  rw [he]
  exact hc.distinct.sublist (.cons_cons first (List.take_sublist _ _))

theorem Ordered.congr (h : Ordered n first p) {ev : List Event} (he : q.events = p.events ++ ev)
    (hev : ev.filterMap Event.session? = []) (ho : q.isOpen = true → p.isOpen = true)
    (hc : q.current.chain = p.current.chain) (hs : q.script = p.script) : Ordered n first q := by
  have hsess : sessions n q = sessions n p := by
    rw [sessions_append he h.length, hev, List.append_nil]
  refine ⟨by rw [he, List.length_append]; exact h.length.trans (Nat.le_add_right _ _), ?_, ?_⟩
  · rw [hsess]
    exact h.distinct
  · intro hq
    rw [hc, hs, hsess]
    exact h.chain (ho hq)

theorem session?_of_isNote {e : Event} (h : e.isNote = true) : e.session? = none := by
  cases e with
  | scriptOpened path => cases h
  | _ => rfl

theorem record_events (p : Processor) (e : Entry) : ∃ ev, (p.record e).events = p.events ++ ev ∧
    ev.filterMap Event.session? = [] := by
  unfold record
  split
  · exact ⟨_, rfl, rfl⟩
  · exact ⟨[], by simp, rfl⟩

theorem closeRecord_events (p : Processor) (b : Bool) :
    ∃ ev, (p.closeRecord b).2.events = p.events ++ ev ∧ ev.filterMap Event.session? = [] := by
  unfold closeRecord
  split
  · exact ⟨[], by simp, rfl⟩
  · exact ⟨_, List.append_assoc _ _ _, rfl⟩

theorem current_chain (p : Processor) :
    p.current.chain = (p.installation.map (·.chain)).getD {} := by
  unfold current
  cases p.installation <;> rfl

theorem Frame.current (h : Frame p q) : q.current.chain = p.current.chain := by
  rw [current_chain, h.chain, current_chain]

theorem record_ordered (h : Ordered n first p) (e : Entry) : Ordered n first (p.record e) := by
  obtain ⟨ev, he, hev⟩ := record_events p e
  have hf := record_frame p e
  refine h.congr he hev (fun ho => hf.isOpen ▸ ho) hf.current ?_
  unfold record
  split <;> rfl

theorem closeRecord_ordered (h : Ordered n first p) (b : Bool) :
    Ordered n first (p.closeRecord b).2 := by
  obtain ⟨ev, he, hev⟩ := closeRecord_events p b
  have hf := closeRecord_frame p b
  refine h.congr he hev (fun ho => hf.isOpen ▸ ho) hf.current ?_
  unfold closeRecord
  split <;> rfl

theorem Ordered.closed (h : Ordered n first p) (he : q.events = p.events) (ho : q.isOpen = false) :
    Ordered n first q := by
  refine ⟨he ▸ h.length, ?_, fun hq => absurd (ho.symm.trans hq) (by simp)⟩
  rw [sessions, trail, he]
  exact h.distinct

theorem queue_chain (p : Processor) (path : Path) : (p.queue path).current.chain =
    (p.current.chain.enqueue (p.script.getD ⟨[]⟩) path).2 := by
  unfold queue
  dsimp only
  split <;> rfl

theorem queue_ordered (h : Ordered n first p) (ho : p.isOpen = true) (path : Path) :
    Ordered n first (p.queue path) := by
  obtain ⟨hs, rest, hb, he⟩ := h.chain ho
  have horigin : p.current.chain.entries = [] → p.script.getD ⟨[]⟩ = first := fun hnil => by
    rw [hs hnil, Option.getD_some]
  obtain ⟨hcur, hne, more, -, hb'⟩ := hb.enqueue horigin path
  have hchain := queue_chain p path
  have hev : ∃ ev, (p.queue path).events = p.events ++ ev ∧ ev.filterMap Event.session? = [] := by
    unfold queue
    dsimp only
    split
    · exact ⟨_, rfl, rfl⟩
    · exact ⟨[], by simp, rfl⟩
  obtain ⟨ev, hev, hnone⟩ := hev
  refine .of_chain (rest ++ more) ?_ ?_ (hchain ▸ hb') ?_
  · rw [hev, List.length_append]
    exact h.length.trans (Nat.le_add_right _ _)
  · rw [hchain]
    exact fun hnil => absurd hnil hne
  · rw [sessions_append hev h.length, hnone, List.append_nil, he, hchain, hcur,
      List.take_append_of_le_length hb.cursor]

theorem advance_ordered (h : Ordered n first p) (ho : p.isOpen = true) {i : Installation}
    {path : Path} {chain : Chain} {r : LineReader} (hi : p.installation = some i)
    (ha : i.chain.advance = (some path, chain)) : Ordered n first
      (Processor.opened path r
        { p with inclusion := none, installation := some { i with chain } }) := by
  obtain ⟨-, rest, hb, he⟩ := h.chain ho
  have hcur : p.current.chain = i.chain := by simp [current, hi]
  rw [hcur] at hb he
  obtain ⟨hget, hcursor, hne, hb'⟩ := hb.advance ha
  let q := Processor.opened path r
    { p with inclusion := none, installation := some { i with chain } }
  have hev : q.events = p.events ++ [.scriptOpened path] := rfl
  have hchain : q.current.chain = chain := rfl
  refine .of_chain rest ?_ ?_ (hchain ▸ hb') ?_
  · rw [hev, List.length_append]
    exact h.length.trans (Nat.le_add_right _ _)
  · exact fun hnil => absurd hnil hne
  · rw [sessions_append hev h.length, he, hchain, hcursor]
    obtain ⟨hlt, hpath⟩ := List.getElem?_eq_some_iff.mp hget
    rw [List.cons_append, List.take_add_one, hget]
    rfl

theorem begin_ordered (h : Ordered n first p) (r : Record) (files : Files) :
    Ordered n first (p.begin r files) := by
  have h₁ : Ordered n first (p.recording r files) :=
    h.congr (List.append_assoc _ _ _) rfl id rfl rfl
  have h₂ := record_ordered h₁ (.closed false)
  rw [begin_eq]
  exact h₂.congr rfl rfl id rfl rfl

theorem Move.ordered (hm : Move N p q) (h : Ordered n first p) : Ordered n first q := by
  cases hm with
  | tell e he => exact h.congr rfl (by simp [session?_of_isNote he]) id rfl rfl
  | read s r b hs hr =>
    exact h.congr (List.append_nil _).symm rfl (fun _ => isOpen_of_session hs) rfl rfl
  | enclose path scope r ho hr => exact h.congr rfl rfl id rfl rfl
  | document path b files hw => exact h.congr rfl rfl id rfl rfl
  | layout path b files k hw => exact h.congr rfl rfl id rfl rfl
  | adjust i ho hc hr => exact h.congr (List.append_nil _).symm rfl id hc rfl
  | queue name path ho hn hp => exact queue_ordered h ho path
  | write e he => exact record_ordered h e
  | begin r files hN ho hr => exact begin_ordered h r files
  | finish b hb => exact closeRecord_ordered h b
  | advance i path chain r ho hi ha hr => exact advance_ordered h ho hi ha
  | down => exact (closeRecord_ordered h false).closed rfl rfl
  | _ => exact h.congr (List.append_nil _).symm rfl id rfl rfl

theorem Moves.ordered (hm : Moves N p q) (h : Ordered n first p) : Ordered n first q := by
  induction hm with
  | refl => exact h
  | tail _ hstep ih => exact hstep.ordered ih

end Processor

end ScriptFeed
