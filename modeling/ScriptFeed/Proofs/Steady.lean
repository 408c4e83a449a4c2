import ScriptFeed.Proofs.Progress

namespace ScriptFeed.Processor

open Package Comment

variable {N : Allowed} {p q base : Processor} {first : Path} {notes : Notes}

def longest (p : Processor) : Nat :=
  p.files.size + 3 + 2 * (p.files.size + p.lead) +
    2 * (p.files.size + p.lead + 4 * (p.files.size + 3 + 2 * (p.files.size + p.lead) + 14))

structure Steady (base : Processor) (first : Path) (p : Processor) : Prop where
  later : Extends base p
  coherent : Coherent p
  contents : Contents base.files base.events.length p
  ordered : Ordered base.events.length first p
  within : Within (packagePaths base.settings.roots base.longest) p
  left : p.left base.files ≤ base.files.size

def Allowed.upTo (k : Nat) : Allowed := ⟨fun name => name.length ≤ k, True, True⟩

theorem Steady.reach_le (h : Steady base first p) (ha : Apart base.events.length p) :
    p.reach (p.unread + 3) ≤ base.longest := by
  have hun : p.unread ≤ base.files.size := h.contents.left_eq ha ▸ h.left
  have hlead : p.lead = base.lead := by rw [lead, h.later.now, lead]
  unfold reach longest
  rw [hlead]
  omega

theorem Move.steady (hm : Move (.upTo base.longest) p q) (h : Steady base first p)
    (ha : Apart base.events.length p) : Steady base first q where
  later := h.later.trans hm.extends
  coherent := hm.coherent h.coherent
  contents := hm.contents h.contents
  ordered := hm.ordered h.ordered
  within := hm.course.within (fun _ _ hn hp => h.later.settings ▸ packagePath?_mem hp hn) h.within
  left := hm.course.left_le h.contents ha h.left

theorem Moves.steady (hm : Moves (.upTo base.longest) p q) (h : Steady base first p)
    (ha : Apart base.events.length q) : Steady base first q ∧ Onward base.files p q := by
  induction hm with
  | refl => exact ⟨h, .refl _ p⟩
  | @tail r q hpr hstep ih =>
    have hlen := (Moves.contents hpr h.contents).length
    have har : Apart base.events.length r := ha.mono hstep.extends hlen
    obtain ⟨hr, hon⟩ := ih har
    exact ⟨hstep.steady hr har, hon.trans (hstep.course.onward hr.contents har)⟩

theorem turn_upTo (h : Steady base first p) (ha : Apart base.events.length p) (notes : Notes) :
    Moves (.upTo base.longest) p (stateOf (turn notes p)) :=
  (turn_moving notes h.coherent.inclusion trivial (fun _ _ _ => trivial)
    fun _ hname => hname.trans (h.reach_le ha)).state

def Ahead (fs : Files) (p q : Processor) : Prop :=
  q.isOpen = true → p.current.chain.cursor < q.current.chain.cursor ∨
    q.current.chain.cursor = p.current.chain.cursor ∧ q.left fs < p.left fs

theorem Ahead.trans_onward {fs : Files} {r : Processor} (h : Ahead fs p q) (h' : Onward fs q r) :
    Ahead fs p r := by
  intro hr
  obtain ⟨hq, hqr⟩ := h' hr
  have hpq := h hq
  omega

def weight (fs : Files) (p : Processor) : Nat :=
  match p.inclusion with
  | some i => (i.reader.pending fs).length + 1
  | none => 0

theorem turn_included {i : Inclusion} (hi : p.inclusion = some i) (ho : p.isOpen = true) :
    Ends (turn notes) p (fun x q => q.session = p.session ∧ q.current.chain = p.current.chain ∧
      ((∃ i', q.inclusion = some i' ∧ i.reader.Reads p.files i'.reader ∧
        (i'.reader.pending p.files).length < (i.reader.pending p.files).length) ∨
        q.inclusion = none ∧ ∃ n, x = .more n)) (fun _ _ => True) := by
  rw [turn, ends_bind, ends_get, hi, ends_bind]
  refine Ends.mono (readIncluded_changing (W := Allowed.all.whole) hi) ?_ (fun _ _ _ => trivial)
  rintro line q ⟨-, hs, -, hn, hline⟩
  have hc : q.current.chain = p.current.chain := by rw [current_chain, hn, current_chain]
  cases line with
  | none => exact ⟨hs, hc, .inr ⟨hline, _, rfl⟩⟩
  | some t =>
    obtain ⟨i', hi', hr, hlt⟩ := hline
    have hoq : q.isOpen = true := by rw [isOpen, hs]; exact ho
    change Ends (get >>= fun p => command? (p.expandThis t) >>= fun c => pure (Turn.ofCommand? c))
      q _ _
    rw [ends_bind, ends_get, ends_bind]
    refine Ends.mono (command?_moving (N := .all) hoq _) ?_ (fun _ _ _ => trivial)
    rintro c r ⟨-, hf⟩
    exact ⟨hf.session.trans hs, hf.current.trans hc, .inl ⟨i', hf.inclusion.trans hi', hr, hlt⟩⟩

theorem turn_line {s : Session} (hi : p.inclusion = none) (hs : p.session = some s) (hB : N.start)
    (hS : N.succeed) (hN : ∀ name : Text, name.length ≤ p.reach (p.unread + 3) → N.queue name) :
    Ends (turn notes) p (fun x q =>
      (∃ y, q = p.setReader y ∧ y.ended = true ∧ s.reader.Reads p.files y ∧ x = .command []) ∨
      ∃ l y, s.reader.nextLogical p.files p.marked = .ok (some l, y) ∧ Moves N (p.setReader y) q)
      (fun _ _ => True) := by
  refine turn_script hi ?_
  cases hl : s.reader.nextLogical p.files p.marked with
  | error e => simp only [Ends, readLine_run hs, hl]
  | ok z =>
    obtain ⟨logical, y⟩ := z
    cases logical with
    | none =>
      obtain ⟨hr, hend⟩ := LineReader.nextLogical_none hl
      simp only [Ends, readLine_run hs, hl]
      exact .inl ⟨y, rfl, hend, hr, rfl⟩
    | some l =>
      have hW : N.whole.Covers notes p := Allowed.whole_covers hB (fun _ _ => hS) hN
      refine Ends.mono (readLine_some hi hs hl hW) ?_ (fun _ _ _ => trivial)
      rintro x q ⟨hchanges, hopen⟩
      have hm := hchanges.moves
      cases x with
      | stop => exact .inr ⟨l, y, rfl, hm⟩
      | nothing n => exact .inr ⟨l, y, rfl, hm⟩
      | line t =>
        exact Ends.mono (scriptCommand?_moving (N := N) (hopen t rfl) _)
          (fun _ _ h => .inr ⟨l, y, rfl, hm.trans h.1⟩) (fun _ _ _ => trivial)

theorem turn_course {x : Turn} (h : Steady base first p) (ho : p.isOpen = true)
    (ht : turn notes p = .ok x q) (ha : Apart base.events.length q) :
    Steady base first q ∧ (Ahead base.files p q ∨
      (q.session = p.session ∧ q.current.chain = p.current.chain ∧
        q.weight base.files < p.weight base.files ∧ (q.isIncluding = true ∨ ∃ n, x = .more n)) ∨
      (∃ s, q.session = some s ∧ s.reader.ended = true) ∧ q.inclusion = none ∧
        q.current.chain = p.current.chain ∧ x = .command []) := by
  have hm := Moves.extends (turn_moves h.coherent notes)
  rw [ht] at hm
  have hap : Apart base.events.length p := ha.mono hm h.contents.length
  have hup := turn_upTo h hap notes
  rw [ht] at hup
  refine ⟨(Moves.steady hup h ha).1, ?_⟩
  obtain ⟨s, hs⟩ := session_of_isOpen ho
  have hN : ∀ name : Text, name.length ≤ p.reach (p.unread + 3) →
      (Allowed.upTo base.longest).queue name := fun _ hname => hname.trans (h.reach_le hap)
  cases hi : p.inclusion with
  | some i =>
    obtain ⟨hsess, hchain, hinc⟩ := Ends.ok (turn_included hi ho) ht
    have hknown := h.contents.inclusion i hi
    refine .inr (.inl ⟨hsess, hchain, ?_⟩)
    rcases hinc with ⟨i', hi', hr, hlt⟩ | ⟨hnone, hmore⟩
    · rw [h.contents.pending hap hknown, h.contents.pending hap (hknown.of_reads hr)] at hlt
      exact ⟨by simpa [weight, hi, hi'] using hlt, .inl (by simp [isIncluding, hi'])⟩
    · exact ⟨by simp [weight, hi, hnone], .inr hmore⟩
  | none =>
    have hknown := h.contents.session s hs
    rcases Ends.ok (turn_line hi hs (N := .upTo base.longest) trivial trivial hN) ht with
      ⟨y, rfl, hend, hr, hx⟩ | ⟨l, y, hl, hmoves⟩
    · exact .inr (.inr ⟨⟨_, session_setReader hs y, hend⟩, hi, rfl, hx⟩)
    · obtain ⟨hr, hlt, -⟩ := LineReader.nextLogical_some hl
      have hread : Moves (.upTo base.longest) p (p.setReader y) := moves_setReader hs hr
      have hlen := (Moves.contents hread h.contents).length
      have har : Apart base.events.length (p.setReader y) := ha.mono (Moves.extends hmoves) hlen
      have hsteady := (Moves.steady hread h har).1
      have hahead : Ahead base.files p (p.setReader y) := by
        refine fun _ => .inr ⟨rfl, ?_⟩
        rw [left_of_session (session_setReader hs y), left_of_session hs]
        rwa [h.contents.pending hap hknown, h.contents.pending hap (hknown.of_reads hr)] at hlt
      exact .inl (hahead.trans_onward (Moves.steady hmoves hsteady ha).2)

end ScriptFeed.Processor
