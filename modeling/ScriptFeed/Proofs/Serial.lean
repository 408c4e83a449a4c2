import ScriptFeed.Proofs.Progress

namespace ScriptFeed.Processor

open Package Comment

variable {N : Allowed} {p q : Processor} {k : Nat} {notes notes' : Notes}

def serial (p : Processor) : Nat := (sessions 0 p).length

theorem serial_append {l : List Event} (h : q.events = p.events ++ l) :
    q.serial = p.serial + (l.filterMap Event.session?).length := by
  rw [serial, sessions_append h (Nat.zero_le _), List.length_append, serial]

theorem Extends.serial_le (h : Extends p q) : p.serial ≤ q.serial := by
  obtain ⟨ev, hev⟩ := h.events
  rw [serial_append hev.symm]
  exact Nat.le_add_right _ _

structure Past (k : Nat) (p : Processor) : Prop where
  le : k ≤ p.serial
  lt : p.isOpen = true → k < p.serial

theorem past_of_closed (hs : k ≤ p.serial) (h : p.isOpen = false) : Past k p :=
  ⟨hs, fun ho => absurd (h.symm.trans ho) (by simp)⟩

theorem Past.later (h : Past k p) (hs : p.serial ≤ q.serial)
    (ho : q.isOpen = true → p.isOpen = true) : Past k q :=
  ⟨h.le.trans hs, fun hq => (h.lt (ho hq)).trans_le hs⟩

theorem Course.isOpen (h : Course N p q) (ho : q.isOpen = true) : p.isOpen = true := by
  cases h with
  | keep hc hs => rwa [Processor.isOpen, hs] at ho
  | read s x b hc hs hq hr => exact isOpen_of_session hs
  | queue name path hn hp hc hs => rwa [Processor.isOpen, hs] at ho
  | advance path x hp ha hr hq => exact hp
  | down hc hs => simp [Processor.isOpen, hs] at ho

theorem Move.past (hm : Move N p q) (h : Past k p) : Past k q :=
  h.later hm.extends.serial_le hm.course.isOpen

theorem Moves.past (hm : Moves N p q) (h : Past k p) : Past k q := by
  induction hm with
  | refl => exact h
  | tail _ hstep ih => exact hstep.past ih

theorem Moves.isOpen (hm : Moves N p q) (ho : q.isOpen = true) : p.isOpen = true := by
  induction hm with
  | refl => exact ho
  | tail _ hstep ih => exact ih (hstep.course.isOpen ho)

theorem opened_serial (path : Path) (r : LineReader) (p : Processor) :
    (p.opened path r).serial = p.serial + 1 :=
  serial_append (p := p) (l := [.scriptOpened path]) rfl

theorem unopened_extends (path : Path) (cause : Fault) (p : Processor) :
    Extends p (p.unopened path cause) := by
  have h := (emit_extends p (.scriptUnreadable path cause)).trans (teardown_extends _)
  unfold unopened
  dsimp only
  split
  · exact h
  · exact h.trans ⟨rfl, rfl, .refl _, List.prefix_rfl⟩

theorem unopened_isOpen (path : Path) (cause : Fault) (p : Processor) :
    (p.unopened path cause).isOpen = false := by
  unfold unopened
  dsimp only
  split <;> rfl

theorem openPath_past (h : k ≤ p.serial) (path : Path) :
    Ends (openPath path) p (fun _ q => Past k q) (fun _ q => Past k q) := by
  refine openPath_ends (fun r _ => ?_) (fun cause _ => ?_)
  · have hs : (p.shut.opened path r).serial = p.serial + 1 := opened_serial path r p.shut
    exact ⟨by omega, fun _ => by omega⟩
  · exact past_of_closed (h.trans (unopened_extends path cause p.shut).serial_le)
      (unopened_isOpen path cause p.shut)

theorem advanceChain_serial (p : Processor) : p.serial ≤ p.advanceChain.2.serial := by
  unfold advanceChain
  split
  · exact le_rfl
  · dsimp only
    split
    · exact (emit_extends p _).serial_le
    · exact le_rfl

theorem close_past (ho : p.isOpen = true) (h : k ≤ p.serial) :
    Ends close p (fun _ q => Past k q) (fun _ q => Past k q) := by
  have hshut : k ≤ (p.shut.closeRecord false).2.serial :=
    h.trans (closeRecord_extends p.shut false).serial_le
  have hmoved := hshut.trans (advanceChain_serial _)
  refine close_ends ho ?_ ?_
  · intro p₁ ha
    rw [ha] at hmoved
    refine past_of_closed (hmoved.trans ?_) rfl
    exact ((teardown_extends p₁).trans (emit_extends _ _)).serial_le
  · intro path p₁ ha
    rw [ha] at hmoved
    apply openPath_past
    exact hmoved.trans (emit_extends { p₁ with lastServed := false } (.nextPackage path)).serial_le

theorem reopen_past (h : Past k p) :
    Ends reopen p (fun _ q => Past k q) (fun _ q => Past k q) := by
  rw [reopen, ends_bind, ends_get]
  split
  · exact openPath_past h.le _
  · exact h

theorem restart_past (h : Past k p) :
    Ends restart p (fun _ q => Past k q) (fun _ q => Past k q) := by
  rw [restart, ends_bind, ends_modify, rewind, ends_bind, ends_get]
  have hcleared : Past k { p with functions := {}, inclusion := none } := ⟨h.le, h.lt⟩
  split
  · exact reopen_past hcleared
  next s hs =>
    split
    · exact hcleared
    · refine hcleared.later ?_ fun _ => isOpen_of_session hs
      exact (emit_extends _ _).serial_le

theorem Call.run_past (c : Call) (hc : Coherent p) (h : Past k p) : Past k (c.run p) := by
  cases c with
  | openScript name => exact Ends.state (reopen_past (p := p.setScript name) ⟨h.le, h.lt⟩)
  | reopen => exact Ends.state (reopen_past h)
  | close => exact Moves.past (N := .all) (close_moves p) h
  | restart => exact Ends.state (restart_past h)
  | returnFrom =>
    change Past k (stateOf (Processor.returnFrom p))
    rw [returnFrom_run]
    split
    · exact Moves.past ((concludeRecord_moves (N := .all) (b := true) (fun _ => trivial) p).trans
        (close_moves _)) h
    · exact h
  | next =>
    change Past k (stateOf (p.next?.getD (.ok [] p)))
    cases hn : p.next? with
    | none => exact h
    | some r => exact Moves.past (next?_moves hc hn) h
  | _ => exact ⟨h.le, h.lt⟩

theorem after_past (calls : List Call) (hc : Coherent p) (h : Past k p) :
    Past k (after calls p) := by
  induction calls generalizing p with
  | nil => exact h
  | cons c calls ih => exact ih (c.run_coherent hc) (c.run_past hc h)

theorem Feeds.past (hf : Feeds notes p notes' q) (hc : Coherent p) (h : Past k p) : Past k q :=
  Moves.past (hf.moves hc) h

end ScriptFeed.Processor
