import ScriptFeed.Proofs.Footers
import ScriptFeed.Proofs.Installations

namespace ScriptFeed.Processor

open Package Comment

variable {N : Allowed} {p q : Processor} {n : Nat} {first : Path}

/-- The script is named as it is read, and `first` when it is closed. -/
structure Named (first : Path) (p : Processor) : Prop where
  opened : ∀ s, p.session = some s → p.script = some s.reader.path
  closed : p.isOpen = false → p.script = some first

theorem Named.of_session (h : Named first p) (hs : q.session = p.session)
    (hn : q.script = p.script) : Named first q := by
  constructor
  · intro s hq
    rw [hn]
    exact h.opened s (hs ▸ hq)
  · intro ho
    rw [hn]
    apply h.closed
    rwa [isOpen, ← hs]

theorem Ordered.origin (h : Ordered n first p) (ho : p.isOpen = true) :
    (p.installation.bind (·.chain.origin?)).or p.script = some first := by
  obtain ⟨hscript, rest, hb, -⟩ := h.chain ho
  have horigin : p.installation.bind (·.chain.origin?) = p.current.chain.origin? := by
    unfold current
    cases p.installation <;> rfl
  rw [horigin, Chain.origin?]
  rcases hb.entries with he | ⟨he, -⟩
  · rw [he]
    rfl
  · rw [he, hscript he]
    rfl

theorem closeRecord_origin (p : Processor) (b : Bool) :
    (p.closeRecord b).2.installation.bind (·.chain.origin?) =
      p.installation.bind (·.chain.origin?) := by
  have hchain (i : Option Installation) :
      i.bind (·.chain.origin?) = (i.map (·.chain)).bind Chain.origin? := by cases i <;> rfl
  rw [hchain, hchain, (closeRecord_frame p b).chain]

theorem closeRecord_script (p : Processor) (b : Bool) : (p.closeRecord b).2.script = p.script := by
  unfold closeRecord
  split <;> rfl

theorem teardown_script (p : Processor) :
    p.teardown.script = (p.installation.bind (·.chain.origin?)).or p.script := by
  rw [← closeRecord_origin p false, ← closeRecord_script p false]
  rfl

theorem teardown_named (hc : Coherent p) (ho : Ordered n first p) (h : Named first p) :
    Named first p.teardown := by
  constructor
  · intro s hs
    cases hs
  · intro _
    rw [teardown_script]
    cases hopen : p.isOpen with
    | true => exact ho.origin hopen
    | false =>
      have hnone : p.installation = none := by
        by_contra hi
        have := hc.installation (Option.isSome_iff_ne_none.mpr hi)
        simp [hopen] at this
      rw [hnone, h.closed hopen]
      rfl

theorem queue_named (h : Named first p) (path : Path) : Named first (p.queue path) := by
  unfold queue
  dsimp only
  split <;> exact h.of_session rfl rfl

theorem record_script (p : Processor) (e : Entry) : (p.record e).script = p.script := by
  unfold record
  split <;> rfl

theorem Move.named (hm : Move N p q) (hc : Coherent p) (ho : Ordered n first p)
    (h : Named first p) : Named first q := by
  cases hm with
  | read s r b hs hr =>
    constructor
    · rintro _ ⟨⟩
      rw [hr.path]
      exact h.opened s hs
    · intro hclosed
      cases hclosed
  | queue name path _ _ _ => exact queue_named h path
  | write e he => exact h.of_session (record_session p e) (record_script p e)
  | begin r files _ _ _ =>
    rw [begin_eq]
    exact h.of_session (record_session (p.recording r files) _)
      (record_script (p.recording r files) _)
  | finish b _ => exact h.of_session (closeRecord_session p b) (closeRecord_script p b)
  | advance i path chain r _ _ _ hr =>
    constructor
    · rintro _ ⟨⟩
      exact congrArg some (openFile_find hr).1.symm
    · intro hclosed
      cases hclosed
  | down => exact teardown_named hc ho h
  | _ => exact h.of_session rfl rfl

theorem Moves.named (hm : Moves N p q) (hc : Coherent p) (ho : Ordered n first p)
    (h : Named first p) : Named first q := by
  induction hm with
  | refl => exact h
  | tail hm hstep ih => exact hstep.named (Moves.coherent hm hc) (Moves.ordered hm ho) ih

def Call.goesOn : Call → Bool
  | next => true
  | close => true
  | returnFrom => true
  | world _ _ => true
  | _ => false

theorem next_moves (hc : Coherent p) : Moves .all p (Call.next.run p) := by
  change Moves .all p (stateOf (p.next?.getD (.ok [] p)))
  cases hn : p.next? with
  | none => exact .refl
  | some r => exact next?_moves hc hn

theorem Call.run_named (c : Call) (hg : c.goesOn = true) (hc : Coherent p)
    (ho : Ordered n first p) (h : Named first p) :
    Ordered n first (c.run p) ∧ Named first (c.run p) := by
  have hmoves (hm : Moves .all p (c.run p)) : Ordered n first (c.run p) ∧ Named first (c.run p) :=
    ⟨Moves.ordered hm ho, Moves.named hm hc ho h⟩
  cases c with
  | next => exact hmoves (next_moves hc)
  | close => exact hmoves (close_moves p)
  | returnFrom => exact hmoves (returnFrom_moves p)
  | world files now =>
    exact ⟨ho.congr (List.append_nil _).symm rfl id rfl rfl, h.of_session rfl rfl⟩
  | _ => simp [goesOn] at hg

theorem after_named (calls : List Call) (hg : ∀ c ∈ calls, c.goesOn = true) (hc : Coherent p)
    (ho : Ordered n first p) (h : Named first p) : Named first (after calls p) := by
  induction calls generalizing p with
  | nil => exact h
  | cons c calls ih =>
    obtain ⟨ho', h'⟩ := c.run_named (hg c List.mem_cons_self) hc ho h
    exact ih (fun d hd => hg d (List.mem_cons_of_mem c hd)) (c.run_coherent hc) ho' h'

theorem opened_named {path : Path} {x : LineReader}
    (hx : LineReader.openFile p.files path = .ok x) :
    Named path ({ p with script := some path }.shut.opened path x) := by
  constructor
  · rintro _ ⟨⟩
    exact congrArg some (openFile_find hx).1.symm
  · intro hclosed
    cases hclosed

/-- After a script is opened, the calls that go on with the run leave its name when they close it,
and meanwhile the name is that of the script being read. -/
theorem script_name_restored (settings : Settings) (files : Files) (earlier : List Call)
    (name : Text) (path : Path) (q : Processor) (calls : List Call)
    (hi : (after earlier { settings, files }).isInstalling = false)
    (hpath : (after earlier { settings, files }).settings.roots.resolve? name
      Inclusion.scriptExtension = some path)
    (hq : openScript name (after earlier { settings, files }) = .ok ⟨⟩ q)
    (hcalls : ∀ c ∈ calls, c.goesOn = true) :
    let r := after calls q
    (r.isOpen = false → r.script = some path) ∧
      ∀ s, r.session = some s → r.script = some s.reader.path := by
  generalize after earlier { settings, files } = p at hi hpath hq
  intro r
  rw [openScript_run hpath, openPath_run] at hq
  cases hx : LineReader.openFile p.files path with
  | error cause => simp [hx] at hq
  | ok x =>
    simp only [hx, EStateM.Result.ok.injEq, true_and] at hq
    subst hq
    have hsteady := opened_steady (by simpa [isInstalling] using hi) hx
    have h := after_named calls hcalls hsteady.coherent hsteady.ordered (opened_named hx)
    exact ⟨h.closed, h.opened⟩

theorem after_called {fuel : Nat} (ho : p.isOpen = true) (h : (p.called fuel).isSome = true)
    (calls : List Call) :
    after (.next :: calls) p = after calls (final (p.called fuel) p) := by
  obtain ⟨o, hcalled⟩ := Option.isSome_iff_exists.mp h
  have hnext : next p = o := by
    rw [next, next?_called ho h, hcalled]
    rfl
  rw [hcalled, after, List.foldl_cons, Call.run, hnext]
  rfl

def decliningScripts : List (String × String) :=
  [("main.nscr", "<info>requirepackages=b,c<endinfo>\na\nz"),
    ("b.nscr", "<info>license=l<endinfo>\nx")]

def declining : Processor := openedMain true decliningScripts

theorem script_name_restored_declining :
    (∃ s, (after [.next, .next] declining).session = some s ∧
      s.reader.path = ⟨"s/b.nscr".toList⟩ ∧
      (after [.next, .next] declining).script = some s.reader.path) ∧
    (after [.next, .next, .next] declining).isOpen = false ∧
      (after [.next, .next, .next] declining).script = some ⟨"s/main.nscr".toList⟩ := by
  let settings : Settings :=
    { home := ⟨"h".toList⟩, scripts := ⟨"s".toList⟩, logSet := some ⟨"log".toList⟩ }
  have hopens : succeeds (openScript "main".toList (after [.setInstallMode true]
      { settings, files := scriptFiles decliningScripts })) = true := by decide +kernel
  have hrun (calls : List Call) (hcalls : ∀ c ∈ calls, c.goesOn = true) :=
    script_name_restored settings (scriptFiles decliningScripts) [.setInstallMode true]
      "main".toList ⟨"s/main.nscr".toList⟩ declining calls (by decide +kernel) (by decide +kernel)
      (succeeds_run hopens) hcalls
  let p₁ := final (declining.called 9) declining
  let p₂ := final (p₁.called 9) p₁
  have hfirst : declining.isOpen = true ∧ (declining.called 9).isSome = true := by decide +kernel
  have hsecond : p₁.isOpen = true ∧ (p₁.called 9).isSome = true := by decide +kernel
  have hthird : p₂.isOpen = true ∧ (p₂.called 9).isSome = true ∧
      p₂.session.map (·.reader.path) = some ⟨"s/b.nscr".toList⟩ ∧
      (final (p₂.called 9) p₂).isOpen = false := by decide +kernel
  have htwo (calls : List Call) : after (.next :: .next :: calls) declining = after calls p₂ := by
    rw [after_called hfirst.1 hfirst.2, after_called hsecond.1 hsecond.2]
  have hthree : after [.next, .next, .next] declining = final (p₂.called 9) p₂ := by
    rw [htwo, after_called hthird.1 hthird.2.1, after, List.foldl_nil]
  constructor
  · obtain ⟨s, hs, hpath⟩ := Option.map_eq_some_iff.mp hthird.2.2.1
    have hsession : (after [.next, .next] declining).session = some s := by
      rw [htwo, after, List.foldl_nil]
      exact hs
    exact ⟨s, hsession, hpath, (hrun [.next, .next] (by simp [Call.goesOn])).2 s hsession⟩
  · have hclosed : (after [.next, .next, .next] declining).isOpen = false := by
      rw [hthree]
      exact hthird.2.2.2
    exact ⟨hclosed, (hrun [.next, .next, .next] (by simp [Call.goesOn])).1 hclosed⟩

end ScriptFeed.Processor
