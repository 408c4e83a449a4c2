import ScriptFeed.Proofs.Changes

namespace ScriptFeed.Processor

open Package

variable {W : Permit} {p q : Processor}

theorem closeRecord_record? (p : Processor) (b : Bool) : (p.closeRecord b).2.record? = none := by
  unfold closeRecord
  split
  · assumption
  · cases hi : p.installation <;> simp [emit, recordIn, record?, hi]

theorem closeRecord_session (p : Processor) (b : Bool) :
    (p.closeRecord b).2.session = p.session := by
  unfold closeRecord
  split <;> rfl

theorem closeRecord_shut (p : Processor) (b : Bool) :
    (p.shut.closeRecord b).2 = (p.closeRecord b).2.shut := by
  have hr : p.shut.record? = p.record? := rfl
  unfold closeRecord
  rw [hr]
  split <;> rfl

theorem teardown_shut (p : Processor) : p.shut.teardown = p.teardown := by
  have hc := closeRecord_shut p false
  unfold teardown
  dsimp only
  rw [hc]
  rfl

theorem teardown_eq (h : p.record? = none) :
    p.teardown = { p with
      inclusion := none, session := none, installation := none
      script := (p.installation.bind (·.chain.origin?)).or p.script
      valid := false, autoStart := false, installMode := false, functions := {} } := by
  unfold teardown closeRecord
  rw [h]

theorem teardown_chain {i : Installation} {chain : Chain} (hi : p.installation = some i)
    (hr : p.record? = none) (hc : chain.entries = i.chain.entries) :
    Processor.teardown { p with installation := some { i with chain } } = p.teardown := by
  have hi' : i.record = none := by simpa [record?, hi] using hr
  rw [teardown_eq hr, teardown_eq (by simpa [record?] using hi')]
  simp [hi, Chain.origin?, hc]

theorem openPath_run (path : Path) (p : Processor) :
    openPath path p = match LineReader.openFile p.files path with
      | .error cause => .error (.scriptNotFound [] path) (p.shut.unopened path cause)
      | .ok r => .ok ⟨⟩ (p.shut.opened path r) := by
  unfold openPath
  simp only [bind_run, modify_run, get_run]
  change (match LineReader.openFile p.files path with
    | .error cause => _
    | .ok r => _ : Action Unit) p.shut = _
  cases LineReader.openFile p.files path <;> rfl

theorem openScript_run {name : Text} {path : Path}
    (h : p.settings.roots.resolve? name Inclusion.scriptExtension = some path) :
    openScript name p = openPath path { p with script := some path } := by
  have hset : p.setScript name = { p with script := some path } := by rw [setScript, h]
  change reopen (p.setScript name) = _
  rw [hset, reopen, bind_ok (get_run _)]

theorem openPath_ends {path : Path} {Q : PUnit → Processor → Prop} {E : Failure → Processor → Prop}
    (hok : ∀ r, LineReader.openFile p.files path = .ok r → Q ⟨⟩ (p.shut.opened path r))
    (herr : ∀ cause, LineReader.openFile p.files path = .error cause →
      E (.scriptNotFound [] path) (p.shut.unopened path cause)) :
    Ends (openPath path) p Q E := by
  unfold Ends
  rw [openPath_run]
  cases hf : LineReader.openFile p.files path with
  | ok r => exact hok r hf
  | error cause => exact herr cause hf

theorem close_ends {Q : PUnit → Processor → Prop} {E : Failure → Processor → Prop}
    (ho : p.isOpen = true)
    (hnone : ∀ p₁, (p.shut.closeRecord false).2.advanceChain = (none, p₁) →
      Q ⟨⟩ (p₁.teardown.emit .scriptClosed))
    (hsome : ∀ path p₁, (p.shut.closeRecord false).2.advanceChain = (some path, p₁) →
      Ends (openPath path) ({ p₁ with lastServed := false }.emit (.nextPackage path)) Q E) :
    Ends close p Q E := by
  unfold close
  simp only [ends_bind, ends_get, ho, if_true, ends_modify]
  cases ha : (p.shut.closeRecord false).2.advanceChain with
  | mk next p₁ =>
    cases next with
    | none => exact hnone p₁ ha
    | some path => exact hsome path p₁ ha

theorem advance_some {c chain : Chain} {path : Path} (h : c.advance = (some path, chain)) :
    c.entries[c.cursor + 1]? = some path ∧ chain = { c with cursor := c.cursor + 1 } := by
  unfold Chain.advance at h
  cases hp : c.entries[c.cursor + 1]? with
  | none => simp [hp] at h
  | some p =>
    simp only [hp, Prod.mk.injEq, Option.some.injEq] at h
    exact ⟨congrArg some h.1, h.2.symm⟩

theorem advance_none {c chain : Chain} (h : c.advance = (none, chain)) :
    c.entries[c.cursor + 1]? = none ∧ chain.entries = c.entries := by
  unfold Chain.advance at h
  cases hp : c.entries[c.cursor + 1]? with
  | some p => simp [hp] at h
  | none =>
    simp only [hp, Prod.mk.injEq, true_and] at h
    exact ⟨rfl, h ▸ rfl⟩

theorem advanceChain_some {path : Path} (h : p.advanceChain = (some path, q)) :
    ∃ i chain, p.installation = some i ∧ i.chain.advance = (some path, chain) ∧
      q = { p with installation := some { i with chain } } := by
  unfold advanceChain at h
  cases hi : p.installation with
  | none => simp [hi] at h
  | some i =>
    simp only [hi] at h
    cases ha : i.chain.advance with
    | mk next chain =>
      simp only [ha, Prod.mk.injEq] at h
      obtain ⟨rfl, rfl⟩ := h
      have hlen := (List.getElem?_eq_some_iff.mp (advance_some ha).1).1
      have hex : i.chain.isExhausted = false := by
        simp only [Chain.isExhausted, decide_eq_false_iff_not]
        omega
      exact ⟨i, chain, rfl, ha, by simp [hex]⟩

theorem advanceChain_none (h : p.advanceChain = (none, q)) (hr : p.record? = none) :
    q.teardown = p.teardown ∨ ∃ n, q.teardown = (p.emit (.chainFinished n)).teardown := by
  unfold advanceChain at h
  cases hi : p.installation with
  | none =>
    simp only [hi, Prod.mk.injEq, true_and] at h
    exact .inl (by rw [h])
  | some i =>
    simp only [hi] at h
    cases ha : i.chain.advance with
    | mk next chain =>
      simp only [ha, Prod.mk.injEq] at h
      obtain ⟨rfl, rfl⟩ := h
      have hc := (advance_none ha).2
      split
      · exact .inr ⟨_, teardown_chain (p := p.emit _) hi hr hc⟩
      · exact .inl (teardown_chain hi hr hc)

theorem isChained_of_advance {i : Installation} {chain : Chain} {path : Path}
    (hi : p.installation = some { i with chain }) (ha : i.chain.advance = (some path, chain)) :
    p.isChained = true := by
  obtain ⟨he, rfl⟩ := advance_some ha
  cases hc : i.chain.entries with
  | nil => simp [hc] at he
  | cons a l => simp [isChained, Chain.isEmpty, hi, hc]

theorem openNext_ends {i : Installation} {chain : Chain} {path : Path} (ho : p.isOpen = true)
    (hr : p.record? = none) (hi : p.installation = some i)
    (ha : i.chain.advance = (some path, chain)) :
    Ends (openPath path) { p.shut with installation := some { i with chain } }
      (fun _ q => Changes W p q) (fun _ q => Changes W p q) := by
  refine openPath_ends (fun r hf => .single (.advance p i path chain r ho hi ha hf)) ?_
  intro cause _
  have hchained : (Processor.emit (.scriptUnreadable path cause)
      { p.shut with installation := some { i with chain } }).isChained = true :=
    isChained_of_advance rfl ha
  have he : Processor.unopened path cause { p.shut with installation := some { i with chain } } =
      (p.emit (.scriptUnreadable path cause)).teardown := by
    unfold unopened
    rw [if_pos hchained]
    exact (teardown_chain (p := (p.emit (.scriptUnreadable path cause)).shut) hi hr
      (by rw [(advance_some ha).2])).trans (teardown_shut _)
  change Changes W p
    (Processor.unopened path cause { p.shut with installation := some { i with chain } })
  rw [he]
  exact .tail (.single (.tell p _ rfl)) (.down _)

theorem close_run (h : p.isOpen = false) : close p = .ok ⟨⟩ p := by
  unfold close
  simp only [bind_run, get_run, h]
  rfl

theorem close_changing : Changing W close p (fun _ _ => True) := by
  cases ho : p.isOpen with
  | false =>
    rw [Changing, Stepping, Ends, close_run ho]
    exact ⟨.refl, trivial⟩
  | true =>
    -- the streams are shut first, but every outcome is one of changes from the open script
    let p₁ := (p.closeRecord false).2
    have hfail : Changes W p p₁ := .single (.finish p false (by simp))
    have hrec : p₁.record? = none := closeRecord_record? p false
    have hopen : p₁.isOpen = true := by
      rw [isOpen, closeRecord_session]
      exact ho
    have hshut : (p.shut.closeRecord false).2 = p₁.shut := closeRecord_shut p false
    have hdown (p₂ : Processor) (h : Changes W p p₂) :
        Changes W p (p₂.teardown.emit .scriptClosed) :=
      .tail (.tail h (.down p₂)) (.tell _ _ rfl)
    apply close_ends ho
    · intro p₂ ha
      rw [hshut] at ha
      refine ⟨?_, trivial⟩
      rcases advanceChain_none ha hrec with h | ⟨n, h⟩
      · rw [h, teardown_shut]
        exact hdown p₁ hfail
      · rw [h]
        exact teardown_shut (p₁.emit (.chainFinished n)) ▸
          hdown (p₁.emit (.chainFinished n)) (hfail.tail (.tell _ _ rfl))
    · intro path p₂ ha
      rw [hshut] at ha
      obtain ⟨i, chain, hi, hadv, rfl⟩ := advanceChain_some ha
      let p₃ := Processor.emit (.nextPackage path) { p₁ with lastServed := false }
      have hm : Changes W p p₃ := .tail (.tail hfail (.serve p₁ false)) (.tell _ _ rfl)
      have h := openNext_ends (W := W) (p := p₃) hopen hrec hi hadv
      exact Ends.mono h (fun _ _ h => ⟨hm.trans h, trivial⟩) (fun _ _ h => hm.trans h)

end ScriptFeed.Processor
