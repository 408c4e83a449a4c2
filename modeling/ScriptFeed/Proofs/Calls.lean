import ScriptFeed.Proofs.Feeds

namespace ScriptFeed.Processor

open Package Comment

variable {p : Processor}

inductive Call where
  | setScript (name : Text)
  | openScript (name : Text)
  | reopen
  | close
  | restart
  | returnFrom
  | next
  | setInstallMode (b : Bool)
  | setAutoStart (b : Bool)
  | takeLastServed
  | takeHeader
  | takeOutput
  | takeActions
  | setPrompt (prompt : Option Prompt)
  | setMarked (marked : Marked)
  -- files and time as they are from now on; others change them too
  | world (files : Files) (now : Text)

def Call.run : Call → Processor → Processor
  | setScript name, p => p.setScript name
  | openScript name, p => stateOf (Processor.openScript name p)
  | reopen, p => stateOf (Processor.reopen p)
  | close, p => stateOf (Processor.close p)
  | restart, p => stateOf (Processor.restart p)
  | returnFrom, p => stateOf (Processor.returnFrom p)
  | next, p => stateOf (Processor.next p)
  | setInstallMode b, p => { p with installMode := b }
  | setAutoStart b, p => { p with autoStart := b }
  | takeLastServed, p => p.takeLastServed.2
  | takeHeader, p => p.takeHeader.2
  | takeOutput, p => p.takeOutput.2
  | takeActions, p => p.takeActions.2
  | setPrompt prompt, p => p.setPrompt prompt
  | setMarked marked, p => { p with marked }
  | world files now, p => { p with files, now }

def after (calls : List Call) (p : Processor) : Processor := calls.foldl (fun p c => c.run p) p

theorem openPath_coherent (path : Path) (p : Processor) :
    Ends (openPath path) p (fun _ q => Coherent q) (fun _ q => Coherent q) :=
  openPath_ends (fun r _ => opened_coherent path r _)
    (fun cause _ => unopened_coherent path cause _)

theorem reopen_coherent (h : Coherent p) :
    Ends reopen p (fun _ q => Coherent q) (fun _ q => Coherent q) := by
  rw [reopen, ends_bind, ends_get]
  split
  · exact openPath_coherent _ p
  · exact h

theorem close_moves {N : Allowed} (p : Processor) : Moves N p (stateOf (close p)) :=
  Changes.moves close_changing.state

section Changes

variable {W : Permit}

theorem openPath_changing (hC : W.call) (path : Path) :
    Changing W (openPath path) p (fun _ _ => True) := by
  have hshut : Changes W p p.shut := .single (.stream p none none hC)
  apply openPath_ends
  · exact fun r _ => ⟨hshut.tail (.opened p.shut path r hC), trivial⟩
  · intro cause _
    have hdown : Changes W p (p.shut.emit (.scriptUnreadable path cause)).teardown :=
      (hshut.tail (.tell _ _ rfl)).tail (.down _)
    unfold unopened
    dsimp only
    split
    · exact hdown
    · exact hdown.tail (.name _ none hC)

theorem reopen_changing (hC : W.call) : Changing W reopen p (fun _ _ => True) := by
  refine Stepping.get ?_
  cases p.script with
  | none => exact .pure trivial
  | some path => exact openPath_changing hC path

theorem openScript_changing (hC : W.call) (name : Text) :
    Changing W (openScript name) p (fun _ _ => True) :=
  Stepping.modify (.single (.name p _ hC)) (reopen_changing hC)

theorem rewind_changing (hC : W.call) : Changing W rewind p (fun _ _ => True) := by
  refine Stepping.get ?_
  split
  · exact reopen_changing hC
  · split
    · exact .throw _
    · exact ⟨.tail (.single (.stream p _ p.inclusion hC)) (.tell _ _ rfl), trivial⟩

theorem restart_changing (hC : W.call) : Changing W restart p (fun _ _ => True) := by
  refine Stepping.modify ?_ (rewind_changing hC)
  exact .tail (.single (.define p {} hC)) (.stream _ p.session none hC)

theorem returnFrom_changing (hS : W.succeed) : Changing W returnFrom p (fun _ _ => True) := by
  refine Stepping.get ?_
  split
  · exact Stepping.modify (.single (.conclude p true fun _ => hS)) close_changing
  · exact .pure trivial

end Changes

theorem returnFrom_run (p : Processor) : returnFrom p =
    if p.isOpen then close (p.concludeRecord true) else .ok ⟨⟩ p := by
  unfold returnFrom
  simp only [bind_run, get_run]
  split <;> rfl

theorem rewind_coherent (h : Coherent p) :
    Ends rewind p (fun _ q => Coherent q) (fun _ q => Coherent q) := by
  rw [rewind, ends_bind, ends_get]
  cases hs : p.session with
  | none => exact reopen_coherent h
  | some s =>
    dsimp only
    split
    · exact h
    · exact h.congr rfl (isOpen_of_session hs).symm rfl rfl rfl

theorem restart_coherent (h : Coherent p) :
    Ends restart p (fun _ q => Coherent q) (fun _ q => Coherent q) := by
  rw [restart, ends_bind, ends_modify]
  exact rewind_coherent ⟨h.valid, nofun, h.installation, fun _ => rfl⟩

theorem Call.run_coherent (c : Call) (h : Coherent p) : Coherent (c.run p) := by
  cases c with
  | setScript name => exact h.congr rfl rfl rfl rfl rfl
  | openScript name =>
    exact Ends.state (reopen_coherent (p := p.setScript name) (h.congr rfl rfl rfl rfl rfl))
  | reopen => exact Ends.state (reopen_coherent h)
  | close => exact Moves.coherent (N := .all) (close_moves p) h
  | restart => exact Ends.state (restart_coherent h)
  | returnFrom =>
    have hc := Moves.coherent (concludeRecord_moves (N := .all) (b := true) (fun _ => trivial) p) h
    change Coherent (stateOf (Processor.returnFrom p))
    rw [returnFrom_run]
    split
    · exact Moves.coherent (N := .all) (close_moves _) hc
    · exact h
  | next =>
    change Coherent (stateOf (p.next?.getD (.ok [] p)))
    cases hn : p.next? with
    | none => exact h
    | some r => exact Moves.coherent (next?_moves h hn) h
  | setInstallMode b => exact h.congr rfl rfl rfl rfl rfl
  | setAutoStart b => exact h.congr rfl rfl rfl rfl rfl
  | takeLastServed => exact h.congr rfl rfl rfl rfl rfl
  | takeHeader => exact h.congr rfl rfl rfl rfl rfl
  | takeOutput => exact h.congr rfl rfl rfl rfl rfl
  | takeActions => exact h.congr rfl rfl rfl rfl rfl
  | setPrompt prompt => exact h.congr rfl rfl rfl rfl rfl
  | setMarked marked => exact h.congr rfl rfl rfl rfl rfl
  | world files now => exact h.congr rfl rfl rfl rfl rfl

theorem after_coherent (calls : List Call) (h : Coherent p) : Coherent (after calls p) := by
  induction calls generalizing p with
  | nil => exact h
  | cons c calls ih => exact ih (c.run_coherent h)

theorem fresh_coherent (settings : Settings) (files : Files) :
    Coherent { settings, files } := ⟨rfl, nofun, nofun, fun _ => rfl⟩

theorem Coherent.closed (h : Coherent p) (ho : p.isOpen = false) :
    p.packages = [] ∧ p.record? = none ∧ p.functions = {} ∧ p.line = 0 := by
  have hi : p.inclusion = none := by
    cases hi : p.inclusion with
    | none => rfl
    | some i => exact absurd (h.inclusion (by simp [hi])) (by simp [ho])
  have hn : p.installation = none := by
    cases hn : p.installation with
    | none => rfl
    | some i => exact absurd (h.installation (by simp [hn])) (by simp [ho])
  have hs : p.session = none := by simpa [isOpen] using ho
  exact ⟨by simp [packages, hn], by simp [record?, hn], h.functions ho, by simp [line, hi, hs]⟩

theorem lifecycle_invariant (settings : Settings) (files : Files) (calls : List Call) :
    let p := after calls { settings, files }
    p.valid = p.isOpen ∧ (p.isIncluding = true → p.isOpen = true) ∧
      (p.isInstalling = true → p.isOpen = true) ∧
      (p.isOpen = false → p.packages = [] ∧ p.record? = none ∧ p.functions = {} ∧ p.line = 0) := by
  intro p
  have h : Coherent p := after_coherent calls (fresh_coherent settings files)
  exact ⟨h.valid, h.inclusion, h.installation, h.closed⟩

def succeeds : Outcome PUnit → Bool
  | .ok _ _ => true
  | .error _ _ => false

theorem succeeds_run {o : Outcome PUnit} (h : succeeds o = true) : o = .ok ⟨⟩ (stateOf o) := by
  cases o with
  | ok u q => rfl
  | error e q => simp [succeeds] at h

def scriptFiles (scripts : List (String × String)) : Files where
  directories := [["s".toList]]
  names := (scripts.map fun x => ["s".toList, x.1.toList]).zipIdx
  contents := scripts.map fun x => Utf8.encode x.2.toList

def openedMain (installMode : Bool) (scripts : List (String × String)) : Processor :=
  stateOf (openScript "main".toList (after [.setInstallMode installMode]
    { settings := { home := ⟨"h".toList⟩, scripts := ⟨"s".toList⟩, logSet := some ⟨"log".toList⟩ }
      files := scriptFiles scripts }))

theorem openedMain_eq (installMode : Bool) (scripts : List (String × String)) :
    openedMain installMode scripts = after [.setInstallMode installMode, .openScript "main".toList]
      { settings := { home := ⟨"h".toList⟩, scripts := ⟨"s".toList⟩, logSet := some ⟨"log".toList⟩ }
        files := scriptFiles scripts } := by
  simp only [openedMain, after, List.foldl_cons, List.foldl_nil, Call.run]

end ScriptFeed.Processor
