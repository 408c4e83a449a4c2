import ScriptFeed.Proofs.Turns

/-!
The lifecycle invariant. The streams, the installation and the local functions of a processor belong
to its open script: every move keeps it so, and a script that is opened begins with all of them
fresh.
-/

namespace ScriptFeed.Processor

open Package Comment

variable {N : Allowed} {p q : Processor}

structure Coherent (p : Processor) : Prop where
  valid : p.valid = p.isOpen
  inclusion : p.inclusion.isSome = true → p.isOpen = true
  installation : p.installation.isSome = true → p.isOpen = true
  functions : p.isOpen = false → p.functions = {}

theorem Coherent.congr (h : Coherent p) (hv : q.valid = p.valid)
    (ho : q.isOpen = p.isOpen) (hi : q.inclusion.isSome = p.inclusion.isSome)
    (hn : q.installation.isSome = p.installation.isSome) (hf : q.functions = p.functions) :
    Coherent q where
  valid := by rw [hv, ho]; exact h.valid
  inclusion := by rw [hi, ho]; exact h.inclusion
  installation := by rw [hn, ho]; exact h.installation
  functions := by rw [hf, ho]; exact h.functions

theorem record_coherent (h : Coherent p) (e : Entry) : Coherent (p.record e) := by
  unfold record
  split
  · exact h.congr rfl rfl rfl rfl rfl
  · exact h

theorem closeRecord_coherent (h : Coherent p) (b : Bool) : Coherent (p.closeRecord b).2 := by
  unfold closeRecord
  split
  · exact h
  · refine h.congr rfl rfl rfl ?_ rfl
    simp [emit, recordIn]

theorem teardown_coherent (p : Processor) : Coherent p.teardown :=
  ⟨rfl, nofun, nofun, fun _ => rfl⟩

theorem opened_coherent (path : Path) (r : LineReader) (p : Processor) :
    Coherent (p.opened path r) :=
  ⟨rfl, fun _ => rfl, fun _ => rfl, nofun⟩

theorem unopened_coherent (path : Path) (cause : Fault) (p : Processor) :
    Coherent (p.unopened path cause) := by
  unfold unopened
  dsimp only
  split
  · exact teardown_coherent _
  · exact ⟨rfl, nofun, nofun, fun _ => rfl⟩

theorem Coherent.install (h : Coherent p) (ho : p.isOpen = true) (i : Option Installation) :
    Coherent { p with installation := i } where
  valid := h.valid
  inclusion := h.inclusion
  installation := fun _ => ho
  functions := h.functions

theorem queue_coherent (h : Coherent p) (ho : p.isOpen = true) (path : Path) :
    Coherent (p.queue path) := by
  unfold queue
  dsimp only
  split
  · exact (h.install ho _).congr rfl rfl rfl rfl rfl
  · exact h.install ho _

theorem Move.coherent (hm : Move N p q) (h : Coherent p) : Coherent q := by
  cases hm with
  | tell e he => exact h.congr rfl rfl rfl rfl rfl
  | say t => exact h.congr rfl rfl rfl rfl rfl
  | request a => exact h.congr rfl rfl rfl rfl rfl
  | remember t => exact h.congr rfl rfl rfl rfl rfl
  | ask => exact h.congr rfl rfl rfl rfl rfl
  | serve b => exact h.congr rfl rfl rfl rfl rfl
  | read s r b hs hr => exact h.congr rfl (isOpen_of_session hs).symm rfl rfl rfl
  | enclose path scope r ho hr =>
    exact ⟨h.valid, fun _ => ho, h.installation, h.functions⟩
  | readOn i i' hi hr => exact h.congr rfl rfl (by simp [hi]) rfl rfl
  | leave => exact ⟨h.valid, nofun, h.installation, h.functions⟩
  | define fs ho =>
    exact ⟨h.valid, h.inclusion, h.installation, fun hc => absurd (ho.symm.trans hc) (by simp)⟩
  | directories path => exact h.congr rfl rfl rfl rfl rfl
  | document path b files hw => exact h.congr rfl rfl rfl rfl rfl
  | layout path b files n hw => exact h.congr rfl rfl rfl rfl rfl
  | adjust i ho hc hr => exact h.install ho _
  | queue name path ho hn hp => exact queue_coherent h ho path
  | write e he => exact record_coherent h e
  | begin r files hN ho hr =>
    let p₁ := ({ p with files }.emit (.recorded r.path (.opened p.now))).emit (.recordOpened r.path)
    have h₁ : Coherent p₁ := h.congr rfl rfl rfl rfl rfl
    have ho₁ : (p₁.record (.closed false)).isOpen = true := by
      rw [isOpen, record_session]
      exact ho
    exact ((record_coherent h₁ _).install ho₁ _).congr rfl rfl rfl rfl rfl
  | finish b hb => exact closeRecord_coherent h b
  | advance i path chain r ho hi ha hr => exact opened_coherent path r _
  | down => exact teardown_coherent p

theorem Moves.coherent (hm : Moves N p q) (h : Coherent p) : Coherent q := by
  induction hm with
  | refl => exact h
  | tail _ hstep ih => exact hstep.coherent ih

end ScriptFeed.Processor
