import ScriptFeed.Proofs.Simulation

namespace ScriptFeed

namespace Processor

open Package Comment

variable {α β : Type} {m : Marked} {D : Nat → Prop} {p q : Processor}

def Lockstep (m : Marked) (D : Nat → Prop) (x y : Action α) (p q : Processor)
    (Q : α → Processor → Processor → Prop) : Prop :=
  (∃ e p' q', x p = .error e p' ∧ y q = .error e q' ∧ Alike m D p' q') ∨
    ∃ a p' q', x p = .ok a p' ∧ y q = .ok a q' ∧ Q a p' q'

namespace Lockstep

variable {x y : Action α} {Q R : α → Processor → Processor → Prop}

theorem mono (h : Lockstep m D x y p q Q) (hQ : ∀ a p' q', Q a p' q' → R a p' q') :
    Lockstep m D x y p q R :=
  h.imp_right fun ⟨a, p', q', hx, hy, ha⟩ => ⟨a, p', q', hx, hy, hQ a p' q' ha⟩

theorem bind {f g : α → Action β} {R : β → Processor → Processor → Prop}
    (h : Lockstep m D x y p q Q)
    (hf : ∀ a p' q', Q a p' q' → Lockstep m D (f a) (g a) p' q' R) :
    Lockstep m D (x >>= f) (y >>= g) p q R := by
  rcases h with ⟨e, p', q', hx, hy, he⟩ | ⟨a, p', q', hx, hy, ha⟩
  · exact .inl ⟨e, p', q', bind_error hx f, bind_error hy g, he⟩
  · rw [Lockstep, bind_ok hx, bind_ok hy]
    exact hf a p' q' ha

theorem pure {a : α} (h : Q a p q) : Lockstep m D (pure a) (pure a) p q Q :=
  .inr ⟨a, p, q, rfl, rfl, h⟩

theorem throw (e : Failure) (h : Alike m D p q) :
    Lockstep m D (throw e : Action α) (throw e) p q Q :=
  .inl ⟨e, p, q, rfl, rfl, h⟩

theorem get {f g : Processor → Action α} (h : Lockstep m D (f p) (g q) p q Q) :
    Lockstep m D (get >>= f) (get >>= g) p q Q := h

theorem set {p' q' : Processor} {Q : PUnit → Processor → Processor → Prop} (h : Q ⟨⟩ p' q') :
    Lockstep m D (set p') (set q') p q Q :=
  .inr ⟨⟨⟩, p', q', rfl, rfl, h⟩

theorem modify {f g : Processor → Processor} {Q : PUnit → Processor → Processor → Prop}
    (h : Q ⟨⟩ (f p) (g q)) : Lockstep m D (modify f) (modify g) p q Q :=
  .inr ⟨⟨⟩, f p, g q, rfl, rfl, h⟩

end Lockstep

theorem openPath_lockstep (h : Alike m D p q) (path : Path) :
    Lockstep m D (openPath path) (openPath path) p q (fun _ p' q' => Alike m D p' q') := by
  unfold openPath
  refine (Lockstep.modify (Q := fun _ p' q' => Alike m D p' q') h.shut).bind ?_
  rintro - p q h
  refine Lockstep.get ?_
  rw [h.files.openFile]
  cases LineReader.openFile p.files path with
  | error cause =>
    refine (Lockstep.set (Q := fun _ p' q' => Alike m D p' q') (h.unopened path cause)).bind ?_
    rintro - p q h
    exact .throw _ h
  | ok reader => exact .set (h.opened path reader)

theorem close_lockstep (h : Alike m D p q) :
    Lockstep m D close close p q (fun _ p' q' => Alike m D p' q') := by
  unfold close
  refine Lockstep.get ?_
  rw [h.isOpen]
  split
  · refine (Lockstep.modify (Q := fun _ p' q' => Alike m D p' q')
      (h.shut.closeRecord false).2).bind ?_
    rintro - p q h
    refine Lockstep.get ?_
    obtain ⟨hpath, hchain⟩ := h.advanceChain
    dsimp only
    rw [hpath]
    cases p.advanceChain.1 with
    | none => exact .set (hchain.teardown.tell _)
    | some path =>
      have hnext := (hchain.update (fun p => { p with lastServed := false }) (fun _ _ => rfl) rfl
        rfl rfl).tell (.nextPackage path)
      refine (Lockstep.set (Q := fun _ p' q' => Alike m D p' q') hnext).bind ?_
      rintro - p q h
      exact openPath_lockstep h path
  · exact .pure h

theorem Alike.queue (h : Alike m D p q) (package : Path) :
    Alike m D (p.queue package) (q.queue package) := by
  have hnew : (q.current.chain.enqueue (q.script.getD ⟨[]⟩) package).1 =
      (p.current.chain.enqueue (p.script.getD ⟨[]⟩) package).1 := by
    rw [h.current, h.script]
  have hset := h.update (fun p => { p with installation := some { p.current with
    chain := (p.current.chain.enqueue (p.script.getD ⟨[]⟩) package).2 } }) (fun _ _ => rfl) rfl rfl
      rfl
  unfold Processor.queue
  dsimp only
  rw [hnew]
  split
  · exact hset.tell _
  · exact hset

theorem ask_none {question : Text} (h : p.prompt = none) : p.ask question = ([], p) := by
  rw [ask, h]

theorem ask_some {question : Text} {prompt : Prompt} (h : p.prompt = some prompt) :
    p.ask question = (prompt p.asked question, { p with asked := p.asked + 1 }) := by
  rw [ask, h]

theorem Alike.ask (h : Alike m D p q) (question : Text) :
    (q.ask question).1 = (p.ask question).1 ∧
      Alike m D (p.ask question).2 (q.ask question).2 := by
  have hnext := h.update (fun p => { p with asked := p.asked + 1 }) (fun _ _ => rfl) rfl rfl rfl
  have hprompt : q.prompt = p.prompt ∧ q.asked = p.asked := by
    obtain ⟨fs, es, rfl, -⟩ := h
    exact ⟨rfl, rfl⟩
  cases hp : p.prompt with
  | none =>
    rw [ask_none hp, ask_none (hprompt.1.trans hp)]
    exact ⟨rfl, h⟩
  | some prompt =>
    rw [ask_some hp, ask_some (hprompt.1.trans hp)]
    exact ⟨by rw [hprompt.2], hnext⟩

theorem Alike.setInProcedure (h : Alike m D p q) (b : Bool) :
    Alike m D (p.setInProcedure b) (q.setInProcedure b) := h.install _

theorem Alike.keepsDocs (h : Alike m D p q) : q.keepsDocs = p.keepsDocs := by
  rw [Processor.keepsDocs, h.installMode, h.installation, Processor.keepsDocs]

theorem Alike.noted (h : Alike m D p q) (docMark t : Text) (notes : Notes) :
    q.noted docMark t notes = p.noted docMark t notes := by
  rw [Processor.noted, h.installMode, Processor.noted]

theorem Alike.dropLineComment (h : Alike m D p q) (t : Text) (notes : Notes) :
    q.dropLineComment t notes = p.dropLineComment t notes := by
  rw [Processor.dropLineComment, h.noted, h.keepsDocs, Processor.dropLineComment]

theorem Alike.dropBlockComments (h : Alike m D p q) (t : Text) (notes : Notes) :
    (q.dropBlockComments t notes).1 = (p.dropBlockComments t notes).1 ∧
      (q.dropBlockComments t notes).2.1 = (p.dropBlockComments t notes).2.1 ∧
      Alike m D (p.dropBlockComments t notes).2.2 (q.dropBlockComments t notes).2.2 := by
  unfold Processor.dropBlockComments
  rw [h.noted, h.session, h.keepsDocs]
  split
  · cases p.session with
    | none => exact ⟨rfl, rfl, h⟩
    | some s => exact ⟨rfl, rfl, h.withSession (some _)⟩
  · exact ⟨rfl, rfl, h⟩

theorem Lockstep.abreast {x : Action α} {Q : α → Processor → Processor → Prop}
    {P : Processor → Processor → Prop} {L : α → Prop} (h : Lockstep m D x x p q Q) :
    Abreast (Alike m D) P x x p q L Q :=
  h.imp_right .inl

theorem alike_simulation (m : Marked) (D : Nat → Prop) :
    Simulation 0 (fun _ => True) D (fun p q => Alike m D p q ∧ Away D p) (Alike m D)
      (fun _ _ => False) where
  failed := And.left
  session h := h.1.session.trans (Session.map_ahead_zero _).symm
  inclusion h := h.1.inclusion
  installMode h := h.1.installMode
  settings h := h.1.settings
  now := by
    rintro p q ⟨⟨fs, es, rfl, -⟩, -⟩
    rfl
  current h := by rw [h.1.current]
  files h := h.1.files
  sees h hs := h.1.sees h.2 hs
  emit h _ := ⟨h.1.tell _, h.2⟩
  started h := by
    rw [shortName, shortName, h.1.script]
    exact ⟨h.1.tell _, h.2⟩
  skipped _ h := ⟨h.1.tell _, h.2⟩
  say t h := ⟨h.1.say t, h.2⟩
  request a h := ⟨h.1.request a, h.2⟩
  remember t h :=
    ⟨h.1.update (fun p => { p with header := t }) (fun _ _ => rfl) rfl rfl rfl, h.2⟩
  read b h hs hr := by
    refine ⟨h.1.withSession _, ?_⟩
    intro s' hs' id hid
    obtain rfl := Option.some.inj hs'
    exact h.2 _ hs id (hr.file ▸ hid)
  serve b h := ⟨h.1.update (fun p => { p with lastServed := b }) (fun _ _ => rfl) rfl rfl rfl, h.2⟩
  «include» i h :=
    ⟨h.1.update (fun p => { p with inclusion := i }) (fun _ _ => rfl) rfl rfl rfl, h.2⟩
  install i h := ⟨h.1.update
    (fun p => { p with installation := some { i with chain := p.current.chain } })
    (fun _ _ => rfl) rfl rfl rfl, h.2⟩
  leaveProcedure h := ⟨h.1.setInProcedure false, h.2⟩
  queue path h := ⟨h.1.queue path, h.2.of_session (queue_frame _ path).1⟩
  ask question h := by
    obtain ⟨hanswer, hasked⟩ := h.1.ask question
    refine ⟨?_, hasked, h.2.of_session (ask_moves (N := .all) _ question).2.1⟩
    rw [hanswer, accepts, hasked.settings, accepts]
  write h hf := ⟨h.1.withFiles hf, h.2⟩
  declined _ _ := trivial
  close _ h := (close_lockstep h.1).abreast

theorem Abreast.lockstep {x : Action α} {L : α → Prop} {Q : α → Processor → Processor → Prop}
    (h : Abreast (Alike m D) (fun _ _ => False) x x p q L Q) : Lockstep m D x x p q Q := by
  rcases h with he | hok | ⟨hfalse, -⟩
  · exact .inl he
  · exact .inr hok
  · exact hfalse.elim

theorem readText_lockstep (h : Alike m D p q) (ha : Away D p) (t : Text) (notes : Notes) :
    Lockstep m D (readText t notes) (readText t notes) p q
      (fun r p' q' => Alike m D p' q' ∧ ∀ u, r = .line u → Away D p') :=
  (readText_abreast (alike_simulation m D) ⟨h, ha⟩ t notes).lockstep.mono
    fun _ _ _ hr => ⟨hr.1, fun u hu => (hr.2 (by simp [hu])).2⟩

end Processor

end ScriptFeed
