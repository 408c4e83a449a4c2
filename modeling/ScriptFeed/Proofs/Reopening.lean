import ScriptFeed.Proofs.Boundaries
import ScriptFeed.Proofs.Kindred

namespace ScriptFeed

theorem LineReader.openFile_line {fs : Files} {path : Path} {r : LineReader}
    (h : LineReader.openFile fs path = .ok r) : r.line = 0 := by
  unfold LineReader.openFile at h
  cases hf : fs.find path with
  | error e => simp [hf, bind, Except.bind] at h
  | ok x =>
    simp only [hf, bind, Except.bind] at h
    cases x with
    | directory =>
      obtain rfl := Except.ok.inj h
      rfl
    | file id =>
      obtain rfl := Except.ok.inj h
      rfl

namespace Processor

open Package Comment

variable {p q : Processor}

structure Reply where
  result : Except Failure Text
  files : Files

def reply : Outcome Text → Reply
  | .ok t p => ⟨.ok t, p.files⟩
  | .error e p => ⟨.error e, p.files⟩

/-- What a number of calls for a command come to; none stands for a call that never returns. -/
def replies : Nat → Processor → List (Option Reply)
  | 0, _ => []
  | n + 1, p =>
    match p.next? with
    | none => [none]
    | some o => some (reply o) :: replies n (stateOf o)

theorem Tallies.reply {o o' : Outcome Text} (h : Tallies o o') :
    Processor.reply o' = Processor.reply o := by
  rcases h with ⟨e, p, q, rfl, rfl, k, h⟩ | ⟨t, p, q, rfl, rfl, k, h⟩
  · simp only [Processor.reply, h.files]
  · simp only [Processor.reply, h.files]

theorem Kindred.replies (h : Kindred p q) (n : Nat) :
    Processor.replies n q = Processor.replies n p := by
  induction n generalizing p q with
  | zero => rfl
  | succ n ih =>
    unfold Processor.replies
    rcases h.next? with ⟨hp, hq⟩ | ⟨o, o', hp, hq, ht⟩
    · rw [hp, hq]
    · rw [hp, hq]
      dsimp only
      rw [ht.reply, ih ht.state]

structure Clean (p : Processor) : Prop where
  functions : p.functions = {}
  inclusion : p.inclusion = none
  inComment : ∀ s, p.session = some s → s.inComment = false
  line : p.line = 0

structure Renewed (p fresh : Processor) : Prop extends Clean p where
  files : p.files = fresh.files
  replies : ∀ n, replies n p = replies n fresh

theorem Kindred.renewed (h : Kindred p q) (hp : Clean p) : Renewed p q :=
  ⟨hp, h.elim fun _ hk => hk.files.symm, fun n => (h.replies n).symm⟩

theorem openPath_clean (path : Path) (p : Processor) :
    Ends (openPath path) p (fun _ q => Clean q) (fun _ q => Clean q) := by
  refine openPath_ends ?_ ?_
  · intro r hr
    refine ⟨rfl, rfl, ?_, LineReader.openFile_line hr⟩
    rintro _ ⟨⟩
    rfl
  · intro cause _
    unfold unopened
    dsimp only
    split <;> exact ⟨rfl, rfl, nofun, rfl⟩

def Stateless (prompt : Option Prompt) : Prop :=
  ∀ f ∈ prompt, ∀ n question, f n question = f 0 question

theorem consents_anew (h : Stateless p.prompt) (k : Nat) (question : Text) :
    (p.anew p.prompt).consents k question = p.consents k question := by
  unfold consents anew
  cases hp : p.prompt with
  | none => rfl
  | some f =>
    have hf := h f hp
    simp only [hf (0 + k), hf (p.asked + k)]
    rfl

def cleared (p : Processor) : Processor := { p.shut with functions := {} }

theorem openPath_cleared (hi : p.installation = none) (path : Path) :
    openPath path p = openPath path p.cleared := by
  have hfiles : p.cleared.files = p.files := rfl
  have hunopened (cause : Fault) :
      p.shut.unopened path cause = p.cleared.shut.unopened path cause := by
    simp only [unopened, teardown, closeRecord, record?, isChained, emit, shut, cleared, hi,
      Option.bind_none]
  rw [openPath_run, openPath_run, hfiles]
  cases LineReader.openFile p.files path with
  | error cause => exact congrArg (EStateM.Result.error _) (hunopened cause)
  | ok r => rfl

theorem anew_kin (hi : p.installation = none) (prompt : Option Prompt) :
    (p.anew prompt).bare = p.cleared.bare ∧ p.current.chain.Kin {} := by
  have hcurrent : p.current = {} := by simp [current, hi]
  constructor
  · change _ = { (p.anew prompt).bare with installation := some p.current.apart }
    rw [hcurrent]
    rfl
  · rw [hcurrent]
    exact .refl _

theorem cleared_kindred (hi : p.installation = none) (hprompt : Stateless p.prompt) (path : Path) :
    KindredBy 0 (cleared { p with script := some path })
      (cleared { p.anew p.prompt with script := some path }) := by
  obtain ⟨hbare, hchain⟩ := anew_kin hi p.prompt
  exact ⟨hbare, rfl, hchain, rfl, consents_anew hprompt, .inl rfl, nofun⟩

theorem openScript_tallies {name : Text} {path : Path} (hi : p.installation = none)
    (hprompt : Stateless p.prompt)
    (hpath : p.settings.roots.resolve? name Inclusion.scriptExtension = some path) :
    Tallies (openScript name p) (openScript name (p.anew p.prompt)) := by
  have hanew : (p.anew p.prompt).settings = p.settings := rfl
  rw [openScript_run hpath, openScript_run (hanew ▸ hpath),
    openPath_cleared (p := { p with script := some path }) hi,
    openPath_cleared (p := { p.anew p.prompt with script := some path }) rfl]
  exact (openPath_kindred (L := fun _ => True) (cleared_kindred hi hprompt path) path).tallies
    fun _ _ _ h => h

theorem restart_run {s : Session} (hs : p.session = some s) (h : restart p = .ok ⟨⟩ q) :
    ∃ reader, LineReader.openFile p.files s.reader.path = .ok reader ∧
      q = { p with functions := {}, inclusion := none, session := some { reader } }.emit
        (.scriptRestarted s.reader.path) := by
  unfold restart rewind at h
  simp only [bind_run, modify_run, get_run, hs] at h
  cases hx : LineReader.openFile p.files s.reader.path with
  | error cause =>
    rw [hx] at h
    cases h
  | ok reader =>
    simp only [hx, set_run, EStateM.Result.ok.injEq, true_and] at h
    exact ⟨reader, rfl, h.symm⟩

/-- While no installation is running, a script that is opened, or restarted while it is the named
one, is read as by a processor on which nothing was done: every following call gives the same
result and leaves the same files. -/
theorem history_forgotten (p : Processor) (hi : p.isInstalling = false)
    (hprompt : Stateless p.prompt) :
    let fresh := p.anew p.prompt
    (∀ name path, p.settings.roots.resolve? name Inclusion.scriptExtension = some path →
      (∃ q q', openScript name p = .ok ⟨⟩ q ∧ openScript name fresh = .ok ⟨⟩ q' ∧
        Renewed q q') ∨
      ∃ e q q', openScript name p = .error e q ∧ openScript name fresh = .error e q' ∧
        Renewed q q') ∧
    ∀ s path q, p.session = some s → p.script = some path → path.same s.reader.path = true →
      restart p = .ok ⟨⟩ q →
      ∃ q', openPath s.reader.path fresh = .ok ⟨⟩ q' ∧ Renewed q q' := by
  have hnone : p.installation = none := by simpa [isInstalling] using hi
  refine ⟨?_, ?_⟩
  · intro name path hpath
    have hclean : Ends (openScript name) p (fun _ q => Clean q) (fun _ q => Clean q) := by
      unfold Ends
      rw [openScript_run hpath]
      exact openPath_clean path { p with script := some path }
    rcases openScript_tallies hnone hprompt hpath with
      ⟨e, q, q', hp, hq, hk⟩ | ⟨⟨⟩, q, q', hp, hq, hk⟩
    · exact .inr ⟨e, q, q', hp, hq, hk.renewed (Ends.error hclean hp)⟩
    · exact .inl ⟨q, q', hp, hq, hk.renewed (Ends.ok hclean hp)⟩
  · intro s path q hs hscript hsame hq
    obtain ⟨reader, hreader, rfl⟩ := restart_run hs hq
    obtain ⟨hbare, hchain⟩ := anew_kin hnone p.prompt
    refine ⟨_, openPath_opened hreader, ?_⟩
    refine Kindred.renewed ⟨0, hbare, rfl, hchain, ?_, consents_anew hprompt, .inl rfl,
      fun _ => rfl⟩
      ⟨rfl, rfl, ?_, LineReader.openFile_line hreader⟩
    · have hcomponents : path.components = s.reader.path.components := by
        simpa [Path.same] using hsame
      change some s.reader.path.components = p.script.map Path.components
      rw [hscript, ← hcomponents]
      rfl
    · rintro _ ⟨⟩
      rfl

def midway : Processor :=
  let p := openedMain false [("main.nscr", "lclfunc f(x) := g x\n@inc\nf(1)"),
    ("inc.nscr", "define a\ndefine b")]
  final (p.called 9) p

theorem history_forgotten_midway :
    (midway.isIncluding = true ∧ midway.functions ≠ {} ∧ midway.line = 1) ∧
    (∃ q q', openScript "main".toList midway = .ok ⟨⟩ q ∧
      openScript "main".toList (midway.anew midway.prompt) = .ok ⟨⟩ q' ∧ Renewed q q') ∧
    ∃ q q', restart midway = .ok ⟨⟩ q ∧
      openPath ⟨"s/main.nscr".toList⟩ (midway.anew midway.prompt) = .ok ⟨⟩ q' ∧ Renewed q q' ∧
      ∃ r, q.next? = some (.ok "define a".toList r) := by
  have hstate : midway.isIncluding = true ∧ midway.functions ≠ {} ∧ midway.line = 1 := by
    decide +kernel
  have hprompt : midway.prompt = none := by
    have hnone : midway.prompt.isNone = true := by decide +kernel
    simpa using hnone
  have hopens : succeeds (openScript "main".toList midway) = true := by decide +kernel
  have hrestarts : succeeds (restart midway) = true := by decide +kernel
  have hscript : midway.script = some ⟨"s/main.nscr".toList⟩ ∧
      midway.session.map (·.reader.path) = some ⟨"s/main.nscr".toList⟩ := by decide +kernel
  let q := stateOf (restart midway)
  have hnext : q.isOpen = true ∧ (q.called 9).bind given? = some "define a".toList := by
    unfold q
    decide +kernel
  obtain ⟨s, hs, hpath⟩ := Option.map_eq_some_iff.mp hscript.2
  have hstateless : Stateless midway.prompt := by
    rw [hprompt]
    nofun
  obtain ⟨hopen, hrestart⟩ := history_forgotten midway (by decide +kernel) hstateless
  refine ⟨hstate, ?_, ?_⟩
  · rcases hopen "main".toList ⟨"s/main.nscr".toList⟩ (by decide +kernel) with
      hrenewed | ⟨e, q, q', hfailed, -⟩
    · exact hrenewed
    · rw [hfailed] at hopens
      simp [succeeds] at hopens
  · have hsame : Path.same ⟨"s/main.nscr".toList⟩ s.reader.path = true := by
      rw [hpath]
      decide +kernel
    obtain ⟨q', hq', hrenewed⟩ := hrestart s _ q hs hscript.1 hsame (succeeds_run hrestarts)
    rw [hpath] at hq'
    exact ⟨q, q', succeeds_run hrestarts, hq', hrenewed, _, next?_given 9 hnext.1 hnext.2⟩

end Processor

end ScriptFeed
