import ScriptFeed.Proofs.Drained
import ScriptFeed.Proofs.Refusals
import ScriptFeed.Proofs.Serving

namespace ScriptFeed

namespace Package.Chain

variable {c c' : Chain} {origin package : Path}

def waiting (c : Chain) : List Path := c.entries.drop (c.cursor + 1)

theorem head?_waiting (c : Chain) : c.waiting.head? = c.advance.1 := by
  rw [waiting, List.head?_drop, advance_fst]

theorem waiting_advance {path : Path} (h : c.advance = (some path, c')) :
    c.waiting = path :: c'.waiting := by
  obtain ⟨hp, rfl⟩ := Processor.advance_some h
  obtain ⟨hlt, hget⟩ := List.getElem?_eq_some_iff.mp hp
  rw [waiting, List.drop_eq_getElem_cons hlt, hget, waiting]

theorem waiting_grows (hc : c'.cursor = c.cursor) (he : c.entries <+: c'.entries) :
    c.waiting <+: c'.waiting := by
  rw [waiting, waiting, hc]
  exact he.drop _

def Sited (c : Chain) : Prop := c.cursor = 0 ∨ c.cursor < c.entries.length

theorem Sited.grows (h : c.Sited) (hc : c'.cursor = c.cursor) (he : c.entries <+: c'.entries) :
    c'.Sited := by
  have hle := he.length_le
  unfold Sited at h ⊢
  omega

theorem Sited.enqueue (h : c.Sited) (origin package : Path) : (c.enqueue origin package).2.Sited :=
  h.grows (Processor.enqueue_cursor c origin package) (enqueue_begins c origin package)

theorem Sited.waits (h : c.Sited) (hnew : (c.enqueue origin package).1 = true) :
    package ∈ (c.enqueue origin package).2.waiting := by
  have hcursor : c.cursor + 1 ≤ (c.seed origin).entries.length := by
    unfold Sited at h
    by_cases he : c.entries = []
    · rw [entries_seed he, List.length_singleton]
      simp only [he, List.length_nil] at h
      omega
    · have hpos := List.length_pos_iff.mpr he
      rw [seed_of_ne_nil he]
      omega
  rw [waiting, Processor.enqueue_cursor, enqueue_appends, if_pos hnew,
    List.drop_append_of_le_length hcursor]
  exact List.mem_append_right _ (List.mem_singleton_self package)

def enqueueAll (c : Chain) (origin : Path) (packages : List Path) : Chain :=
  packages.foldl (fun c package => (c.enqueue origin package).2) c

theorem enqueueAll_grows (c : Chain) (origin : Path) (packages : List Path) :
    c.waiting <+: (c.enqueueAll origin packages).waiting := by
  induction packages generalizing c with
  | nil => exact List.prefix_rfl
  | cons package packages ih =>
    have hone := waiting_grows (Processor.enqueue_cursor c origin package)
      (enqueue_begins c origin package)
    exact hone.trans (ih (c.enqueue origin package).2)

theorem Sited.enqueueAll (h : c.Sited) (origin : Path) (packages : List Path) :
    ∀ package ∈ packages, (∃ e ∈ (c.seed origin).entries, e.same package = true) ∨
      ∃ e ∈ (c.enqueueAll origin packages).waiting, e.same package = true := by
  induction packages generalizing c with
  | nil => simp
  | cons first packages ih =>
    have hlater : (c.enqueue origin first).2.waiting <+:
        (c.enqueueAll origin (first :: packages)).waiting :=
      enqueueAll_grows (c.enqueue origin first).2 origin packages
    have hentries := enqueue_appends c origin first
    -- what stands in the chain after the first package stood there before, or is that package
    have hfirst {package : Path}
        (he : ∃ e ∈ (c.enqueue origin first).2.entries, e.same package = true) :
        (∃ e ∈ (c.seed origin).entries, e.same package = true) ∨
          ∃ e ∈ (c.enqueueAll origin (first :: packages)).waiting, e.same package = true := by
      obtain ⟨e, he, hsame⟩ := he
      rw [hentries, List.mem_append] at he
      rcases he with he | he
      · exact .inl ⟨e, he, hsame⟩
      · by_cases hnew : (c.enqueue origin first).1 = true
        · rw [if_pos hnew, List.mem_singleton] at he
          subst he
          exact .inr ⟨e, hlater.subset (h.waits hnew), hsame⟩
        · rw [if_neg hnew] at he
          exact absurd he List.not_mem_nil
    intro package hmem
    rcases List.mem_cons.mp hmem with rfl | hmem
    · by_cases hnew : (c.enqueue origin package).1 = true
      · exact .inr ⟨package, hlater.subset (h.waits hnew), by simp [Path.same]⟩
      · rw [enqueue_new] at hnew
        push Not at hnew
        obtain ⟨e, he, hsame⟩ := hnew
        exact .inl ⟨e, he, by simpa using hsame⟩
    · rcases ih (h.enqueue origin first) package hmem with hold | hwaits
      · have hne : (c.enqueue origin first).2.entries ≠ [] := by
          rw [hentries]
          by_cases he : c.entries = []
          · simp [entries_seed he]
          · simp [seed_of_ne_nil he, he]
        rw [seed_of_ne_nil hne] at hold
        exact hfirst hold
      · exact .inr hwaits

end Package.Chain

namespace Processor

open Package Comment

variable {N : Allowed} {p q r : Processor} {notes notes' n : Notes} {line t : Text} {h : Header}

def waiting (p : Processor) : List Path := p.current.chain.waiting

theorem upcoming?_eq_head? (p : Processor) : p.upcoming? = p.waiting.head? := by
  rw [waiting, Chain.head?_waiting, upcoming?, current]
  cases p.installation <;> rfl

/-- The packages that wait at `p` were opened up to `q`, in their order, or wait there still. -/
def Pursues (p q : Processor) : Prop :=
  ∃ paths, Opens p paths q ∧ p.waiting <+: paths ++ q.waiting

theorem Pursues.of_eq (he : q.events = p.events) (hc : q.current.chain = p.current.chain) :
    Pursues p q := by
  refine ⟨[], .of_eq he, ?_⟩
  rw [List.nil_append, waiting, waiting, hc]

theorem Pursues.trans (h : Pursues p q) (h' : Pursues q r) : Pursues p r := by
  obtain ⟨paths, hopens, hwait⟩ := h
  obtain ⟨paths', hopens', hwait'⟩ := h'
  refine ⟨paths ++ paths', hopens.trans hopens', hwait.trans ?_⟩
  rw [List.append_assoc, List.prefix_append_right_inj]
  exact hwait'

theorem Stays.pursues (h : Stays p q) : Pursues p q :=
  ⟨[], h.opens, Chain.waiting_grows h.cursor h.entries⟩

theorem closeRecord_opens (p : Processor) (b : Bool) : Opens p [] (p.closeRecord b).2 :=
  closeRecord_events p b

theorem advanceChain_opens (p : Processor) : Opens p [] p.advanceChain.2 := by
  unfold advanceChain
  split
  · exact .of_eq rfl
  · dsimp only
    split
    · exact opens_emit p _
    · exact .of_eq rfl

theorem close_waiting (ho : p.isOpen = true) : Ends close p
    (fun _ q => q.place = p.waiting.head? ∧
      ∃ paths, Opens p paths q ∧ p.waiting = paths ++ q.waiting)
    (fun e _ => ∃ path, p.waiting.head? = some path ∧ p.files.exists path = false ∧
      e = .scriptNotFound [] path) := by
  let p₁ := (p.shut.closeRecord false).2
  have hclosed : Opens p [] p₁ := closeRecord_opens p.shut false
  have hmoved : Opens p [] p₁.advanceChain.2 := hclosed.trans (advanceChain_opens p₁)
  have hchain : p₁.current.chain = p.current.chain := (closeRecord_frame p.shut false).current
  have hnext : p₁.advanceChain.1 = p.waiting.head? := by
    rw [advanceChain_upcoming?, upcoming?_eq_head?, waiting, hchain, waiting]
  have hends : Ends close p (fun _ q => q.place = p.waiting.head? ∧
      ∃ paths, Opens p paths q ∧ p.waiting = paths ++ q.waiting) (fun _ _ => True) := by
    refine close_ends ho ?_ ?_
    · intro p₂ ha
      rw [ha] at hmoved hnext
      have hnil : p.waiting = [] := List.head?_eq_none_iff.mp hnext.symm
      refine ⟨hnext, [], ?_, hnil⟩
      exact (hmoved.trans (closeRecord_opens p₂ false)).trans (opens_emit p₂.teardown .scriptClosed)
    · intro path p₂ ha
      obtain ⟨i, chain, hi, hadv, rfl⟩ := advanceChain_some ha
      rw [ha] at hmoved hnext
      have hi' : p.current.chain = i.chain := by
        rw [← hchain, current, hi]
        rfl
      refine openPath_ends (fun x hx => ⟨?_, [path], ?_, ?_⟩) (fun _ _ => trivial)
      · rw [← hnext]
        exact congrArg some (openFile_find hx).1
      · exact (hmoved.trans (opens_emit _ (.nextPackage path))).trans
          (opens_emit _ (.scriptOpened path))
      · rw [waiting, hi']
        exact Chain.waiting_advance hadv
  refine ends_of_run (fun _ _ hx => Ends.ok hends hx) ?_
  intro e q hx
  obtain ⟨-, path, rfl, hup, hmissing⟩ := Ends.error (close_upcoming ho) hx
  exact ⟨path, by rw [← upcoming?_eq_head?]; exact hup, hmissing, rfl⟩

theorem close_pursues (hc : close p = .ok ⟨⟩ q) : Pursues p q := by
  cases ho : p.isOpen with
  | false =>
    obtain ⟨-, rfl⟩ := EStateM.Result.ok.inj ((close_run ho).symm.trans hc)
    exact .of_eq rfl rfl
  | true =>
    obtain ⟨-, paths, hopens, hwait⟩ := Ends.ok (close_waiting ho) hc
    exact ⟨paths, hopens, hwait ▸ List.prefix_rfl⟩

theorem turn_pursues {x : Turn} (hc : Coherent p) (ht : turn notes p = .ok x q) : Pursues p q := by
  cases ho : p.isOpen with
  | false =>
    obtain ⟨-, rfl⟩ := EStateM.Result.ok.inj ((turn_closed hc ho notes).symm.trans ht)
    exact .of_eq rfl rfl
  | true =>
    rcases turn_cases ho ht with hstays | ⟨n, -, line, r, h, w, -, -, -, -, hw, hclose⟩
    · exact hstays.pursues
    · exact hw.pursues.trans (close_pursues hclose)

theorem Feeds.pursues (hf : Feeds notes p notes' q) (hc : Coherent p) : Pursues p q := by
  induction hf with
  | refl => exact .of_eq rfl rfl
  | tail hf ht ih => exact (ih hc).trans (turn_pursues (Moves.coherent (hf.moves hc) hc) ht)

theorem closeAtEnd_pursues (hc : closeAtEnd p = .ok ⟨⟩ q) : Pursues p q := by
  have hpeeked : Pursues p p.peeked := by
    unfold peeked
    split <;> exact .of_eq rfl rfl
  rw [closeAtEnd_eq] at hc
  split at hc
  · have hserved : Pursues p { p.peeked with lastServed := true } :=
      hpeeked.trans (.of_eq rfl rfl)
    exact hserved.trans (close_pursues hc)
  · obtain ⟨-, rfl⟩ := EStateM.Result.ok.inj hc
    exact hpeeked

theorem Feeds.feed? (hf : Feeds notes p notes' q) : feed? notes p = feed? notes' q := by
  induction hf with
  | refl => rfl
  | tail _ ht ih => exact ih.trans (feed?_turn ht)

theorem feed_pursues (hc : Coherent p) (hf : feed? notes p = some (.ok t q))
    (hclose : closeAtEnd q = .ok ⟨⟩ r) : Pursues p r := by
  obtain ⟨notes', p', hfeeds, ht⟩ := feed?_eq_some.mp hf
  have hc' := Moves.coherent (hfeeds.moves hc) hc
  exact ((hfeeds.pursues hc).trans (turn_pursues hc' ht)).trans (closeAtEnd_pursues hclose)

theorem next?_pursues (hc : Coherent p) (hn : p.next? = some (.ok t q)) : Pursues p q := by
  cases ho : p.isOpen with
  | false =>
    rw [next?, if_neg (by simp [ho])] at hn
    obtain ⟨-, rfl⟩ := EStateM.Result.ok.inj (Option.some.inj hn)
    exact .of_eq rfl rfl
  | true =>
    obtain ⟨q', hfeed, hclose⟩ := next?_ok ho hn
    exact feed_pursues hc hfeed hclose

theorem returnFrom_pursues (hr : returnFrom p = .ok ⟨⟩ q) : Pursues p q := by
  rw [returnFrom_run] at hr
  split at hr
  · have hconcluded : Pursues p (p.concludeRecord true) := by
      refine ⟨[], ?_, ?_⟩
      · have hopens := closeRecord_opens p true
        unfold concludeRecord
        dsimp only
        split
        · exact hopens.trans (.of_eq rfl)
        · exact hopens
      · rw [List.nil_append, waiting, waiting, (concludeRecord_frame p true).current]
    exact hconcluded.trans (close_pursues hr)
  · obtain ⟨-, rfl⟩ := EStateM.Result.ok.inj hr
    exact .of_eq rfl rfl

def Call.isBeside : Call → Bool
  | setScript _ => true
  | setInstallMode _ => true
  | setAutoStart _ => true
  | takeLastServed => true
  | takeHeader => true
  | takeOutput => true
  | takeActions => true
  | setPrompt _ => true
  | setMarked _ => true
  | world _ _ => true
  | _ => false

theorem Call.run_pursues (c : Call) (hc : c.isBeside = true) (p : Processor) :
    Pursues p (c.run p) := by
  cases c with
  | openScript name => cases hc
  | reopen => cases hc
  | close => cases hc
  | restart => cases hc
  | returnFrom => cases hc
  | next => cases hc
  | _ => exact .of_eq rfl rfl

inductive Proceeds (p : Processor) : Processor → Prop
  | start : Proceeds p p
  | next {q r : Processor} {t : Text} (h : Proceeds p q) (hn : q.next? = some (.ok t r)) :
      Proceeds p r
  | close {q r : Processor} (h : Proceeds p q) (hc : close q = .ok ⟨⟩ r) : Proceeds p r
  | returnFrom {q r : Processor} (h : Proceeds p q) (hr : returnFrom q = .ok ⟨⟩ r) : Proceeds p r
  | beside {q : Processor} (h : Proceeds p q) (c : Call) (hc : c.isBeside = true) :
      Proceeds p (c.run q)

theorem Proceeds.coherent (h : Proceeds p q) (hc : Coherent p) : Coherent q := by
  induction h with
  | start => exact hc
  | next _ hn ih => exact Moves.coherent (next?_moves ih hn) ih
  | @close q r _ hclose ih =>
    have hcall := Call.close.run_coherent ih
    rwa [Call.run, hclose] at hcall
  | @returnFrom q r _ hr ih =>
    have hcall := Call.returnFrom.run_coherent ih
    rwa [Call.run, hr] at hcall
  | beside _ c _ ih => exact c.run_coherent ih

theorem Proceeds.pursues (h : Proceeds p q) (hc : Coherent p) : Pursues p q := by
  induction h with
  | start => exact .of_eq rfl rfl
  | next h hn ih => exact ih.trans (next?_pursues (h.coherent hc) hn)
  | close _ hclose ih => exact ih.trans (close_pursues hclose)
  | returnFrom _ hr ih => exact ih.trans (returnFrom_pursues hr)
  | @beside q _ c hb ih => exact ih.trans (c.run_pursues hb q)

theorem Course.sited (h : Course N p q) (hp : p.current.chain.Sited) : q.current.chain.Sited := by
  cases h with
  | keep hc hs => exact hc ▸ hp
  | read s x b hc hs hq hr => exact hc ▸ hp
  | queue name path hn hp' hc hs =>
    rw [hc]
    exact hp.enqueue _ _
  | advance path x ho ha hr hq =>
    obtain ⟨hget, hchain⟩ := advance_some ha
    rw [hchain]
    exact .inr (List.getElem?_eq_some_iff.mp hget).1
  | down hc hs =>
    rw [hc]
    exact .inl rfl

theorem Moves.sited (hm : Moves N p q) (hp : p.current.chain.Sited) : q.current.chain.Sited := by
  induction hm with
  | refl => exact hp
  | tail _ hstep ih => exact hstep.course.sited ih

theorem openPath_sited (hp : p.current.chain.Sited) (path : Path) : Ends (openPath path) p
    (fun _ q => q.current.chain.Sited) (fun _ q => q.current.chain.Sited) := by
  refine openPath_ends (fun x _ => ?_) (fun cause _ => ?_)
  · have hchain : (p.shut.opened path x).current.chain = p.current.chain := by
      rw [current_chain, current_chain]
      unfold opened shut emit
      cases p.installation <;> rfl
    rw [hchain]
    exact hp
  · have hchain : (p.shut.unopened path cause).current.chain = {} := by
      unfold unopened
      dsimp only
      split <;> rfl
    rw [hchain]
    exact .inl rfl

theorem reopen_sited (hp : p.current.chain.Sited) : Ends reopen p
    (fun _ q => q.current.chain.Sited) (fun _ q => q.current.chain.Sited) := by
  rw [reopen, ends_bind, ends_get]
  split
  · exact openPath_sited hp _
  · exact hp

theorem restart_sited (hp : p.current.chain.Sited) : Ends restart p
    (fun _ q => q.current.chain.Sited) (fun _ q => q.current.chain.Sited) := by
  rw [restart, ends_bind, ends_modify, rewind, ends_bind, ends_get]
  split
  · exact reopen_sited (p := { p with functions := {}, inclusion := none }) hp
  · split <;> exact hp

theorem Call.run_sited (c : Call) (hc : Coherent p) (hp : p.current.chain.Sited) :
    (c.run p).current.chain.Sited := by
  cases c with
  | openScript name => exact Ends.state (reopen_sited (p := p.setScript name) hp)
  | reopen => exact Ends.state (reopen_sited hp)
  | close => exact Moves.sited (N := .all) (close_moves p) hp
  | restart => exact Ends.state (restart_sited hp)
  | returnFrom =>
    change (stateOf (Processor.returnFrom p)).current.chain.Sited
    rw [returnFrom_run]
    split
    · exact Moves.sited ((concludeRecord_moves (N := .all) (b := true) (fun _ => trivial) p).trans
        (close_moves _)) hp
    · exact hp
  | next =>
    change (stateOf (p.next?.getD (.ok [] p))).current.chain.Sited
    cases hn : p.next? with
    | none => exact hp
    | some o => exact Moves.sited (next?_moves hc hn) hp
  | _ => exact hp

theorem after_sited (calls : List Call) (hc : Coherent p) (hp : p.current.chain.Sited) :
    (after calls p).current.chain.Sited := by
  induction calls generalizing p with
  | nil => exact hp
  | cons c calls ih => exact ih (c.run_coherent hc) (c.run_sited hc hp)

theorem foldl_queue_chain (paths : List Path) (p : Processor) :
    (paths.foldl queue p).current.chain =
      p.current.chain.enqueueAll (p.script.getD ⟨[]⟩) paths := by
  induction paths generalizing p with
  | nil => rfl
  | cons path paths ih =>
    have hscript : (p.queue path).script = p.script := by
      unfold queue
      dsimp only
      split <;> rfl
    rw [List.foldl_cons, ih, queue_chain, hscript]
    rfl

theorem enlist_chain (h : Header) (p : Processor) : (p.enlist h).current.chain =
    p.current.chain.enqueueAll (p.script.getD ⟨[]⟩) (h.packages.filterMap p.packagePath?) :=
  foldl_queue_chain _ { p with installation := some p.current }

theorem enlist_files (h : Header) (p : Processor) : (p.enlist h).files = p.files := by
  have hfold (paths : List Path) (q : Processor) : (paths.foldl queue q).files = q.files := by
    induction paths generalizing q with
    | nil => rfl
    | cons path paths ih => exact (ih (q.queue path)).trans (queue_frame q path).2.1
  exact hfold _ { p with installation := some p.current }

theorem readHeader_declined (ho : p.isOpen = true) (hh : Heads line p h) (hnew : ¬Outdated p h)
    (hd : Declines p h) : ∃ w, readHeader line p = (close >>= fun _ => pure none) w ∧ Stays p w ∧
      w.waiting = (p.enlist h).waiting ∧ w.files = p.files := by
  obtain ⟨t, p₁, header, tail, ha, hs, rfl⟩ := hh
  let h := Header.parse header
  have hw := assemble_enlist_weighs ha h
  have S := (alone_simulation p).toSimulation
  have hstays : Stays p p₁ := (assemble_abreast S ⟨rfl, .refl ho⟩ line).stays ha
  have hsame : p₁.current = p.current ∧ p₁.script = p.script ∧ p₁.files = p.files ∧
      p₁.settings = p.settings := by
    rcases assemble_cases ha with ⟨rfl, -⟩ | ⟨s, passage, x, -, -, -, rfl, -⟩
    · exact ⟨rfl, rfl, rfl, rfl⟩
    · exact ⟨rfl, rfl, rfl, rfl⟩
  obtain ⟨hcurrent, hscript, hfiles, hsettings⟩ := hsame
  obtain ⟨ok, output, asked, hagree, hok⟩ := agree_run h (p₁.enlist h)
  obtain rfl : ok = false := hok.mpr ((Declines.of_weighs hw).mpr hd)
  have hold : ¬h.required.any ((p₁.enlist h).settings.version < ·) = true := by
    rw [outdated_iff, Outdated.of_weighs hw]
    exact hnew
  refine ⟨Processor.refuse h { p₁.enlist h with output, asked }, ?_, ?_, ?_, ?_⟩
  · rw [readHeader_run ha hs, weigh, if_neg hold, hagree]
  · exact ((hstays.enlist h).congr (q := { p₁.enlist h with output, asked }) rfl rfl rfl).refuse h
  · change (p₁.enlist h).current.chain.waiting = (p.enlist h).current.chain.waiting
    have hpath : p₁.packagePath? = p.packagePath? := funext (packagePath?_congr hsettings hfiles)
    rw [enlist_chain, enlist_chain, hcurrent, hscript, hpath]
  · exact (enlist_files h p₁).trans hfiles

theorem sessions_of_opens {paths : List Path} (h : Opens p paths q) :
    sessions p.events.length q = paths := by
  obtain ⟨l, hl, rfl⟩ := h
  rw [sessions_append hl le_rfl, sessions, trail, List.drop_length]
  rfl

theorem waiting_closed (hc : Coherent p) (ho : p.isOpen = false) : p.waiting = [] := by
  have hnone : p.installation = none := by
    by_contra hi
    have hopen := hc.installation (Option.isSome_iff_ne_none.mpr hi)
    exact absurd (ho.symm.trans hopen) (by simp)
  rw [waiting, current, hnone]
  rfl

theorem Meets.turn_declined (hm : Meets notes p line n q) (hh : Heads line q h)
    (hnew : ¬Outdated q h) (hd : Declines q h) :
    ∃ w, Stays q w ∧ w.waiting = (q.enlist h).waiting ∧ Ends (turn notes) p
      (fun x r => ∃ n, x = .more n ∧ close w = .ok ⟨⟩ r ∧ r.place = (q.enlist h).waiting.head?)
      (fun e _ => ∃ path, (q.enlist h).waiting.head? = some path ∧ q.files.exists path = false ∧
        e = .scriptNotFound [] path) := by
  obtain ⟨w, hrun, hw, hwait, hfiles⟩ := readHeader_declined hm.isOpen hh hnew hd
  refine ⟨w, hw, hwait, hm.turn_ends ?_⟩
  unfold Ends
  rw [hrun]
  change Ends (close >>= fun _ => pure none) w _ _
  rw [ends_bind]
  refine ends_of_run ?_ ?_
  · intro _ r hclose
    obtain ⟨hplace, -⟩ := Ends.ok (close_waiting hw.isOpen) hclose
    exact ⟨rfl, hclose, hplace.trans (congrArg List.head? hwait)⟩
  · intro e r hclose
    obtain ⟨path, hhead, hmissing, rfl⟩ := Ends.error (close_waiting hw.isOpen) hclose
    exact ⟨path, (congrArg List.head? hwait).symm.trans hhead, hfiles ▸ hmissing, rfl⟩

/-- A license that is declined takes back nothing. The packages that its header names wait behind
those that waited before, and the same turn goes on to the first package that waits. As long as the
calls after it succeed, all that waited is opened, in its order, and when the run is over nothing
waits any more. -/
theorem declined_packages_opened (settings : Settings) (files : Files) (calls : List Call)
    (notes n : Notes) (p q : Processor) (line : Text) (h : Header)
    (hf : Feeds {} (after calls { settings, files }) notes p) (hm : Meets notes p line n q)
    (hh : Heads line q h) (hnew : ¬Outdated q h) (hd : Declines q h) :
    let waiting := (q.enlist h).waiting
    q.waiting <+: waiting ∧
    (∀ package ∈ h.packages.filterMap q.packagePath?,
      (∀ e ∈ (q.current.chain.seed (q.script.getD ⟨[]⟩)).entries, e.same package = false) →
        ∃ e ∈ waiting, e.same package = true) ∧
    Ends (turn notes) p (fun x r => (∃ n, x = .more n) ∧ r.place = waiting.head?)
      (fun e _ => ∃ path, waiting.head? = some path ∧ q.files.exists path = false ∧
        e = .scriptNotFound [] path) ∧
    ∀ t r r', (after calls { settings, files }).next? = some (.ok t r) → Proceeds r r' →
      waiting <+: sessions q.events.length r' ++ r'.waiting ∧
        (r'.isOpen = false → r'.waiting = []) := by
  have hc : Coherent (after calls { settings, files }) :=
    after_coherent calls (fresh_coherent settings files)
  have hsited : (after calls { settings, files }).current.chain.Sited :=
    after_sited calls (fresh_coherent settings files) (.inl rfl)
  generalize after calls { settings, files } = p₀ at hf hc hsited ⊢
  intro waiting
  have hcp : Coherent p := Moves.coherent (hf.moves hc) hc
  have hq : Stays p q := hm.stays
  have hsitedq : q.current.chain.Sited :=
    (Moves.sited (hf.moves hc) hsited).grows hq.cursor hq.entries
  obtain ⟨w, hw, hwait, hturn⟩ := hm.turn_declined hh hnew hd
  refine ⟨?_, ?_, ?_, ?_⟩
  · have henlisted := (Stays.refl hm.isOpen).enlist h
    exact Chain.waiting_grows henlisted.cursor henlisted.entries
  · intro package hpackage hother
    have hcases := hsitedq.enqueueAll (q.script.getD ⟨[]⟩) _ package hpackage
    rw [← enlist_chain] at hcases
    refine hcases.resolve_left ?_
    rintro ⟨e, he, hsame⟩
    exact absurd ((hother e he).symm.trans hsame) (by simp)
  · refine hturn.mono ?_ (fun _ _ h => h)
    rintro x r ⟨n, hx, -, hplace⟩
    exact ⟨⟨n, hx⟩, hplace⟩
  · intro t r r' hnext hproceeds
    obtain ⟨q', hfeed, hend⟩ := next?_ok (Moves.isOpen (hf.moves hc) hm.start) hnext
    rw [hf.feed?] at hfeed
    cases hx : turn notes p with
    | error e p' =>
      rw [feed?_last (r := .error e p') hx] at hfeed
      cases hfeed
    | ok x p' =>
      obtain ⟨n', rfl, hclose, -⟩ := Ends.ok hturn hx
      rw [feed?_turn hx] at hfeed
      have hcp' : Coherent p' := by
        have hmoves := turn_moves hcp notes
        rw [hx] at hmoves
        exact Moves.coherent hmoves hcp
      have hcr : Coherent r := Moves.coherent (next?_moves hc hnext) hc
      obtain ⟨paths, hopens, hpursued⟩ :=
        ((close_pursues hclose).trans (feed_pursues hcp' hfeed hend)).trans (hproceeds.pursues hcr)
      rw [hwait] at hpursued
      refine ⟨?_, waiting_closed (hproceeds.coherent hcr)⟩
      rw [sessions_of_opens (hw.opens.trans hopens)]
      exact hpursued

def refused : Processor := openedMain true
  [("main.nscr", "<info>license=l requirepackages=b<endinfo>\na"), ("b.nscr", "x\ny")]

def refusedLine : Text := "<info>license=l requirepackages=b<endinfo>".toList

def refusedHeader : Header := Header.parse "license=l requirepackages=b".toList

theorem refused_met : ∃ x, Meets {} refused refusedLine {} (refused.setReader x) ∧
    Heads refusedLine (refused.setReader x) refusedHeader ∧
    ¬Outdated (refused.setReader x) refusedHeader ∧
    Declines (refused.setReader x) refusedHeader := by
  obtain ⟨x, hm, hh⟩ := meets_firstLine (p := refused) refusedLine
    "license=l requirepackages=b".toList [] rfl rfl (by decide +kernel) (by decide +kernel)
    (by decide +kernel) (by decide +kernel) (by decide +kernel) (by decide +kernel)
  have hrequired : refusedHeader.required = none := by decide +kernel
  have hlicense : refusedHeader.license = some "l".toList := by decide +kernel
  have hprompt : refused.prompt.isNone = true := by decide +kernel
  have hyes : refused.settings.yes = ['y'] := by decide +kernel
  refine ⟨x, hm, hh, ?_, ?_⟩
  · rintro ⟨v, hv, -⟩
    exact absurd (hrequired.symm.trans hv) (by simp)
  · refine Unanswered.declines ⟨"l".toList, hlicense, ?_⟩ ?_
    · intro f hf
      exact absurd ((Option.isNone_iff_eq_none.mp hprompt).symm.trans hf) (by simp)
    · change refused.settings.yes ≠ []
      rw [hyes]
      simp

theorem refused_waiting (x : LineReader) :
    ((refused.setReader x).enlist refusedHeader).waiting = [⟨"s/b.nscr".toList⟩] := by
  rw [waiting, enlist_chain]
  change (refused.current.chain.enqueueAll (refused.script.getD ⟨[]⟩)
    (refusedHeader.packages.filterMap refused.packagePath?)).waiting = _
  decide +kernel

theorem declined_packages_opened_refused : ∃ x r,
    Declines (refused.setReader x) refusedHeader ∧ r.isOpen = false ∧
    [⟨"s/b.nscr".toList⟩] <+: sessions (refused.setReader x).events.length r := by
  obtain ⟨x, hm, hh, hnew, hd⟩ := refused_met
  let p₁ := final (refused.called 9) refused
  let p₂ := final (p₁.called 9) p₁
  have hfirst : refused.isOpen = true ∧ (refused.called 9).bind given? = some "x".toList := by
    decide +kernel
  have hsecond : p₁.isOpen = true ∧ (p₁.called 9).bind given? = some "y".toList ∧
      p₂.isOpen = false := by decide +kernel
  have hnext : refused.next? = some (.ok "x".toList p₁) := next?_given 9 hfirst.1 hfirst.2
  have hproceeds : Proceeds p₁ p₂ := .next .start (next?_given 9 hsecond.1 hsecond.2.1)
  have hwaiting := refused_waiting x
  refine ⟨x, p₂, hd, hsecond.2.2, ?_⟩
  generalize p₁ = r₁ at hnext hproceeds
  generalize p₂ = r₂ at hproceeds hsecond ⊢
  rw [refused, openedMain_eq] at hm hh hnew hd hnext hwaiting ⊢
  obtain ⟨-, -, -, hopened⟩ :=
    declined_packages_opened _ _ _ _ _ _ _ _ _ (.refl _ _) hm hh hnew hd
  obtain ⟨hall, hdone⟩ := hopened _ _ _ hnext hproceeds
  rwa [hwaiting, hdone hsecond.2.2, List.append_nil] at hall

theorem declined_package_opened : ∃ x line h, Meets {} refused line {} (refused.setReader x) ∧
    Heads line (refused.setReader x) h ∧ Declines (refused.setReader x) h ∧
    (refused.setReader x).packages = [] ∧
    h.packages.filterMap (refused.setReader x).packagePath? = [⟨"s/b.nscr".toList⟩] ∧
    ∃ r, refused.next? = some (.ok "x".toList r) ∧ r.place = some ⟨"s/b.nscr".toList⟩ := by
  obtain ⟨x, hm, hh, -, hd⟩ := refused_met
  have hcalled : refused.isOpen = true ∧ (refused.called 9).bind given? = some "x".toList ∧
      (final (refused.called 9) refused).place = some ⟨"s/b.nscr".toList⟩ := by decide +kernel
  have hempty : refused.packages = [] := by decide +kernel
  have hnamed : refusedHeader.packages.filterMap refused.packagePath? = [⟨"s/b.nscr".toList⟩] := by
    decide +kernel
  exact ⟨x, refusedLine, refusedHeader, hm, hh, hd, hempty, hnamed, _,
    next?_given 9 hcalled.1 hcalled.2.1, hcalled.2.2⟩

end Processor

end ScriptFeed
