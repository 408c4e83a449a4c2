import ScriptFeed.Proofs.Serving

namespace ScriptFeed.Processor

open Package

variable {p q p' q' : Processor}

def rechained (chain : Chain) (p : Processor) : Processor :=
  { p with installation := some { p.current with chain } }

theorem beside_rechained (ho : p.isOpen = true) (chain : Chain) :
    Beside p (p.rechained chain) p (p.rechained chain) ∧
      Beside (p.rechained chain) p (p.rechained chain) p :=
  ⟨.start rfl ho fun _ _ => rfl, .start rfl ho fun _ _ => rfl⟩

theorem Coherent.rechained (hc : Coherent p) (ho : p.isOpen = true) (chain : Chain) :
    Coherent (p.rechained chain) :=
  ⟨hc.valid, hc.inclusion, fun _ => ho, hc.functions⟩

/-- The commands of a package are served whatever is queued behind it. The command that a call reads
is handed over, and it is the same command, unless the call comes to the end of the package and the
next one is not there. -/
theorem commands_at_boundary (settings : Settings) (files : Files) (calls : List Call)
    (chain : Chain) (ho : (after calls { settings, files }).isOpen = true) :
    let p := after calls { settings, files }
    (∀ as, (∃ p', Serves p as p') ↔ ∃ q', Serves (p.rechained chain) as q') ∧
    ∀ as p', Serves p as p' → ∃ q', Serves (p.rechained chain) as q' ∧
      ∀ t p₂, feed? {} p' = some (.ok t p₂) → Remains p' p₂ →
        ∃ q₂, feed? {} q' = some (.ok t q₂) ∧ Remains q' q₂ ∧ q₂.isDone = p₂.isDone ∧
          Hands p' t p₂ ∧ Hands q' t q₂ := by
  intro p
  have hc : Coherent p := after_coherent calls (fresh_coherent settings files)
  obtain ⟨hbeside, hback⟩ := beside_rechained ho chain
  refine ⟨?_, ?_⟩
  · intro as
    constructor
    · rintro ⟨p', hs⟩
      obtain ⟨q', hq, -⟩ := hs.beside hc hbeside
      exact ⟨q', hq⟩
    · rintro ⟨q', hs⟩
      obtain ⟨p', hp, -⟩ := hs.beside (hc.rechained ho chain) hback
      exact ⟨p', hp⟩
  · intro as p' hs
    obtain ⟨q', hq, h'⟩ := hs.beside hc hbeside
    refine ⟨q', hq, ?_⟩
    intro t p₂ hfeed hr
    obtain ⟨q₂, hfeed', h₂⟩ := feed?_beside (hs.coherent hc) h' hfeed fun hleft =>
      hr.not_past hleft.past
    exact ⟨q₂, hfeed', h₂.remains.2, h₂.isDone, hands_of_feed h'.isOpen hfeed h₂.isOpen,
      hands_of_feed h'.isOpen_right hfeed' h₂.isOpen_right⟩

def supplied (name : String) : Processor :=
  openedMain true [("main.nscr", "<install><info>requirepackages=b<endinfo>\na"), (name, "c")]

def otherChain : Chain := { entries := [⟨"s/main.nscr".toList⟩, ⟨"s/c.nscr".toList⟩] }

theorem commands_at_boundary_supplied : (supplied "c.nscr").isOpen = true ∧
    (∃ r, (supplied "c.nscr").next? = some (.error (.scriptNotFound [] ⟨"s/b.nscr".toList⟩) r)) ∧
    ∃ r, ((supplied "c.nscr").rechained otherChain).next? = some (.ok "a".toList r) := by
  let p := supplied "c.nscr"
  let q := p.rechained otherChain
  have ho : p.isOpen = true := by decide +kernel
  -- one evaluation for each of the two processors
  have hpe : (callWithin 9 {} p).bind given? = some "a".toList ∧
      (final (callWithin 9 {} p) p).isOpen = true ∧
      (final (callWithin 9 {} p) p).serial = p.serial ∧
      (final (callWithin 9 {} p) p).obstacle? = some ⟨"s/b.nscr".toList⟩ := by decide +kernel
  have hqe : (callWithin 9 {} q).bind given? = some "a".toList ∧
      (final (callWithin 9 {} q) q).obstacle? = none := by decide +kernel
  have hp := feed?_of_callWithin (given?_run hpe.1 p)
  have hq := feed?_of_callWithin (given?_run hqe.1 q)
  have hr : Remains p (final (callWithin 9 {} p) p) := ⟨hpe.2.1, hpe.2.2.1⟩
  have hopen := ho
  unfold p supplied at hopen
  rw [openedMain_eq] at hopen
  obtain ⟨-, hserved⟩ := commands_at_boundary _ _ _ otherChain hopen
  rw [← openedMain_eq] at hserved
  obtain ⟨q', hs, hread⟩ := hserved [] p (.refl p)
  obtain rfl : q' = q := by
    generalize hnil : ([] : List Answer) = as at hs
    cases hs with
    | refl => rfl
    | tail => simp at hnil
  obtain ⟨q₂, hfeed, -, -, hhands, hhands'⟩ := hread _ _ hp hr
  obtain rfl : final (callWithin 9 {} q) q = q₂ := by simpa [hq] using hfeed
  obtain ⟨r, hlost, -⟩ := hhands.lost _ hpe.2.2.2
  obtain ⟨r', hgiven, -⟩ := hhands'.given hqe.2
  exact ⟨ho, ⟨r, hlost⟩, r', hgiven⟩

theorem last_command_lost : (∃ q, feed? {} needy = some (.ok "a".toList q)) ∧
    (∃ q, needy.next? = some (.error (.scriptNotFound [] ⟨"s/b.nscr".toList⟩) q)) ∧
    ∃ q, (supplied "b.nscr").next? = some (.ok "a".toList q) := by
  have hread :
      callWithin 9 {} needy = some (.ok "a".toList (final (callWithin 9 {} needy) needy)) :=
    given?_run (by decide +kernel) needy
  refine ⟨⟨_, feed?_of_callWithin hread⟩, ?_, ?_⟩
  · exact next?_failed 9 (by decide +kernel) (by decide +kernel)
  · exact ⟨_, next?_given 9 (by decide +kernel) (by decide +kernel)⟩

def anew (prompt : Option Prompt) (p : Processor) : Processor :=
  { settings := p.settings, files := p.files, now := p.now, marked := p.marked, prompt
    installMode := p.installMode }

theorem close_opens (h : close p = .ok ⟨⟩ q) (ho : q.isOpen = true) :
    ∃ r path reader, q = Processor.opened path reader r ∧ r.inclusion = none ∧ r.record? = none ∧
      LineReader.openFile r.files path = .ok reader := by
  have hopen : p.isOpen = true := by
    by_contra hp
    have hclosed := close_run (p := p) (by simpa using hp)
    obtain rfl : p = q := by simpa [h] using hclosed.symm
    exact hp ho
  have hends : Ends close p (fun _ q => q.isOpen = true → ∃ r path reader,
      q = Processor.opened path reader r ∧ r.inclusion = none ∧ r.record? = none ∧
        LineReader.openFile r.files path = .ok reader) (fun _ _ => True) := by
    refine close_ends hopen ?_ ?_
    · intro p₁ _ hq
      simp [isOpen, emit, teardown] at hq
    · intro path p₁ ha
      refine openPath_ends ?_ (fun _ _ => trivial)
      intro reader hreader _
      refine ⟨_, path, reader, rfl, rfl, ?_, hreader⟩
      have hrecord := closeRecord_record? p.shut false
      obtain ⟨i, chain, hi, -, rfl⟩ := advanceChain_some ha
      have hnone : i.record = none := by simpa [record?, hi] using hrecord
      exact hnone
  exact Ends.ok hends h ho

theorem openPath_opened {path : Path} {reader : LineReader}
    (h : LineReader.openFile p.files path = .ok reader) :
    openPath path p = .ok ⟨⟩ (p.shut.opened path reader) := by
  rw [openPath_run, h]

theorem opened_current (path : Path) (reader : LineReader) (hr : p.record? = none) :
    (p.opened path reader).current.apart = {} := by
  unfold opened current
  cases hi : p.installation with
  | none => rfl
  | some i =>
    have hrecord : i.record = none := by simpa [record?, hi] using hr
    simp [emit, Installation.forPackage, Installation.apart, hrecord]

theorem opened_beside {path : Path} {reader : LineReader} {prompt : Option Prompt}
    (hi : p.inclusion = none) (hr : p.record? = none)
    (hprompt : ∀ k question, ((p.opened path reader).anew prompt).consents k question =
      (p.opened path reader).consents k question) :
    Beside (p.opened path reader) (((p.opened path reader).anew prompt).shut.opened path reader)
      (p.opened path reader) (((p.opened path reader).anew prompt).shut.opened path reader) := by
  refine .start ?_ rfl hprompt
  have hcurrent := opened_current path reader hr
  have hanew := opened_current (p := ((p.opened path reader).anew prompt).shut) path reader rfl
  unfold own
  rw [hcurrent, hanew]
  simp only [opened, emit, anew, shut, hi]

/-- A package that is opened behind another one serves what it serves to a processor on which
nothing was done. When no license is declined, the call that closes it is answered in the same way,
unless the processor has a next package of its own that is not there. -/
theorem package_isolated {p₀ p : Processor} (prompt : Option Prompt)
    (hclose : close p₀ = .ok ⟨⟩ p) (ho : p.isOpen = true)
    (hprompt : ∀ k question, (p.anew prompt).consents k question = p.consents k question) :
    ∃ path q, p.script = some path ∧ openPath path (p.anew prompt) = .ok ⟨⟩ q ∧
      ∀ as p', Serves p as p' → ∃ q', Serves q as q' ∧
        ∀ a p'', Answers p' a p'' → ¬Declined p' p'' →
          (∃ q'', Answers q' a q'') ∨
          ¬Remains p' p'' ∧ ∃ q₂ path q'', feed? {} q' = some (.ok a.command q₂) ∧
            q₂.obstacle? = some path ∧ q'.next? = some (.error (.scriptNotFound [] path) q'') ∧
            q''.output = q'.output ++ a.output ∧ q''.actions = q'.actions ++ a.actions := by
  obtain ⟨r, path, reader, rfl, hi, hr, hreader⟩ := close_opens hclose ho
  have hbeside := opened_beside hi hr hprompt
  have hc : Coherent (r.opened path reader) := opened_coherent path reader r
  refine ⟨path, ((r.opened path reader).anew prompt).shut.opened path reader, rfl,
    openPath_opened hreader, ?_⟩
  · intro as p' hs
    obtain ⟨q', hq, h'⟩ := hs.beside hc hbeside
    refine ⟨q', hq, ?_⟩
    intro a p'' ha hd
    obtain ⟨p₂, q₂, hclosed, hfeed, h₂, hsaid, hasked⟩ :=
      ha.read (hs.coherent hc) h' fun hleft => hd hleft.declined
    have hhands := hands_of_feed h'.isOpen_right hfeed h₂.isOpen_right
    cases hobstacle : q₂.obstacle? with
    | none =>
      obtain ⟨q'', hnext, hsilent⟩ := hhands.given hobstacle
      exact .inl ⟨q'', hnext, hsilent.output.trans hsaid, hsilent.actions.trans hasked⟩
    | some path' =>
      obtain ⟨q'', hnext, hsilent⟩ := hhands.lost path' hobstacle
      refine .inr ⟨?_, q₂, path', q'', hfeed, hobstacle, hnext, hsilent.output.trans hsaid,
        hsilent.actions.trans hasked⟩
      intro hr
      -- only at the end of the script is another package in the way
      have hdone : q₂.isDone = true := by
        by_contra hdone
        simp [obstacle?, hdone] at hobstacle
      have hpast := closeAtEnd_past h₂.isOpen h₂.serial.1.ge (h₂.isDone.symm.trans hdone)
      rw [hclosed] at hpast
      exact hr.not_past hpast

def partners : Processor :=
  openedMain true [("main.nscr", "<info>requirepackages=b<endinfo>\na\nc"),
    ("b.nscr", "<info>requirepackages=main.nscr/<endinfo>\nx\ny")]

def partner : Processor := after [.next, .close] partners

theorem after_next_close {t : Text} (h : p.next? = some (.ok t q)) :
    after [.next, .close] p = stateOf (close q) := by
  have hnext : next p = .ok t q := by
    rw [next, h]
    rfl
  simp only [after, List.foldl_cons, List.foldl_nil, Call.run, hnext]
  rfl

theorem partner_eq : partner = stateOf (close (final (partners.called 9) partners)) :=
  after_next_close (t := "a".toList) (next?_given 9 (by decide +kernel) (by decide +kernel))

def partnerAnswer : Answer where
  command := "x".toList
  output := [startMessage]
  actions := [.declare "requirepackages=main.nscr/".toList]

def partnerLast : Answer where
  command := "y".toList
  output := []
  actions := []

def isDecline : Event → Bool
  | .licenseDeclined _ => true
  | _ => false

theorem not_declined (h : p.events.any isDecline = false) : ¬Declined q p := by
  rintro ⟨name, l, hl, hp⟩
  have hany : p.events.any isDecline = true := by
    rw [hp, List.any_append, List.any_eq_true.mpr ⟨_, hl, rfl⟩, Bool.or_true]
  simp [hany] at h

theorem answers_called {a : Answer} {fuel : Nat} (ho : p.isOpen = true)
    (h : (p.called fuel).bind given? = some a.command ∧
      (final (p.called fuel) p).output = p.output ++ a.output ∧
      (final (p.called fuel) p).actions = p.actions ++ a.actions) :
      Answers p a (final (p.called fuel) p) :=
  ⟨next?_given fuel ho h.1, h.2.1, h.2.2⟩

theorem package_isolated_partner : ∃ q q',
    openPath ⟨"s/b.nscr".toList⟩ (partner.anew none) = .ok ⟨⟩ q ∧ Serves q [partnerAnswer] q' ∧
    ((∃ r, Answers q' partnerLast r) ∨
      ∃ path r, q'.next? = some (.error (.scriptNotFound [] path) r)) := by
  let p₀ := final (partners.called 9) partners
  let p₁ := final (partner.called 9) partner
  have hclose : succeeds (close p₀) = true := by decide +kernel
  have hclosed : close p₀ = .ok ⟨⟩ partner := by
    rw [partner_eq]
    exact succeeds_run hclose
  have hopened : partner.isOpen = true ∧ partner.script = some ⟨"s/b.nscr".toList⟩ ∧
      partner.prompt.isNone = true := by
    rw [partner_eq]
    decide +kernel
  have hfirst : ((partner.called 9).bind given? = some partnerAnswer.command ∧
      p₁.output = partner.output ++ partnerAnswer.output ∧
      p₁.actions = partner.actions ++ partnerAnswer.actions) ∧
      p₁.isOpen = true ∧ p₁.serial = partner.serial := by
    unfold p₁
    rw [partner_eq]
    decide +kernel
  have hlast : ((p₁.called 9).bind given? = some partnerLast.command ∧
      (final (p₁.called 9) p₁).output = p₁.output ++ partnerLast.output ∧
      (final (p₁.called 9) p₁).actions = p₁.actions ++ partnerLast.actions) ∧
      (final (p₁.called 9) p₁).events.any isDecline = false := by
    unfold p₁
    rw [partner_eq]
    decide +kernel
  obtain ⟨ho, hscript, hprompt⟩ := hopened
  obtain ⟨hanswer, hopen, hserial⟩ := hfirst
  have hnone : partner.prompt = none := Option.isNone_iff_eq_none.mp hprompt
  obtain ⟨path, q, hpath, hq, hserves⟩ := package_isolated none hclosed ho fun k t => by
    simp [consents, anew, hnone, accepts]
  obtain rfl : path = ⟨"s/b.nscr".toList⟩ := Option.some.inj (hpath.symm.trans hscript)
  obtain ⟨q', hs, hcall⟩ := hserves [partnerAnswer] p₁
    (.tail (.refl partner) (answers_called ho hanswer) ⟨hopen, hserial⟩)
  refine ⟨q, q', hq, hs, ?_⟩
  rcases hcall partnerLast _ (answers_called hopen hlast.1) (not_declined hlast.2) with
    hgiven | ⟨-, -, path, r, -, -, hlost, -⟩
  · exact .inl hgiven
  · exact .inr ⟨path, r, hlost⟩

theorem partner_not_isolated : ∃ p' q q',
    openPath ⟨"s/b.nscr".toList⟩ (partner.anew none) = .ok ⟨⟩ q ∧
    partner.next? = some (.ok "x".toList p') ∧ q.next? = some (.ok "x".toList q') ∧
    (∃ r, p'.next? = some (.ok "y".toList r)) ∧
    ∃ r, q'.next? = some (.error (.scriptNotFound [] ⟨"s/main.nscr/".toList⟩) r) := by
  let opening := openPath ⟨"s/b.nscr".toList⟩ (partner.anew none)
  let q := stateOf opening
  have hpe : partner.isOpen = true ∧ (partner.called 9).bind given? = some "x".toList ∧
      (final (partner.called 9) partner).isOpen = true ∧
      ((final (partner.called 9) partner).called 9).bind given? = some "y".toList := by
    rw [partner_eq]
    decide +kernel
  have hqe : succeeds opening = true ∧ q.isOpen = true ∧
      (q.called 9).bind given? = some "x".toList ∧
      (final (q.called 9) q).isOpen = true ∧ ((final (q.called 9) q).called 9).bind failure? =
        some (.scriptNotFound [] ⟨"s/main.nscr/".toList⟩) := by
    unfold q opening
    rw [partner_eq]
    decide +kernel
  obtain ⟨hp, hpx, hp', hpy⟩ := hpe
  obtain ⟨hopening, hq, hqx, hq', hqe⟩ := hqe
  exact ⟨_, q, _, succeeds_run hopening, next?_given 9 hp hpx, next?_given 9 hq hqx,
    ⟨_, next?_given 9 hp' hpy⟩, next?_failed 9 hq' hqe⟩

end ScriptFeed.Processor
