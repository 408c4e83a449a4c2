import ScriptFeed.Proofs.Scanning
import ScriptFeed.Proofs.Sections

namespace ScriptFeed.Processor

open Package Comment

variable {W : Permit} {p q : Processor} {t : Text} {notes : Notes}

theorem resume_rest_length {t u : Text} {active : Bool} (h : (resume t active).rest = some u) :
    u.length ≤ t.length := by
  unfold resume at h
  cases hc : Text.cut blockClose t with
  | none => simp [hc] at h
  | some x =>
    obtain ⟨body, rest⟩ := x
    have hlen := congrArg List.length (Text.cut_eq_some hc)
    simp only [List.length_append] at hlen
    simp only [hc] at h
    split at h
    · simp at h
    · simp only [Option.some.injEq] at h
      subst h
      omega

def leftOver (p : Processor) (t : Text) : Option Text :=
  (if p.session.any (·.inComment) then (resume t true).rest else some t).map (stripLine · false)

theorem leaveComment_changing (t : Text) (notes : Notes) :
    Changing W (leaveComment t notes) p (fun x q => q.isOpen = p.isOpen ∧ q.unread = p.unread ∧
      q.lead = p.lead ∧ q.installMode = p.installMode ∧
      x.1 = if p.session.any (·.inComment) then (resume t true).rest else some t) := by
  refine Stepping.get ?_
  cases hs : p.session with
  | none => exact .pure ⟨rfl, rfl, rfl, rfl, rfl⟩
  | some s =>
    dsimp only
    rw [Option.any_some]
    cases hc : s.inComment with
    | false => exact .pure ⟨rfl, rfl, rfl, rfl, rfl⟩
    | true =>
      have hread : Change W p { p with session := some ⟨s.reader, (resume t true).active⟩ } :=
        .read p s s.reader _ hs (.refl _ _)
      refine Stepping.set (.single hread) (.pure ⟨?_, ?_, rfl, rfl, rfl⟩)
      · simp [isOpen, hs]
      · simp [unread, hs]

theorem left_length {b : Bool} {u : Text}
    (h : some u = if b then (resume t true).rest else some t) : u.length ≤ t.length := by
  cases b with
  | true => exact resume_rest_length h.symm
  | false => exact Option.some.inj h ▸ le_rfl

theorem dropLineComment_length {t u : Text} {notes : Notes}
    (h : (p.dropLineComment t notes).1 = some u) : u.length ≤ t.length := by
  unfold dropLineComment at h
  split at h
  · dsimp only at h
    split at h
    · simp at h
    · simp only [Option.some.injEq] at h
      exact h ▸ (stripLine_begins t p.keepsDocs).length_le
  · simp only [Option.some.injEq] at h
    exact h ▸ le_rfl

theorem dropLineComment_eq {u : Text} {n : Notes} (h : p.dropLineComment t notes = (some u, n)) :
    u = stripLine t p.keepsDocs := by
  unfold dropLineComment at h
  by_cases hmark : Text.contains lineMark t = true
  · rw [if_pos hmark] at h
    dsimp only at h
    split at h
    · simp at h
    · exact (Option.some.inj (Prod.mk.inj h).1).symm
  · rw [if_neg hmark] at h
    rw [stripLine_unmarked (by simpa using hmark)]
    exact (Option.some.inj (Prod.mk.inj h).1).symm

theorem startInstall_changing (ho : p.isOpen = true) (hB : W.start) (hI : W.install) (line : Text)
    (hN : ∀ name : Text, name.length ≤ line.length + 2 * (p.unread + p.lead) → W.queue name) :
    Changing W (startInstall line) p (fun rest q => ∀ u, rest = some u → q.isOpen = true ∧
      u.length ≤ line.length + 2 * (p.unread + p.lead) ∧
      q.unread ≤ p.unread + p.lead + 4 * (line.length + 2 * (p.unread + p.lead) + 14)) := by
  unfold startInstall
  refine Stepping.get ?_
  cases hr : Record.start p.settings.log p.now p.files with
  | error e => exact .throw _
  | ok x =>
    obtain ⟨r, files⟩ := x
    have hunread := begin_unread hr
    have hopen : (p.begin r files).isOpen = true := by rw [isOpen, begin_session]; exact ho
    have hrest : (Text.trim (line.drop installOpen.length)).length ≤ line.length := by
      refine (Text.trim_length _).trans ?_
      rw [List.length_drop]
      omega
    refine Stepping.set (.single (.begin p r files hB ho hI hr)) ?_
    dsimp only
    split
    · refine (readHeader_changing hopen hI _ fun name hname => hN name (by omega)).mono ?_
      intro rest q' h u hu
      obtain ⟨hq', hlen, hun⟩ := h u hu
      exact ⟨hq', by omega, by omega⟩
    · exact .pure (by simp)

theorem skipSection_changing : Changing W skipSection p (fun _ _ => True) := by
  refine Stepping.get ?_
  cases hs : p.session with
  | none => exact .pure trivial
  | some s =>
    refine Stepping.lift ?_
    rintro ⟨passage, reader⟩ hthrough
    exact ⟨(changes_setReader hs (LineReader.through_reads hthrough)).tail (.tell _ _ rfl), trivial⟩

theorem enterSection_changing (ho : p.isOpen = true) (hB : W.start)
    (hI : p.installMode = true → W.install) (t : Text)
    (hN : ∀ name : Text, name.length ≤ t.length + 2 * (p.unread + p.lead) → W.queue name) :
    Changing W (enterSection t) p (fun rest q => ∀ u, rest = some u → q.isOpen = true ∧
      u.length ≤ t.length + 2 * (p.unread + p.lead) ∧
      q.unread ≤ p.unread + p.lead + 4 * (t.length + 2 * (p.unread + p.lead) + 14) ∧
      (p.installMode = true ∨ u = t ∧ q = p)) := by
  unfold enterSection
  split
  · refine Stepping.get ?_
    by_cases hmode : p.installMode = true
    · rw [if_pos hmode]
      refine (startInstall_changing ho hB (hI hmode) t hN).mono ?_
      intro rest q h u hu
      obtain ⟨hq, hlen, hun⟩ := h u hu
      exact ⟨hq, hlen, hun, .inl hmode⟩
    · rw [if_neg hmode]
      exact skipSection_changing.bind fun _ _ _ => .pure (by simp)
  · refine .pure ?_
    rintro u ⟨⟩
    exact ⟨ho, by omega, by omega, .inr ⟨rfl, rfl⟩⟩

theorem enterHeader_changing (ho : p.isOpen = true) (hI : p.installMode = true → W.install)
    (t : Text) (hN : ∀ name : Text, name.length ≤ t.length + 2 * p.unread → W.queue name) :
    Changing W (enterHeader t) p (fun rest q => ∀ u, rest = some u → q.isOpen = true ∧
      (p.installMode = true ∨ u = t ∧ q = p)) := by
  refine Stepping.get ?_
  by_cases h : (p.installMode && Text.startsWith infoOpen t) = true
  · have hmode := (Bool.and_eq_true_iff.mp h).1
    rw [if_pos h]
    exact (readHeader_changing ho (hI hmode) t hN).mono fun _ _ h u hu => ⟨(h u hu).1, .inl hmode⟩
  · rw [if_neg h]
    refine .pure ?_
    rintro u ⟨⟩
    exact ⟨ho, .inr ⟨rfl, rfl⟩⟩

theorem save_cases (fs : Files) (docs : Path) (id document : Text) :
    (∃ e, Article.save fs docs id document = (.error e, (fs.createDirectories docs).2)) ∨
    ∃ files, Article.save fs docs id document = (.ok (), files) ∧
      (fs.createDirectories docs).2.write (Article.pathOf docs id) (Utf8.encode document) =
        .ok files := by
  unfold Article.save
  cases hd : fs.createDirectories docs with
  | mk outcome fs' =>
    cases outcome with
    | error e => exact .inl ⟨e, rfl⟩
    | ok _ =>
      dsimp only
      cases hw : fs'.write (Article.pathOf docs id) (Utf8.encode document) with
      | error e => exact .inl ⟨e, rfl⟩
      | ok files => exact .inr ⟨files, rfl, rfl⟩

theorem article_readBody_reads {fs : Files} {line body : Text} {r r' : LineReader}
    (h : Article.readBody fs line r = .ok (body, r')) : r.Reads fs r' := by
  unfold Article.readBody at h
  split at h
  · simp only [Except.ok.injEq, Prod.mk.injEq] at h
    exact h.2 ▸ .refl _ _
  · cases hthrough : r.through fs fun t => Text.contains Article.fileClose (stripLine t false) with
    | error e => simp [hthrough] at h
    | ok x =>
      simp only [hthrough, Except.ok.injEq, Prod.mk.injEq] at h
      exact h.2 ▸ LineReader.through_reads hthrough

theorem writeHelp_changing (ho : p.isOpen = true) (hI : W.install) (line : Text) :
    Changing W (writeHelp line) p (fun _ _ => True) := by
  refine Stepping.get ?_
  obtain ⟨s, hs⟩ := session_of_isOpen ho
  rw [hs]
  refine Stepping.lift ?_
  rintro ⟨body, reader⟩ hbody
  refine Stepping.modify (changes_setReader hs (article_readBody_reads hbody)) (Stepping.get ?_)
  have hr : (p.setReader reader).isOpen = true := isOpen_of_session (session_setReader hs reader)
  generalize p.setReader reader = r at hr
  dsimp only
  split
  · exact ⟨.single (.tell r _ rfl), trivial⟩
  next id _ =>
    let r₁ : Processor := { r with files := (r.files.createDirectories r.settings.docs).2 }
    have hdirs : Changes W r r₁ := .single (.directories r r.settings.docs hI)
    rcases save_cases r.files r.settings.docs id (Article.collect body r.current.id).document with
      ⟨e, he⟩ | ⟨files, he, hw⟩
    · rw [he]
      exact hdirs
    · rw [he]
      -- the files and the event of the document are set in two steps of the action
      have hdoc := hdirs.tail (.document r₁ (Article.pathOf r.settings.docs id) _ files hI hw)
      have hadj := hdoc.tail (.adjust _ { r.current with help := some (r.current.help.getD id) }
        hr hI rfl rfl rfl rfl)
      exact ⟨(hadj.tail (.request _ _ hI)).tail (.request _ _ hI), trivial⟩

theorem layout_readBody_reads {fs : Files} {l l' : Layout} {r r' : LineReader}
    (h : l.readBody fs r = .ok (l', r')) : r.Reads fs r' := by
  unfold Layout.readBody at h
  split at h
  · simp only [Except.ok.injEq, Prod.mk.injEq] at h
    exact h.2 ▸ .refl _ _
  · cases hthrough : r.through fs (Text.contains Layout.endKeyword) with
    | error e => simp [hthrough] at h
    | ok x =>
      simp only [hthrough, Except.ok.injEq, Prod.mk.injEq] at h
      exact h.2 ▸ LineReader.through_reads hthrough

theorem readBody_file {fs : Files} {l l' : Layout} {r r' : LineReader}
    (h : l.readBody fs r = .ok (l', r')) : l'.file = l.file := by
  unfold Layout.readBody at h
  split at h
  · simp only [Except.ok.injEq, Prod.mk.injEq] at h
    rw [h.1]
  · split at h
    · simp at h
    · simp only [Except.ok.injEq, Prod.mk.injEq] at h
      rw [← h.1]

theorem saveLayout_changing (ho : p.isOpen = true) (line : Text) {l : Layout}
    (hl : W.layout l.file) :
    Changing W (saveLayout line l) p (fun _ q => q.isOpen = true) := by
  let notice (p : Processor) := if l.complete then p else p.emit (.layoutOpen l.file)
  have hnotice : Changes W p (notice p) ∧ (notice p).isOpen = true := by
    dsimp only [notice]
    split
    · exact ⟨.refl, ho⟩
    · exact ⟨.single (.tell p _ rfl), ho⟩
  refine Stepping.modify (g := notice) hnotice.1 (Stepping.get ?_)
  dsimp only
  split
  · exact .throw _
  next files hw => exact Stepping.set (.single (.layout _ l _ files _ hl hw)) (.pure hnotice.2)

theorem writeLayout_changing (ho : p.isOpen = true)
    (hl : ∀ l, Layout.parse? t = some l → W.layout l.file) :
    Changing W (writeLayout t) p (fun _ q => q.isOpen = true) := by
  unfold writeLayout
  cases hparse : Layout.parse? t with
  | none => exact .pure ho
  | some l =>
    refine Stepping.get ?_
    obtain ⟨s, hs⟩ := session_of_isOpen ho
    rw [hs]
    refine Stepping.lift ?_
    rintro ⟨l', reader⟩ hbody
    have hfile : W.layout l'.file := by
      rw [readBody_file hbody]
      exact hl l hparse
    have hread : (p.setReader reader).isOpen = true :=
      isOpen_of_session (session_setReader hs reader)
    refine Stepping.modify (changes_setReader hs (layout_readBody_reads hbody)) ?_
    exact (saveLayout_changing hread t hfile).bind fun _ _ hq => .pure hq

def reach (n : Nat) (p : Processor) : Nat :=
  n + 2 * (p.unread + p.lead) +
    2 * (p.unread + p.lead + 4 * (n + 2 * (p.unread + p.lead) + 14))

def Entered.goesOn : Entered → Bool
  | .used (.line _) => true
  | .used _ => false
  | .text _ _ => true

def writeFiles (t : Text) (notes : Notes) : Action Entered := do
  if (← get).installMode && Text.startsWith Article.fileOpen t then
    writeHelp t
    return .used (.nothing notes)
  if Text.startsWith "layout ".toList t then
    if let some command ← writeLayout t then return .used (.line command)
  return .text t notes

theorem writeFiles_changing (ho : p.isOpen = true) (hI : p.installMode = true → W.install)
    (hl : Text.startsWith "layout ".toList t = true →
      ∀ l, Layout.parse? t = some l → W.layout l.file) (notes : Notes) :
    Changing W (writeFiles t notes) p
      (fun x q => (x.goesOn = true → q.isOpen = true) ∧ x ≠ .used .stop) := by
  refine Stepping.get ?_
  dsimp only
  split
  next hhelp =>
    have hmode := (Bool.and_eq_true_iff.mp hhelp).1
    refine (writeHelp_changing ho (hI hmode) t).bind fun _ _ _ => ?_
    exact .pure ⟨by simp [Entered.goesOn], by simp⟩
  next =>
    split
    next hstarts =>
      refine (writeLayout_changing ho (hl hstarts)).bind ?_
      intro command q hq
      cases command with
      | none => exact .pure ⟨fun _ => hq, by simp⟩
      | some c => exact .pure ⟨fun _ => hq, by simp⟩
    next => exact .pure ⟨fun _ => ho, by simp⟩

theorem enterLine_changing (notes : Notes) (ho : p.isOpen = true) (hB : W.start)
    (hI : p.installMode = true → W.install)
    (hl : ∀ u l, (p.installMode = false → p.leftOver t = some u) →
      Text.startsWith "layout ".toList u = true → Layout.parse? u = some l → W.layout l.file)
    (hN : ∀ name : Text, name.length ≤ p.reach t.length → W.queue name) :
    Changing W (enterLine t notes) p
      (fun x q => (x.goesOn = true → q.isOpen = true) ∧ x ≠ .used .stop) := by
  have hused {q : Processor} (n : Notes) : Changing W (pure (.used (.nothing n)) : Action Entered) q
      (fun x q => (x.goesOn = true → q.isOpen = true) ∧ x ≠ .used .stop) :=
    .pure ⟨by simp [Entered.goesOn], by simp⟩
  unfold enterLine
  refine (leaveComment_changing t notes).bind ?_
  rintro ⟨rest, notes₁⟩ q ⟨hq, hu, hlead, hmode, hrest⟩
  rw [ho] at hq
  dsimp only at hrest ⊢
  cases rest with
  | none => exact hused notes₁
  | some t₁ =>
    refine Stepping.get ?_
    have hlen₁ := left_length hrest
    cases hdrop : q.dropLineComment t₁ notes₁ with
    | mk rest notes₂ =>
      cases rest with
      | none => exact hused notes₂
      | some t₂ =>
        have hlen₂ : t₂.length ≤ t₁.length := dropLineComment_length (by rw [hdrop])
        -- outside install mode the stages before a layout leave the line and the state alone
        have hleft : p.installMode = false → p.leftOver t = some t₂ := by
          intro hoff
          have hdocs : q.keepsDocs = false := by rw [keepsDocs, hmode, hoff, Bool.false_and]
          rw [leftOver, ← hrest, Option.map_some, dropLineComment_eq hdrop, hdocs]
        unfold reach at hN
        refine (enterSection_changing hq hB (fun h => hI (hmode.symm.trans h)) t₂
          fun name hname => hN name (by omega)).bind ?_
        intro rest r hr
        cases rest with
        | none => exact hused notes₂
        | some t₃ =>
          obtain ⟨hor, hlen₃, hun, hsame⟩ := hr t₃ rfl
          rw [hmode] at hsame
          have hI₃ : r.installMode = true → W.install := by
            intro hon
            rcases hsame with h | ⟨-, rfl⟩
            · exact hI h
            · exact hI (hmode.symm.trans hon)
          refine (enterHeader_changing hor hI₃ t₃ fun name hname => hN name (by omega)).bind ?_
          intro rest r' hr'
          cases rest with
          | none => exact hused notes₂
          | some t₄ =>
            obtain ⟨hor', hsame'⟩ := hr' t₄ rfl
            have hr₄ : p.installMode = true ∨ t₄ = t₂ ∧ r' = q := by
              rcases hsame with h | ⟨rfl, rfl⟩
              · exact .inl h
              · rw [← hmode]
                exact hsame'
            refine writeFiles_changing hor' ?_ ?_ notes₂
            · intro hon
              rcases hr₄ with h | ⟨-, rfl⟩
              · exact hI h
              · exact hI (hmode.symm.trans hon)
            · intro hstarts l hparse
              refine hl t₄ l (fun hoff => ?_) hstarts hparse
              rcases hr₄ with h | ⟨rfl, -⟩
              · rw [hoff] at h
                exact absurd h (by simp)
              · exact hleft hoff

end ScriptFeed.Processor
