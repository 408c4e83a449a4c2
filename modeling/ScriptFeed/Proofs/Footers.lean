import ScriptFeed.Proofs.Brackets

namespace ScriptFeed.Processor

open Package Comment

variable {N : Allowed} {p q : Processor} {notes : Notes}

def Allowed.failing : Allowed := ⟨fun _ => True, True, False⟩

def Allowed.idle : Allowed := ⟨fun _ => True, False, False⟩

theorem unopened_accounts (path : Path) (cause : Fault) : Accounts N p (p.unopened path cause) := by
  have he : (p.emit (.scriptUnreadable path cause)).teardown.entries =
      p.entries ++ if p.record?.isSome then [.closed false] else [] := by
    rw [teardown_entries, closeRecord_entries, entries_note rfl]
    rfl
  have hu : (p.unopened path cause).entries =
      p.entries ++ if p.record?.isSome then [.closed false] else [] := by
    unfold unopened
    dsimp only
    split <;> exact he
  have hr : (p.unopened path cause).record? = none := by
    unfold unopened
    dsimp only
    split <;> rfl
  exact .close false (by simp) (closed_headers hu) (closed_footers hu) hr

theorem openPath_accounts (path : Path) :
    Ends (openPath path) p (fun _ q => Accounted N p q) (fun _ q => Accounted N p q) := by
  refine openPath_ends (fun r _ => ?_) (fun cause _ => ?_)
  · refine .single (.of_entries (opened_entries path r p.shut) ?_)
    rw [opened_record?]
    rfl
  · exact .tail (.single (.of_entries (q := p.shut) rfl rfl)) (unopened_accounts path cause)

theorem reopen_accounts :
    Ends reopen p (fun _ q => Accounted N p q) (fun _ q => Accounted N p q) := by
  rw [reopen, ends_bind, ends_get]
  split
  · exact openPath_accounts _
  · exact .refl

theorem restart_accounts :
    Ends restart p (fun _ q => Accounted N p q) (fun _ q => Accounted N p q) := by
  rw [restart, ends_bind, ends_modify, rewind, ends_bind, ends_get]
  have h : Accounted N p { p with functions := {}, inclusion := none } :=
    .single (.of_entries rfl rfl)
  split
  · exact Ends.mono reopen_accounts (fun _ _ h' => h.trans h') (fun _ _ h' => h.trans h')
  · split
    · exact h
    · exact h.tail (.of_entries (entries_note rfl) rfl)

theorem Call.run_accounted (c : Call) (hn : c ≠ .next) (hr : c ≠ .returnFrom) :
    Accounted N p (c.run p) := by
  cases c with
  | setScript name => exact .single (.of_entries rfl rfl)
  | openScript name =>
    exact .head (.of_entries (q := p.setScript name) rfl rfl) (Ends.state reopen_accounts)
  | reopen => exact Ends.state reopen_accounts
  | close => exact Moves.accounted (close_moves p)
  | restart => exact Ends.state restart_accounts
  | returnFrom => exact absurd rfl hr
  | next => exact absurd rfl hn
  | setInstallMode b => exact .single (.of_entries rfl rfl)
  | setAutoStart b => exact .single (.of_entries rfl rfl)
  | takeLastServed => exact .single (.of_entries rfl rfl)
  | takeHeader => exact .single (.of_entries rfl rfl)
  | takeOutput => exact .single (.of_entries rfl rfl)
  | takeActions => exact .single (.of_entries rfl rfl)
  | setPrompt prompt => exact .single (.of_entries rfl rfl)
  | setMarked marked => exact .single (.of_entries rfl rfl)
  | world files now => exact .single (.of_entries rfl rfl)

theorem returnFrom_moves (p : Processor) : Moves .all p (Call.returnFrom.run p) := by
  change Moves .all p (stateOf (returnFrom p))
  rw [returnFrom_run]
  split
  · exact (concludeRecord_moves (b := true) (fun _ => trivial) p).trans (close_moves _)
  · exact .refl

theorem Call.run_balanced (c : Call) (hc : Coherent p) (hb : Balanced p) : Balanced (c.run p) := by
  by_cases hn : c = .next
  · subst hn
    change Balanced (stateOf (p.next?.getD (.ok [] p)))
    cases h : p.next? with
    | none => exact hb
    | some r => exact (Moves.accounted (next?_moves hc h)).balanced hb
  · by_cases hr : c = .returnFrom
    · subst hr
      exact (Moves.accounted (returnFrom_moves p)).balanced hb
    · exact (c.run_accounted (N := .all) hn hr).balanced hb

theorem after_balanced (calls : List Call) (hc : Coherent p) (hb : Balanced p) :
    Balanced (after calls p) := by
  induction calls generalizing p with
  | nil => exact hb
  | cons c calls ih => exact ih (c.run_coherent hc) (c.run_balanced hc hb)

theorem concludeRecord_footers (p : Processor) (b : Bool) :
    (p.concludeRecord b).footers = p.footers ++ p.footer b ∧
      (p.concludeRecord b).record? = none := by
  have hf := closed_footers (closeRecord_entries p b)
  have hr := closeRecord_record? p b
  unfold concludeRecord
  dsimp only
  split <;> exact ⟨hf, hr⟩

theorem returnFrom_footers (hc : Coherent p) :
    (Call.returnFrom.run p).footers = p.footers ++ p.footer true := by
  change (stateOf (returnFrom p)).footers = _
  rw [returnFrom_run]
  cases ho : p.isOpen with
  | true =>
    obtain ⟨hf, hr⟩ := concludeRecord_footers p true
    have hm : Moves .idle (p.concludeRecord true) (stateOf (close (p.concludeRecord true))) :=
      close_moves _
    rw [if_pos rfl, (Moves.accounted hm).idle id hr, hf]
  | false =>
    have hr := (hc.closed ho).2.1
    simp [stateOf, footer, hr]

theorem drop_footers (hc : Coherent p) :
    p.drop.headers = p.headers ∧ p.drop.footers = p.footers ++ p.footer false ∧
      p.drop.record? = none := by
  unfold drop
  cases ho : p.isOpen with
  | true =>
    exact ⟨closed_headers (closeRecord_entries p false),
      closed_footers (closeRecord_entries p false), rfl⟩
  | false =>
    have hr := (hc.closed ho).2.1
    simp [footer, hr]

theorem turn_section (hi : p.inclusion = none) (h : EndsSection notes p q) :
    Failing p q ∧ (stateOf (turn notes p)).footers = q.footers ++ q.footer true := by
  obtain ⟨s, l, r, t, notes', hs, hl, hne, hq, ht⟩ := h
  have ho : (p.setReader r).isOpen = true := isOpen_of_session (session_setReader hs r)
  have henter := (enterLine_changing (W := Allowed.failing.whole) (t := l.text) notes ho
    trivial (fun _ => trivial) (fun _ _ _ _ _ => trivial) fun _ _ => trivial).moving
  obtain ⟨hm, hopen, -⟩ := Ends.ok henter hq
  have hread : Moves .failing p (p.setReader r) :=
    moves_setReader hs (LineReader.nextLogical_reads hl)
  refine ⟨(Moves.accounted (hread.trans hm)).failing id, ?_⟩
  -- what follows the conclusion of the record opens no other
  let q₁ := q.concludeRecord true
  obtain ⟨hsec, hsecOpen⟩ := leaveSection_close (W := Allowed.idle.whole) (hopen rfl) ht
  obtain ⟨hrest, hrestOpen, -⟩ := leaveLine_rest (W := Allowed.idle.whole) notes' q t
  have hleft : Moves .idle q₁ (q.leaveLine t notes').2 :=
    Changes.moves (hsec.trans hrest)
  have hline : readLine notes p = .ok (q.leaveLine t notes').1 (q.leaveLine t notes').2 := by
    rw [readLine_run hs, hl]
    dsimp only
    rw [if_neg hne, readText_text hq]
  have hturn : Moves .idle q₁ (stateOf (turn notes p)) := by
    refine Ends.state (turn_script hi (ends_of_run ?_ (by simp [hline])))
    intro x q' hx
    obtain ⟨rfl, rfl⟩ := EStateM.Result.ok.inj (hline.symm.trans hx)
    unfold Goes
    split
    · exact hleft
    · exact hleft
    · exact Ends.mono (scriptCommand?_moving (N := .idle) (hrestOpen.trans hsecOpen) _)
        (fun _ _ h => hleft.trans h.1) (fun _ _ h => hleft.trans h)
  obtain ⟨hf, hr⟩ := concludeRecord_footers q true
  rw [(Moves.accounted hturn).idle id hr, hf]

theorem turn_failing (hc : Coherent p)
    (h : p.inclusion = none → ∀ q, ¬EndsSection notes p q) :
    Failing p (stateOf (turn notes p)) := by
  have hm : Moves .failing p (stateOf (turn notes p)) :=
    (turn_moving notes hc.inclusion trivial (fun q hi hq => absurd hq (h hi q))
      fun _ _ => trivial).state
  exact (Moves.accounted hm).failing id

theorem next?_failing {r : Outcome Text} (ho : p.isOpen = true) (h : p.next? = some r) :
    ∃ notes q, Feeds {} p notes q ∧ Failing (stateOf (turn notes q)) (stateOf r) := by
  rw [next?, if_pos ho] at h
  obtain ⟨r', hr', rfl⟩ := Option.map_eq_some_iff.mp h
  obtain ⟨notes, q, hf, ht⟩ := feed?_eq_some.mp hr'
  refine ⟨notes, q, hf, ?_⟩
  rw [ht, stateOf_lastTurn]
  exact (Moves.accounted (settle_moves (N := .failing) r')).failing id

theorem fresh_balanced (settings : Settings) (files : Files) : Balanced { settings, files } := rfl

theorem record_bracketing (settings : Settings) (files : Files) (calls : List Call) :
    let p := after calls { settings, files }
    p.headers = p.footers.length + (if p.record?.isSome then 1 else 0) ∧
    p.drop.headers = p.drop.footers.length ∧
    p.drop.footers = p.footers ++ p.footer false ∧
    (∀ c : Call, c ≠ .next → c ≠ .returnFrom → Failing p (c.run p)) ∧
    (Call.returnFrom.run p).footers = p.footers ++ p.footer true ∧
    (∀ notes q, Feeds {} p notes q →
      q.headers = q.footers.length + (if q.record?.isSome then 1 else 0) ∧
      (∀ q₁, q.inclusion = none → EndsSection notes q q₁ →
        Failing q q₁ ∧ (stateOf (turn notes q)).footers = q₁.footers ++ q₁.footer true) ∧
      ((q.inclusion = none → ∀ q₁, ¬EndsSection notes q q₁) →
        Failing q (stateOf (turn notes q)))) ∧
    (∀ r, p.next? = some r → (p.isOpen = false ∧ r = .ok [] p) ∨
      ∃ notes q, Feeds {} p notes q ∧ Failing (stateOf (turn notes q)) (stateOf r)) := by
  intro p
  have hc : Coherent p := after_coherent calls (fresh_coherent settings files)
  have hb : Balanced p :=
    after_balanced calls (fresh_coherent settings files) (fresh_balanced settings files)
  obtain ⟨hdh, hdf, hdr⟩ := drop_footers hc
  refine ⟨hb, ?_, hdf, ?_, returnFrom_footers hc, ?_, ?_⟩
  · rw [hdh, hdf, hb, footer, List.length_append]
    split <;> rfl
  · intro c hn hr
    exact (c.run_accounted (N := .failing) hn hr).failing id
  · intro notes q hq
    have hm := hq.moves hc
    have hcq := Moves.coherent hm hc
    exact ⟨(Moves.accounted hm).balanced hb, fun q₁ hi h => turn_section hi h,
      fun h => turn_failing hcq h⟩
  · intro r hr
    cases ho : p.isOpen with
    | true => exact .inr (next?_failing ho hr)
    | false =>
      rw [next?, ho] at hr
      exact .inl ⟨rfl, by simpa using hr.symm⟩

end ScriptFeed.Processor
