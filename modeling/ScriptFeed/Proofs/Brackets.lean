import ScriptFeed.Proofs.Calls

namespace ScriptFeed

def Event.entry? : Event → Option Package.Entry
  | .recorded _ e => some e
  | _ => none

def Package.Entry.isHeader : Package.Entry → Bool
  | .opened _ => true
  | _ => false

def Package.Entry.footer? : Package.Entry → Option Bool
  | .closed b => some b
  | _ => none

namespace Processor

open Package Comment

variable {N : Allowed} {p q r : Processor}

def entries (p : Processor) : List Entry := p.events.filterMap Event.entry?

def headers (p : Processor) : Nat := p.entries.countP Entry.isHeader

def footers (p : Processor) : List Bool := p.entries.filterMap Entry.footer?

def footer (b : Bool) (p : Processor) : List Bool := if p.record?.isSome then [b] else []

theorem entries_emit (p : Processor) (e : Event) :
    (p.emit e).entries = p.entries ++ e.entry?.toList := by
  simp only [entries, emit, List.filterMap_append]
  cases he : e.entry? <;> simp [he]

theorem entries_note {e : Event} (h : e.entry? = none) : (p.emit e).entries = p.entries := by
  rw [entries_emit, h, Option.toList_none, List.append_nil]

theorem entry?_of_isNote {e : Event} (h : e.isNote = true) : e.entry? = none := by
  cases e with
  | recorded path entry => cases h
  | _ => rfl

theorem record_entries (p : Processor) (e : Entry) :
    (p.record e).entries = p.entries ++ if p.record?.isSome then [e] else [] := by
  unfold record
  cases hr : p.record? with
  | none => simp
  | some r => exact entries_emit _ _

theorem record_record? (p : Processor) (e : Entry) : (p.record e).record? = p.record? := by
  unfold record
  split <;> rfl

theorem announce_record? (p : Processor) (t : Text) : (p.announce t).record? = p.record? := by
  have hset := setInProcedure_record? p true
  unfold announce
  split
  · rfl
  · dsimp only
    split
    · exact (record_record? _ _).trans hset
    · exact (record_record? (p.setInProcedure true) _).trans hset

theorem closeRecord_entries (p : Processor) (b : Bool) :
    (p.closeRecord b).2.entries = p.entries ++ if p.record?.isSome then [.closed b] else [] := by
  unfold closeRecord
  cases hr : p.record? with
  | none => simp
  | some r => exact (entries_note rfl).trans (entries_emit _ _)

theorem teardown_entries (p : Processor) :
    p.teardown.entries = (p.closeRecord false).2.entries :=
  rfl

theorem record?_eq_current (p : Processor) : p.record? = p.current.record := by
  unfold record? current
  cases p.installation <;> rfl

/-- What a change does to the account of headers and footers. -/
inductive Accounts (N : Allowed) (p q : Processor) : Prop
  | keep (hh : q.headers = p.headers) (hf : q.footers = p.footers)
      (hr : q.record?.isSome = p.record?.isSome)
  | close (b : Bool) (hb : b = true → N.succeed) (hh : q.headers = p.headers)
      (hf : q.footers = p.footers ++ p.footer b) (hr : q.record? = none)
  | start (hN : N.start) (hh : q.headers = p.headers + 1)
      (hf : q.footers = p.footers ++ p.footer false)
      (hr : q.record?.isSome = true)

theorem Accounts.of_entries (he : q.entries = p.entries)
    (hr : q.record?.isSome = p.record?.isSome) :
    Accounts N p q := by
  refine .keep ?_ ?_ hr
  · rw [headers, he, headers]
  · rw [footers, he, footers]

theorem closed_headers {b : Bool}
    (h : q.entries = p.entries ++ if p.record?.isSome then [.closed b] else []) :
    q.headers = p.headers := by
  rw [headers, h, List.countP_append, headers]
  split <;> simp [Entry.isHeader]

theorem closed_footers {b : Bool}
    (h : q.entries = p.entries ++ if p.record?.isSome then [.closed b] else []) :
    q.footers = p.footers ++ p.footer b := by
  rw [footers, h, List.filterMap_append, footers, footer]
  split <;> simp [Entry.footer?]

theorem closeRecord_accounts {b : Bool} (hb : b = true → N.succeed) :
    Accounts N p (p.closeRecord b).2 :=
  .close b hb (closed_headers (closeRecord_entries p b)) (closed_footers (closeRecord_entries p b))
    (closeRecord_record? p b)

theorem teardown_accounts : Accounts N p p.teardown :=
  .close false (by simp) (closed_headers (closeRecord_entries p false))
    (closed_footers (closeRecord_entries p false)) rfl

theorem record_accounts {e : Entry} (he : e.isInner = true) : Accounts N p (p.record e) := by
  have hheader : e.isHeader = false := by
    cases e with
    | opened stamp => cases he
    | _ => rfl
  have hfooter : e.footer? = none := by
    cases e with
    | closed b => cases he
    | _ => rfl
  refine .keep ?_ ?_ (by rw [record_record?])
  · rw [headers, record_entries, List.countP_append, headers]
    split
    · rw [List.countP_cons_of_neg (by simp [hheader]), List.countP_nil, Nat.add_zero]
    · rfl
  · rw [footers, record_entries, List.filterMap_append, footers]
    split
    · rw [List.filterMap_cons_none hfooter, List.filterMap_nil, List.append_nil]
    · exact List.append_nil _

theorem queue_accounts (path : Path) : Accounts N p (p.queue path) := by
  have hr : p.record?.isSome = p.current.record.isSome := by rw [record?_eq_current]
  unfold queue
  dsimp only
  split
  · exact .of_entries (entries_note rfl) hr.symm
  · exact .of_entries rfl hr.symm

theorem begin_entries (p : Processor) (r : Record) (files : Files) :
    (p.begin r files).entries = (p.entries ++ [.opened p.now]) ++
      if p.record?.isSome then [.closed false] else [] := by
  let p₁ := ({ p with files }.emit (.recorded r.path (.opened p.now))).emit (.recordOpened r.path)
  have hopen : p₁.entries = p.entries ++ [.opened p.now] :=
    (entries_note rfl).trans (entries_emit _ _)
  have hclose := record_entries p₁ (.closed false)
  rw [hopen] at hclose
  exact (entries_note rfl).trans hclose

theorem begin_accounts (hN : N.start) (r : Record) (files : Files) :
    Accounts N p (p.begin r files) := by
  refine .start hN ?_ ?_ rfl
  · rw [headers, begin_entries, List.countP_append, List.countP_append, headers]
    split <;> simp [Entry.isHeader]
  · rw [footers, begin_entries, List.filterMap_append, List.filterMap_append, footers, footer]
    split <;> simp [Entry.footer?]

theorem opened_record? (path : Path) (r : LineReader) (p : Processor) :
    (p.opened path r).record? = p.record? := by
  cases hi : p.installation <;> simp [opened, emit, record?, hi, Installation.forPackage]

theorem opened_entries (path : Path) (r : LineReader) (p : Processor) :
    (p.opened path r).entries = p.entries := entries_note rfl

theorem Move.accounts (hm : Move N p q) : Accounts N p q := by
  cases hm with
  | tell e he => exact .of_entries (entries_note (entry?_of_isNote he)) rfl
  | say t => exact .of_entries rfl rfl
  | request a => exact .of_entries rfl rfl
  | remember t => exact .of_entries rfl rfl
  | ask => exact .of_entries rfl rfl
  | serve b => exact .of_entries rfl rfl
  | read s r b hs hr => exact .of_entries rfl rfl
  | enclose path scope r ho hr => exact .of_entries (entries_note rfl) rfl
  | readOn i i' hi hr => exact .of_entries rfl rfl
  | leave => exact .of_entries rfl rfl
  | define fs ho => exact .of_entries rfl rfl
  | directories path => exact .of_entries rfl rfl
  | document path b files hw => exact .of_entries (entries_note rfl) rfl
  | layout path b files n hw => exact .of_entries (entries_note rfl) rfl
  | adjust i ho hc hr => exact .of_entries rfl (by rw [record?_eq_current p, ← hr]; rfl)
  | queue name path ho hn hp => exact queue_accounts path
  | write e he => exact record_accounts he
  | begin r files hN ho hr => exact begin_accounts hN r files
  | finish b hb => exact closeRecord_accounts hb
  | advance i path chain r ho hi ha hr =>
    refine .of_entries (opened_entries path r _) ?_
    rw [opened_record?]
    simp [record?, hi]
  | down => exact teardown_accounts

def Balanced (p : Processor) : Prop :=
  p.headers = p.footers.length + if p.record?.isSome then 1 else 0

theorem Accounts.balanced (h : Accounts N p q) (hp : Balanced p) : Balanced q := by
  unfold Balanced at *
  cases h with
  | keep hh hf hr => rw [hh, hf, hr]; exact hp
  | close b hb hh hf hr =>
    rw [hh, hf, hr, hp, footer, List.length_append]
    split <;> simp
  | start hN hh hf hr =>
    rw [hh, hf, hr, hp, footer, List.length_append]
    split <;> simp

def Failing (p q : Processor) : Prop := ∃ n, q.footers = p.footers ++ List.replicate n false

theorem Failing.refl (p : Processor) : Failing p p := ⟨0, by simp⟩

theorem Failing.trans (h : Failing p q) (h' : Failing q r) : Failing p r := by
  obtain ⟨n, hn⟩ := h
  obtain ⟨m, hm⟩ := h'
  exact ⟨n + m, by rw [hm, hn, List.append_assoc, List.replicate_append_replicate]⟩

theorem footer_failing (hf : q.footers = p.footers ++ p.footer false) : Failing p q := by
  unfold footer at hf
  split at hf
  · exact ⟨1, hf⟩
  · exact ⟨0, hf⟩

theorem Accounts.failing (h : Accounts N p q) (hN : ¬N.succeed) : Failing p q := by
  cases h with
  | keep hh hf hr => exact ⟨0, by rw [hf]; simp⟩
  | close b hb hh hf hr =>
    cases b with
    | true => exact absurd (hb rfl) hN
    | false => exact footer_failing hf
  | start hs hh hf hr => exact footer_failing hf

theorem Accounts.idle (h : Accounts N p q) (hN : ¬N.start) (hr : p.record? = none) :
    q.footers = p.footers ∧ q.record? = none := by
  cases h with
  | keep hh hf hr' => exact ⟨hf, by simpa [hr] using hr'⟩
  | close b hb hh hf hr' => exact ⟨by rw [hf, footer, hr]; simp, hr'⟩
  | start hs hh hf hr' => exact absurd hs hN

abbrev Accounted (N : Allowed) : Processor → Processor → Prop := Relation.ReflTransGen (Accounts N)

theorem Moves.accounted (hm : Moves N p q) : Accounted N p q :=
  Relation.ReflTransGen.mono (fun _ _ h => h.accounts) _ _ hm

theorem Accounted.balanced (h : Accounted N p q) (hp : Balanced p) : Balanced q := by
  induction h with
  | refl => exact hp
  | tail _ hstep ih => exact hstep.balanced ih

theorem Accounted.failing (h : Accounted N p q) (hN : ¬N.succeed) : Failing p q := by
  induction h with
  | refl => exact .refl p
  | tail _ hstep ih => exact ih.trans (hstep.failing hN)

theorem Accounted.idle (h : Accounted N p q) (hN : ¬N.start) (hr : p.record? = none) :
    q.footers = p.footers := by
  have h' : q.footers = p.footers ∧ q.record? = none := by
    induction h with
    | refl => exact ⟨rfl, hr⟩
    | tail _ hstep ih =>
      obtain ⟨hf, hr'⟩ := hstep.idle hN ih.2
      exact ⟨hf.trans ih.1, hr'⟩
  exact h'.1

end Processor

end ScriptFeed
