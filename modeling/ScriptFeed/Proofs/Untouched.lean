import ScriptFeed.Proofs.Naming

namespace ScriptFeed

namespace Files

variable {fs fs' : Files} {W W' : Path → Prop} {path f : Path}

theorem openWrite_names {id : Nat} (h : fs.openWrite path = .ok (id, fs')) :
    fs'.directories = fs.directories ∧
      (fs'.names = fs.names ∨ ∃ loc, fs'.names = fs.names ++ [(loc, id)]) := by
  unfold Files.openWrite at h
  cases hp : fs.parentOf path with
  | error e => simp [hp, bind, Except.bind] at h
  | ok o =>
    cases o with
    | none => simp [hp, bind, Except.bind] at h
    | some x =>
      simp only [hp, bind, Except.bind] at h
      split at h
      · simp at h
      · cases he : fs.entry x.1 x.2 with
        | error e => simp [he] at h
        | ok y =>
          cases y with
          | none =>
            simp only [he, Except.ok.injEq, Prod.mk.injEq] at h
            obtain ⟨rfl, rfl⟩ := h
            exact ⟨rfl, .inr ⟨_, rfl⟩⟩
          | some y =>
            cases y with
            | directory => simp [he] at h
            | file i =>
              simp only [he, Except.ok.injEq, Prod.mk.injEq] at h
              obtain ⟨-, rfl⟩ := h
              exact ⟨rfl, .inl rfl⟩

theorem node?_directory (fs : Files) (loc : Location) :
    fs.node? loc = some .directory ↔ loc = [] ∨ loc ∈ fs.directories := by
  unfold Files.node?
  by_cases h : (loc = [] || fs.directories.contains loc) = true
  · rw [if_pos h]
    simpa using h
  · rw [if_neg h]
    have hnone : ¬(loc = [] ∨ loc ∈ fs.directories) := by simpa using h
    refine iff_of_false (fun hfile => ?_) hnone
    obtain ⟨id, -, hid⟩ := Option.map_eq_some_iff.mp hfile
    cases hid

theorem write_others {b : Bytes} (h : fs.write path b = .ok fs') :
    ∃ id, fs'.find path = .ok (.file id) ∧ fs'.directories = fs.directories ∧
      ∀ j, j ≠ id → fs'.bytes j = fs.bytes j ∧
        ∀ loc, fs'.node? loc = some (.file j) → fs.node? loc = some (.file j) := by
  obtain ⟨-, id, hfind, hbytes⟩ := write_find h
  refine ⟨id, hfind, ?_⟩
  unfold Files.write at h
  cases hw : fs.openWrite path with
  | error e => simp [hw, bind, Except.bind] at h
  | ok x =>
    obtain ⟨i, fs₁⟩ := x
    simp only [hw, bind, Except.bind, Except.ok.injEq] at h
    obtain ⟨hd, hn⟩ := openWrite_names hw
    have hset : Grows fs₁ fs' := by rw [← h]; exact ⟨rfl, fun hx => hx⟩
    have hid : i = id := by simpa [hset.find (openWrite_find hw).2.1] using hfind
    subst hid
    have hnode (loc : Location) : fs'.node? loc = fs₁.node? loc := by rw [← h]; rfl
    refine ⟨by rw [← hd, ← h], fun j hj => ⟨hbytes j hj, fun loc hloc => ?_⟩⟩
    rw [hnode] at hloc
    rcases hn with hn | ⟨new, hn⟩
    · simpa only [Files.node?, hd, hn] using hloc
    · -- the name that was added leads to the file that is written, and to no other
      unfold Files.node? at hloc ⊢
      rw [hd, hn, List.lookup_append] at hloc
      by_cases hdir : (loc = [] || fs.directories.contains loc) = true
      · rw [if_pos hdir] at hloc
        cases hloc
      · rw [if_neg hdir] at hloc ⊢
        cases hl : fs.names.lookup loc with
        | some k => simpa [hl] using hloc
        | none =>
          rw [hl, Option.none_or] at hloc
          obtain ⟨k, hk, hkj⟩ := Option.map_eq_some_iff.mp hloc
          obtain rfl : i = k := by
            rw [List.lookup_cons] at hk
            cases hnew : loc == new with
            | true => exact Option.some.inj (by rwa [hnew] at hk)
            | false =>
              rw [hnew] at hk
              cases hk
          exact absurd (Handle.file.inj hkj).symm hj

def Writes (W : Path → Prop) : Files → Files → Prop :=
  Relation.ReflTransGen fun fs fs' => ∃ path b, W path ∧ fs.write path b = .ok fs'

theorem Writes.mono (hW : ∀ path, W path → W' path) (h : Writes W fs fs') : Writes W' fs fs' :=
  Relation.ReflTransGen.mono (fun _ _ ⟨path, b, hp, hw⟩ => ⟨path, b, hW path hp, hw⟩) _ _ h

theorem Writes.grows (h : Writes W fs fs') : Grows fs fs' := by
  induction h with
  | refl => exact .refl fs
  | tail _ hw ih =>
    obtain ⟨path, b, -, hw⟩ := hw
    exact ih.trans (write_find hw).1

theorem Writes.directories (h : Writes W fs fs') : fs'.directories = fs.directories := by
  induction h with
  | refl => rfl
  | tail _ hw ih =>
    obtain ⟨path, b, -, hw⟩ := hw
    obtain ⟨-, -, hd, -⟩ := write_others hw
    exact hd.trans ih

theorem Writes.other {j : Nat} (h : Writes W fs fs') (hf : fs'.find f = .ok (.file j))
    (hW : ∀ path, W path → fs'.find path ≠ fs'.find f) :
    fs.find f = .ok (.file j) ∧ fs'.bytes j = fs.bytes j := by
  induction h with
  | refl => exact ⟨hf, rfl⟩
  | @tail fs₁ fs₂ _ hw ih =>
    obtain ⟨path, b, hp, hw⟩ := hw
    obtain ⟨hg, -⟩ := write_find hw
    obtain ⟨id, hid, hd, hothers⟩ := write_others hw
    have hne : j ≠ id := by
      rintro rfl
      exact hW path hp (hid.trans hf.symm)
    obtain ⟨hbytes, hnode⟩ := hothers j hne
    have hback : fs₁.find f = .ok (.file j) := by
      refine find_of_node hg.here.symm (fun loc => ?_) hnode hf
      rw [node?_directory, node?_directory, hd]
      exact fun hloc => hloc
    obtain ⟨hfind, hsame⟩ := ih hback fun path' hp' heq =>
      hW path' hp' ((hg.find (heq.trans hback)).trans hf.symm)
    exact ⟨hfind, hbytes.trans hsame⟩

theorem read_eq_ok {b : Bytes} :
    fs.read f = .ok b ↔ ∃ j, fs.find f = .ok (.file j) ∧ fs.bytes j = b := by
  unfold Files.read
  cases hf : fs.find f with
  | error e => simp [bind, Except.bind]
  | ok x => cases x <;> simp [bind, Except.bind]

theorem Writes.changed {b : Bytes} (h : Writes W fs fs')
    (hb : fs.read f = .ok b ∨ fs'.read f = .ok b)
    (hne : fs'.read f ≠ fs.read f) : ∃ path, W path ∧ fs'.find path = fs'.find f := by
  by_contra hnot
  have hW (path : Path) (hp : W path) : fs'.find path ≠ fs'.find f :=
    fun heq => hnot ⟨path, hp, heq⟩
  obtain ⟨j, hj⟩ : ∃ j, fs'.find f = .ok (.file j) := by
    rcases hb with hb | hb
    · obtain ⟨j, hj, -⟩ := read_eq_ok.mp hb
      exact ⟨j, h.grows.find hj⟩
    · obtain ⟨j, hj, -⟩ := read_eq_ok.mp hb
      exact ⟨j, hj⟩
  obtain ⟨hfind, hbytes⟩ := h.other hj hW
  apply hne
  rw [read_eq_ok.mpr ⟨j, hj, rfl⟩, read_eq_ok.mpr ⟨j, hfind, rfl⟩, hbytes]

end Files

namespace Processor

open Package Comment

variable {V : Permit} {W W' : Path → Prop} {p q r : Processor} {notes notes' : Notes}

structure Plain (p : Processor) : Prop where
  mode : p.installMode = false
  installation : p.installation = none

structure Spares (W : Path → Prop) (p q : Processor) : Prop where
  plain : Plain q
  settings : q.settings = p.settings
  output : q.output = p.output
  actions : q.actions = p.actions
  header : q.header = p.header
  asked : q.asked = p.asked
  entries : q.entries = p.entries
  files : p.files.Writes W q.files

theorem Spares.refl (h : Plain p) : Spares W p p := ⟨h, rfl, rfl, rfl, rfl, rfl, rfl, .refl⟩

theorem Spares.trans (h : Spares W p q) (h' : Spares W q r) : Spares W p r where
  plain := h'.plain
  settings := h'.settings.trans h.settings
  output := h'.output.trans h.output
  actions := h'.actions.trans h.actions
  header := h'.header.trans h.header
  asked := h'.asked.trans h.asked
  entries := h'.entries.trans h.entries
  files := Relation.ReflTransGen.trans h.files h'.files

theorem Spares.mono (hW : ∀ path, W path → W' path) (h : Spares W p q) : Spares W' p q :=
  { h with files := h.files.mono hW }

theorem Plain.record? (h : Plain p) : p.record? = none := by
  rw [Processor.record?, h.installation]; rfl

theorem Plain.closeRecord (h : Plain p) (b : Bool) : p.closeRecord b = (false, p) := by
  rw [Processor.closeRecord, h.record?]

theorem Plain.concludeRecord (h : Plain p) (b : Bool) : p.concludeRecord b = p := by
  rw [Processor.concludeRecord, h.closeRecord]
  rfl

theorem Change.spares (hm : Change V p q) (h : Plain p) (hV : ¬V.install) :
    Spares (fun path => ∃ l : Layout, V.layout l.file ∧ l.path p.settings.roots = path) p q := by
  have hkeep {q : Processor} (hq : Plain q) (hs : q.settings = p.settings)
      (ho : q.output = p.output)
      (ha : q.actions = p.actions) (hh : q.header = p.header) (hk : q.asked = p.asked)
      (he : q.entries = p.entries) (hf : q.files = p.files) :
      Spares (fun path => ∃ l : Layout, V.layout l.file ∧ l.path p.settings.roots = path) p q :=
    ⟨hq, hs, ho, ha, hh, hk, he, hf ▸ .refl⟩
  cases hm with
  | tell e he =>
    have hnote := entry?_of_isNote (Event.isNote_of_isAside he)
    exact hkeep ⟨h.mode, h.installation⟩ rfl rfl rfl rfl rfl (entries_note hnote) rfl
  | enclose path scope r ho hr =>
    exact hkeep ⟨h.mode, h.installation⟩ rfl rfl rfl rfl rfl (entries_note rfl) rfl
  | layout l b files n hl hw =>
    exact ⟨⟨h.mode, h.installation⟩, rfl, rfl, rfl, rfl, rfl, entries_note rfl,
      .single ⟨l.path p.settings.roots, b, ⟨l, hl, rfl⟩, hw⟩⟩
  | directories path hI => exact absurd hI hV
  | document path b files hI hw => exact absurd hI hV
  | request a hI => exact absurd hI hV
  | accord question hI hyes => exact absurd hI hV
  | decline question package hI hno => exact absurd hI hV
  | adjust i ho hI hc hr hf hb => exact absurd hI hV
  | queue name path ho hI hn hp => exact absurd hI hV
  | accept header ho hI hh => exact absurd hI hV
  | begin record files hN ho hI hr => exact absurd hI hV
  | conclude b hb =>
    rw [h.concludeRecord]
    exact .refl h
  | finish b hb =>
    rw [h.closeRecord]
    exact .refl h
  | advance i path chain r ho hi ha hr => simp [h.installation] at hi
  | leaveProcedure ho hr =>
    refine hkeep ⟨h.mode, ?_⟩ rfl rfl rfl rfl rfl rfl rfl
    rw [setInProcedure, h.installation]
    rfl
  | opened path reader hC =>
    refine hkeep ⟨h.mode, ?_⟩ rfl rfl rfl rfl rfl (opened_entries path reader p) rfl
    change p.installation.map Installation.forPackage = none
    rw [h.installation]
    rfl
  | down =>
    rw [teardown_eq h.record?]
    exact hkeep ⟨rfl, rfl⟩ rfl rfl rfl rfl rfl rfl rfl
  | _ => exact hkeep ⟨h.mode, h.installation⟩ rfl rfl rfl rfl rfl rfl rfl

theorem Changes.spares (hm : Changes V p q) (h : Plain p) (hV : ¬V.install) :
    Spares (fun path => ∃ l : Layout, V.layout l.file ∧ l.path p.settings.roots = path) p q := by
  induction hm with
  | refl => exact .refl h
  | tail _ hstep ih =>
    have hlast := hstep.spares ih.plain hV
    rw [ih.settings] at hlast
    exact ih.trans hlast

def Permit.bare : Permit :=
  { Allowed.all with layout := fun _ => False, install := False, call := True }

theorem Changes.spares_bare (hm : Changes .bare p q) (h : Plain p) : Spares W p q :=
  (hm.spares h id).mono fun _ ⟨_, hl, _⟩ => hl.elim

def Directs (notes : Notes) (p : Processor) (path : Path) : Prop :=
  ∃ notes' r l, Feeds notes p notes' r ∧ r.directive? = some l ∧ l.path r.settings.roots = path

theorem turn_spares (h : Plain p) (notes : Notes) :
    Spares (fun path => ∃ l, p.directive? = some l ∧ l.path p.settings.roots = path) p
      (stateOf (turn notes p)) := by
  let V : Permit :=
    { Permit.bare with layout := fun name => ∃ l, p.directive? = some l ∧ l.file = name }
  have hspares {q : Processor} (hq : Changes V p q) :
      Spares (fun path => ∃ l, p.directive? = some l ∧ l.path p.settings.roots = path) p q := by
    refine (Changes.spares hq h id).mono ?_
    rintro path ⟨l, ⟨l', hl', hfile⟩, rfl⟩
    exact ⟨l', hl', by rw [Layout.path, hfile, Layout.path]⟩
  have hcovers : V.Covers notes p :=
    ⟨trivial, fun hon => by simp [h.mode] at hon, fun l hl => ⟨l, hl h.mode, rfl⟩,
      fun _ _ => trivial, fun _ _ => trivial⟩
  apply Ends.state
  refine Ends.mono (turn_turned notes fun _ => hcovers) ?_ (fun _ _ hq => hspares hq)
  intro x q hx
  cases hx with
  | still hq hx => exact hspares hq
  | echo t hq hon ho =>
    -- a line is echoed in install mode only
    exact absurd (hspares hq).plain.mode (by simp [hon])
  | define functions name n hq hmode ho =>
    have hplain := (hspares hq).plain
    exact (hspares hq).trans ⟨⟨hplain.mode, hplain.installation⟩, rfl, rfl, rfl, rfl, rfl,
      entries_note rfl, .refl⟩

theorem Feeds.spares (hf : Feeds notes p notes' q) (h : Plain p) :
    Spares (Directs notes p) p q := by
  induction hf with
  | refl => exact .refl h
  | @tail notes₁ notes₂ p q r hf ht ih =>
    have hlast := turn_spares (ih h).plain notes₁
    rw [ht] at hlast
    exact (ih h).trans (hlast.mono fun path ⟨l, hl, hp⟩ => ⟨notes₁, q, l, hf, hl, hp⟩)

theorem next_spares (h : Plain p) : Spares (Directs {} p) p (stateOf (next p)) := by
  unfold next next?
  split
  · cases hfeed : feed? {} p with
    | none => exact .refl h
    | some o =>
      obtain ⟨notes', q, hf, ht⟩ := feed?_eq_some.mp hfeed
      have hfed := hf.spares h
      have hlast := turn_spares hfed.plain notes'
      rw [ht, stateOf_lastTurn] at hlast
      have hturns : Spares (Directs {} p) p (stateOf o) :=
        hfed.trans (hlast.mono fun path ⟨l, hl, hp⟩ => ⟨notes', q, l, hf, hl, hp⟩)
      exact hturns.trans (Changes.spares_bare (settle_changes o) hturns.plain)
  · exact .refl h

def Call.isRun : Call → Bool
  | openScript _ | reopen | next | close | restart | returnFrom => true
  | _ => false

theorem Call.run_spares (c : Call) (hc : c.isRun = true) (h : Plain p) :
    Spares (fun path => c = .next ∧ Directs {} p path) p (c.run p) := by
  cases c with
  | openScript name => exact Changes.spares_bare (openScript_changing trivial name).state h
  | reopen => exact Changes.spares_bare (reopen_changing trivial).state h
  | close => exact Changes.spares_bare close_changing.state h
  | restart => exact Changes.spares_bare (restart_changing trivial).state h
  | returnFrom => exact Changes.spares_bare (returnFrom_changing trivial).state h
  | next => exact (next_spares h).mono fun path hp => ⟨rfl, hp⟩
  | _ => simp [isRun] at hc

theorem after_spares (calls : List Call) (hc : ∀ c ∈ calls, c.isRun = true) (h : Plain p) :
    Spares
      (fun path => ∃ done rest, calls = done ++ .next :: rest ∧ Directs {} (after done p) path) p
      (after calls p) := by
  induction calls generalizing p with
  | nil => exact .refl h
  | cons c calls ih =>
    have hfirst := c.run_spares (hc c List.mem_cons_self) h
    have hrest := ih (fun c' hc' => hc c' (List.mem_cons_of_mem c hc')) hfirst.plain
    refine (hfirst.mono ?_).trans (hrest.mono ?_)
    · rintro path ⟨rfl, hp⟩
      exact ⟨[], calls, rfl, hp⟩
    · rintro path ⟨done, rest, rfl, hp⟩
      exact ⟨c :: done, rest, rfl, hp⟩

theorem run_outside_install_spares (p : Processor) (calls : List Call)
    (hmode : p.installMode = false)
    (hn : p.isInstalling = false) (hc : ∀ c ∈ calls, c.isRun = true) :
    let q := after calls p
    q.output = p.output ∧ q.actions = p.actions ∧ q.header = p.header ∧ q.asked = p.asked ∧
      q.entries = p.entries ∧ q.isInstalling = false ∧ q.installMode = false ∧
      q.files.directories = p.files.directories ∧
      ∀ f b, p.files.read f = .ok b ∨ q.files.read f = .ok b → q.files.read f ≠ p.files.read f →
        ∃ path done rest, calls = done ++ .next :: rest ∧ Directs {} (after done p) path ∧
          q.files.find path = q.files.find f := by
  intro q
  have hplain : Plain p := ⟨hmode, by simpa [isInstalling] using hn⟩
  have h : Spares _ p q := after_spares calls hc hplain
  refine ⟨h.output, h.actions, h.header, h.asked, h.entries, ?_, h.plain.mode, h.files.directories,
    ?_⟩
  · rw [isInstalling, h.plain.installation]
    rfl
  · intro f b hb hne
    obtain ⟨path, ⟨done, rest, hcalls, hp⟩, hfind⟩ := h.files.changed hb hne
    exact ⟨path, done, rest, hcalls, hp, hfind⟩

def strayScripts : List (String × String) :=
  [("main.nscr",
    "<install>\nx\n<endinstall>\n<info>name=n<endinfo>\n<endinstall>\nlayout a b endlayout\nz")]

def stray : Processor := openedMain false strayScripts

theorem run_outside_install_spares_stray :
    stray.installMode = false ∧ stray.isInstalling = false ∧
      stray.files.read ⟨"s/a.nlyt".toList⟩ = .error .notFound ∧
      (after [.next, .next] stray).files.read ⟨"s/a.nlyt".toList⟩ =
        .ok (Utf8.encode "layout b endlayout\n".toList) ∧
      (after [.next, .next] stray).entries = stray.entries ∧
      ∃ path done rest, ([.next, .next] : List Call) = done ++ .next :: rest ∧
        Directs {} (after done stray) path ∧
        (after [.next, .next] stray).files.find path =
          (after [.next, .next] stray).files.find ⟨"s/a.nlyt".toList⟩ := by
  let p₁ := final (stray.called 9) stray
  have hstart : stray.installMode = false ∧ stray.isInstalling = false ∧
      stray.files.read ⟨"s/a.nlyt".toList⟩ = .error .notFound := by decide +kernel
  have hfirst : stray.isOpen = true ∧ (stray.called 9).isSome = true := by decide +kernel
  have hsecond : p₁.isOpen = true ∧ (p₁.called 9).isSome = true ∧
      (final (p₁.called 9) p₁).files.read ⟨"s/a.nlyt".toList⟩ =
        .ok (Utf8.encode "layout b endlayout\n".toList) := by decide +kernel
  have hread : (after [.next, .next] stray).files.read ⟨"s/a.nlyt".toList⟩ =
      .ok (Utf8.encode "layout b endlayout\n".toList) := by
    rw [after_called hfirst.1 hfirst.2, after_called hsecond.1 hsecond.2.1, after, List.foldl_nil]
    exact hsecond.2.2
  have hne : (after [.next, .next] stray).files.read ⟨"s/a.nlyt".toList⟩ ≠
      stray.files.read ⟨"s/a.nlyt".toList⟩ := by
    rw [hread, hstart.2.2]
    simp
  obtain ⟨-, -, -, -, hentries, -, -, -, hfiles⟩ :=
    run_outside_install_spares stray [.next, .next] hstart.1 hstart.2.1 (by simp [Call.isRun])
  exact ⟨hstart.1, hstart.2.1, hstart.2.2, hread, hentries, hfiles _ _ (.inr hread) hne⟩

end Processor

end ScriptFeed
