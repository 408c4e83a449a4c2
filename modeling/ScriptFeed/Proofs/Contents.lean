import ScriptFeed.Proofs.Trail

namespace ScriptFeed

namespace Processor

open Package Comment

variable {N : Allowed} {p q r : Processor} {fs : Files} {n : Nat}

theorem wrote_last {e : Event} {path : Path} {id : Nat} (hn : n ≤ p.events.length)
    (he : e.written? = some path) (hf : p.files.find path = .ok (.file id)) :
    Wrote n (p.emit e) id := by
  refine ⟨path, ?_, hf⟩
  rw [writes, trail_append (q := p.emit e) rfl hn]
  simp [he]

theorem knows_last {e : Event} {x : LineReader} (hn : n ≤ p.events.length)
    (he : e.opened? = some x.path)
    (hf : ∀ id, x.file? = some id → p.files.find x.path = .ok (.file id)) :
    Knows n (p.emit e) x := by
  refine ⟨?_, hf⟩
  rw [opens, trail_append (q := p.emit e) rfl hn]
  simp [he]

theorem openFile_find {path : Path} {x : LineReader} (h : LineReader.openFile fs path = .ok x) :
    x.path = path ∧ (∀ id, x.file? = some id → fs.find path = .ok (.file id)) ∧
      ∀ fs' : Files, ∃ id, (x.pending fs').length ≤ (fs'.bytes id).length := by
  unfold LineReader.openFile at h
  cases hf : fs.find path with
  | error e => simp [hf, bind, Except.bind] at h
  | ok y =>
    simp only [hf, bind, Except.bind] at h
    cases y with
    | file id =>
      obtain rfl := Except.ok.inj h
      refine ⟨rfl, fun id' hid => ?_, fun fs' => ⟨id, ?_⟩⟩
      · simp only [LineReader.file?, Option.some.injEq] at hid
        rw [hid]
      · simp [LineReader.pending, LineReader.unfetched]
    | directory =>
      obtain rfl := Except.ok.inj h
      refine ⟨rfl, fun id hid => ?_, fun fs' => ⟨0, ?_⟩⟩
      · simp [LineReader.file?] at hid
      · simp [LineReader.pending, LineReader.unfetched]

theorem recordIn_contents (h : Contents fs n p) {r : Record} (e : Entry)
    (hr : p.files.find r.path = .ok (.file r.file)) : Contents fs n (p.recordIn r e) := by
  refine h.step (recordIn_extends p r e) ?_ (fun s hs => .inl ⟨s, hs, rfl⟩) (fun _ => .inl)
    (fun _ => .inl)
  intro id hne
  have hid : id = r.file := by
    by_contra hid
    exact hne (Record.write_bytes r e p.files hid)
  subst hid
  exact wrote_last (p := { p with files := r.write e p.files }) h.length rfl
    ((Record.write_grows r e p.files).find hr)

theorem record_contents (h : Contents fs n p) (e : Entry) : Contents fs n (p.record e) := by
  unfold record
  cases hr : p.record? with
  | none => exact h
  | some r => exact recordIn_contents h e (h.record r hr)

theorem closeRecord_contents (h : Contents fs n p) (b : Bool) :
    Contents fs n (p.closeRecord b).2 := by
  have hnone := closeRecord_record? p b
  unfold closeRecord at hnone ⊢
  cases hr : p.record? with
  | none => exact h
  | some r =>
    simp only [hr] at hnone ⊢
    refine (recordIn_contents h (.closed b) (h.record r hr)).step
      ⟨rfl, rfl, .refl _, List.prefix_append _ _⟩ (fun _ hne => absurd rfl hne)
      (fun s hs => .inl ⟨s, hs, rfl⟩) (fun _ => .inl) (fun r' hr' => ?_)
    rw [hnone] at hr'
    simp at hr'

theorem teardown_contents (h : Contents fs n p) : Contents fs n p.teardown :=
  (closeRecord_contents h false).step ⟨rfl, rfl, .refl _, List.prefix_rfl⟩
    (fun _ hne => absurd rfl hne) nofun nofun nofun

theorem queue_contents (h : Contents fs n p) (path : Path) : Contents fs n (p.queue path) := by
  have hE := queue_extends p path
  obtain ⟨hs, hf, -⟩ := queue_frame p path
  have hi : (p.queue path).inclusion = p.inclusion := by
    unfold queue
    dsimp only
    split <;> rfl
  have hr : (p.queue path).record? = p.record? := by
    rw [record?_eq_current p]
    unfold queue
    dsimp only
    split <;> rfl
  exact h.congr hE hf hs hi hr

theorem begin_contents (h : Contents fs n p) {r : Record} {files : Files}
    (hr : Record.start p.settings.log p.now p.files = .ok (r, files)) :
    Contents fs n (p.begin r files) := by
  obtain ⟨hpath, hgrow, hfind, hsame, -⟩ := Record.start_find hr
  rw [← hpath] at hfind
  have h₁ : Contents fs n (p.recording r files) := by
    refine h.step (recording_extends hr) ?_ (fun s hs => .inl ⟨s, hs, rfl⟩) (fun _ => .inl)
      (fun _ => .inl)
    intro id hne
    have hid : id = r.file := by
      by_contra hid
      exact hne (hsame id hid)
    subst hid
    have hw : Wrote n (Processor.emit (.recorded r.path (.opened p.now)) { p with files }) r.file :=
      wrote_last (p := { p with files }) h.length rfl hfind
    refine hw.mono (emit_extends _ _) ?_
    exact h.length.trans (by simp [emit])
  have hrec := record_contents h₁ (.closed false)
  have hgrow₁ := record_extends (p.recording r files) (.closed false)
  rw [begin_eq]
  refine hrec.step ⟨rfl, rfl, .refl _, List.prefix_append _ _⟩ (fun _ hne => absurd rfl hne)
    (fun s hs => .inl ⟨s, hs, rfl⟩) (fun _ => .inl) (fun r' hr' => .inr ?_)
  obtain rfl : r = r' := by simpa [record?, emit, Installation.take] using hr'
  exact hgrow₁.files.find hfind

theorem opened_contents (h : Contents fs n p) {path : Path} {x : LineReader}
    (hx : LineReader.openFile p.files path = .ok x) : Contents fs n (p.opened path x) := by
  obtain ⟨hpath, hfind, -⟩ := openFile_find hx
  refine h.step ⟨rfl, rfl, .refl _, List.prefix_append _ _⟩ (fun _ hne => absurd rfl hne) ?_
    (fun _ => .inl) (fun r hr => .inl ?_)
  · intro s hs
    obtain rfl : { reader := x } = s := by simpa [opened, emit] using hs
    exact .inr (knows_last (p := { p with
      script := some path, session := some { reader := x }
      valid := true, autoStart := false, functions := {}
      installation := p.installation.map Installation.forPackage }) h.length (by rw [hpath]; rfl)
      (by rw [hpath]; exact hfind))
  · rw [opened_record?] at hr
    exact hr

theorem write_contents (h : Contents fs n p) {path : Path} {b : Bytes} {files : Files} {e : Event}
    (hw : p.files.write path b = .ok files) (he : e.written? = some path) :
    Contents fs n ({ p with files }.emit e) := by
  obtain ⟨hgrows, id, hfind, hsame⟩ := Files.write_find hw
  refine h.step ⟨rfl, rfl, hgrows, List.prefix_append _ _⟩ (fun j hne => ?_)
    (fun s hs => .inl ⟨s, hs, rfl⟩) (fun _ => .inl) (fun _ => .inl)
  obtain rfl : j = id := by
    by_contra hj
    exact hne (hsame j hj)
  exact wrote_last (p := { p with files }) h.length he hfind

theorem Move.contents (hm : Move N p q) (h : Contents fs n p) : Contents fs n q := by
  have hE := hm.extends
  cases hm with
  | read s x b hs hr =>
    refine h.step hE (fun _ hne => absurd rfl hne) ?_ (fun _ => .inl) (fun _ => .inl)
    rintro s' ⟨⟩
    exact .inr (((h.session s hs).of_reads hr).mono hE h.length)
  | enclose path scope x ho hr =>
    obtain ⟨hpath, hfind, -⟩ := openFile_find hr
    refine h.step hE (fun _ hne => absurd rfl hne) (fun s hs => .inl ⟨s, hs, rfl⟩) ?_
      (fun _ => .inl)
    rintro i ⟨⟩
    exact .inr (knows_last (p := { p with inclusion := some ⟨x, scope, false⟩ }) h.length rfl
      (by rw [hpath]; exact hfind))
  | readOn i i' hi hr =>
    refine h.step hE (fun _ hne => absurd rfl hne) (fun s hs => .inl ⟨s, hs, rfl⟩) ?_
      (fun _ => .inl)
    rintro j ⟨⟩
    exact .inr (((h.inclusion i hi).of_reads hr).mono hE h.length)
  | leave =>
    exact h.step hE (fun _ hne => absurd rfl hne) (fun s hs => .inl ⟨s, hs, rfl⟩) nofun
      (fun _ => .inl)
  | directories path =>
    have hsame := (Files.createDirectories_grows p.files path).2
    exact h.step hE (fun id hne => absurd (hsame id) hne) (fun s hs => .inl ⟨s, hs, rfl⟩)
      (fun _ => .inl) (fun _ => .inl)
  | document path b files hw => exact write_contents h hw rfl
  | layout path b files k hw => exact write_contents h hw rfl
  | adjust i ho hc hr =>
    exact h.congr hE rfl rfl rfl (by rw [record?_eq_current p, ← hr]; rfl)
  | queue name path ho hn hp => exact queue_contents h path
  | write e he => exact record_contents h e
  | begin r files hN ho hr => exact begin_contents h hr
  | finish b hb => exact closeRecord_contents h b
  | advance i path chain x ho hi ha hr =>
    have h₁ : Contents fs n
        { p with inclusion := none, installation := some { i with chain } } := by
      refine h.step ⟨rfl, rfl, .refl _, List.prefix_rfl⟩ (fun _ hne => absurd rfl hne)
        (fun s hs => .inl ⟨s, hs, rfl⟩) nofun (fun r hr => .inl ?_)
      simpa [record?, hi] using hr
    exact opened_contents h₁ hr
  | down => exact teardown_contents h
  | _ => exact h.congr hE rfl rfl rfl rfl

theorem Moves.contents (hm : Moves N p q) (h : Contents fs n p) : Contents fs n q := by
  induction hm with
  | refl => exact h
  | tail _ hstep ih => exact hstep.contents ih

def sameFile (fs : Files) (a b : Path) : Bool :=
  match fs.find a, fs.find b with
  | .ok (.file i), .ok (.file j) => i == j
  | _, _ => false

def Apart (n : Nat) (p : Processor) : Prop :=
  ∀ a ∈ opens n p, ∀ b ∈ writes n p, sameFile p.files a b = false

instance (n : Nat) (p : Processor) : Decidable (Apart n p) :=
  inferInstanceAs (Decidable (∀ a ∈ opens n p, ∀ b ∈ writes n p, sameFile p.files a b = false))

theorem sameFile_eq_true {a b : Path} : sameFile fs a b = true ↔
    ∃ id, fs.find a = .ok (.file id) ∧ fs.find b = .ok (.file id) := by
  unfold sameFile
  constructor
  · intro h
    split at h
    next i j ha hb =>
      obtain rfl : i = j := by simpa using h
      exact ⟨i, ha, hb⟩
    · simp at h
  · rintro ⟨id, ha, hb⟩
    simp [ha, hb]

theorem Apart.mono (h : Extends p q) (hn : n ≤ p.events.length) (ha : Apart n q) : Apart n p := by
  intro a hpa b hpb
  by_contra hne
  obtain ⟨id, hfa, hfb⟩ := sameFile_eq_true.mp (by simpa using hne)
  have hq := ha a (opens_subset h hn hpa) b (writes_subset h hn hpb)
  rw [sameFile_eq_true.mpr ⟨id, h.files.find hfa, h.files.find hfb⟩] at hq
  simp at hq

theorem Contents.pending (h : Contents fs n p) (ha : Apart n p) {x : LineReader}
    (hx : Knows n p x) : x.pending p.files = x.pending fs := by
  refine LineReader.pending_congr fun id hid => ?_
  by_contra hne
  obtain ⟨b, hb, hfb⟩ := h.changed id hne
  have hsame := sameFile_eq_true.mpr ⟨id, hx.2 id hid, hfb⟩
  rw [ha x.path hx.1 b hb] at hsame
  simp at hsame

end Processor

end ScriptFeed
