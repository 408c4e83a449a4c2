import Mathlib.Algebra.Order.BigOperators.Group.List
import Mathlib.Algebra.Order.Group.Nat
import ScriptFeed.Proofs.Closing

namespace ScriptFeed.Processor

open Package Comment

variable {W : Permit} {p q : Processor} {line t : Text}

theorem encode_length (t : Text) : (Utf8.encode t).length ≤ 4 * t.length := by
  have hchar (c : Char) : (Utf8.encodeChar c).length ≤ 4 := by
    unfold Utf8.encodeChar
    dsimp only
    split
    · simp
    · split
      · simp
      · split <;> simp
  induction t with
  | nil => simp [Utf8.encode]
  | cons c t ih =>
    simp only [Utf8.encode, List.flatMap_cons, List.length_append, List.length_cons] at ih ⊢
    have := hchar c
    omega

theorem pending_growth {fs fs' : Files} {n : Nat}
    (h : ∀ j, (fs'.bytes j).length ≤ (fs.bytes j).length + n) (r : LineReader) :
    (r.pending fs').length ≤ (r.pending fs).length + n := by
  cases hs : r.stream with
  | memory => simp [LineReader.pending, LineReader.unfetched, hs]
  | directory => simp [LineReader.pending, LineReader.unfetched, hs]
  | file id position =>
    have := h id
    simp only [LineReader.pending, LineReader.unfetched, hs, List.length_append, List.length_drop]
    omega

theorem unread_growth {n : Nat} (hs : q.session = p.session)
    (h : ∀ j, (q.files.bytes j).length ≤ (p.files.bytes j).length + n) :
    q.unread ≤ p.unread + n := by
  cases hp : p.session with
  | none => simp [unread, hs, hp]
  | some s =>
    rw [unread_of_session hp, unread_of_session (hs.trans hp)]
    exact pending_growth h s.reader

theorem record_session (p : Processor) (e : Entry) : (p.record e).session = p.session := by
  unfold record
  split <;> rfl

theorem record_files_length (p : Processor) (e : Entry) (j : Nat) :
    ((p.record e).files.bytes j).length ≤
      (p.files.bytes j).length + (Utf8.encode e.text).length := by
  unfold record
  split
  · exact Record.write_length _ _ _ _
  · omega

theorem record_unread (p : Processor) (e : Entry) :
    (p.record e).unread ≤ p.unread + (Utf8.encode e.text).length :=
  unread_growth (record_session p e) (record_files_length p e)

def lead (p : Processor) : Nat :=
  (Utf8.encode (Entry.opened p.now).text).length + (Utf8.encode (Entry.closed false).text).length

theorem begin_session (p : Processor) (r : Record) (files : Files) :
    (p.begin r files).session = p.session := by
  unfold begin
  exact record_session _ _

theorem begin_unread {r : Record} {files : Files}
    (h : Record.start p.settings.log p.now p.files = .ok (r, files)) :
    (p.begin r files).unread ≤ p.unread + p.lead := by
  obtain ⟨-, -, -, -, hlen⟩ := Record.start_find h
  refine unread_growth (begin_session p r files) fun j => ?_
  have hrec := record_files_length (({ p with files }.emit (.recorded r.path (.opened p.now))).emit
    (.recordOpened r.path)) (.closed false) j
  have := hlen j
  unfold lead
  change (((({ p with files }.emit (.recorded r.path (.opened p.now))).emit
    (.recordOpened r.path)).record (.closed false)).files.bytes j).length ≤ _
  change _ ≤ (files.bytes j).length + _ at hrec
  omega

theorem assemble_changing (line : Text) :
    Changing W (assemble line) p (fun t q => q.isOpen = p.isOpen ∧ q.files = p.files ∧
      q.unread ≤ p.unread ∧ t.length ≤ line.length + 2 * p.unread) := by
  unfold assemble
  split
  · exact .pure ⟨rfl, rfl, le_rfl, by omega⟩
  · refine Stepping.get ?_
    cases hs : p.session with
    | none => exact .pure ⟨rfl, rfl, le_rfl, by omega⟩
    | some s =>
      refine Stepping.lift ?_
      rintro ⟨passage, reader⟩ hthrough
      have hreads := LineReader.through_reads hthrough
      have hsize := LineReader.through_size hthrough
      have hsession := session_setReader hs reader
      have hle : (reader.pending p.files).length ≤ (s.reader.pending p.files).length :=
        hreads.pending.length_le
      refine Stepping.modify (changes_setReader hs hreads) (.pure ⟨?_, rfl, ?_, ?_⟩)
      · rw [isOpen_of_session hsession, isOpen_of_session hs]
      · rw [unread_of_session hsession, unread_of_session hs]
        exact hle
      · have hstrip : ((passage.lines.flatMap fun t => ' ' :: stripLine t false)).length ≤
            (passage.lines.flatMap (' ' :: ·)).length := by
          rw [List.length_flatMap, List.length_flatMap]
          apply List.sum_le_sum
          intro t _
          simpa using (stripLine_begins t false).length_le
        rw [unread_of_session hs, List.length_append]
        omega

theorem info_text_length (t : Text) : (Entry.info t).text.length = t.length + 14 := by
  have htext : (Entry.info t).text = "Installinfo: ".toList ++ t ++ ['\n'] := rfl
  have hlead : "Installinfo: ".toList.length = 13 := by decide
  rw [htext, List.length_append, List.length_append, hlead, List.length_singleton]
  omega

theorem packagePath?_congr (hs : q.settings = p.settings) (hf : q.files = p.files) (name : Text) :
    q.packagePath? name = p.packagePath? name := by
  simp only [packagePath?, hs, hf]

theorem queue_frame (p : Processor) (path : Path) :
    (p.queue path).session = p.session ∧ (p.queue path).files = p.files ∧
      (p.queue path).settings = p.settings := by
  unfold queue
  dsimp only
  split <;> exact ⟨rfl, rfl, rfl⟩

theorem foldl_queue_changes {names : List Text} (hI : W.install) (hN : ∀ name ∈ names, W.queue name)
    (ho : q.isOpen = true) (hs : q.settings = p.settings) (hf : q.files = p.files) :
    Changes W q ((names.filterMap p.packagePath?).foldl queue q) ∧
      ((names.filterMap p.packagePath?).foldl queue q).session = q.session ∧
      ((names.filterMap p.packagePath?).foldl queue q).files = q.files := by
  induction names generalizing q with
  | nil => exact ⟨.refl, rfl, rfl⟩
  | cons name names ih =>
    have hN' : ∀ n ∈ names, W.queue n := fun n hn => hN n (List.mem_cons_of_mem _ hn)
    cases hp : p.packagePath? name with
    | none =>
      rw [List.filterMap_cons_none hp]
      exact ih hN' ho hs hf
    | some path =>
      obtain ⟨hqs, hqf, hqt⟩ := queue_frame q path
      have hqueue : Change W q (q.queue path) := .queue q name path ho hI
        (hN name List.mem_cons_self) ((packagePath?_congr hs hf name).trans hp)
      have hopen : (q.queue path).isOpen = true := by rw [isOpen, hqs]; exact ho
      obtain ⟨hm, hsess, hfiles⟩ := ih hN' hopen (hqt.trans hs) (hqf.trans hf)
      rw [List.filterMap_cons_some hp, List.foldl_cons]
      exact ⟨.head hqueue hm, hsess.trans hqs, hfiles.trans hqf⟩

def enlist (h : Header) (p : Processor) : Processor :=
  (h.packages.filterMap p.packagePath?).foldl queue { p with installation := some p.current }

theorem enlist_changes {h : Header} (ho : p.isOpen = true) (hI : W.install)
    (hN : ∀ name ∈ h.packages, W.queue name) :
    Changes W p (p.enlist h) ∧ (p.enlist h).session = p.session ∧ (p.enlist h).files = p.files := by
  let p₁ : Processor := { p with installation := some p.current }
  have hadjust : Change W p p₁ := .adjust p _ ho hI rfl rfl rfl rfl
  obtain ⟨hm, hs, hf⟩ := foldl_queue_changes (p := p) (q := p₁) hI hN ho rfl rfl
  exact ⟨.head hadjust hm, hs, hf⟩

def refuse (h : Header) (p : Processor) : Processor :=
  (p.say abortMessage).emit (.licenseDeclined h.name)

def weigh (line : Text) (h : Header) (tail : Text) (q : Processor) :
    EStateM.Result Failure Processor (Option Text) :=
  if h.required.any ((q.enlist h).settings.version < ·) then
    .error (.versionTooLow line (h.required.getD 0) (q.enlist h).settings.version) (q.enlist h)
  else match agree h (q.enlist h) with
    | .error e r => .error e r
    | .ok true r =>
      .ok (if Text.trim tail = [] then none else some (Text.trim tail)) (r.admitHeader h)
    | .ok false r => (close >>= fun _ => pure none) (r.refuse h)

theorem readHeader_run {header tail : Text} (ha : assemble line p = .ok t q)
    (hs : splitInfo? t = some (header, tail)) :
    readHeader line p = weigh line (Header.parse header) tail q := by
  let h := Header.parse header
  have hqueued : (modify fun p => (h.packages.filterMap p.packagePath?).foldl queue
      { p with installation := some p.current } : Action PUnit) q = .ok ⟨⟩ (q.enlist h) := rfl
  rw [readHeader, bind_ok ha, weigh]
  simp only [hs]
  rw [bind_ok hqueued, bind_ok (get_run _)]
  by_cases hv : h.required.any ((q.enlist h).settings.version < ·) = true
  · rw [if_pos hv, if_pos hv]
    rfl
  · rw [if_neg hv, if_neg hv]
    change (agree h >>= _) (q.enlist h) = _
    rw [bind_run]
    cases agree h (q.enlist h) with
    | error e r => rfl
    | ok ok r => cases ok <;> rfl

theorem agree_free {h : Header} (hl : h.license = none) (p : Processor) :
    agree h p = .ok true p := by
  simp only [agree, hl]
  rfl

theorem agree_asked {h : Header} {license : Text} (hl : h.license = some license) (p : Processor) :
    let question := licenseMessage h.name license
    agree h p = .ok (p.accepts (p.ask question).1) ((p.say question).ask question).2 := by
  intro question
  have hanswer : ((p.say question).ask question).2.accepts ((p.say question).ask question).1 =
      p.accepts (p.ask question).1 := by
    unfold ask
    cases hp : p.prompt <;> simp [say, hp, accepts]
  simp only [agree, hl, ← hanswer]
  rfl

theorem weigh_ends {h : Header} {tail : Text} {Q : Option Text → Processor → Prop}
    {E : Failure → Processor → Prop}
    (hold : h.required.any ((q.enlist h).settings.version < ·) = true →
      E (.versionTooLow line (h.required.getD 0) (q.enlist h).settings.version) (q.enlist h))
    (hfree : h.required.any ((q.enlist h).settings.version < ·) = false → h.license = none →
      Q (if Text.trim tail = [] then none else some (Text.trim tail)) ((q.enlist h).admitHeader h))
    (hasked : ∀ license, h.required.any ((q.enlist h).settings.version < ·) = false →
      h.license = some license →
      let question := licenseMessage h.name license
      let r := (((q.enlist h).say question).ask question).2
      ((q.enlist h).accepts ((q.enlist h).ask question).1 = true →
        Q (if Text.trim tail = [] then none else some (Text.trim tail)) (r.admitHeader h)) ∧
      ((q.enlist h).accepts ((q.enlist h).ask question).1 = false →
        Ends (close >>= fun _ => pure none) (r.refuse h) Q E)) :
    Ends (weigh line h tail) q Q E := by
  unfold Ends weigh
  cases hv : h.required.any ((q.enlist h).settings.version < ·) with
  | true => exact hold hv
  | false =>
    rw [if_neg Bool.false_ne_true]
    cases hl : h.license with
    | none =>
      rw [agree_free hl]
      exact hfree hv hl
    | some license =>
      obtain ⟨hyes, hno⟩ := hasked license hv hl
      rw [agree_asked hl]
      cases ha : (q.enlist h).accepts ((q.enlist h).ask (licenseMessage h.name license)).1 with
      | true => exact hyes ha
      | false => exact hno ha

theorem admitHeader_unread (p : Processor) (h : Header) :
    (p.admitHeader h).session = p.session ∧
      (p.admitHeader h).unread ≤ p.unread + (Utf8.encode (Entry.info h.text).text).length := by
  unfold admitHeader
  dsimp only
  by_cases ht : h.text = []
  · rw [if_pos ht]
    exact ⟨rfl, Nat.le_add_right _ _⟩
  · rw [if_neg ht]
    let p₁ : Processor := { p with installation := some (p.current.apply h) }
    let p₂ := if (p.current.apply h).quiet then p₁ else p₁.say startMessage
    obtain ⟨hs, hf⟩ : p₂.session = p.session ∧ p₂.files = p.files := by
      dsimp only [p₂]
      split <;> exact ⟨rfl, rfl⟩
    have hu : p₂.unread = p.unread := by simp [unread, hs, hf]
    exact ⟨(record_session p₂ _).trans hs, hu ▸ record_unread p₂ (.info h.text)⟩

theorem admitHeader_rest {r : Processor} {tail u : Text} (hs : r.session = q.session)
    (hf : r.files = q.files) (header : Text)
    (hu : (if Text.trim tail = [] then none else some (Text.trim tail)) = some u) :
    (r.admitHeader (Header.parse header)).isOpen = q.isOpen ∧ u.length ≤ tail.length ∧
      (r.admitHeader (Header.parse header)).unread ≤ q.unread + 4 * (header.length + 14) := by
  obtain ⟨hsession, hunread⟩ := admitHeader_unread r (Header.parse header)
  have hopen : (r.admitHeader (Header.parse header)).isOpen = q.isOpen := by
    rw [isOpen, hsession, hs, isOpen]
  have hrq : r.unread = q.unread := by simp [unread, hs, hf]
  have htext := header_text_length header
  have henc := encode_length (Entry.info (Header.parse header).text).text
  have hinfo := info_text_length (Header.parse header).text
  have hrest : u.length ≤ tail.length := by
    split at hu
    · cases hu
    · exact Option.some.inj hu ▸ Text.trim_length tail
  exact ⟨hopen, hrest, by omega⟩

theorem weigh_changing (ho : q.isOpen = true) (hI : W.install) (line header tail : Text)
    (hnames : ∀ name ∈ (Header.parse header).packages, W.queue name) :
    Changing W (weigh line (Header.parse header) tail) q (fun rest r => ∀ u, rest = some u →
      r.isOpen = true ∧ u.length ≤ tail.length ∧
        r.unread ≤ q.unread + 4 * (header.length + 14)) := by
  let h := Header.parse header
  obtain ⟨henlist, hsw, hfw⟩ := enlist_changes ho hI hnames
  have how : (q.enlist h).isOpen = true := by rw [isOpen, hsw]; exact ho
  have htaken (r : Processor) (hs : r.session = q.session) (hf : r.files = q.files) (u : Text)
      (hu : (if Text.trim tail = [] then none else some (Text.trim tail)) = some u) :
      (r.admitHeader h).isOpen = true ∧ u.length ≤ tail.length ∧
        (r.admitHeader h).unread ≤ q.unread + 4 * (header.length + 14) := by
    obtain ⟨hopen, hrest⟩ := admitHeader_rest hs hf header hu
    exact ⟨hopen.trans ho, hrest⟩
  apply weigh_ends
  · exact fun _ => henlist
  · exact fun _ _ => ⟨henlist.tail (.accept _ h how hI rfl), htaken _ hsw hfw⟩
  · intro license _ _
    have hasked := ask_moves (N := W.toAllowed)
      ((q.enlist h).say (licenseMessage h.name license)) (licenseMessage h.name license)
    refine ⟨fun hyes => ⟨?_, htaken _ (hasked.2.1.trans hsw) (hasked.2.2.trans hfw)⟩,
      fun hno => ?_⟩
    · refine (henlist.tail (.accord _ _ hI hyes)).tail (.accept _ h ?_ hI rfl)
      rw [isOpen, hasked.2.1]
      exact how
    · have hdeclined := henlist.tail (.decline _ _ h.name hI hno)
      rw [ends_bind]
      exact Ends.mono close_changing (fun _ _ h => ⟨hdeclined.trans h.1, by simp⟩)
        (fun _ _ h => hdeclined.trans h)

theorem readHeader_changing (ho : p.isOpen = true) (hI : W.install) (line : Text)
    (hN : ∀ name : Text, name.length ≤ line.length + 2 * p.unread → W.queue name) :
    Changing W (readHeader line) p (fun rest q => ∀ u, rest = some u → q.isOpen = true ∧
      u.length ≤ line.length + 2 * p.unread ∧
      q.unread ≤ p.unread + 4 * (line.length + 2 * p.unread + 14)) := by
  have hassemble := assemble_changing (W := W) (p := p) line
  rw [Changing, Stepping, Ends]
  cases ha : assemble line p with
  | error e q =>
    rw [readHeader, bind_error ha]
    exact Ends.error hassemble ha
  | ok t q =>
    obtain ⟨hpq, hoq, hfq, huq, ht⟩ := Ends.ok hassemble ha
    cases hsplit : splitInfo? t with
    | none =>
      rw [readHeader, bind_ok ha, hsplit]
      exact hpq
    | some x =>
      obtain ⟨header, tail⟩ := x
      have hlen := splitInfo?_length hsplit
      have hnames : ∀ name ∈ (Header.parse header).packages, W.queue name := fun name hname =>
        hN name ((packages_length header name hname).trans (by omega))
      rw [readHeader_run ha hsplit]
      refine Ends.mono (weigh_changing (hoq.trans ho) hI line header tail hnames) ?_
        (fun _ _ h => hpq.trans h)
      rintro rest r ⟨hqr, hr⟩
      refine ⟨hpq.trans hqr, fun u hu => ?_⟩
      obtain ⟨hor, hlu, hur⟩ := hr u hu
      exact ⟨hor, by omega, by omega⟩

end ScriptFeed.Processor
