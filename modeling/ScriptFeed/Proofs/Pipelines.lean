import ScriptFeed.Proofs.Passing
import ScriptFeed.Proofs.Scanning

namespace ScriptFeed

namespace Comment

variable {b : Bool} {t : Text}

def strip (inComment : Bool) (t : Text) : Text × Bool :=
  match if inComment then (resume t true).rest else some t with
  | none => ([], (resume t true).active)
  | some t => ((stripBlock (stripLine t false) false false).map Text.trim id)

def stripAll (inComment : Bool) : List Text → List Text × Bool
  | [] => ([], inComment)
  | t :: ts =>
    let (u, inComment) := strip inComment t
    let (us, inComment) := stripAll inComment ts
    (if u = [] then us else u :: us, inComment)

theorem strip_outside (t : Text) : strip false t =
    (Text.trim (stripBlock (stripLine t false) false false).1,
      (stripBlock (stripLine t false) false false).2) := rfl

theorem strip_nil (b : Bool) : strip b [] = ([], b) := by
  cases b <;> rfl

theorem resume_cases (t : Text) :
    (resume t true).rest = none ∧ strip true t = ([], (resume t true).active) ∨
    ∃ u, (resume t true).rest = some u ∧ (resume t true).active = false ∧ u ≠ [] ∧ u <:+: t ∧
      strip true t = strip false u := by
  cases hrest : (resume t true).rest with
  | none => exact .inl ⟨rfl, by simp [strip, hrest]⟩
  | some u =>
    refine .inr ⟨u, rfl, ?_⟩
    have hstrip : strip true t = strip false u := by simp [strip, hrest]
    unfold resume at hrest ⊢
    cases hcut : Text.cut blockClose t with
    | none => simp [hcut] at hrest
    | some x =>
      obtain ⟨body, v⟩ := x
      by_cases hv : v = []
      · simp [hcut, hv] at hrest
      · obtain rfl : v = u := by simpa [hcut, hv] using hrest
        refine ⟨rfl, hv, ?_, hstrip⟩
        exact ⟨body ++ blockClose, [], by rw [List.append_nil, ← Text.cut_eq_some hcut]⟩

end Comment

namespace LineReader

variable {fs : Files} {marked : Marked} {r r' : LineReader} {l : LogicalLine}

inductive YieldsAll (fs : Files) (marked : Marked) : LineReader → List Text → LineReader → Prop
  | done {r r' : LineReader} (h : r.nextLogical fs marked = .ok (none, r')) :
      YieldsAll fs marked r [] r'
  | line {l : LogicalLine} {r r₁ r' : LineReader} {ts : List Text}
      (h : r.nextLogical fs marked = .ok (some l, r₁)) (hs : YieldsAll fs marked r₁ ts r') :
      YieldsAll fs marked r (l.text :: ts) r'

def logicalWithin (fs : Files) (marked : Marked) : (fuel : Nat) → LineReader → List Text
  | 0, _ => []
  | fuel + 1, r =>
    match r.nextLogical fs marked with
    | .ok (some l, r) => l.text :: logicalWithin fs marked fuel r
    | _ => []

def logicalLines (fs : Files) (marked : Marked) (r : LineReader) : List Text :=
  logicalWithin fs marked ((r.pending fs).length + 1) r

theorem next_file {id : Nat} (h : r.file? = some id) (fs : Files) : ∃ x, r.next fs = .ok x := by
  have hfetch : ∃ r', r.fetch fs = .ok r' := by
    unfold file? at h
    unfold fetch
    cases hs : r.stream with
    | file id position => exact ⟨_, rfl⟩
    | memory => simp [hs] at h
    | directory => simp [hs] at h
  obtain ⟨r₁, hr₁⟩ : ∃ r', r.prepare fs = .ok r' := by
    unfold prepare
    split
    · exact ⟨r, rfl⟩
    · exact hfetch
  unfold next
  split
  · exact ⟨_, rfl⟩
  · rw [hr₁]
    dsimp only
    split <;> exact ⟨_, rfl⟩

theorem gatherWithin_file {σ : Type} {id : Nat} (more : σ → Bool) (add : σ → Text → σ) (fuel : Nat)
    (s : σ) (h : r.file? = some id) : ∃ x, gatherWithin fs more add fuel s r = .ok x := by
  induction fuel generalizing s r with
  | zero => exact ⟨_, rfl⟩
  | succ fuel ih =>
    unfold gatherWithin
    split
    · obtain ⟨⟨o, r₁⟩, hn⟩ := next_file h fs
      rw [hn]
      cases o with
      | none => exact ⟨_, rfl⟩
      | some t => exact ih _ ((next_reads hn).file.trans h)
    · exact ⟨_, rfl⟩

theorem nextLogical_file {id : Nat} (h : r.file? = some id) (fs : Files) (marked : Marked) :
    ∃ x, r.nextLogical fs marked = .ok x := by
  obtain ⟨⟨o, r₁⟩, hn⟩ := next_file h fs
  unfold nextLogical
  rw [hn]
  cases o with
  | none => exact ⟨_, rfl⟩
  | some t =>
    obtain ⟨x, hx⟩ := gatherWithin_file continues continued ((r₁.pending fs).length + 1) t
      ((next_reads hn).file.trans h)
    have hgather : r₁.gather fs continues continued t = .ok x := hx
    dsimp only
    rw [hgather]
    exact ⟨_, rfl⟩

theorem yieldsAll_within {id : Nat} (h : r.file? = some id) (fs : Files) (marked : Marked) {n : Nat}
    (hn : (r.pending fs).length < n) :
    ∃ r', YieldsAll fs marked r (logicalWithin fs marked n r) r' := by
  induction n generalizing r with
  | zero => omega
  | succ n ih =>
    obtain ⟨⟨o, r₁⟩, hr⟩ := nextLogical_file h fs marked
    rw [logicalWithin, hr]
    cases o with
    | none => exact ⟨r₁, .done hr⟩
    | some l =>
      -- each line takes a byte at least, so that `n` lines are enough
      obtain ⟨hreads, hlt, -⟩ := nextLogical_some hr
      obtain ⟨r', hs⟩ := ih (hreads.file.trans h) (by omega)
      exact ⟨r', .line hr hs⟩

end LineReader

namespace Inclusion

open Package Comment

variable {fs : Files} {marked : Marked} {i j k : Inclusion} {r : LineReader} {t : Text} {b : Bool}

theorem Exhausts.of_next_eq {ts : List Text} (h : Exhausts fs marked j ts k)
    (he : i.next fs marked = j.next fs marked) : Exhausts fs marked i ts k := by
  cases h with
  | done hn => exact .done (he.trans hn)
  | line hn hs => exact .line (he.trans hn) hs

theorem nextWithin_eq {m n : Nat} (hm : (i.reader.pending fs).length < m)
    (hn : (i.reader.pending fs).length < n) :
    nextWithin fs marked m i = nextWithin fs marked n i := by
  induction m generalizing i n with
  | zero => omega
  | succ m ih =>
    obtain ⟨n, rfl⟩ : ∃ k, n = k + 1 := ⟨n - 1, by omega⟩
    unfold nextWithin
    split
    · rfl
    · rfl
    next l r hl =>
      obtain ⟨-, hlt, -⟩ := LineReader.nextLogical_some hl
      split
      · exact ih (by dsimp only; omega) (by dsimp only; omega)
      · rfl
      · split
        · rfl
        next r' hr =>
          have hle := (LineReader.through_reads hr).pending.length_le
          exact ih (by dsimp only; omega) (by dsimp only; omega)

theorem next_nothing {l : LogicalLine} (h : i.reader.nextLogical fs marked = .ok (some l, r))
    (hc : classify i.scope i.inComment l.text = (.nothing, b)) :
    i.next fs marked = ({ i with reader := r, inComment := b } : Inclusion).next fs marked := by
  obtain ⟨-, hlt, -⟩ := LineReader.nextLogical_some h
  rw [next, nextWithin, h]
  dsimp only
  rw [hc]
  exact nextWithin_eq hlt (Nat.lt_succ_self _)

theorem next_line {l : LogicalLine} (h : i.reader.nextLogical fs marked = .ok (some l, r))
    (hc : classify i.scope i.inComment l.text = (.line t, b)) :
    i.next fs marked = .ok (some t, { i with reader := r, inComment := b }) := by
  rw [next, nextWithin, h]
  dsimp only
  rw [hc]

theorem classify_strip (scope : Scope) (b : Bool) (h : Text.contains installOpen t = false) :
    classify scope b t =
      (if scope.accepts (Keyword.leading (strip b t).1) then .line (strip b t).1 else .nothing,
        (strip b t).2) := by
  have hoff : scope.accepts (Keyword.leading []) = false := accepts_nil scope
  have houtside {u : Text} (hu : u <:+: t) :
      (if isSection installOpen u then (.section, false) else accepted scope u) =
        (if scope.accepts (Keyword.leading (strip false u).1) then .line (strip false u).1
          else .nothing, (strip false u).2) := by
    have hcontains : Text.contains installOpen u = false :=
      Text.contains_eq_false.mpr fun hi => Text.contains_eq_false.mp h (hi.trans hu)
    have hstarts : Text.startsWith installOpen u = false :=
      Text.startsWith_eq_false.mpr fun hp => Text.contains_eq_false.mp hcontains hp.isInfix
    have hsection : isSection installOpen u = false := by
      rw [isSection, hstarts, hcontains, Bool.and_false, Bool.or_false]
    rw [hsection, if_neg Bool.false_ne_true, accepted_eq, strip_outside]
    rfl
  by_cases ht : t = []
  · subst ht
    rw [classify, if_pos rfl, strip_nil, hoff]
    rfl
  · rw [classify, if_neg ht]
    cases b with
    | false => exact houtside List.infix_rfl
    | true =>
      rcases resume_cases t with ⟨hrest, hstrip⟩ | ⟨u, hrest, hactive, -, hu, hstrip⟩
      · simp only [if_true, hrest, hstrip, hoff]
        rfl
      · simp only [if_true, hrest, hactive, hstrip]
        exact houtside hu

theorem exhausts_stripAll {r' : LineReader} {ts : List Text} (h : r.YieldsAll fs marked ts r')
    (ht : ∀ t ∈ ts, Text.contains installOpen t = false) (scope : Scope) (b : Bool) :
    Exhausts fs marked ⟨r, scope, b⟩
      ((stripAll b ts).1.filter fun t => scope.accepts (Keyword.leading t))
      ⟨r', scope, (stripAll b ts).2⟩ := by
  induction h generalizing b with
  | done hn =>
    apply Exhausts.done
    rw [next, nextWithin, hn]
    rfl
  | @line l r r₁ r' ts hn hs ih =>
    have hrest := ih (fun t hmem => ht t (List.mem_cons_of_mem _ hmem)) (strip b l.text).2
    have hclass := classify_strip scope b (ht l.text List.mem_cons_self)
    rw [stripAll]
    dsimp only
    by_cases ha : scope.accepts (Keyword.leading (strip b l.text).1) = true
    · have hne : (strip b l.text).1 ≠ [] := by
        intro he
        rw [he] at ha
        exact absurd (ha.symm.trans (accepts_nil scope)) (by simp)
      rw [if_neg hne, List.filter_cons, if_pos ha]
      rw [if_pos ha] at hclass
      exact .line (next_line hn hclass) hrest
    · rw [if_neg ha] at hclass
      refine Exhausts.of_next_eq ?_ (next_nothing hn hclass)
      split
      · exact hrest
      · rw [List.filter_cons, if_neg ha]
        exact hrest

end Inclusion

namespace Processor

open Package Comment

variable {p q : Processor} {r r' : LineReader} {t : Text} {b : Bool} {notes : Notes}

inductive Scans : Notes → Processor → List Text → Processor → Prop
  | stop {notes : Notes} {p q : Processor} (h : readLine notes p = .ok .stop q) : Scans notes p [] q
  | nothing {notes n : Notes} {p q r : Processor} {ts : List Text}
      (h : readLine notes p = .ok (.nothing n) q) (hs : Scans n q ts r) : Scans notes p ts r
  | line {notes : Notes} {p q r : Processor} {t : Text} {ts : List Text}
      (h : readLine notes p = .ok (.line t) q) (hs : Scans {} q ts r) : Scans notes p (t :: ts) r

def Reading.ofText (t : Text) : Reading := if t = [] then .nothing {} else .line t

theorem keepsDocs_off (hmode : p.installMode = false) : p.keepsDocs = false := by
  rw [keepsDocs, hmode, Bool.false_and]

theorem noted_off (hmode : p.installMode = false) (mark t : Text) (notes : Notes) :
    p.noted mark t notes = {} := by
  rw [noted, hmode, Bool.false_and]
  rfl

theorem dropLineComment_off (hmode : p.installMode = false) (ht : t ≠ []) :
    p.dropLineComment t {} =
      (if stripLine t false = [] then none else some (stripLine t false), {}) := by
  unfold dropLineComment
  by_cases h : Text.contains lineMark t = true
  · rw [if_pos h, noted_off hmode, keepsDocs_off hmode]
    cases stripLine t false with
    | nil => rfl
    | cons c u => rfl
  · rw [if_neg h, stripLine_unmarked (by simpa using h), if_neg ht]

theorem dropBlockComments_off (hmode : p.installMode = false) (hs : p.session = some ⟨r, b⟩)
    (t : Text) :
    p.dropBlockComments t {} = ((stripBlock t false b).1, {},
      { p with session := some ⟨r, (stripBlock t false b).2⟩ }) := by
  unfold dropBlockComments
  by_cases h : Text.contains blockOpen t = true
  · rw [if_pos h, noted_off hmode, keepsDocs_off hmode, hs]
  · rw [if_neg h, stripBlock_unmarked (by simpa using h), ← hs]

theorem finishLine_ofText (t : Text) : finishLine t {} = .ofText (Text.trim t) := by
  by_cases ht : Text.trim t = []
  · rw [finishLine, ht]
    rfl
  · rw [finishLine_eq ht, Reading.ofText, if_neg ht, Notes.attachTo, List.append_nil, ite_self]

theorem readText_outside (hmode : p.installMode = false) (hs : p.session = some ⟨r, false⟩)
    (ht : t ≠ []) (hd : p.isDirective (stripLine t false) = false) :
    readText t {} p = .ok (.ofText (strip false t).1)
      { p with session := some ⟨r, (strip false t).2⟩ } := by
  have hc : p.session.any (·.inComment) = false := by rw [hs]; rfl
  have hdrop := dropLineComment_off hmode ht
  rw [strip_outside]
  by_cases hu : stripLine t false = []
  · rw [if_pos hu] at hdrop
    have henter : enterLine t {} p = .ok (.used (.nothing {})) p := by
      unfold enterLine
      rw [bind_ok (leaveComment_outside hc)]
      dsimp only
      rw [bind_ok (get_run p), hdrop]
      rfl
    rw [readText, bind_ok henter, hu]
    dsimp only
    rw [pure_run]
    congr 1
    change p = { p with session := some ⟨r, false⟩ }
    rw [← hs]
  · rw [if_neg hu] at hdrop
    have hclose : Text.startsWith installClose (stripLine t false) = false := by
      simp only [isDirective, Bool.or_eq_false_iff] at hd
      exact hd.1.1.2
    rw [readText_text (enterLine_command hc hdrop hd), leaveLine, leaveSection_else hclose]
    dsimp only
    rw [dropBlockComments_off hmode hs, finishLine_ofText]

theorem readText_inside (hs : p.session = some ⟨r, true⟩) :
    readText t {} p = match (resume t true).rest with
      | none => .ok (.nothing {}) { p with session := some ⟨r, (resume t true).active⟩ }
      | some u => readText u {} { p with session := some ⟨r, (resume t true).active⟩ } := by
  have hleave : leaveComment t {} p = .ok ((resume t true).rest, {})
      { p with session := some ⟨r, (resume t true).active⟩ } := by
    unfold leaveComment
    rw [bind_ok (get_run p), hs]
    rfl
  cases hrest : (resume t true).rest with
  | none =>
    rw [hrest] at hleave
    rw [readText, enterLine, bind_assoc, bind_ok hleave]
    rfl
  | some u =>
    have hactive : (resume t true).active = false := by
      rcases resume_cases t with ⟨hnone, -⟩ | ⟨v, -, hactive, -⟩
      · rw [hrest] at hnone
        exact absurd hnone (by simp)
      · exact hactive
    have houtside : leaveComment u {} { p with session := some ⟨r, (resume t true).active⟩ } =
        .ok (some u, {}) { p with session := some ⟨r, (resume t true).active⟩ } := by
      apply leaveComment_outside
      rw [hactive]
      rfl
    rw [hrest] at hleave
    unfold readText enterLine
    simp only [bind_run, hleave, houtside]

theorem isDirective_free (hmode : p.installMode = false) {u : Text} (hu : u <:+: t)
    (hopen : Text.contains installOpen t = false) (hclose : Text.contains installClose t = false)
    (hlayout : Text.contains "layout ".toList t = false) :
    p.isDirective (stripLine u false) = false := by
  have hstarts {pat : Text} (h : Text.contains pat t = false) :
      Text.startsWith pat (stripLine u false) = false :=
    Text.startsWith_eq_false.mpr fun hp => Text.contains_eq_false.mp h
      ((hp.trans (stripLine_begins u false)).isInfix.trans hu)
  rw [isDirective, hstarts hopen, hstarts hclose, hstarts hlayout, hmode]
  rfl

theorem readText_strip (hmode : p.installMode = false) (hs : p.session = some ⟨r, b⟩) (ht : t ≠ [])
    (hopen : Text.contains installOpen t = false) (hclose : Text.contains installClose t = false)
    (hlayout : Text.contains "layout ".toList t = false) :
    readText t {} p =
      .ok (.ofText (strip b t).1) { p with session := some ⟨r, (strip b t).2⟩ } := by
  cases b with
  | false =>
    exact readText_outside hmode hs ht (isDirective_free hmode List.infix_rfl hopen hclose hlayout)
  | true =>
    rw [readText_inside hs]
    rcases resume_cases t with ⟨hrest, hstrip⟩ | ⟨u, hrest, hactive, hne, hu, hstrip⟩
    · rw [hrest, hstrip]
      rfl
    · rw [hrest, hactive, hstrip]
      exact readText_outside (p := { p with session := some ⟨r, false⟩ }) hmode rfl hne
        (isDirective_free hmode hu hopen hclose hlayout)

theorem readLine_strip {l : LogicalLine} (hmode : p.installMode = false)
    (hs : p.session = some ⟨r, b⟩) (hn : r.nextLogical p.files p.marked = .ok (some l, r'))
    (hopen : Text.contains installOpen l.text = false)
    (hclose : Text.contains installClose l.text = false)
    (hlayout : Text.contains "layout ".toList l.text = false) :
    readLine {} p = .ok (.ofText (strip b l.text).1)
      { p with session := some ⟨r', (strip b l.text).2⟩ } := by
  have hset : p.setReader r' = { p with session := some ⟨r', b⟩ } := by
    rw [setReader, hs]
    rfl
  rw [readLine_run hs, hn]
  dsimp only
  rw [hset]
  by_cases hnil : l.text = []
  · rw [if_pos hnil, hnil, strip_nil]
    rfl
  · rw [if_neg hnil]
    exact readText_strip (p := { p with session := some ⟨r', b⟩ }) hmode rfl hnil hopen hclose
      hlayout

theorem scans_stripAll {ts : List Text} (h : r.YieldsAll p.files p.marked ts r')
    (hmode : p.installMode = false)
    (ht : ∀ t ∈ ts, Text.contains installOpen t = false ∧ Text.contains installClose t = false ∧
      Text.contains "layout ".toList t = false) (b : Bool) :
    Scans {} { p with session := some ⟨r, b⟩ } (stripAll b ts).1
      { p with session := some ⟨r', (stripAll b ts).2⟩ } := by
  induction h generalizing b with
  | @done r r' hn =>
    apply Scans.stop
    rw [readLine_run (p := { p with session := some ⟨r, b⟩ }) rfl, hn]
    rfl
  | @line l r r₁ r' ts hn hs ih =>
    obtain ⟨hopen, hclose, hlayout⟩ := ht l.text List.mem_cons_self
    have hrest := ih (fun t hmem => ht t (List.mem_cons_of_mem _ hmem)) (strip b l.text).2
    have hread := readLine_strip (p := { p with session := some ⟨r, b⟩ }) hmode rfl hn hopen hclose
      hlayout
    rw [Reading.ofText] at hread
    rw [stripAll]
    dsimp only
    by_cases hnil : (strip b l.text).1 = []
    · rw [if_pos hnil] at hread ⊢
      exact .nothing hread hrest
    · rw [if_neg hnil] at hread ⊢
      exact .line hread hrest

/-- A script and an included file drop the same comments. Outside install mode, from any place in a
file that holds no section marker and no layout directive from there on, the lines that pass are
those lines of the script that the scope accepts, and a block comment is open at the end of the one
when it is at the end of the other. -/
theorem pipelines_agree (p : Processor) (r : LineReader) (id : Nat) (b : Bool) (scope : Scope)
    (hs : p.session = some ⟨r, b⟩) (hmode : p.installMode = false) (hfile : r.file? = some id)
    (hlines : ∀ t ∈ r.logicalLines p.files p.marked, Text.contains installOpen t = false ∧
      Text.contains installClose t = false ∧ Text.contains "layout ".toList t = false) :
    ∃ lines r' b', Scans {} p lines { p with session := some ⟨r', b'⟩ } ∧
      Inclusion.Exhausts p.files p.marked ⟨r, scope, b⟩
        (lines.filter fun t => scope.accepts (Keyword.leading t)) ⟨r', scope, b'⟩ ∧
      (lines, b') = stripAll b (r.logicalLines p.files p.marked) := by
  obtain ⟨r', hyields⟩ : ∃ r', r.YieldsAll p.files p.marked (r.logicalLines p.files p.marked) r' :=
    LineReader.yieldsAll_within hfile p.files p.marked (Nat.lt_succ_self _)
  have hscans := scans_stripAll hyields hmode hlines b
  have hsame : { p with session := some ⟨r, b⟩ } = p := by rw [← hs]
  rw [hsame] at hscans
  exact ⟨_, r', _, hscans,
    Inclusion.exhausts_stripAll hyields (fun t ht => (hlines t ht).1) scope b, rfl⟩

def commented : Processor := openedMain false
  [("main.nscr",
    "define a #* b\nglobal c ## d\n*# define e #* f\n*#*# \"#* ## \" g ## h\ndefine \"##\" #*#\n")]

theorem pipelines_agree_commented : ∃ r r' : LineReader,
    commented.session = some ⟨r, false⟩ ∧
    Scans {} commented ["define a".toList, "define e".toList, "*# \"#* ## \" g".toList,
      "define \"##\"".toList] { commented with session := some ⟨r', true⟩ } ∧
    Inclusion.Exhausts commented.files commented.marked ⟨r, .defines, false⟩
      ["define a".toList, "define e".toList, "define \"##\"".toList] ⟨r', .defines, true⟩ := by
  let r : LineReader := { path := ⟨"s/main.nscr".toList⟩, stream := .file 0 0 }
  have hs : commented.session = some ⟨r, false⟩ := by decide +kernel
  obtain ⟨lines, r', b', hscans, hexhausts, hstrip⟩ :=
    pipelines_agree commented r 0 false .defines hs
    (by decide +kernel) rfl (by decide +kernel)
  have hlines : stripAll false (r.logicalLines commented.files commented.marked) =
      (["define a".toList, "define e".toList, "*# \"#* ## \" g".toList, "define \"##\"".toList],
        true) := by decide +kernel
  obtain ⟨rfl, rfl⟩ := Prod.mk.inj (hstrip.trans hlines)
  exact ⟨r, r', hs, hscans, hexhausts⟩

theorem isDirective_comment {a : Text} (hmode : p.installMode = false) (hangle : a.head? ≠ some '<')
    (hlayout : ¬"layout ".toList <+: a) (t : Text) :
    p.isDirective (a ++ blockOpen ++ t) = false := by
  have hstarts : Text.startsWith "layout ".toList (a ++ blockOpen ++ t) = false := by
    apply Text.startsWith_eq_false.mpr
    intro hp
    have ha : a <+: a ++ blockOpen ++ t := by
      rw [List.append_assoc]
      exact List.prefix_append a _
    -- a directive that ended in the comment would hold its first character
    rcases List.prefix_or_prefix_of_prefix hp ha with h | ⟨u, hu⟩
    · exact hlayout h
    · rw [← hu, List.append_assoc, List.prefix_append_right_inj] at hp
      cases u with
      | nil => exact hlayout ⟨[], by rw [← hu, List.append_nil, List.append_nil]⟩
      | cons c u =>
        obtain ⟨rfl, -⟩ := List.cons_prefix_cons.mp hp
        have hmem : '#' ∈ "layout ".toList := by
          rw [← hu]
          exact List.mem_append_right a List.mem_cons_self
        exact absurd hmem (by decide)
  cases a with
  | nil => exact isDirective_off hmode (by decide) hstarts
  | cons c a => exact isDirective_off hmode (fun hc => hangle (by rw [← hc]; rfl)) hstarts

/-- Outside install mode, a block comment that ends on its own line leaves the text around it, if
every line mark in it is quoted. If one is not, the line comment hides the end of the block comment,
which goes on in the lines that follow. -/
theorem closed_comment_read (p : Processor) (r r' : LineReader) (n : Nat) (a body b : Text)
    (hs : p.session = some ⟨r, false⟩) (hmode : p.installMode = false)
    (hline : r.nextLogical p.files p.marked =
      .ok (some ⟨a ++ blockOpen ++ body ++ blockClose ++ b, n⟩, r'))
    (ha : ∀ c ∈ a, '#' ≠ c ∧ c ≠ '"') (hb : '#' ∉ b) (hbody : ¬blockClose <:+: body)
    (hangle : a.head? ≠ some '<') (hlayout : ¬"layout ".toList <+: a) :
    ((∀ u v, body = u ++ lineMark ++ v → quotes u % 2 = 1) →
      readLine {} p = .ok (.ofText (Text.trim (a ++ b))) { p with session := some ⟨r', false⟩ }) ∧
    ∀ u v, body = u ++ lineMark ++ v → quotes u % 2 = 0 →
      readLine {} p = .ok (.ofText (Text.trim a)) { p with session := some ⟨r', true⟩ } := by
  let line := a ++ blockOpen ++ body ++ blockClose ++ b
  have hread {w rest : Text} {open' : Bool} (hstrip : stripLine line false = a ++ blockOpen ++ w)
      (hblock : stripBlock (a ++ blockOpen ++ w) false false = (rest, open')) :
      readLine {} p = .ok (.ofText (Text.trim rest)) { p with session := some ⟨r', open'⟩ } := by
    have hne : line ≠ [] := by simp [line, blockOpen]
    have hset : p.setReader r' = { p with session := some ⟨r', false⟩ } := by
      rw [setReader, hs]
      rfl
    have hd :=
      isDirective_comment (p := { p with session := some ⟨r', false⟩ }) hmode hangle hlayout w
    rw [← hstrip] at hd
    rw [readLine_run hs, hline]
    dsimp only
    rw [hset, if_neg hne,
      readText_outside (p := { p with session := some ⟨r', false⟩ }) hmode rfl hne hd,
      strip_outside, hstrip, hblock]
  constructor
  · intro hq
    have hwhole := stripLine_comment_whole ha hb hq
    have hassoc : line = a ++ blockOpen ++ (body ++ blockClose ++ b) := by
      simp only [line, List.append_assoc]
    apply hread (hwhole.trans hassoc)
    rw [← hassoc]
    exact stripBlock_closed ha hb hbody
  · intro u v hsplit hq
    obtain ⟨w, hw, hcut⟩ := stripLine_comment_cut (b := b) ha hsplit hq
    exact hread hcut (stripBlock_unclosed ha fun h => hbody (h.trans hw.isInfix))

def closing (body : String) : Processor :=
  openedMain false [("main.nscr", "a#*" ++ body ++ "*#b\nc\n")]

def secondLine (body : String) : LineReader where
  path := ⟨"s/main.nscr".toList⟩
  stream := .file 0 (body.length + 9)
  buffer := Utf8.encode "c\n".toList
  line := 1

theorem closed_comment_read_closing :
    readLine {} (closing " \"##\" ") = .ok (.line ['a', 'b'])
      { closing " \"##\" " with session := some ⟨secondLine " \"##\" ", false⟩ } ∧
    readLine {} (closing " ## ") = .ok (.line ['a'])
      { closing " ## " with session := some ⟨secondLine " ## ", true⟩ } := by
  let r : LineReader := { path := ⟨"s/main.nscr".toList⟩, stream := .file 0 0 }
  have ha : ∀ c ∈ ['a'], '#' ≠ c ∧ c ≠ '"' := List.forall_mem_singleton.mpr ⟨by decide, by decide⟩
  have hfree {body : Text} (h : Text.contains blockClose body = false) : ¬blockClose <:+: body :=
    Text.contains_eq_false.mp h
  constructor
  · have hscan : beforeLineMark false lineStart false " \"##\" ".toList =
        some " \"##\" ".toList := by
      decide +kernel
    exact (closed_comment_read (closing " \"##\" ") r (secondLine " \"##\" ") 1 ['a']
      " \"##\" ".toList ['b'] (by decide +kernel) (by decide +kernel) (by decide +kernel) ha
      (by decide)
      (hfree (by decide +kernel)) (by decide) (by decide +kernel)).1
      ((beforeLineMark_eq_self (by decide)).mp hscan)
  · exact (closed_comment_read (closing " ## ") r (secondLine " ## ") 1 ['a'] " ## ".toList ['b']
      (by decide +kernel) (by decide +kernel) (by decide +kernel) ha (by decide)
      (hfree (by decide +kernel)) (by decide) (by decide +kernel)).2 [' '] [' '] (by decide +kernel)
      (by decide +kernel)

theorem closed_comment_swallows : Comes (closing " ## ") ["a".toList] [] (closing " ## ").files :=
  comes_of_drainWithin 9 (by decide +kernel)

end Processor

end ScriptFeed
