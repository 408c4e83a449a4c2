import ScriptFeed.Proofs.CommentRows
import ScriptFeed.Proofs.Drained
import ScriptFeed.Proofs.LinesAhead
import ScriptFeed.Proofs.Refusals

namespace ScriptFeed

namespace Text

variable {x : Char} {ps a b t : Text}

theorem infix_around_first (hx : x ∉ ps) (h : (x :: ps) <:+: a ++ x :: b) :
    (x :: ps) <:+: a ∨ (x :: ps) <:+: x :: b := by
  induction a with
  | nil => exact .inr h
  | cons c a ih =>
    rcases List.infix_cons_iff.mp h with hp | ha
    · obtain ⟨rfl, hps⟩ := List.cons_prefix_cons.mp hp
      have hstart : startsWith ps a = true := by
        rw [← startsWith_around hx a b, startsWith_iff]
        obtain ⟨u, hu⟩ := hps
        exact ⟨u, hu.symm⟩
      obtain ⟨u, rfl⟩ := startsWith_iff.mp hstart
      exact .inl ⟨[], u, rfl⟩
    · exact (ih ha).imp_left List.infix_cons

theorem infix_behind {s : Text} (hs : x ∉ s) (h : (x :: ps) <:+: s ++ t) : (x :: ps) <:+: t := by
  induction s with
  | nil => exact h
  | cons c s ih =>
    obtain ⟨hc, hs⟩ : x ≠ c ∧ x ∉ s := by simpa using hs
    rcases List.infix_cons_iff.mp h with hp | ht
    · exact absurd (List.cons_prefix_cons.mp hp).1 hc
    · exact ih hs ht

end Text

namespace Package

open Comment

structure Source where
  -- what stands in front of it on its first line
  lead : Text
  first : Row
  more : List Row
  -- what follows on its last line, up to a line comment
  tail : Text

namespace Source

variable {s s' : Source}

def rows (s : Source) : Row × List Row :=
  Row.closedBy (infoClose ++ s.tail) (s.first.precede (s.lead ++ infoOpen)) s.more

def raw (s : Source) : Text := s.rows.1.text false

def line (s : Source) : Text := s.rows.1.body false

def lines (s : Source) : List Text := Row.texts (s.rows.1.ends false) s.rows.2

def code (s : Source) : Text := Row.codes false s.first s.more

def unclosing (inside : Bool) (r : Row) : Bool :=
  everyPiece (fun _ x => !Text.contains infoClose x) inside r.first r.rest

/-- A header is closed by the first end mark outside line comments, which is outside block
comments. -/
structure Fit (s : Source) : Prop where
  lead_open : Text.contains infoOpen s.lead = false
  lead_close : Text.contains infoClose s.lead = false
  clean : Row.everyRow Row.clean false s.rows.1 s.rows.2 = true
  contained : Row.everyRow Row.contained false s.first s.more = true
  unclosing : Row.everyRow unclosing false s.first s.more = true
  outside : Row.endsAfter false s.first s.more = false
  uncovered : Text.contains blockOpen s.code = false

structure Blanked (s s' : Source) : Prop where
  lead : s'.lead = s.lead
  tail : s'.tail = s.tail
  rows : Row.AllBlanked false s.first s.more s'.first s'.more

theorem Blanked.code (h : s.Blanked s') : s'.code = s.code := h.rows.codes

theorem Fit.blanked (h : s.Fit) (hb : s.Blanked s') : s'.Fit where
  lead_open := by rw [hb.lead]; exact h.lead_open
  lead_close := by rw [hb.lead]; exact h.lead_close
  clean := by
    rw [rows, hb.lead, hb.tail]
    have hout : Row.endsAfter false (s.first.precede (s.lead ++ infoOpen)) s.more = false := by
      rw [Row.endsAfter_precede]
      exact h.outside
    exact ((hb.rows.precede _).closedBy hout _).everyRow (fun _ _ _ hr => hr.clean) h.clean
  contained := by
    apply hb.rows.everyRow _ h.contained
    intro inside r r' hr hc
    apply hr.pieces.everyPiece _ hc
    intro x hx
    simpa using blanks_free (by decide) (by decide : '*' ∈ blockClose) hx
  unclosing := by
    apply hb.rows.everyRow _ h.unclosing
    intro inside r r' hr hc
    apply hr.pieces.everyPiece _ hc
    intro x hx
    simpa using blanks_free (by decide) (by decide : '<' ∈ infoClose) hx
  outside := hb.rows.endsAfter.trans h.outside
  uncovered := by rw [hb.code]; exact h.uncovered

theorem cut_infoOpen {a : Text} (h : ¬infoOpen <:+: a) (t : Text) :
    Text.cut infoOpen (a ++ (infoOpen ++ t)) = some (a, t) := by
  have hopen : infoOpen = '<' :: "info>".toList := by decide
  rw [hopen] at h ⊢
  exact Text.cut_first (by decide) h t

theorem cut_infoClose {a : Text} (h : ¬infoClose <:+: a) (t : Text) :
    Text.cut infoClose (a ++ (infoClose ++ t)) = some (a, t) := by
  have hclose : infoClose = '<' :: "endinfo>".toList := by decide
  rw [hclose] at h ⊢
  exact Text.cut_first (by decide) h t

theorem not_close_laid {inside : Bool} {x : Text} {ys : List Text}
    (h : everyPiece (fun _ x => !Text.contains infoClose x) inside x ys = true) :
    ¬infoClose <:+: laid inside x ys := by
  induction ys generalizing inside x with
  | nil =>
    have hx : Text.contains infoClose x = false := by simpa [everyPiece] using h
    exact Text.contains_eq_false.mp hx
  | cons y ys ih =>
    obtain ⟨hx, hys⟩ := Bool.and_eq_true_iff.mp h
    have hfree : ¬infoClose <:+: x := Text.contains_eq_false.mp (by simpa using hx)
    have hmark : ∃ c d, blockMark inside = [c, d] ∧ c ∉ infoClose ∧ d ∉ infoClose := by
      cases inside
      · exact ⟨'#', '*', rfl, by decide, by decide⟩
      · exact ⟨'*', '#', rfl, by decide, by decide⟩
    obtain ⟨c, d, hcd, hc, hd⟩ := hmark
    rw [laid, hcd, List.cons_append, Text.infix_around hc, List.singleton_append,
      ← List.nil_append (d :: _), Text.infix_around hd]
    rintro (hin | hin | hin)
    · exact hfree hin
    · exact absurd hin (by decide)
    · exact ih hys hin

theorem not_close_joined {inside : Bool} {r : Row} {rs : List Row}
    (h : Row.everyRow unclosing inside r rs = true) : ¬infoClose <:+: Row.joined inside r rs := by
  induction rs generalizing inside r with
  | nil => exact not_close_laid h
  | cons s rs ih =>
    obtain ⟨hr, hrs⟩ := Bool.and_eq_true_iff.mp h
    rw [Row.joined, Text.infix_around (by decide)]
    exact not_or.mpr ⟨not_close_laid hr, ih hrs⟩

theorem not_close_lead {lead t : Text} (hlead : ¬infoClose <:+: lead) (ht : ¬infoClose <:+: t) :
    ¬infoClose <:+: lead ++ infoOpen ++ t := by
  have hclose : infoClose = '<' :: 'e' :: "ndinfo>".toList := by decide
  have hopen : infoOpen = '<' :: "info>".toList := by decide
  rw [hclose] at hlead ht ⊢
  rw [hopen, List.append_assoc, List.cons_append]
  intro h
  rcases Text.infix_around_first (by decide) h with hin | hin
  · exact hlead hin
  · rcases List.infix_cons_iff.mp hin with hp | hrest
    · exact absurd (List.cons_prefix_cons.mp (List.cons_prefix_cons.mp hp).2).1 (by decide)
    · exact ht (Text.infix_behind (by decide) hrest)

theorem splitInfo?_source (h : s.Fit) :
    splitInfo? (s.lead ++ infoOpen ++ (Row.joined false s.first s.more ++ (infoClose ++ s.tail))) =
      some (Row.joined false s.first s.more, s.tail) := by
  rw [splitInfo?, List.append_assoc, cut_infoOpen (Text.contains_eq_false.mp h.lead_open)]
  dsimp only
  rw [cut_infoClose (not_close_joined h.unclosing)]

theorem parse_source (h : s.Fit) : Header.parse (Row.joined false s.first s.more) =
    Header.ofText (Text.trim s.code) := by
  have hcode : ¬blockOpen <:+: List.reverse [] ++ Row.codes false s.first s.more :=
    Text.contains_eq_false.mp h.uncovered
  rw [Header.parse, eraseBlocks, Row.eraseFrom_rows h.contained hcode]
  rfl

end Source

end Package

namespace Processor

open Package Comment LineReader

variable {p : Processor} {x : Session} {s : Source} {line : Text} {left ts : List Text}

theorem setReader_self (hs : p.session = some x) : p.setReader x.reader = p := by
  rw [setReader, hs, Option.map_some, ← hs]

theorem closing_lines {inside : Bool} {r : Row} {rs : List Row} (tail : Text)
    (hclean : Row.everyRow Row.clean inside (Row.closedBy (infoClose ++ tail) r rs).1
      (Row.closedBy (infoClose ++ tail) r rs).2 = true)
    (hunclosing : Row.everyRow Source.unclosing inside r rs = true) : ∃ a last,
    Row.texts inside ((Row.closedBy (infoClose ++ tail) r rs).1 ::
      (Row.closedBy (infoClose ++ tail) r rs).2) = a ++ [last] ∧
    (∀ t ∈ a, endsHeader t = false) ∧ endsHeader last = true := by
  induction rs generalizing inside r with
  | nil =>
    have hr : (r.follow (infoClose ++ tail)).clean inside = true := hclean
    have hlast : stripLine ((r.follow (infoClose ++ tail)).text inside) false =
        r.body inside ++ (infoClose ++ tail) := by
      rw [Row.stripLine_text hr, Row.body_follow]
    refine ⟨[], _, rfl, by simp, ?_⟩
    rw [endsHeader, Row.closedBy, hlast, Text.contains_iff]
    exact ⟨r.body inside, tail, by simp⟩
  | cons s rs ih =>
    have hr : r.clean inside = true := (Bool.and_eq_true_iff.mp hclean).1
    have hrs := (Bool.and_eq_true_iff.mp hclean).2
    obtain ⟨hfree, hrest⟩ := Bool.and_eq_true_iff.mp hunclosing
    obtain ⟨a, last, htexts, ha, hlast⟩ := ih hrs hrest
    refine ⟨r.text inside :: a, last, ?_, List.forall_mem_cons.mpr ⟨?_, ha⟩, hlast⟩
    · rw [List.cons_append, ← htexts]
      rfl
    · rw [endsHeader, Row.stripLine_text hr, Text.contains_eq_false]
      exact Source.not_close_laid hfree

theorem assemble_through {passage : Passage} {r : LineReader} (hs : p.session = some x)
    (hline : Text.contains infoClose line = false)
    (ht : x.reader.through p.files endsHeader = .ok (passage, r)) : assemble line p =
      .ok (line ++ passage.lines.flatMap fun t => ' ' :: stripLine t false) (p.setReader r) := by
  rw [assemble, if_neg (by simp [hline]), bind_ok (get_run p)]
  simp only [hs]
  change (lift (x.reader.through p.files endsHeader) >>= _) p = _
  rw [ht]
  rfl

theorem assemble_source (h : s.Fit) (hs : p.session = some x)
    (ho : Offers p.files (s.lines ++ left) x.reader) : ∃ r, Offers p.files left r ∧
    assemble s.line p = .ok (s.lead ++ infoOpen ++
      (Row.joined false s.first s.more ++ (infoClose ++ s.tail))) (p.setReader r) := by
  have hjoined : Row.joined false s.rows.1 s.rows.2 =
      s.lead ++ infoOpen ++ (Row.joined false s.first s.more ++ (infoClose ++ s.tail)) := by
    rw [Source.rows, Row.joined_closedBy, Row.joined_precede, List.append_assoc]
  have hclean := h.clean
  have hunclosing := h.unclosing
  have hlead := Text.contains_eq_false.mp h.lead_close
  obtain ⟨lead, first, more, tail⟩ := s
  cases more with
  | nil =>
    have hline : Source.line ⟨lead, first, [], tail⟩ =
        lead ++ infoOpen ++ (first.body false ++ (infoClose ++ tail)) := hjoined
    have hclosed : Text.contains infoClose (Source.line ⟨lead, first, [], tail⟩) = true := by
      rw [hline, Text.contains_iff]
      exact ⟨lead ++ infoOpen ++ first.body false, tail, by simp⟩
    refine ⟨x.reader, ho, ?_⟩
    rw [assemble, if_pos hclosed, setReader_self hs, hline]
    rfl
  | cons r rs =>
    -- The first line has no end mark, so lines are read up to the one that has.
    obtain ⟨hfree, hrest⟩ := Bool.and_eq_true_iff.mp hunclosing
    have hline : Source.line ⟨lead, first, r :: rs, tail⟩ = lead ++ infoOpen ++ first.body false :=
      Row.body_precede _ first
    have hopen : Text.contains infoClose (Source.line ⟨lead, first, r :: rs, tail⟩) = false := by
      rw [hline, Text.contains_eq_false]
      exact Source.not_close_lead hlead (Source.not_close_laid hfree)
    obtain ⟨a, last, htexts, ha, hlast⟩ :=
      closing_lines tail (Bool.and_eq_true_iff.mp hclean).2 hrest
    have hlines : Source.lines ⟨lead, first, r :: rs, tail⟩ = a ++ [last] := htexts
    rw [hlines, List.append_assoc] at ho
    obtain ⟨y, ht, hy⟩ := ho.through endsHeader
    rw [List.singleton_append, passedWith_found ha hlast] at ht hy
    refine ⟨y, hy, ?_⟩
    rw [assemble_through hs hopen ht, ← hjoined, ← Row.joined_texts false _ hclean]
    dsimp only
    rw [← hlines]
    rfl

theorem readHeader_source (h : s.Fit) (hs : p.session = some x)
    (ho : Offers p.files (s.lines ++ left) x.reader) : ∃ r, Offers p.files left r ∧
    readHeader s.line p =
      weigh s.line (Header.ofText (Text.trim s.code)) s.tail (p.setReader r) := by
  obtain ⟨r, hr, hassemble⟩ := assemble_source h hs ho
  refine ⟨r, hr, ?_⟩
  rw [readHeader_run hassemble (Source.splitInfo?_source h), Source.parse_source h]

theorem readHeader_open (hs : p.session = some x) (ho : Offers p.files ts x.reader)
    (hline : Text.contains infoClose line = false) (hts : ∀ t ∈ ts, endsHeader t = false) :
    ∃ r, readHeader line p = .error (.openHeader line) (p.setReader r) := by
  obtain ⟨r, ht, -⟩ := ho.through endsHeader
  rw [passedWith_missing hts] at ht
  have hassemble := assemble_through hs hline ht
  have hfree : ¬infoClose <:+: line ++ ts.flatMap fun t => ' ' :: stripLine t false := by
    clear hassemble ht ho
    have hline := Text.contains_eq_false.mp hline
    induction ts generalizing line with
    | nil => simpa using hline
    | cons t ts ih =>
      obtain ⟨ht, hts⟩ := List.forall_mem_cons.mp hts
      rw [List.flatMap_cons, ← List.append_assoc]
      have hnext : ¬infoClose <:+: line ++ ' ' :: stripLine t false := by
        rw [Text.infix_around (by decide)]
        exact not_or.mpr ⟨hline, Text.contains_eq_false.mp ht⟩
      exact ih (Text.contains_eq_false.mpr hnext) hts hnext
  have hsplit : splitInfo? (line ++ ts.flatMap fun t => ' ' :: stripLine t false) = none := by
    rw [splitInfo?]
    cases hcut : Text.cut infoOpen (line ++ ts.flatMap fun t => ' ' :: stripLine t false) with
    | none => rfl
    | some y =>
      obtain ⟨a, b⟩ := y
      have hb : ¬infoClose <:+: b := fun hb =>
        hfree (hb.trans (by rw [Text.cut_eq_some hcut]; exact (List.suffix_append _ b).isInfix))
      exact Option.not_isSome_iff_eq_none.mp fun hsome => hb (Text.contains_iff.mp hsome)
  refine ⟨r, ?_⟩
  rw [readHeader, bind_ok hassemble]
  simp only [hsplit]
  rfl

theorem dropLineComment_source (h : s.Fit) (hdocs : p.keepsDocs = false) (notes : Notes) :
    (p.dropLineComment s.raw notes).1 = some s.line := by
  have hstrip : stripLine s.raw false = s.line := Row.stripLine_text (Row.everyRow_first h.clean)
  have hne : s.line ≠ [] := by
    have hbody (u : Text) : (s.first.precede (s.lead ++ infoOpen)).body false ++ u ≠ [] := by
      have hopen : infoOpen ≠ [] := by decide
      rw [Row.body_precede]
      simp [hopen]
    rw [Source.line, Source.rows]
    cases s.more with
    | nil =>
      rw [Row.closedBy, Row.body_follow]
      exact hbody _
    | cons r rs =>
      rw [← List.append_nil (Row.body _ _)]
      exact hbody []
  unfold dropLineComment
  by_cases hmark : Text.contains lineMark s.raw = true
  · rw [if_pos hmark, hdocs, hstrip]
    split
    next hnil => exact absurd hnil hne
    · rfl
  · rw [if_neg hmark, ← hstrip, stripLine_unmarked (by simpa using hmark)]

/-- A header that is closed by the first end mark outside line comments, on its first line or on a
later one, is what stands outside comments, and blanking out the comments changes neither the
header nor the text behind it. A header without such an end mark is refused. -/
theorem header_outside_comments (s s' : Source) (p p' : Processor) (x x' : Session)
    (left left' : List Text) (hfit : s.Fit) (hblanked : s.Blanked s')
    (hp : p.session = some x) (hp' : p'.session = some x')
    (ho : Offers p.files (s.lines ++ left) x.reader)
    (ho' : Offers p'.files (s'.lines ++ left') x'.reader) :
    (∃ h r r', h = Header.ofText (Text.trim s.code) ∧
      readHeader s.line p = weigh s.line h s.tail (p.setReader r) ∧ Offers p.files left r ∧
      readHeader s'.line p' = weigh s'.line h s.tail (p'.setReader r') ∧ Offers p'.files left' r') ∧
    (∀ q : Processor, ∀ notes, q.keepsDocs = false →
      (q.dropLineComment s.raw notes).1 = some s.line ∧
      (q.dropLineComment s'.raw notes).1 = some s'.line) ∧
    ∀ q : Processor, ∀ y line ts, q.session = some y → Offers q.files ts y.reader →
      Text.contains infoClose line = false → (∀ t ∈ ts, endsHeader t = false) →
      ∃ r, readHeader line q = .error (.openHeader line) (q.setReader r) := by
  have hfit' := hfit.blanked hblanked
  refine ⟨?_, ?_, ?_⟩
  · obtain ⟨r, hr, hread⟩ := readHeader_source hfit hp ho
    obtain ⟨r', hr', hread'⟩ := readHeader_source hfit' hp' ho'
    rw [hblanked.code, hblanked.tail] at hread'
    exact ⟨_, r, r', rfl, hread, hr, hread', hr'⟩
  · intro q notes hdocs
    exact ⟨dropLineComment_source hfit hdocs notes, dropLineComment_source hfit' hdocs notes⟩
  · intro q y line ts hq hoffers hline hts
    exact readHeader_open hq hoffers hline hts

def remarkedHeader : Source where
  lead := []
  first := ⟨"name=\"v ##\" ".toList, [" \"##\" ".toList, " ".toList], some " see <endinfo>".toList⟩
  more := [⟨"flags=ENABLE_FULL_LOGGING ".toList, [" don't ".toList], some " <endinfo>".toList⟩,
    ⟨"<end ".toList, [" license=l ".toList], some " \"<endinfo>".toList⟩,
    ⟨[], [], some " end".toList⟩]
  tail := " a ".toList

def blankHeader : Source where
  lead := []
  first := ⟨"name=\"v ##\" ".toList, ["      ".toList, " ".toList], some []⟩
  more := [⟨"flags=ENABLE_FULL_LOGGING ".toList, [" ".toList], some []⟩,
    ⟨[], [" license=l ".toList], some []⟩, ⟨[], [], some []⟩]
  tail := " a ".toList

def remarkedScript : Processor := openedMain true [("main.nscr",
  "<info>name=\"v ##\" #* \"##\" *# ## see <endinfo>\n" ++
  "flags=ENABLE_FULL_LOGGING #* don't ## <endinfo>\n" ++
  "<end *# license=l ## \"<endinfo>\n<endinfo> a ## end\nb\n")]

def blankScript : Processor := openedMain true [("main.nscr",
  "<info>name=\"v ##\" #*      *# ##\nflags=ENABLE_FULL_LOGGING #* ##\n" ++
  "*# license=l ##\n<endinfo> a ##\nb\n")]

def scriptStart : LineReader := { path := ⟨"s/main.nscr".toList⟩, stream := .file 0 0 }

theorem remarkedHeader_fit : remarkedHeader.Fit where
  lead_open := by decide
  lead_close := by decide
  clean := by decide +kernel
  contained := by decide +kernel
  unclosing := by decide +kernel
  outside := by decide +kernel
  uncovered := by decide +kernel

theorem blankHeader_blanked : remarkedHeader.Blanked blankHeader where
  lead := rfl
  tail := rfl
  rows := .next ⟨.opened _ (.closed _ (by decide) (.code _)), rfl⟩
    (.next ⟨.opened _ (.comment _ (by decide)), rfl⟩
      (.next ⟨.closed _ (by decide) (.code _), rfl⟩ (.last ⟨.code _, rfl⟩)))

theorem header_outside_comments_blank :
    let h := Header.ofText (Text.trim remarkedHeader.code)
    h.name = "v ##".toList ∧ h.license = some ['l'] ∧ h.fullLogging = true ∧ ∃ n n' r r' y y',
      scriptStart.nextLogical remarkedScript.files (fun _ _ => false) =
        .ok (some ⟨remarkedHeader.raw, n⟩, r) ∧
      scriptStart.nextLogical blankScript.files (fun _ _ => false) =
        .ok (some ⟨blankHeader.raw, n'⟩, r') ∧
      readHeader remarkedHeader.line (remarkedScript.setReader r) =
        weigh remarkedHeader.line h " a ".toList ((remarkedScript.setReader r).setReader y) ∧
      readHeader blankHeader.line (blankScript.setReader r') =
        weigh blankHeader.line h " a ".toList ((blankScript.setReader r').setReader y') := by
  have hstart : remarkedScript.session = some ⟨scriptStart, false⟩ := by decide +kernel
  have hstart' : blankScript.session = some ⟨scriptStart, false⟩ := by decide +kernel
  have htexts : scriptStart.texts remarkedScript.files =
      remarkedHeader.raw :: (remarkedHeader.lines ++ [['b']]) := by decide +kernel
  have htexts' : scriptStart.texts blankScript.files =
      blankHeader.raw :: (blankHeader.lines ++ [['b']]) := by decide +kernel
  have ho := offers_texts remarkedScript.files (r := scriptStart) (by decide) rfl
  have ho' := offers_texts blankScript.files (r := scriptStart) (by decide) rfl
  rw [htexts] at ho
  rw [htexts'] at ho'
  obtain ⟨n, r, hn, hr⟩ := ho.nextLogical
  obtain ⟨n', r', hn', hr'⟩ := ho'.nextLogical
  rw [joinedWith_single (by decide +kernel)] at hn hr
  rw [joinedWith_single (by decide +kernel)] at hn' hr'
  obtain ⟨⟨h, y, y', rfl, hread, -, hread', -⟩, -, -⟩ :=
    header_outside_comments remarkedHeader blankHeader
    (remarkedScript.setReader r) (blankScript.setReader r') _ _ [['b']] [['b']] remarkedHeader_fit
    blankHeader_blanked (session_setReader hstart r) (session_setReader hstart' r') hr hr'
  exact ⟨by decide +kernel, by decide +kernel, by decide +kernel, n, n', r, r', y, y', hn, hn',
    hread,
    hread'⟩

def commentedHeader (body : String) : Processor :=
  openedMain true [("main.nscr", "<info>name=v #*" ++ body ++ "*# <endinfo>\nx\n")]

theorem comment_closes_header :
    Comes (commentedHeader " <endinfo> ") ["*# <endinfo>".toList, ['x']] []
      (commentedHeader " <endinfo> ").files ∧
    Comes (commentedHeader "           ") [['x']] [] (commentedHeader "           ").files := by
  constructor
  · exact comes_of_drainWithin 9 (by decide +kernel)
  · exact comes_of_drainWithin 9 (by decide +kernel)

end Processor

end ScriptFeed
