import ScriptFeed.Proofs.Breakable
import ScriptFeed.Proofs.Naming
import ScriptFeed.Proofs.Refusals
import ScriptFeed.Proofs.Scanning

namespace ScriptFeed

namespace Text

variable {pat x y a tail : Text}

theorem trimStart_suffix (t : Text) : trimStart t <:+ t := List.dropWhile_suffix _

theorem trimEnd_begins (t : Text) : trimEnd t <+: t := by
  rw [← List.reverse_suffix, trimEnd, List.reverse_reverse]
  exact List.dropWhile_suffix _

theorem trim_part (t : Text) : trim t <:+: t :=
  (trimEnd_begins _).isInfix.trans (trimStart_suffix t).isInfix

theorem behind_blank (hblank : ' ' ∉ pat) (hx : ¬pat <:+: x)
    (h : x ++ ' ' :: y = a ++ pat ++ tail) :
    ∃ b, y = b ++ pat ++ tail := by
  rw [List.append_assoc] at h
  rcases List.append_eq_append_iff.mp h with ⟨b, rfl, hy⟩ | ⟨c, rfl, hpat⟩
  -- the pattern begins behind `x`, or in it and reaches over the blank
  · cases b with
    | nil =>
      cases pat with
      | nil => exact absurd ⟨[], x, rfl⟩ hx
      | cons d pat =>
        obtain ⟨rfl, -⟩ := List.cons.inj hy
        exact absurd List.mem_cons_self hblank
    | cons d b =>
      obtain ⟨-, rfl⟩ := List.cons.inj hy
      exact ⟨b, (List.append_assoc ..).symm⟩
  · rcases List.append_eq_append_iff.mp hpat with ⟨b, rfl, -⟩ | ⟨b, rfl, hy⟩
    · exact absurd ⟨a, b, List.append_assoc ..⟩ hx
    · cases b with
      | nil => exact absurd ⟨a, [], by simp⟩ hx
      | cons d b =>
        obtain ⟨rfl, -⟩ := List.cons.inj hy
        exact absurd (by simp) hblank

theorem behind_joined {f : Text → Text} {us : List Text} (hblank : ' ' ∉ pat) (hx : ¬pat <:+: x)
    (hus : ∀ u ∈ us.dropLast, ¬pat <:+: f u)
    (h : x ++ us.flatMap (fun u => ' ' :: f u) = a ++ pat ++ tail) : ∃ u ∈ us, tail <:+ f u := by
  induction us generalizing x a with
  | nil =>
    rw [List.flatMap_nil, List.append_nil] at h
    exact absurd ⟨a, tail, h.symm⟩ hx
  | cons u us ih =>
    rw [List.flatMap_cons, List.cons_append] at h
    obtain ⟨b, hb⟩ := behind_blank hblank hx h
    cases us with
    | nil =>
      rw [List.flatMap_nil, List.append_nil] at hb
      exact ⟨u, List.mem_cons_self, b ++ pat, hb.symm⟩
    | cons v us =>
      rw [List.dropLast_cons_cons] at hus
      obtain ⟨w, hw, htail⟩ := ih (hus u List.mem_cons_self)
        (fun w hw => hus w (List.mem_cons_of_mem _ hw)) hb
      exact ⟨w, List.mem_cons_of_mem _ hw, htail⟩

end Text

namespace LineReader

variable {fs : Files} {r r' : LineReader}

theorem through_init {stop : Text → Bool} {passage : Passage}
    (h : r.through fs stop = .ok (passage, r')) : ∀ u ∈ passage.lines.dropLast, stop u = false := by
  have hboth : (∀ u ∈ passage.lines.dropLast, stop u = false) ∧
      (passage.closed = false → ∀ u ∈ passage.lines, stop u = false) := by
    refine gatherWithin_keeps (I := fun (passage : Passage) _ =>
      (∀ u ∈ passage.lines.dropLast, stop u = false) ∧
        (passage.closed = false → ∀ u ∈ passage.lines, stop u = false)) ?_
      (fun _ _ _ _ hI => hI) h (by simp)
    rintro passage - t - hmore - ⟨-, hopen⟩
    have hall := hopen (by simpa using hmore)
    dsimp only
    rw [List.dropLast_concat]
    refine ⟨hall, fun ht u hu => ?_⟩
    rcases List.mem_append.mp hu with hu | hu
    · exact hall u hu
    · exact (List.mem_singleton.mp hu) ▸ ht
  exact hboth.1

end LineReader

theorem Package.splitInfo?_tail {t header tail : Text} (h : splitInfo? t = some (header, tail)) :
    ∃ a, t = a ++ infoClose ++ tail := by
  unfold splitInfo? at h
  split at h
  · cases h
  next b c hopen =>
    rw [Text.cut_eq_some hopen, Text.cut_eq_some h]
    exact ⟨b ++ infoOpen ++ header, by simp⟩

namespace Processor

open Package Comment

variable {p q r : Processor} {notes n : Notes} {line t u v : Text} {rest : Option Text}

theorem readHeader_rest (hr : readHeader line p = .ok (some u) q) :
    u <:+: line ∨ ∃ s passage x, Text.contains infoClose line = false ∧ p.session = some s ∧
      s.reader.through p.files endsHeader = .ok (passage, x) ∧ ∃ w ∈ passage.lines, u <:+: w := by
  obtain ⟨t, p₁, header, tail, ha, hsplit, -, ok, _, _, -, hyes, hno⟩ := readHeader_ok hr
  have hok : ok = true := by
    by_contra hfalse
    have := (hno (by simpa using hfalse)).1
    cases this
  have hu : u <:+: tail := by
    have hrest := (hyes hok).2
    split at hrest
    · cases hrest
    · rw [Option.some.inj hrest]
      exact Text.trim_part tail
  obtain ⟨a, ht⟩ := splitInfo?_tail hsplit
  rcases assemble_cases ha with ⟨-, rfl⟩ | ⟨s, passage, x, hs, hline, hthrough, -, hjoined⟩
  · exact .inl (hu.trans ⟨a ++ infoClose, [], by rw [List.append_nil, ht]⟩)
  · have hinit : ∀ w ∈ passage.lines.dropLast, ¬infoClose <:+: stripLine w false := by
      intro w hw
      exact Text.contains_eq_false.mp (LineReader.through_init hthrough w hw)
    obtain ⟨w, hw, htail⟩ := Text.behind_joined (by decide) (Text.contains_eq_false.mp hline) hinit
      (hjoined.symm.trans ht)
    exact .inr ⟨s, passage, x, hline, hs, hthrough, w, hw,
      (hu.trans htail.isInfix).trans (stripLine_begins w false).isInfix⟩

def Part (W : Text → Prop) (u : Text) : Prop := ∃ w, W w ∧ u <:+: w

def Made (W : Text → Prop) (notes : Notes) : Prop :=
  ∃ pieces : List Text, notes.text = pieces.flatMap (· ++ ['\n']) ∧ ∀ u ∈ pieces, Part W u

variable {W W' : Text → Prop}

theorem Part.piece (h : Part W t) (hu : u <:+: t) : Part W u := by
  obtain ⟨w, hw, ht⟩ := h
  exact ⟨w, hw, hu.trans ht⟩

theorem Made.nil : Made W {} := ⟨[], rfl, by simp⟩

theorem Made.mono (h : Made W notes) (hW : ∀ w, W w → W' w) : Made W' notes := by
  obtain ⟨pieces, htext, hpieces⟩ := h
  refine ⟨pieces, htext, fun u hu => ?_⟩
  obtain ⟨w, hw, hpart⟩ := hpieces u hu
  exact ⟨w, hW w hw, hpart⟩

theorem Made.push (h : Made W notes) (hu : Part W u) : Made W (notes.push u) := by
  obtain ⟨pieces, htext, hpieces⟩ := h
  refine ⟨pieces ++ [u], by simp [Notes.push, htext], fun v hv => ?_⟩
  rcases List.mem_append.mp hv with hv | hv
  · exact hpieces v hv
  · exact (List.mem_singleton.mp hv) ▸ hu

theorem Made.append (h : Made W notes) (hu : Part W u) : Made W (notes.append u) := by
  unfold Notes.append
  split
  · exact h
  · exact h.push hu

theorem Made.noted (h : Made W notes) (ht : Part W t) (p : Processor) (mark : Text) :
    Made W (p.noted mark t notes) := by
  unfold Processor.noted
  split
  · exact h.push ht
  · exact .nil

theorem resume_parts (t : Text) (b : Bool) :
    (resume t b).consumed <:+: t ∧ ∀ u, (resume t b).rest = some u → u <:+: t := by
  unfold resume
  cases hcut : Text.cut blockClose t with
  | none => exact ⟨List.infix_rfl, by simp⟩
  | some x =>
    obtain ⟨body, tail⟩ := x
    have ht := Text.cut_eq_some hcut
    refine ⟨⟨[], tail, ht.symm⟩, fun u hu => ?_⟩
    dsimp only at hu
    split at hu
    · cases hu
    · obtain rfl := Option.some.inj hu
      exact ⟨body ++ blockClose, [], by rw [List.append_nil, ht]⟩

theorem leaveComment_made (hl : leaveComment t notes p = .ok (rest, n) q) (hm : Made W notes)
    (ht : Part W t) : Made W n ∧ ∀ u, rest = some u → Part W u := by
  have hsame (h : (some t, notes) = (rest, n)) : Made W n ∧ ∀ u, rest = some u → Part W u := by
    obtain ⟨rfl, rfl⟩ := Prod.mk.inj h
    exact ⟨hm, fun u hu => Option.some.inj hu ▸ ht⟩
  obtain ⟨hconsumed, hrest⟩ := resume_parts t true
  rw [leaveComment, bind_ok (get_run p)] at hl
  cases hs : p.session with
  | none =>
    simp only [hs] at hl
    exact hsame (EStateM.Result.ok.inj hl).1
  | some s =>
    simp only [hs] at hl
    split at hl
    · obtain ⟨rfl, rfl⟩ := Prod.mk.inj (EStateM.Result.ok.inj hl).1
      exact ⟨hm.append (ht.piece hconsumed), fun u hu => ht.piece (hrest u hu)⟩
    · exact hsame (EStateM.Result.ok.inj hl).1

theorem dropLineComment_made (hd : p.dropLineComment t notes = (rest, n)) (hm : Made W notes)
    (ht : Part W t) : Made W n ∧ ∀ u, rest = some u → Part W u := by
  unfold dropLineComment at hd
  split at hd
  · dsimp only at hd
    split at hd
    · obtain ⟨rfl, rfl⟩ := Prod.mk.inj hd
      exact ⟨hm.noted ht p _, by simp⟩
    · obtain ⟨rfl, rfl⟩ := Prod.mk.inj hd
      refine ⟨hm.noted ht p _, fun u hu => ht.piece ?_⟩
      rw [← Option.some.inj hu]
      exact (stripLine_begins t p.keepsDocs).isInfix
  · obtain ⟨rfl, rfl⟩ := Prod.mk.inj hd
    exact ⟨hm, fun u hu => Option.some.inj hu ▸ ht⟩

theorem leaveSection_part (h : p.leaveSection t = (some u, q)) : u <:+: t := by
  unfold leaveSection at h
  split at h
  · dsimp only at h
    split at h
    · cases (Prod.mk.inj h).1
    · rw [← Option.some.inj (Prod.mk.inj h).1]
      exact (Text.trim_part _).trans (List.drop_suffix _ t).isInfix
  · exact Option.some.inj (Prod.mk.inj h).1 ▸ List.infix_rfl

theorem dropBlockComments_made (h : p.dropBlockComments t notes = (u, n, q)) (hm : Made W notes)
    (ht : Part W t) : Made W n := by
  unfold dropBlockComments at h
  split at h
  · dsimp only at h
    split at h
    · exact (Prod.mk.inj (Prod.mk.inj h).2).1 ▸ hm.noted ht p _
    · exact (Prod.mk.inj (Prod.mk.inj h).2).1 ▸ hm.noted ht p _
  · exact (Prod.mk.inj (Prod.mk.inj h).2).1 ▸ hm

inductive Hears (notes : Notes) (p : Processor) : Text → Prop
  | line {s : Session} {l : LogicalLine} {x : LineReader} (hi : p.inclusion = none)
      (hs : p.session = some s) (hl : s.reader.nextLogical p.files p.marked = .ok (some l, x)) :
      Hears notes p l.text
  | header {line w : Text} {n : Notes} {q : Processor} {s : Session} {passage : LineReader.Passage}
      {x : LineReader} (hm : Meets notes p line n q) (he : Text.contains infoClose line = false)
      (hs : q.session = some s)
      (hp : s.reader.through q.files endsHeader = .ok (passage, x)) (hw : w ∈ passage.lines) :
      Hears notes p w

theorem Hears.isOpen {w : Text} (h : Hears notes p w) : p.isOpen = true := by
  cases h with
  | line hi hs hl => exact isOpen_of_session hs
  | header hm he hs hp hw => exact hm.start

theorem Arrives.made (ha : Arrives notes p t n q) (hm : Made W notes)
    (hW : ∀ w, Hears notes p w → W w) : Made W n ∧ Part W t := by
  obtain ⟨hi, s, l, x, t₁, n₁, hs, hl, -, hleave, hdrop⟩ := ha
  have hline : Part W l.text := ⟨l.text, hW _ (.line hi hs hl), List.infix_rfl⟩
  obtain ⟨hn₁, ht₁⟩ := leaveComment_made hleave hm hline
  obtain ⟨hn, ht⟩ := dropLineComment_made hdrop hn₁ (ht₁ t₁ rfl)
  exact ⟨hn, ht t rfl⟩

theorem Meets.part (hm : Meets notes p line n q) (hline : Part W line)
    (hW : ∀ w, Hears notes p w → W w) (hr : readHeader line q = .ok (some u) r) : Part W u := by
  rcases readHeader_rest hr with hu | ⟨s, passage, x, he, hs, hthrough, w, hw, hu⟩
  · exact hline.piece hu
  · exact ⟨w, hW w (.header hm he hs hthrough hw), hu⟩

theorem Arrives.enterSection_part (ha : Arrives notes p t n q) (ht : Part W t)
    (hW : ∀ w, Hears notes p w → W w) (hs : enterSection t q = .ok (some u) r) : Part W u := by
  cases enterSection_sectioned hs with
  | outside => exact ht
  | header hm hopen hx hi hr =>
    have hbehind : Part W (Text.trim (t.drop installOpen.length)) :=
      ht.piece ((Text.trim_part _).trans (List.drop_suffix _ t).isInfix)
    exact Meets.part (.behind ha hm hopen hx hi) hbehind hW hr

theorem Arrives.enterHeader_part (ha : Arrives notes p t n q) (ht : Part W t)
    (hW : ∀ w, Hears notes p w → W w) (hs : enterSection t q = .ok (some u) r) {r' : Processor}
    (hh : enterHeader u r = .ok (some v) r') : Part W v := by
  have hu := ha.enterSection_part ht hW hs
  rw [enterHeader, bind_ok (get_run r)] at hh
  by_cases hcond : (r.installMode && Text.startsWith infoOpen u) = true
  · rw [if_pos hcond] at hh
    obtain ⟨hm, hopen⟩ := Bool.and_eq_true_iff.mp hcond
    exact Meets.part (.alone ha hs hm hopen) hu hW hh
  · rw [if_neg hcond] at hh
    exact Option.some.inj (EStateM.Result.ok.inj hh).1 ▸ hu

def Reading.Keeps (W : Text → Prop) : Reading → Prop
  | .nothing n => Made W n
  | _ => True

def Entered.Keeps (W : Text → Prop) : Entered → Prop
  | .used r => r.Keeps W
  | .text t n => Made W n ∧ Part W t

theorem enterLine_keeps {s : Session} {l : LogicalLine} {x : LineReader} {y : Entered}
    (hi : p.inclusion = none) (hs : p.session = some s)
    (hl : s.reader.nextLogical p.files p.marked = .ok (some l, x)) (hne : l.text ≠ [])
    (hy : enterLine l.text notes (p.setReader x) = .ok y q) (hm : Made W notes)
    (hW : ∀ w, Hears notes p w → W w) : y.Keeps W := by
  have hline : Part W l.text := ⟨l.text, hW _ (.line hi hs hl), List.infix_rfl⟩
  have harrives {t₁ t₂ : Text} {n₁ n : Notes} {q : Processor}
      (hleave : leaveComment l.text notes (p.setReader x) = .ok (some t₁, n₁) q)
      (hd : q.dropLineComment t₁ n₁ = (some t₂, n)) : Arrives notes p t₂ n q :=
    ⟨hi, s, l, x, t₁, n₁, hs, hl, hne, hleave, hd⟩
  cases enterLine_staged hy with
  | commented hleave => exact (leaveComment_made hleave hm hline).1
  | stripped hleave hd =>
    obtain ⟨hn, ht⟩ := leaveComment_made hleave hm hline
    exact (dropLineComment_made hd hn (ht _ rfl)).1
  | inSection hleave hd hsec => exact ((harrives hleave hd).made hm hW).1
  | inHeader hleave hd hsec hh => exact ((harrives hleave hd).made hm hW).1
  | behind hleave hd hsec hh hw =>
    have ha := harrives hleave hd
    obtain ⟨hn, ht⟩ := ha.made hm hW
    rcases writeFiles_cases hw with rfl | ⟨c, rfl⟩ | rfl
    · exact hn
    · trivial
    · exact ⟨hn, ha.enterHeader_part ht hW hsec hh⟩

theorem leaveLine_keeps (hn : Made W n) (ht : Part W t) (p : Processor) :
    (p.leaveLine t n).1.Keeps W := by
  unfold leaveLine
  cases hl : p.leaveSection t with
  | mk rest q =>
    cases rest with
    | none => exact hn
    | some u =>
      cases hd : q.dropBlockComments u n with
      | mk v y =>
        have hdocs := dropBlockComments_made hd hn (ht.piece (leaveSection_part hl))
        simp only [hd, finishLine]
        split
        · exact hdocs
        · trivial

theorem readLine_keeps {y : Reading} (hi : p.inclusion = none) (hy : readLine notes p = .ok y q)
    (hm : Made W notes) (hW : ∀ w, Hears notes p w → W w) : y.Keeps W := by
  cases readLine_read hy with
  | closed hs => trivial
  | ended hs hl => trivial
  | blank hs hl ht => exact hm
  | used hs hl hne hz => exact enterLine_keeps hi hs hl hne hz hm hW
  | @left s l x u n q hs hl hne hz =>
    obtain ⟨hn, hu⟩ := enterLine_keeps hi hs hl hne hz hm hW
    exact leaveLine_keeps hn hu q

theorem ofCommand?_more {o : Option Text} (h : Turn.ofCommand? o = .more n) : n = {} := by
  cases o with
  | none => exact (Turn.more.inj h).symm
  | some t => cases h

theorem turn_made (ht : turn notes p = .ok (.more n) q) (hm : Made W notes)
    (hW : ∀ w, Hears notes p w → W w) : Made W n := by
  rw [turn, bind_ok (get_run p)] at ht
  cases hi : p.inclusion with
  | some i =>
    simp only [hi] at ht
    obtain ⟨line, q₁, -, ht⟩ := bind_eq_ok ht
    cases line with
    | none =>
      obtain rfl := Turn.more.inj (EStateM.Result.ok.inj ht).1
      exact .nil
    | some u =>
      dsimp only at ht
      rw [bind_ok (get_run q₁)] at ht
      obtain ⟨command, r, -, ht⟩ := bind_eq_ok ht
      obtain rfl := ofCommand?_more (EStateM.Result.ok.inj ht).1
      exact .nil
  | none =>
    simp only [hi] at ht
    obtain ⟨y, q₁, hy, ht⟩ := bind_eq_ok ht
    have hkeeps := readLine_keeps hi hy hm hW
    cases y with
    | stop => cases (EStateM.Result.ok.inj ht).1
    | nothing n' => exact Turn.more.inj (EStateM.Result.ok.inj ht).1 ▸ hkeeps
    | line u =>
      dsimp only at ht
      rw [bind_ok (get_run q₁)] at ht
      obtain ⟨command, r, -, ht⟩ := bind_eq_ok ht
      obtain rfl := ofCommand?_more (EStateM.Result.ok.inj ht).1
      exact .nil

def Attaches (notes : Notes) (p : Processor) (header : Text) (docs : Notes) (q : Processor) :
    Prop :=
  p.inclusion = none ∧ ∃ s l x t n r u r' v, p.session = some s ∧
    s.reader.nextLogical p.files p.marked = .ok (some l, x) ∧ l.text ≠ [] ∧
    enterLine l.text notes (p.setReader x) = .ok (.text t n) r ∧ r.leaveSection t = (some u, r') ∧
    r'.dropBlockComments u n = (v, docs, q) ∧ Text.trim v = header ∧
    Text.startsWith "procedure ".toList header = true

section Attaching

variable {header : Text} {docs : Notes}

theorem Attaches.readLine (ha : Attaches notes p header docs q) :
    readLine notes p = .ok (.line (docs.attachTo header).1) q := by
  obtain ⟨hi, s, l, x, t, n, r, u, r', v, hs, hl, hne, hy, hu, hv, rfl, hproc⟩ := ha
  rw [readLine_run hs, hl]
  dsimp only
  rw [if_neg hne, readText_text hy, leaveLine, hu]
  dsimp only
  rw [hv]
  dsimp only
  unfold finishLine
  split
  next hnil =>
    rw [hnil] at hproc
    exact absurd hproc (by decide)
  · rw [if_pos hproc]

theorem Attaches.made (ha : Attaches notes p header docs q) (hm : Made W notes)
    (hW : ∀ w, Hears notes p w → W w) : Made W docs := by
  obtain ⟨hi, s, l, x, t, n, r, u, r', v, hs, hl, hne, hy, hu, hv, -, -⟩ := ha
  obtain ⟨hn, ht⟩ := enterLine_keeps hi hs hl hne hy hm hW
  exact dropBlockComments_made hv hn (ht.piece (leaveSection_part hu))

theorem Attaches.isOpen (ha : Attaches notes p header docs q) : p.isOpen = true := by
  obtain ⟨-, s, -, -, -, -, -, -, -, -, hs, -⟩ := ha
  exact isOpen_of_session hs

theorem Attaches.place (ha : Attaches notes p header docs q) : q.place = p.place :=
  ((readLine_cases ha.1 ha.isOpen ha.readLine).resolve_right (by simp)).place

theorem parse?_procedure (h : Text.startsWith "procedure ".toList header = true) (p : Processor)
    (t : Text) : Marker.parse? (p.expandThis (header ++ t)) = none := by
  obtain ⟨rest, rfl⟩ := Text.startsWith_iff.mp h
  change Marker.parse? (Text.replaceAll ('<' :: "this>".toList) p.directory
    ('p' :: ("rocedure ".toList ++ rest ++ t))) = none
  rw [Text.replaceAll_cons_ne (by decide)]
  rfl

theorem command?_install (hmode : p.installMode = true) (t : Text) :
    command? t p = .ok (some t) (p.echoLine t) := by
  rw [command?, bind_ok (get_run p), if_pos hmode]
  rfl

theorem Attaches.turn (ha : Attaches notes p header docs q) (hmode : q.installMode = true) :
    turn notes p = lastTurn (.ok (q.expandThis (docs.attachTo header).1)
      (q.echoLine (q.expandThis (docs.attachTo header).1))) := by
  have hread := ha.readLine
  obtain ⟨hi, s, l, x, t, n, r, u, r', v, -, -, -, -, -, -, -, hproc⟩ := ha
  rw [Processor.turn, bind_ok (get_run p), hi]
  dsimp only
  rw [bind_ok hread]
  dsimp only
  rw [bind_ok (get_run q), scriptCommand?, Notes.attachTo, parse?_procedure hproc]
  exact bind_ok (command?_install hmode _) _

end Attaching

theorem Feeds.trans {n' : Notes} (h : Feeds notes p n q) (h' : Feeds n q n' r) :
    Feeds notes p n' r := by
  induction h' with
  | refl => exact h
  | tail _ ht ih => exact .tail (ih h) ht

/-- Between a turn that read a line from the script at `path` and the place at `p`, the license of
that script was declined. -/
def Withdrawn (path : Path) (n₁ : Notes) (p₁ : Processor) (notes : Notes) (p : Processor) : Prop :=
  ∃ n₂ p₂ n₃ p₃, Feeds n₁ p₁ n₂ p₂ ∧ p₂.place = some path ∧ Refuses n₂ p₂ n₃ p₃ ∧
    turn n₂ p₂ = .ok (.more n₃) p₃ ∧ Feeds n₃ p₃ notes p

/-- A line that the call from `b` has read on its way to `p`, from the script that is open at `p` or
from one whose license was declined since. -/
def Heard (b : Processor) (notes : Notes) (p : Processor) (w : Text) : Prop :=
  ∃ path n₁ p₁, Feeds {} b n₁ p₁ ∧ Feeds n₁ p₁ notes p ∧ p₁.place = some path ∧ Hears n₁ p₁ w ∧
    (p.place = some path ∨ Withdrawn path n₁ p₁ notes p)

variable {b : Processor}

theorem Hears.place {w : Text} (h : Hears notes p w) : ∃ path, p.place = some path := by
  obtain ⟨s, hs⟩ := session_of_isOpen h.isOpen
  exact ⟨s.reader.path, by rw [Processor.place, hs]; rfl⟩

theorem Heard.turn {w : Text} (h : Heard b notes p w) (ho : p.isOpen = true)
    (ht : turn notes p = .ok (.more n) q) : Heard b n q w := by
  obtain ⟨path, n₁, p₁, hbefore, hbetween, hplace, hw, hleft⟩ := h
  refine ⟨path, n₁, p₁, hbefore, .tail hbetween ht, hplace, hw, ?_⟩
  rcases hleft with hhere | ⟨n₂, p₂, n₃, p₃, hto, hp₂, hrefuses, hturn, hfrom⟩
  · rcases turn_cases ho ht with hstays | ⟨n', hn, hrefuses⟩
    · exact .inl (hstays.place.trans hhere)
    · obtain rfl := Turn.more.inj hn
      exact .inr ⟨notes, p, n, q, hbetween, hhere, hrefuses, ht, .refl n q⟩
  · exact .inr ⟨n₂, p₂, n₃, p₃, hto, hp₂, hrefuses, hturn, .tail hfrom ht⟩

theorem Hears.heard {w : Text} (h : Hears notes p w) (hf : Feeds {} b notes p) :
    Heard b notes p w := by
  obtain ⟨path, hplace⟩ := h.place
  exact ⟨path, notes, p, hf, .refl notes p, hplace, h, .inl hplace⟩

theorem Feeds.made (hf : Feeds {} b notes p) (hc : Coherent b) : Made (Heard b notes p) notes := by
  generalize hstart : ({} : Notes) = start at hf
  induction hf with
  | refl => exact hstart ▸ .nil
  | @tail notes' n b p q hf ht ih =>
    subst hstart
    have ho : p.isOpen = true := by
      by_contra hclosed
      rw [turn_closed (Moves.coherent (hf.moves hc) hc) (by simpa using hclosed)] at ht
      cases (EStateM.Result.ok.inj ht).1
    refine turn_made ht ((ih hc).mono fun w hw => hw.turn ho ht) fun w hw => ?_
    exact (hw.heard hf).turn ho ht

/-- The documentation that a procedure header is handed out with is made of pieces of lines that the
same call has read, each from the script of the header or from one whose license was declined since.
Where no license is declined in the call, they all come from the script of the header. -/
theorem documentation_provenance (settings : Settings) (files : Files) (calls : List Call)
    (notes docs : Notes) (p q : Processor) (header : Text)
    (hf : Feeds {} (after calls { settings, files }) notes p)
    (ha : Attaches notes p header docs q) :
    let b := after calls { settings, files }
    let command := q.expandThis (docs.attachTo header).1
    (q.installMode = true → feed? {} b = some (.ok command (q.echoLine command))) ∧
    q.place = p.place ∧ Made (Heard b notes p) docs ∧
    ((∀ n₁ p₁ n₂ p₂, Feeds {} b n₁ p₁ → turn n₁ p₁ = .ok (.more n₂) p₂ → Feeds n₂ p₂ notes p →
        ¬Refuses n₁ p₁ n₂ p₂) →
      Made (fun w => ∃ n₁ p₁, Feeds {} b n₁ p₁ ∧ Feeds n₁ p₁ notes p ∧ p₁.place = q.place ∧
        Hears n₁ p₁ w) docs) := by
  intro b command
  have hc : Coherent b := after_coherent calls (fresh_coherent settings files)
  have hmade : Made (Heard b notes p) docs := ha.made (hf.made hc) fun w hw => hw.heard hf
  refine ⟨fun hmode => feed?_eq_some.mpr ⟨notes, p, hf, ha.turn hmode⟩, ha.place, hmade, ?_⟩
  intro hnone
  refine hmade.mono ?_
  rintro w ⟨path, n₁, p₁, hbefore, hbetween, hplace, hw, hhere | hleft⟩
  · exact ⟨n₁, p₁, hbefore, hbetween, (hplace.trans hhere.symm).trans ha.place.symm, hw⟩
  · obtain ⟨n₂, p₂, n₃, p₃, hto, -, hrefuses, hturn, hfrom⟩ := hleft
    exact absurd hrefuses (hnone n₂ p₂ n₃ p₃ (hbefore.trans hto) hturn hfrom)

theorem attaches_firstLine (t : Text) (notes : Notes) (hi : p.inclusion = none)
    (hl : p.firstLine? = some t) (hc : Text.contains lineMark t = false)
    (hb : Text.contains blockOpen t = false) (hd : p.isDirective t = false)
    (htrim : Text.trim t = t) (hproc : Text.startsWith "procedure ".toList t = true) :
    ∃ x, Attaches notes p t notes (p.setReader x) := by
  obtain ⟨s, hs, hfirst⟩ := Option.bind_eq_some_iff.mp hl
  split at hfirst
  next l x hin hread =>
    obtain rfl := Option.some.inj hfirst
    have hne : l.text ≠ [] := by
      intro hnil
      rw [hnil] at hproc
      exact absurd hproc (by decide)
    have hclose : Text.startsWith installClose l.text = false := by
      simp only [isDirective, Bool.or_eq_false_iff] at hd
      exact hd.1.1.2
    have henter : enterLine l.text notes (p.setReader x) =
        .ok (.text l.text notes) (p.setReader x) :=
      enterLine_command (by simp [session_setReader hs x, hin]) (by simp [dropLineComment, hc]) hd
    exact ⟨x, hi, s, l, x, l.text, notes, p.setReader x, l.text, p.setReader x, l.text, hs, hread,
      hne, henter, by simp [leaveSection, hclose], by simp [dropBlockComments, hb], htrim, hproc⟩
  · cases hfirst

def noted? : Outcome Turn → Option Notes
  | .ok (.more n) _ => some n
  | _ => none

theorem turn_noted (h : noted? (turn notes p) = some n) :
    turn notes p = .ok (.more n) (stateOf (turn notes p)) := by
  generalize turn notes p = o at h ⊢
  unfold noted? at h
  split at h
  · rw [Option.some.inj h]
    rfl
  · cases h

def lending : Processor := openedMain true
  [("main.nscr", "<info>requirepackages=b,c<endinfo>\na"),
    ("b.nscr", "##! text of b\n<info>license=l<endinfo>\nx"),
    ("c.nscr", "procedure $f()\nendprocedure")]

def lent : Processor := final (lending.called 9) lending

def lentNotes : Notes := ⟨"##! text of b\n".toList⟩

def lentTo : Processor := stateOf (turn lentNotes (stateOf (turn {} lent)))

def lentHeader : Text := "procedure $f()".toList

theorem lent_feeds : Feeds {} lent lentNotes lentTo := by
  have hfirst : noted? (turn {} lent) = some lentNotes := by decide +kernel
  have hsecond : noted? (turn lentNotes (stateOf (turn {} lent))) = some lentNotes := by
    decide +kernel
  exact .tail (.tail (.refl {} lent) (turn_noted hfirst)) (turn_noted hsecond)

theorem lent_attaches :
    ∃ x, Attaches lentNotes lentTo lentHeader lentNotes (lentTo.setReader x) := by
  apply attaches_firstLine <;> decide +kernel

theorem after_append (calls more : List Call) (p : Processor) :
    after more (after calls p) = after (calls ++ more) p := List.foldl_append.symm

theorem documentation_provenance_lent :
    ∃ x, Attaches lentNotes lentTo lentHeader lentNotes (lentTo.setReader x) ∧
      Made (Heard lent lentNotes lentTo) lentNotes := by
  obtain ⟨x, ha⟩ := lent_attaches
  have hf := lent_feeds
  have hcalled : lending.isOpen = true ∧ (lending.called 9).isSome = true := by decide +kernel
  have hlent : lent = after [.next] lending := by
    rw [after_called hcalled.1 hcalled.2, after, List.foldl_nil, lent]
  rw [lending, openedMain_eq, after_append] at hlent
  refine ⟨x, ha, ?_⟩
  generalize lentTo = p at hf ha ⊢
  rw [hlent] at hf ⊢
  exact (documentation_provenance _ _ _ _ _ _ _ _ hf ha).2.2.1

theorem documentation_lent :
    ∃ x, Feeds {} lent lentNotes lentTo ∧
      Attaches lentNotes lentTo lentHeader lentNotes (lentTo.setReader x) ∧
      lentTo.place = some ⟨"s/c.nscr".toList⟩ ∧
      (lentTo.files.readText ⟨"s/c.nscr".toList⟩).toOption =
        some "procedure $f()\nendprocedure".toList ∧
      ∃ r, lent.next? = some (.ok "procedure $f()##! text of b\n".toList r) := by
  obtain ⟨x, ha⟩ := lent_attaches
  have hplace : lentTo.place = some ⟨"s/c.nscr".toList⟩ := by decide +kernel
  have hread : (lentTo.files.readText ⟨"s/c.nscr".toList⟩).toOption =
      some "procedure $f()\nendprocedure".toList := by decide +kernel
  have hcalled : lent.isOpen = true ∧
      (lent.called 9).bind given? = some "procedure $f()##! text of b\n".toList := by decide +kernel
  exact ⟨x, lent_feeds, ha, hplace, hread, _, next?_given 9 hcalled.1 hcalled.2⟩

end Processor

end ScriptFeed
