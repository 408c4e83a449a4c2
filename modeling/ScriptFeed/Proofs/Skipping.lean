import ScriptFeed.Proofs.Drained
import ScriptFeed.Proofs.Physical
import ScriptFeed.Proofs.Scanning

namespace ScriptFeed.Processor

open Package Comment

variable {p q : Processor} {notes : Notes} {cs : List Text} {es : List Failure} {fs : Files}

theorem readLine_single {r r' : LineReader} {t : Text} {b : Bool} (hs : p.session = some ⟨r, b⟩)
    (hm : ∀ path n, p.marked path n = false) (h : r.next p.files = .ok (some t, r'))
    (ht : LineReader.continues t = false) (hne : t ≠ []) (notes : Notes) :
    readLine notes p = readText t notes { p with session := some ⟨r', b⟩ } := by
  rw [readLine_run hs, LineReader.nextLogical_single h hm ht]
  simp only [if_neg hne, setReader, hs, Option.map_some]

theorem turn_nothing {n : Notes} (hi : p.inclusion = none)
    (h : readLine notes p = .ok (.nothing n) q) : turn notes p = .ok (.more n) q := by
  rw [turn, bind_ok (get_run p), hi]
  dsimp only
  rw [bind_ok h]
  rfl

theorem dropLineComment_startsWith {pat t : Text} (hpat : ∀ c ∈ pat, '#' ≠ c ∧ c ≠ '"')
    (hne : pat ≠ []) (h : Text.startsWith pat t = true) (hmode : p.installMode = false) :
    ∃ u, p.dropLineComment t {} = (some u, {}) ∧ Text.startsWith pat u = true := by
  have hnotes : p.noted lineDocMark t {} = {} := by simp [noted, hmode]
  have hstrip := stripLine_startsWith hpat hne h p.keepsDocs
  unfold dropLineComment
  rw [hnotes]
  dsimp only
  split
  · split
    next hnil =>
      obtain ⟨c, pat, rfl⟩ := List.exists_cons_of_ne_nil hne
      rw [hnil] at hstrip
      simp [Text.startsWith, Text.after?] at hstrip
    · exact ⟨_, rfl, hstrip⟩
  · exact ⟨t, rfl, h⟩

theorem skipSection_run {r r' : LineReader} {b : Bool} {passage : LineReader.Passage}
    (hs : p.session = some ⟨r, b⟩)
    (h : r.through p.files (Text.startsWith installClose) = .ok (passage, r')) :
    skipSection p = .ok ⟨⟩ ({ p with session := some ⟨r', b⟩ }.emit (.sectionSkipped r'.line)) := by
  unfold skipSection
  rw [bind_ok (get_run p), hs]
  dsimp only
  rw [h]
  simp only [lift, pure_bind, modify_run, setReader, hs, Option.map_some]

theorem turn_skips {r r₁ r' : LineReader} {first : Text} {passage : LineReader.Passage}
    (hs : p.session = some ⟨r, false⟩) (hi : p.inclusion = none) (hmode : p.installMode = false)
    (hm : ∀ path n, p.marked path n = false) (hfirst : r.next p.files = .ok (some first, r₁))
    (hopen : Text.startsWith installOpen first = true)
    (hsingle : Text.endsWith LineReader.continuation first = false)
    (hpassage : r₁.through p.files (Text.startsWith installClose) = .ok (passage, r')) :
    turn {} p =
      .ok (.more {}) ({ p with session := some ⟨r', false⟩ }.emit (.sectionSkipped r'.line)) := by
  let p₁ : Processor := { p with session := some ⟨r₁, false⟩ }
  have hne : first ≠ [] := by
    rintro rfl
    revert hopen
    decide
  have hline := readLine_single hs hm hfirst (LineReader.continues_of_endsWith hsingle) hne {}
  have hall : installOpen.all (fun c => '#' ≠ c ∧ c ≠ '"') = true := by decide
  have hbare : ∀ c ∈ installOpen, '#' ≠ c ∧ c ≠ '"' :=
    fun c hc => of_decide_eq_true (List.all_eq_true.mp hall c hc)
  obtain ⟨u, hdrop, hu⟩ := dropLineComment_startsWith (p := p₁) hbare (by decide) hopen hmode
  have henter : enterLine first {} p₁ = .ok (.used (.nothing {}))
      ({ p with session := some ⟨r', false⟩ }.emit (.sectionSkipped r'.line)) := by
    have hskip := skipSection_run (p := p₁) rfl hpassage
    have hsection : enterSection u p₁ = .ok none
        ({ p with session := some ⟨r', false⟩ }.emit (.sectionSkipped r'.line)) := by
      rw [enterSection, if_pos hu, bind_ok (get_run p₁), if_neg (by simp [p₁, hmode]),
        bind_ok hskip]
      rfl
    unfold enterLine
    rw [bind_ok (leaveComment_outside (p := p₁) rfl)]
    dsimp only
    rw [bind_ok (get_run p₁), hdrop]
    dsimp only
    rw [bind_ok hsection]
    rfl
  apply turn_nothing hi
  rw [hline, readText, bind_ok henter]
  rfl

/-- Outside install mode, where no line is marked, an install section is not seen: draining from its
first line comes to the same as draining from behind it, whatever the lines of the section are. -/
theorem install_section_unseen (p : Processor) (r r' : LineReader) (first last : Text)
    (body : List Text) (n : Nat) (hs : p.session = some ⟨r, false⟩) (hi : p.inclusion = none)
    (hmode : p.installMode = false) (hm : ∀ path n, p.marked path n = false)
    (hlines : r.Yields p.files (first :: (body ++ [last])) r')
    (hopen : Text.startsWith installOpen first = true)
    (hsingle : Text.endsWith LineReader.continuation first = false)
    (hbody : ∀ t ∈ body, Text.startsWith installClose t = false)
    (hlast : Text.startsWith installClose last = true)
    (cs : List Text) (es : List Failure) (fs : Files) :
    Comes p cs es fs ↔
      Comes { p with session := some ⟨{ r' with line := n }, false⟩ } cs es fs := by
  obtain ⟨r₁, hfirst, hrest⟩ := hlines.next
  have hturn := turn_skips hs hi hmode hm hfirst hopen hsingle (hrest.through hbody hlast)
  let behind : Processor := { p with session := some ⟨r', false⟩ }
  calc Comes p cs es fs
    _ ↔ Comes (behind.emit (.sectionSkipped r'.line)) cs es fs :=
      comes_turn (isOpen_of_session hs) rfl hturn
    _ ↔ Comes behind cs es fs := comes_events (p := behind) rfl _
    _ ↔ _ := comes_counter (p := behind) hm rfl n

def sectioned : Processor :=
  openedMain false [("main.nscr", "<install> ## x\n#* a\n@c\nprocedure d \\\\\n<endinstall>\nb\n")]

theorem install_section_unseen_sectioned : ∃ r' : LineReader, ∀ n : Nat,
    LineReader.Yields sectioned.files ["<install> ## x".toList, "#* a".toList, "@c".toList,
      "procedure d \\\\".toList, "<endinstall>".toList]
      { path := ⟨"s/main.nscr".toList⟩, stream := .file 0 0 } r' ∧
    Comes sectioned ["b".toList] [] sectioned.files ∧
    Comes { sectioned with session := some ⟨{ r' with line := n }, false⟩ } ["b".toList] []
      sectioned.files := by
  let r : LineReader := { path := ⟨"s/main.nscr".toList⟩, stream := .file 0 0 }
  let body : List Text := ["#* a".toList, "@c".toList, "procedure d \\\\".toList]
  have hlines : (r.lines? sectioned.files 5).map (·.1) =
      some ("<install> ## x".toList :: (body ++ ["<endinstall>".toList])) := by decide +kernel
  have hdrain : Comes sectioned ["b".toList] [] sectioned.files :=
    comes_of_drainWithin 9 (by decide +kernel)
  obtain ⟨⟨_, r'⟩, hr', rfl⟩ := Option.map_eq_some_iff.mp hlines
  refine ⟨r', fun n => ⟨LineReader.yields_of_lines? hr', hdrain, ?_⟩⟩
  have hsame := install_section_unseen sectioned r r' "<install> ## x".toList "<endinstall>".toList
    body n (by decide +kernel) (by decide +kernel) (by decide +kernel) (fun _ _ => rfl)
    (LineReader.yields_of_lines? hr') (by decide +kernel) (by decide +kernel) (by decide +kernel)
    (by decide +kernel)
  exact (hsame _ _ _).mp hdrain

end ScriptFeed.Processor
