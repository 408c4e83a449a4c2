import Mathlib.Data.Finset.Card
import ScriptFeed.Breakpoint

namespace ScriptFeed

abbrev Place := List Text × Nat

def Path.place (file : Path) (line : Nat) : Place := (file.components, line)

theorem Path.same_iff {p q : Path} : p.same q = true ↔ p.components = q.components := beq_iff_eq

namespace Breakpoints

inductive Edit where
  | add (file : Path) (line : Nat)
  | remove (file : Path) (line : Nat)
  | clear
deriving DecidableEq, Repr

def Edit.store (b : Breakpoints) : Edit → Breakpoints
  | add file line => (b.add file line).2
  | remove file line => (b.remove file line).2
  | clear => b.clear

def Edit.mark (m : Finset Place) : Edit → Finset Place
  | add file line => insert (file.place line) m
  | remove file line => m.erase (file.place line)
  | clear => ∅

def stored (edits : List Edit) : Breakpoints := edits.foldl Edit.store {}

def places (edits : List Edit) : Finset Place := edits.foldl Edit.mark ∅

variable {b : Breakpoints} {file : Path} {line n : Nat} {ns : List Nat} {place : Place}
  {entry : Path × List Nat} {files : List (Path × List Nat)} {m : Finset Place}

theorem mem_insertLine : n ∈ insertLine line ns ↔ n = line ∨ n ∈ ns := by
  induction ns with
  | nil => simp [insertLine]
  | cons k ns ih =>
    rw [insertLine]
    split
    · simp
    · by_cases h : line = k
      · simp [h]
      · rw [if_neg h]
        simp only [List.mem_cons, ih]
        grind

theorem insertLine_ascending (h : ns.Pairwise (· < ·)) : (insertLine line ns).Pairwise (· < ·) := by
  induction ns with
  | nil => simp [insertLine]
  | cons k ns ih =>
    obtain ⟨hk, hns⟩ := List.pairwise_cons.mp h
    rw [insertLine]
    by_cases hlt : line < k
    · rw [if_pos hlt, List.pairwise_cons]
      refine ⟨?_, h⟩
      intro n hn
      rcases List.mem_cons.mp hn with rfl | hn
      · exact hlt
      · exact hlt.trans (hk n hn)
    · rw [if_neg hlt]
      split
      · exact h
      · rw [List.pairwise_cons]
        refine ⟨?_, ih hns⟩
        intro n hn
        rcases mem_insertLine.mp hn with rfl | hn
        · omega
        · exact hk n hn

structure Kept (files : List (Path × List Nat)) : Prop where
  once : files.Pairwise (·.1.components ≠ ·.1.components)
  ascending : ∀ entry ∈ files, entry.2.Pairwise (· < ·)
  occupied : ∀ entry ∈ files, entry.2 ≠ []

theorem kept_nil : Kept [] := ⟨.nil, by simp, by simp⟩

theorem kept_cons : Kept (entry :: files) ↔ Kept files ∧ entry.2.Pairwise (· < ·) ∧ entry.2 ≠ [] ∧
    ∀ other ∈ files, entry.1.components ≠ other.1.components := by
  constructor
  · rintro ⟨honce, hascending, hoccupied⟩
    obtain ⟨hne, honce⟩ := List.pairwise_cons.mp honce
    obtain ⟨ha, hascending⟩ := List.forall_mem_cons.mp hascending
    obtain ⟨ho, hoccupied⟩ := List.forall_mem_cons.mp hoccupied
    exact ⟨⟨honce, hascending, hoccupied⟩, ha, ho, hne⟩
  · rintro ⟨⟨honce, hascending, hoccupied⟩, ha, ho, hne⟩
    exact ⟨List.pairwise_cons.mpr ⟨hne, honce⟩, List.forall_mem_cons.mpr ⟨ha, hascending⟩,
      List.forall_mem_cons.mpr ⟨ho, hoccupied⟩⟩

def marks (files : List (Path × List Nat)) : List Place :=
  files.flatMap fun entry => entry.2.map entry.1.place

theorem mem_marks : place ∈ marks files ↔
    ∃ entry ∈ files, entry.1.components = place.1 ∧ place.2 ∈ entry.2 := by
  obtain ⟨key, n⟩ := place
  simp only [marks, List.mem_flatMap, List.mem_map, Path.place, Prod.mk.injEq]
  grind

theorem mem_marks_cons : place ∈ marks (entry :: files) ↔
    (entry.1.components = place.1 ∧ place.2 ∈ entry.2) ∨ place ∈ marks files := by
  simp [mem_marks]

theorem components_mark (h : entry ∈ mark file line files) :
    entry.1.components = file.components ∨
      ∃ other ∈ files, other.1.components = entry.1.components := by
  induction files with
  | nil =>
    rw [mark, List.mem_singleton] at h
    exact .inl (by rw [h])
  | cons first files ih =>
    rw [mark] at h
    split at h
    · rcases List.mem_cons.mp h with rfl | h
      · exact .inr ⟨first, List.mem_cons_self, rfl⟩
      · exact .inr ⟨entry, List.mem_cons_of_mem _ h, rfl⟩
    · rcases List.mem_cons.mp h with rfl | h
      · exact .inr ⟨first, List.mem_cons_self, rfl⟩
      · rcases ih h with he | ⟨other, hother, he⟩
        · exact .inl he
        · exact .inr ⟨other, List.mem_cons_of_mem _ hother, he⟩

theorem mem_marks_mark :
    place ∈ marks (mark file line files) ↔ place = file.place line ∨ place ∈ marks files := by
  obtain ⟨key, n⟩ := place
  induction files with
  | nil => simp [mark, marks, Path.place]
  | cons first files ih =>
    rw [mark]
    by_cases hsame : first.1.same file = true
    · rw [if_pos hsame, mem_marks_cons, mem_marks_cons, mem_insertLine]
      rw [Path.same_iff] at hsame
      simp only [Path.place, Prod.mk.injEq]
      grind
    · rw [if_neg hsame, mem_marks_cons, mem_marks_cons, ih]
      grind

theorem Kept.mark (h : Kept files) : Kept (mark file line files) := by
  induction files with
  | nil => exact kept_cons.mpr ⟨kept_nil, by simp, by simp, by simp⟩
  | cons first files ih =>
    obtain ⟨hfiles, hascending, hoccupied, hne⟩ := kept_cons.mp h
    rw [Breakpoints.mark]
    by_cases hsame : first.1.same file = true
    · rw [if_pos hsame]
      have hsome : line ∈ insertLine line first.2 := mem_insertLine.mpr (.inl rfl)
      exact kept_cons.mpr ⟨hfiles, insertLine_ascending hascending, List.ne_nil_of_mem hsome, hne⟩
    · rw [if_neg hsame]
      rw [Path.same_iff] at hsame
      refine kept_cons.mpr ⟨ih hfiles, hascending, hoccupied, ?_⟩
      intro other hother
      rcases components_mark hother with he | ⟨third, hthird, he⟩
      · rwa [he]
      · rw [← he]
        exact hne third hthird

theorem mem_marks_occupied (file : Path) (ns : List Nat) :
    place ∈ marks (if ns = [] then files else (file, ns) :: files) ↔
      (file.components = place.1 ∧ place.2 ∈ ns) ∨ place ∈ marks files := by
  by_cases h : ns = []
  · simp [h]
  · rw [if_neg h]
    exact mem_marks_cons

theorem components_unmark (h : entry ∈ unmark file line files) :
    ∃ other ∈ files, other.1.components = entry.1.components := by
  induction files with
  | nil => exact absurd h List.not_mem_nil
  | cons first files ih =>
    rw [unmark] at h
    dsimp only at h
    split at h
    · split at h
      · exact ⟨entry, List.mem_cons_of_mem _ h, rfl⟩
      · rcases List.mem_cons.mp h with rfl | h
        · exact ⟨first, List.mem_cons_self, rfl⟩
        · exact ⟨entry, List.mem_cons_of_mem _ h, rfl⟩
    · rcases List.mem_cons.mp h with rfl | h
      · exact ⟨first, List.mem_cons_self, rfl⟩
      · obtain ⟨other, hother, he⟩ := ih h
        exact ⟨other, List.mem_cons_of_mem _ hother, he⟩

theorem mem_marks_unmark (h : Kept files) :
    place ∈ marks (unmark file line files) ↔ place ≠ file.place line ∧ place ∈ marks files := by
  obtain ⟨key, n⟩ := place
  induction files with
  | nil => simp [unmark, marks]
  | cons first files ih =>
    obtain ⟨hfiles, -, -, hne⟩ := kept_cons.mp h
    rw [unmark]
    dsimp only
    by_cases hsame : first.1.same file = true
    · rw [if_pos hsame]
      rw [Path.same_iff] at hsame
      -- the other files have other components, so their marks stay
      have hothers : (key, n) ∈ marks files → key ≠ file.components := by
        intro hmem
        obtain ⟨other, hother, he, -⟩ := mem_marks.mp hmem
        have hdiffers := hne other hother
        grind
      rw [mem_marks_occupied, mem_marks_cons]
      simp only [Path.place, ne_eq, Prod.mk.injEq, List.mem_filter, decide_eq_true_eq]
      grind
    · rw [if_neg hsame, mem_marks_cons, mem_marks_cons, ih hfiles]
      rw [Path.same_iff] at hsame
      simp only [Path.place, ne_eq, Prod.mk.injEq]
      grind

theorem Kept.unmark (h : Kept files) : Kept (unmark file line files) := by
  induction files with
  | nil => exact kept_nil
  | cons first files ih =>
    obtain ⟨hfiles, hascending, hoccupied, hne⟩ := kept_cons.mp h
    rw [Breakpoints.unmark]
    dsimp only
    split
    · split
      · exact hfiles
      next hleft => exact kept_cons.mpr ⟨hfiles, hascending.filter _, hleft, hne⟩
    · refine kept_cons.mpr ⟨ih hfiles, hascending, hoccupied, ?_⟩
      intro other hother
      obtain ⟨third, hthird, he⟩ := components_unmark hother
      rw [← he]
      exact hne third hthird

theorem lines_cons (entry : Path × List Nat) (files : List (Path × List Nat)) (file : Path) :
    lines ⟨entry :: files⟩ file = if entry.1.same file then entry.2 else lines ⟨files⟩ file := by
  unfold lines
  rw [List.find?_cons]
  cases entry.1.same file <;> rfl

theorem mem_lines (h : Kept files) : n ∈ lines ⟨files⟩ file ↔ file.place n ∈ marks files := by
  induction files with
  | nil => simp [lines, marks]
  | cons first files ih =>
    obtain ⟨hfiles, -, -, hne⟩ := kept_cons.mp h
    rw [lines_cons, mem_marks_cons]
    by_cases hsame : first.1.same file = true
    · rw [if_pos hsame]
      rw [Path.same_iff] at hsame
      have hothers : file.place n ∉ marks files := by
        intro hmem
        obtain ⟨other, hother, he, -⟩ := mem_marks.mp hmem
        exact hne other hother (hsame.trans he.symm)
      rw [or_iff_left hothers]
      simp [Path.place, hsame]
    · rw [if_neg hsame, ih hfiles]
      rw [Path.same_iff] at hsame
      simp [Path.place, hsame]

theorem lines_ascending (h : Kept files) (file : Path) : (lines ⟨files⟩ file).Pairwise (· < ·) := by
  induction files with
  | nil => exact .nil
  | cons first files ih =>
    obtain ⟨hfiles, hascending, -, -⟩ := kept_cons.mp h
    rw [lines_cons]
    split
    · exact hascending
    · exact ih hfiles

theorem nodup_marks (h : Kept files) : (marks files).Nodup := by
  induction files with
  | nil => exact .nil
  | cons first files ih =>
    obtain ⟨hfiles, hascending, -, hne⟩ := kept_cons.mp h
    rw [marks, List.flatMap_cons, ← marks, List.nodup_append]
    refine ⟨?_, ih hfiles, ?_⟩
    · apply List.Nodup.map
      · intro i j hij
        exact (Prod.mk.inj hij).2
      · exact hascending.imp Nat.ne_of_lt
    · intro place hfirst other hother he
      subst he
      obtain ⟨n, -, rfl⟩ := List.mem_map.mp hfirst
      obtain ⟨entry, hentry, he, -⟩ := mem_marks.mp hother
      exact hne entry hentry he.symm

theorem size_eq_length (files : List (Path × List Nat)) : size ⟨files⟩ = (marks files).length := by
  unfold size marks
  dsimp only
  induction files with
  | nil => rfl
  | cons first files ih =>
    rw [List.foldr_cons, ih, List.flatMap_cons, List.length_append, List.length_map]

theorem isEmpty_iff (h : Kept files) : isEmpty ⟨files⟩ = true ↔ size ⟨files⟩ = 0 := by
  cases files with
  | nil => simp [isEmpty, size]
  | cons first files =>
    have hoccupied := List.length_pos_of_ne_nil (h.occupied first List.mem_cons_self)
    unfold isEmpty size
    simp only [List.isEmpty_cons, List.foldr_cons, Bool.false_eq_true, false_iff]
    omega

structure Holds (b : Breakpoints) (m : Finset Place) : Prop where
  kept : Kept b.files
  marks : ∀ place, place ∈ marks b.files ↔ place ∈ m

theorem Holds.store (h : Holds b m) (e : Edit) : Holds (e.store b) (e.mark m) := by
  cases e with
  | add file line =>
    refine ⟨h.kept.mark, ?_⟩
    intro place
    rw [Edit.mark, Finset.mem_insert, ← h.marks]
    exact mem_marks_mark
  | remove file line =>
    refine ⟨h.kept.unmark, ?_⟩
    intro place
    rw [Edit.mark, Finset.mem_erase, ← h.marks]
    exact mem_marks_unmark h.kept
  | clear =>
    exact ⟨kept_nil, fun place => iff_of_false List.not_mem_nil (Finset.notMem_empty place)⟩

theorem stored_holds (edits : List Edit) : Holds (stored edits) (places edits) := by
  have hrun (b : Breakpoints) (m : Finset Place) (h : Holds b m) :
      Holds (edits.foldl Edit.store b) (edits.foldl Edit.mark m) := by
    induction edits generalizing b m with
    | nil => exact h
    | cons e edits ih => exact ih (e.store b) (e.mark m) (h.store e)
  exact hrun {} ∅ ⟨kept_nil, fun place => iff_of_false List.not_mem_nil (Finset.notMem_empty place)⟩

theorem Holds.contains (h : Holds b m) : b.contains file line = true ↔ file.place line ∈ m := by
  rw [Breakpoints.contains, List.contains_iff_mem, ← h.marks]
  exact mem_lines h.kept

theorem Holds.size (h : Holds b m) : b.size = m.card := by
  have hset : (Breakpoints.marks b.files).toFinset = m := by
    ext place
    rw [List.mem_toFinset, h.marks]
  rw [← hset, List.toFinset_card_of_nodup (nodup_marks h.kept)]
  exact size_eq_length b.files

structure AnswersFor (b : Breakpoints) (m : Finset Place) : Prop where
  contains : ∀ file line, b.contains file line = true ↔ file.place line ∈ m
  marked : ∀ file line, b.marked file line = true ↔ file.place line ∈ m
  add : ∀ file line, (b.add file line).1 = true ↔ file.place line ∉ m
  remove : ∀ file line, (b.remove file line).1 = true ↔ file.place line ∈ m
  size : b.size = m.card
  isEmpty : b.isEmpty = true ↔ b.size = 0
  lines : ∀ file line, line ∈ b.lines file ↔ file.place line ∈ m
  ascending : ∀ file, (b.lines file).Pairwise (· < ·)

theorem Holds.answers (h : Holds b m) : AnswersFor b m where
  contains file line := h.contains
  marked file line := h.contains
  add file line := by rw [Breakpoints.add, Bool.not_eq_true', ← Bool.not_eq_true, h.contains]
  remove file line := h.contains
  size := h.size
  isEmpty := isEmpty_iff h.kept
  lines file line := by
    rw [← h.marks]
    exact mem_lines h.kept
  ascending := lines_ascending h.kept

def Edit.Lifts (place : Place) : Edit → Prop
  | add _ _ => False
  | remove file line => file.place line = place
  | clear => True

/-- A place was marked and its mark not taken back since. -/
def Standing (edits : List Edit) (place : Place) : Prop :=
  ∃ before file line after, edits = before ++ .add file line :: after ∧ file.place line = place ∧
    ∀ e ∈ after, ¬e.Lifts place

theorem standing_concat {edits : List Edit} {e : Edit} : Standing (edits ++ [e]) place ↔
    (∃ file line, e = .add file line ∧ file.place line = place) ∨
      Standing edits place ∧ ¬e.Lifts place := by
  constructor
  · rintro ⟨before, file, line, after, hedits, hplace, hafter⟩
    rcases List.eq_nil_or_concat' after with rfl | ⟨init, last, rfl⟩
    · have hlast := (List.append_inj' hedits rfl).2
      exact .inl ⟨file, line, List.singleton_inj.mp hlast, hplace⟩
    · rw [← List.cons_append, ← List.append_assoc] at hedits
      obtain ⟨rfl, hlast⟩ := List.append_inj' hedits rfl
      rw [List.singleton_inj] at hlast
      subst hlast
      exact .inr ⟨⟨before, file, line, init, rfl, hplace, fun e he => hafter e (by simp [he])⟩,
        hafter e (by simp)⟩
  · rintro (⟨file, line, rfl, hplace⟩ | ⟨⟨before, file, line, after, rfl, hplace, hafter⟩, he⟩)
    · exact ⟨edits, file, line, [], rfl, hplace, by simp⟩
    · refine ⟨before, file, line, after ++ [e], by simp, hplace, ?_⟩
      intro e' he'
      rcases List.mem_append.mp he' with he' | he'
      · exact hafter e' he'
      · rwa [List.mem_singleton.mp he']

theorem mem_places (edits : List Edit) (place : Place) :
    place ∈ places edits ↔ Standing edits place := by
  induction edits using List.reverseRecOn with
  | nil => exact iff_of_false (Finset.notMem_empty place) (by simp [Standing])
  | append_singleton edits e ih =>
    rw [standing_concat, ← ih, places, List.foldl_append, ← places, List.foldl_cons, List.foldl_nil]
    cases e with
    | add file line => simp [Edit.mark, Edit.Lifts, eq_comm]
    | remove file line => simp [Edit.mark, Edit.Lifts, eq_comm, and_comm]
    | clear => simp [Edit.mark, Edit.Lifts]

/-- However a store was edited, it answers for the set of the places that were marked and not taken
back since. -/
theorem store_refines_set (edits : List Edit) :
    (∀ place, place ∈ places edits ↔ Standing edits place) ∧
      AnswersFor (stored edits) (places edits) :=
  ⟨mem_places edits, (stored_holds edits).answers⟩

example :
    (stored [.add ⟨"a/b".toList⟩ 3, .add ⟨"a//b/".toList⟩ 1, .remove ⟨"a/./b".toList⟩ 3]).lines
    ⟨"a/b".toList⟩ = [1] := by decide +kernel

end Breakpoints

end ScriptFeed
