import ScriptFeed.Proofs.Simulation

namespace ScriptFeed

theorem Files.Alike.eq_of_none {fs fs' : Files} (h : fs.Alike (fun _ => False) fs') : fs' = fs := by
  have hcontents : fs'.contents = fs.contents := by
    apply List.ext_getElem h.length
    intro i hi hi'
    have hbytes := h.outside i not_false
    simpa [Files.bytes, hi, hi'] using hbytes
  obtain ⟨directories, names, contents, here⟩ := fs
  obtain ⟨directories', names', contents', here'⟩ := fs'
  obtain rfl : directories' = directories := h.directories
  obtain rfl : names' = names := h.names
  obtain rfl : here' = here := h.here
  obtain rfl : contents' = contents := hcontents
  rfl

namespace Processor

open Package Comment

variable {k : Nat} {C : Processor → Prop} {R F P : Processor → Processor → Prop} {p q : Processor}

structure TurnSimulation (k : Nat) (C : Processor → Prop)
    (R F P : Processor → Processor → Prop) : Prop
    extends Simulation k C (fun _ => False) R F P where
  marked : ∀ {p q}, R p q → q.marked = p.marked
  counted : ∀ {p q}, R p q → LineReader.Counted k p.marked
  functions : ∀ {p q}, R p q → q.functions = p.functions
  expandThis : ∀ {p q}, R p q → q.expandThis = p.expandThis
  define : ∀ {p q} functions, R p q → R { p with functions } { q with functions }

variable (S : TurnSimulation k C R F P)
include S

theorem TurnSimulation.files_eq (h : R p q) : q.files = p.files := (S.files h).eq_of_none

theorem readLine_abreast (h : R p q) (notes : Notes) :
    Abreast F P (readLine notes) (readLine notes) p q (fun r => ∃ n, r = .nothing n)
      (fun r p' q' => F p' q' ∧ ((∀ n, r ≠ .nothing n) → R p' q')) := by
  unfold readLine
  apply Abreast.get
  rw [S.session h, S.files_eq h, S.marked h]
  cases hs : p.session with
  | none => exact .pure ⟨S.failed h, fun _ => h⟩
  | some s =>
    dsimp only [Option.map_some, Session.ahead_reader]
    rw [LineReader.nextLogical_ahead (S.counted h)]
    apply Abreast.lift_map _ (S.failed h)
    rintro ⟨logical, reader⟩ hx
    apply Abreast.next (Q := fun _ => R)
    · exact .modify (S.setReader h hs (LineReader.nextLogical_reads hx))
    · rintro - p q h
      cases logical with
      | none => exact .pure ⟨S.failed h, fun _ => h⟩
      | some l =>
        by_cases ht : l.text = []
        · simp only [Prod.map_apply, Option.map_some, LineReader.LogicalLine.ahead, ht, if_true]
          exact .pure ⟨S.failed h, fun _ => h⟩
        · simp only [Prod.map_apply, Option.map_some, LineReader.LogicalLine.ahead, ht, if_false]
          exact readText_abreast S.toSimulation h l.text notes

theorem readIncluded_abreast (h : R p q) (i : Inclusion) :
    Abreast F P (readIncluded i) (readIncluded i) p q Never (fun _ => R) := by
  unfold readIncluded
  apply Abreast.get
  rw [S.files_eq h, S.marked h]
  apply Abreast.lift (S.failed h)
  rintro ⟨line, j⟩ -
  cases line with
  | some u =>
    apply Abreast.next (Q := fun _ => R)
    · apply Abreast.set
      simpa only [S.files_eq h, S.marked h] using S.include (some j) h
    · rintro - p q h
      exact .pure h
  | none =>
    have hended : R (p.emit (.includeExhausted j.reader.path))
        (q.emit (.includeExhausted j.reader.path)) := S.emit h rfl
    apply Abreast.next (Q := fun _ => R)
    · apply Abreast.set
      apply S.include
      apply S.emit _ rfl
      split
      · exact S.emit hended rfl
      · exact hended
    · rintro - p q h
      exact .pure h

theorem command?_abreast (h : R p q) (t : Text) :
    Abreast F P (command? t) (command? t) p q Never (fun _ => R) := by
  unfold command?
  apply Abreast.get
  rw [S.installMode h, S.functions h]
  split
  · apply Abreast.next (Q := fun _ => R)
    · exact .set (S.echoLine h t)
    · rintro - p q h
      exact .pure h
  · split
    · exact .throw _ (S.failed h)
    · split
      · split
        · exact .throw _ (S.failed h)
        next f functions _ =>
          apply Abreast.next (Q := fun _ => R)
          · apply Abreast.set
            simpa only [S.installMode h] using S.emit (S.define functions h) rfl
          · rintro - p q h
            exact .pure h
      · exact .pure h

theorem scriptCommand?_abreast (h : R p q) (t : Text) :
    Abreast F P (scriptCommand? t) (scriptCommand? t) p q Never (fun _ => R) := by
  unfold scriptCommand?
  cases Marker.parse? t with
  | none => exact command?_abreast S h t
  | some m =>
    dsimp only
    split
    · apply Abreast.next (Q := fun _ => R)
      · exact .modify (S.emit h rfl)
      · rintro - p q h
        exact .pure h
    · apply (openInclusion_abreast S.toSimulation h m t).next
      rintro - p q h
      exact .pure h

theorem turn_abreast (h : R p q) (notes : Notes) :
    Abreast F P (turn notes) (turn notes) p q (fun x => ∃ n, x = .more n)
      (fun x p' q' => F p' q' ∧ ∀ t, x = .command t → R p' q') := by
  unfold turn
  apply Abreast.get
  rw [S.inclusion h]
  cases p.inclusion with
  | some i =>
    apply (readIncluded_abreast S h i).next
    intro line p q h
    cases line with
    | none => exact .pure ⟨S.failed h, fun _ _ => h⟩
    | some u =>
      apply Abreast.get
      rw [S.expandThis h]
      apply (command?_abreast S h _).next
      intro command p q h
      exact .pure ⟨S.failed h, fun _ _ => h⟩
  | none =>
    apply (readLine_abreast S h notes).bind
    · rintro r p q ⟨hF, hR⟩
      cases r with
      | stop => exact .pure ⟨hF, fun _ _ => hR nofun⟩
      | nothing n => exact .pure ⟨hF, nofun⟩
      | line u =>
        have h := hR nofun
        apply Abreast.get
        rw [S.expandThis h]
        apply (scriptCommand?_abreast S h _).next
        intro command p q h
        exact .pure ⟨S.failed h, fun _ _ => h⟩
    · rintro r ⟨n, rfl⟩
      exact ⟨.more n, ⟨n, rfl⟩, rfl, rfl⟩

end Processor

end ScriptFeed
