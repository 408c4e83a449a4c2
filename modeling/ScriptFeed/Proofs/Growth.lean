import ScriptFeed.Proofs.Reader
import ScriptFeed.Package.Record

namespace ScriptFeed

namespace Files

variable {fs fs' fs'' : Files}

structure Grows (fs fs' : Files) : Prop where
  here : fs'.here = fs.here
  node : ∀ {loc : Location} {x : Handle}, fs.node? loc = some x → fs'.node? loc = some x

theorem Grows.refl (fs : Files) : Grows fs fs := ⟨rfl, id⟩

theorem Grows.trans (h : Grows fs fs') (h' : Grows fs' fs'') : Grows fs fs'' :=
  ⟨h'.here.trans h.here, fun hx => h'.node (h.node hx)⟩

theorem follow_of_node
    (h : ∀ loc, fs.node? loc = some .directory → fs'.node? loc = some .directory)
    {loc loc' : Location} {steps : List Text} (hf : fs.follow loc steps = .ok loc') :
    fs'.follow loc steps = .ok loc' := by
  induction steps generalizing loc with
  | nil => exact hf
  | cons s steps ih =>
    unfold Files.follow at hf ⊢
    cases hn : fs.node? loc with
    | none => simp [hn] at hf
    | some x =>
      cases x with
      | file id => simp [hn] at hf
      | directory =>
        simp only [hn, h loc hn] at hf ⊢
        by_cases hs : 255 < Text.utf8Size s
        · simp [hs] at hf
        · rw [if_neg hs] at hf ⊢
          exact ih hf

theorem Grows.follow (h : Grows fs fs') {loc loc' : Location} {steps : List Text}
    (hf : fs.follow loc steps = .ok loc') : fs'.follow loc steps = .ok loc' :=
  follow_of_node (fun _ => h.node) hf

theorem Grows.start (h : Grows fs fs') (p : Path) : fs'.start p = fs.start p := by
  simp only [Files.start, h.here]

theorem find_of_node (hh : fs'.here = fs.here) {p : Path} {x : Handle}
    (hd : ∀ loc, fs.node? loc = some .directory → fs'.node? loc = some .directory)
    (hx : ∀ loc, fs.node? loc = some x → fs'.node? loc = some x) (hf : fs.find p = .ok x) :
    fs'.find p = .ok x := by
  have hstart : fs'.start p = fs.start p := by simp only [Files.start, hh]
  unfold Files.find at hf ⊢
  rw [hstart]
  cases hs : fs.start p with
  | error e => simp [hs, bind, Except.bind] at hf
  | ok base =>
    simp only [hs, bind, Except.bind] at hf ⊢
    cases hl : fs.follow base (steps p) with
    | error e => simp [hl] at hf
    | ok loc =>
      simp only [hl, follow_of_node hd hl] at hf ⊢
      cases hn : fs.node? loc with
      | none => simp [hn] at hf
      | some y =>
        have hyx : y = x := by
          cases y with
          | directory => simpa [hn] using hf
          | file id =>
            simp only [hn] at hf
            split at hf
            · simp at hf
            · exact Except.ok.inj hf
        subst hyx
        simpa only [hn, hx loc hn] using hf

theorem Grows.find (h : Grows fs fs') {p : Path} {x : Handle} (hf : fs.find p = .ok x) :
    fs'.find p = .ok x :=
  find_of_node h.here (fun _ => h.node) (fun _ => h.node) hf

theorem Grows.parentOf (h : Grows fs fs') {p : Path} {x : Location × Text}
    (hp : fs.parentOf p = .ok (some x)) : fs'.parentOf p = .ok (some x) := by
  unfold Files.parentOf at hp ⊢
  rw [h.start]
  cases hs : fs.start p with
  | error e => simp [hs, bind, Except.bind] at hp
  | ok base =>
    simp only [hs, bind, Except.bind] at hp ⊢
    cases hr : (steps p).reverse with
    | nil => simp [hr] at hp
    | cons last back =>
      simp only [hr] at hp ⊢
      cases hl : fs.follow base back.reverse with
      | error e => simp [hl] at hp
      | ok loc =>
        simp only [hl, h.follow hl] at hp ⊢
        cases hn : fs.node? loc with
        | none => simp [hn] at hp
        | some y => simpa only [hn, h.node hn] using hp

theorem follow_append (loc : Location) (a b : List Text) :
    fs.follow loc (a ++ b) = (fs.follow loc a).bind fun l => fs.follow l b := by
  induction a generalizing loc with
  | nil => rfl
  | cons s a ih =>
    rw [List.cons_append, Files.follow.eq_2, Files.follow.eq_2]
    split
    · rfl
    · rfl
    · split
      · rfl
      · exact ih _

theorem find_of_parent {p : Path} {dir : Location} {name : Text} {x : Handle}
    (hp : fs.parentOf p = .ok (some (dir, name))) (hd : isDots name = false)
    (hn : namesDirectory p = false) (he : fs.entry dir name = .ok (some x)) :
    fs.find p = .ok x := by
  unfold Files.parentOf at hp
  cases hs : fs.start p with
  | error e => simp [hs, bind, Except.bind] at hp
  | ok base =>
    simp only [hs, bind, Except.bind] at hp
    cases hr : (steps p).reverse with
    | nil => simp [hr] at hp
    | cons last back =>
      have hsteps : steps p = back.reverse ++ [last] := by
        rw [← List.reverse_reverse (steps p), hr, List.reverse_cons]
      simp only [hr] at hp
      cases hl : fs.follow base back.reverse with
      | error e => simp [hl] at hp
      | ok loc =>
        simp only [hl] at hp
        cases hnode : fs.node? loc with
        | none => simp [hnode] at hp
        | some y =>
          cases y with
          | file id => simp [hnode] at hp
          | directory =>
            simp only [hnode, Except.ok.injEq, Option.some.injEq, Prod.mk.injEq] at hp
            obtain ⟨rfl, rfl⟩ := hp
            unfold Files.entry at he
            by_cases hsize : 255 < Text.utf8Size last
            · simp [hsize] at he
            · have hmove : move loc last = loc ++ [last] := by
                simp only [isDots, Bool.or_eq_false_iff, beq_eq_false_iff_ne] at hd
                simp [move, hd.1, hd.2]
              have hfollow : fs.follow base (steps p) = .ok (loc ++ [last]) := by
                rw [hsteps, follow_append, hl]
                simp [Except.bind, Files.follow, hnode, hsize, hmove]
              rw [if_neg hsize, Except.ok.injEq] at he
              unfold Files.find
              simp only [hs, bind, Except.bind, hfollow, he]
              cases x <;> simp [hn]

theorem bytes_append (fs : Files) (id j : Nat) (b : Bytes) :
    (fs.append id b).bytes j =
      if j = id ∧ id < fs.contents.length then fs.bytes j ++ b else fs.bytes j := by
  simp only [Files.append, Files.bytes, List.getD_eq_getElem?_getD, List.getElem?_modify]
  by_cases hj : id = j
  · subst hj
    by_cases hl : id < fs.contents.length
    · simp [hl]
    · simp [hl]
  · simp [hj, Ne.symm hj]

theorem bytes_append_ne (fs : Files) {id j : Nat} (b : Bytes) (h : j ≠ id) :
    (fs.append id b).bytes j = fs.bytes j := by
  simp [bytes_append, h]

theorem bytes_append_length (fs : Files) (id j : Nat) (b : Bytes) :
    ((fs.append id b).bytes j).length ≤ (fs.bytes j).length + b.length := by
  rw [bytes_append]
  split <;> simp

theorem append_grows (fs : Files) (id : Nat) (b : Bytes) : Grows fs (fs.append id b) :=
  ⟨rfl, fun h => h⟩

theorem addName_grows (fs : Files) (loc : Location) (id : Nat) (contents : List Bytes) :
    Grows fs { fs with names := fs.names ++ [(loc, id)], contents } := by
  refine ⟨rfl, fun {l x} hx => ?_⟩
  unfold Files.node? at hx ⊢
  dsimp only at hx ⊢
  by_cases hc : (decide (l = []) || fs.directories.contains l) = true
  · rw [if_pos hc] at hx ⊢
    exact hx
  · rw [if_neg hc] at hx ⊢
    obtain ⟨j, hj, rfl⟩ := Option.map_eq_some_iff.mp hx
    rw [List.lookup_append, hj]
    rfl

theorem addName_node {loc : Location} (h : fs.node? loc = none) (id : Nat) (contents : List Bytes) :
    Files.node? { fs with names := fs.names ++ [(loc, id)], contents } loc = some (.file id) := by
  unfold Files.node? at h ⊢
  dsimp only at h ⊢
  by_cases hc : (decide (loc = []) || fs.directories.contains loc) = true
  · rw [if_pos hc] at h
    cases h
  · rw [if_neg hc] at h ⊢
    rw [List.lookup_append, Option.map_eq_none_iff.mp h]
    simp

theorem addFile_bytes (fs : Files) (names : List (Location × Nat)) (j : Nat) :
    Files.bytes { fs with names, contents := fs.contents ++ [[]] } j = fs.bytes j := by
  simp only [Files.bytes, List.getD_eq_getElem?_getD, List.getElem?_append]
  by_cases hj : j < fs.contents.length
  · rw [if_pos hj]
  · rw [if_neg hj, List.getElem?_eq_none (Nat.le_of_not_lt hj)]
    cases j - fs.contents.length <;> simp

theorem openWrite_find {p : Path} {id : Nat} (h : fs.openWrite p = .ok (id, fs')) :
    Grows fs fs' ∧ fs'.find p = .ok (.file id) ∧ ∀ j, fs'.bytes j = fs.bytes j := by
  unfold Files.openWrite at h
  cases hp : fs.parentOf p with
  | error e => simp [hp, bind, Except.bind] at h
  | ok o =>
    cases o with
    | none => simp [hp, bind, Except.bind] at h
    | some x =>
      obtain ⟨dir, name⟩ := x
      simp only [hp, bind, Except.bind] at h
      by_cases hcond : (isDots name || namesDirectory p) = true
      · simp [hcond] at h
      · rw [if_neg hcond] at h
        simp only [Bool.or_eq_true, not_or, Bool.not_eq_true] at hcond
        cases he : fs.entry dir name with
        | error e => simp [he] at h
        | ok y =>
          cases y with
          | some y =>
            cases y with
            | directory => simp [he] at h
            | file i =>
              simp only [he, Except.ok.injEq, Prod.mk.injEq] at h
              obtain ⟨rfl, rfl⟩ := h
              exact ⟨Grows.refl fs, find_of_parent hp hcond.1 hcond.2 he, fun _ => rfl⟩
          | none =>
            simp only [he, Except.ok.injEq, Prod.mk.injEq] at h
            obtain ⟨rfl, rfl⟩ := h
            unfold Files.entry at he
            by_cases hsize : 255 < Text.utf8Size name
            · simp [hsize] at he
            · rw [if_neg hsize, Except.ok.injEq] at he
              have hgrow :=
                addName_grows fs (dir ++ [name]) fs.contents.length (fs.contents ++ [[]])
              refine ⟨hgrow, find_of_parent (hgrow.parentOf hp) hcond.1 hcond.2 ?_,
                addFile_bytes fs _⟩
              unfold Files.entry
              rw [if_neg hsize, addName_node he]

theorem write_find {p : Path} {b : Bytes} (h : fs.write p b = .ok fs') :
    Grows fs fs' ∧ ∃ id, fs'.find p = .ok (.file id) ∧ ∀ j, j ≠ id → fs'.bytes j = fs.bytes j := by
  unfold Files.write at h
  cases hw : fs.openWrite p with
  | error e => simp [hw, bind, Except.bind] at h
  | ok x =>
    obtain ⟨id, fs₁⟩ := x
    simp only [hw, bind, Except.bind, Except.ok.injEq] at h
    subst h
    obtain ⟨hg, hf, hb⟩ := openWrite_find hw
    have hset : Grows fs₁ { fs₁ with contents := fs₁.contents.set id b } := ⟨rfl, fun h => h⟩
    refine ⟨hg.trans hset, id, hset.find hf, fun j hj => ?_⟩
    rw [← hb j]
    simp only [Files.bytes, List.getD_eq_getElem?_getD, List.getElem?_set_ne (Ne.symm hj)]

theorem createDirectory_grows {p : Path} (h : fs.createDirectory p = .ok fs') :
    Grows fs fs' ∧ ∀ j, fs'.bytes j = fs.bytes j := by
  unfold Files.createDirectory at h
  cases hp : fs.parentOf p with
  | error e => simp [hp, bind, Except.bind] at h
  | ok o =>
    cases o with
    | none => simp [hp, bind, Except.bind] at h
    | some x =>
      obtain ⟨dir, name⟩ := x
      simp only [hp, bind, Except.bind] at h
      split at h
      · simp at h
      · cases he : fs.entry dir name with
        | error e => simp [he] at h
        | ok y =>
          cases y with
          | some y => simp [he] at h
          | none =>
            simp only [he, Except.ok.injEq] at h
            subst h
            have hnone : fs.node? (dir ++ [name]) = none := by
              unfold Files.entry at he
              split at he
              · simp at he
              · simpa using he
            refine ⟨⟨rfl, fun {l x} hx => ?_⟩, fun _ => rfl⟩
            have hl : l ≠ dir ++ [name] := fun h => by simp [h, hnone] at hx
            unfold Files.node? at hx ⊢
            simpa [hl] using hx

theorem ensureDirectory_grows (fs : Files) (p : Path) :
    Grows fs (fs.ensureDirectory p).2 ∧ ∀ j, (fs.ensureDirectory p).2.bytes j = fs.bytes j := by
  unfold Files.ensureDirectory
  cases h : fs.createDirectory p with
  | error e => exact ⟨Grows.refl fs, fun _ => rfl⟩
  | ok fs₁ => exact createDirectory_grows h

theorem createDownTo_grows (depth : Nat) (fs : Files) (p : Path) :
    Grows fs (createDownTo depth fs p).2 ∧
      ∀ j, (createDownTo depth fs p).2.bytes j = fs.bytes j := by
  induction depth generalizing p with
  | zero => exact ⟨Grows.refl fs, fun _ => rfl⟩
  | succ depth ih =>
    unfold createDownTo
    split
    · exact ⟨Grows.refl fs, fun _ => rfl⟩
    · split
      · cases p.parent? with
        | none => exact ⟨Grows.refl fs, fun _ => rfl⟩
        | some q =>
          obtain ⟨hg, hb⟩ := ih q
          dsimp only
          cases hc : createDownTo depth fs q with
          | mk o fs₁ =>
            simp only [hc] at hg hb
            cases o with
            | error e => exact ⟨hg, hb⟩
            | ok u =>
              obtain ⟨hg', hb'⟩ := ensureDirectory_grows fs₁ p
              exact ⟨hg.trans hg', fun j => (hb' j).trans (hb j)⟩
      · exact ensureDirectory_grows fs p

theorem createDirectories_grows (fs : Files) (p : Path) :
    Grows fs (fs.createDirectories p).2 ∧ ∀ j, (fs.createDirectories p).2.bytes j = fs.bytes j :=
  createDownTo_grows _ fs p

end Files

namespace Package.Record

variable {fs fs' : Files}

theorem write_grows (r : Record) (e : Entry) (fs : Files) : fs.Grows (r.write e fs) :=
  Files.append_grows fs _ _

theorem write_bytes (r : Record) (e : Entry) (fs : Files) {j : Nat} (h : j ≠ r.file) :
    (r.write e fs).bytes j = fs.bytes j := Files.bytes_append_ne fs _ h

theorem write_length (r : Record) (e : Entry) (fs : Files) (j : Nat) :
    ((r.write e fs).bytes j).length ≤ (fs.bytes j).length + (Utf8.encode e.text).length :=
  Files.bytes_append_length fs _ _ _

theorem start_find {path : Path} {stamp : Text} {r : Record}
    (h : start path stamp fs = .ok (r, fs')) :
    r.path = path ∧ fs.Grows fs' ∧ fs'.find path = .ok (.file r.file) ∧
      (∀ j, j ≠ r.file → fs'.bytes j = fs.bytes j) ∧
      ∀ j, (fs'.bytes j).length ≤
        (fs.bytes j).length + (Utf8.encode (Entry.opened stamp).text).length := by
  unfold start at h
  cases hw : fs.openWrite path with
  | error e => simp [hw, bind, Except.bind] at h
  | ok x =>
    obtain ⟨id, fs₁⟩ := x
    simp only [hw, bind, Except.bind, Except.ok.injEq, Prod.mk.injEq] at h
    obtain ⟨rfl, rfl⟩ := h
    obtain ⟨hg, hf, hb⟩ := Files.openWrite_find hw
    refine ⟨rfl, hg.trans (write_grows _ _ _), (write_grows _ _ _).find hf, fun j hj => ?_,
      fun j => ?_⟩
    · rw [write_bytes _ _ _ hj, hb]
    · rw [← hb j]
      exact write_length _ _ _ _

end Package.Record

end ScriptFeed
