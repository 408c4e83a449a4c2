import ScriptFeed.Proofs.Draining

namespace ScriptFeed.Processor

open Package Comment

variable {p q base : Processor} {first : Path} {notes : Notes}

theorem Drains.closed {rs : List (Outcome Text)} (h : Drains p rs q) : q.isOpen = false := by
  induction h with
  | done h => exact h
  | call _ _ _ ih => exact ih

theorem Reached.moves (h : Reached p notes q) (hc : Coherent p) : Moves .all p q := by
  induction h with
  | start => exact .refl
  | @more notes _ _ _ _ ht ih =>
    have hm := turn_moves (Moves.coherent ih hc) notes
    rw [ht] at hm
    exact ih.trans hm
  | @command notes _ _ _ _ _ ht hclose ih =>
    have hm := turn_moves (Moves.coherent ih hc) notes
    rw [ht] at hm
    exact (ih.trans hm).trans (Ends.ok closeAtEnd_moving hclose).1

theorem opened_steady {path : Path} {x : LineReader} (hn : base.installation = none)
    (hx : LineReader.openFile base.files path = .ok x) :
    Steady base path ({ base with script := some path }.shut.opened path x) := by
  let p₁ : Processor := { base with script := some path }.shut
  have hev : (p₁.opened path x).events = base.events ++ [.scriptOpened path] := rfl
  have hchain : (p₁.opened path x).current.chain = {} := by
    rw [current_chain]
    simp [p₁, opened, emit, shut, hn]
  have hcontents : Contents base.files base.events.length p₁ := by
    have hsession : p₁.session = none := rfl
    have hinclusion : p₁.inclusion = none := rfl
    have hrecord : p₁.record? = none := by simp [p₁, record?, shut, hn]
    refine ⟨le_rfl, fun _ hne => absurd rfl hne, ?_, ?_, ?_⟩
    · simp [hsession]
    · simp [hinclusion]
    · simp [hrecord]
  refine ⟨⟨rfl, rfl, .refl _, List.prefix_append _ _⟩, opened_coherent path x p₁,
    opened_contents hcontents hx, ?_, ?_, ?_⟩
  · refine .of_chain [] ?_ (fun _ => rfl) ?_ ?_
    · rw [hev, List.length_append]
      exact Nat.le_add_right _ _
    · rw [hchain]
      exact ⟨.inr ⟨rfl, rfl⟩, List.pairwise_singleton _ _, Nat.zero_le _⟩
    · rw [sessions, trail, hev, List.drop_left, List.take_nil]
      rfl
  · intro path' hpath
    rw [hchain] at hpath
    simp at hpath
  · obtain ⟨-, -, hpend⟩ := openFile_find hx
    obtain ⟨id, hid⟩ := hpend base.files
    exact hid.trans (bytes_le_size base.files id)

theorem openScript_cases {name : Text} (h : openScript name p = .ok ⟨⟩ q) :
    (q.script = none ∧ q = p.setScript name) ∨ ∃ path x, q.script = some path ∧
      LineReader.openFile p.files path = .ok x ∧
      q = { p with script := some path }.shut.opened path x := by
  have hrun : openScript name p = reopen (p.setScript name) := rfl
  rw [hrun, reopen] at h
  simp only [bind_run, get_run] at h
  cases hs : (p.setScript name).script with
  | none =>
    simp only [hs, pure_run, EStateM.Result.ok.injEq, true_and] at h
    exact .inl ⟨h ▸ hs, h.symm⟩
  | some path =>
    have hset : p.setScript name = { p with script := some path } := by
      rw [← hs]
      rfl
    simp only [hs, openPath_run] at h
    cases hf : LineReader.openFile p.files path with
    | error e => simp [hset, hf] at h
    | ok x =>
      simp only [hset, hf, EStateM.Result.ok.injEq, true_and] at h
      exact .inr ⟨path, x, h ▸ rfl, hf, h.symm⟩

theorem Ordered.prefixed {n : Nat} (h : Ordered n first p) (hc : Coherent p)
    (hi : p.isInstalling = true) : (sessions n p).tail <+: p.packages.tail := by
  obtain ⟨-, rest, hb, hs⟩ := h.chain (hc.installation hi)
  have hpk : p.packages = p.current.chain.entries := by
    unfold packages current
    cases p.installation <;> rfl
  rw [hs, hpk, List.tail_cons]
  rcases hb.entries with he | ⟨he, rfl⟩
  · rw [he, List.tail_cons]
    exact List.take_prefix _ _
  · rw [List.take_nil]
    exact List.nil_prefix

theorem Reached.ordered {n : Nat} (h : Reached p notes q) (hc : Coherent p)
    (ho : Ordered n first p) :
    (sessions n q).Pairwise (fun a b => a.same b = false) ∧
      (q.isInstalling = true → (sessions n q).tail <+: q.packages.tail) := by
  have hm := h.moves hc
  have hoq := Moves.ordered hm ho
  exact ⟨hoq.distinct, hoq.prefixed (Moves.coherent hm hc)⟩

/-- A script that is opened outside an installation is read to its end with the packages behind it,
each once and in the order of the queue. `hs` leaves out one opening only: that of a name without a
file while another script is open, which opens nothing. -/
theorem draining (settings : Settings) (files : Files) (calls : List Call) (name : Text)
    (q : Processor) (hi : (after calls { settings, files }).isInstalling = false)
    (hq : openScript name (after calls { settings, files }) = .ok ⟨⟩ q)
    (hs : q.isOpen = true → q.script.isSome = true) :
    let n := (after calls { settings, files }).events.length
    ((∀ notes r, Reached q notes r → Apart n r) → ∃ rs r, Drains q rs r ∧ r.isOpen = false) ∧
    ∀ notes r, Reached q notes r →
      (sessions n r).Pairwise (fun a b => a.same b = false) ∧
      (r.isInstalling = true → (sessions n r).tail <+: r.packages.tail) := by
  have hc : Coherent (after calls { settings, files }) :=
    after_coherent calls (fresh_coherent settings files)
  generalize after calls { settings, files } = p at hi hq hc ⊢
  intro n
  rcases openScript_cases hq with ⟨hscript, rfl⟩ | ⟨path, x, -, hx, rfl⟩
  · have hclosed : (p.setScript name).isOpen = false := by
      cases ho : (p.setScript name).isOpen with
      | false => rfl
      | true => exact absurd (hs ho) (by simp [hscript])
    have hcq : Coherent (p.setScript name) := hc.congr rfl rfl rfl rfl rfl
    have hoq : Ordered n ⟨[]⟩ (p.setScript name) :=
      ⟨le_rfl, by simp [sessions, trail, n, setScript],
        fun ho => absurd (hclosed.symm.trans ho) (by simp)⟩
    exact ⟨fun _ => ⟨[], _, .done hclosed, hclosed⟩, fun _ _ hr => hr.ordered hcq hoq⟩
  · have hsteady := opened_steady (by simpa [isInstalling] using hi) hx
    refine ⟨fun hA => ?_, fun _ _ hr => hr.ordered hsteady.coherent hsteady.ordered⟩
    obtain ⟨rs, r, hd⟩ := drains _ hA _ rfl hsteady .start
    exact ⟨rs, r, hd, hd.closed⟩

def onTurn (x : Notes × Processor) : Notes × Processor :=
  match turn x.1 x.2 with
  | .ok (.more n) q => (n, q)
  | .ok (.command _) q => ({}, stateOf (closeAtEnd q))
  | .error _ q => (x.1, q)

theorem Reached.iterate (h : Reached p notes q) : ∃ k, onTurn^[k] ({}, p) = (notes, q) := by
  induction h with
  | start => exact ⟨0, rfl⟩
  | more _ ht ih =>
    obtain ⟨k, hk⟩ := ih
    refine ⟨k + 1, ?_⟩
    rw [Function.iterate_succ_apply', hk]
    simp only [onTurn, ht]
  | command _ ht hc ih =>
    obtain ⟨k, hk⟩ := ih
    refine ⟨k + 1, ?_⟩
    rw [Function.iterate_succ_apply', hk]
    simp only [onTurn, ht, hc, stateOf]

theorem onTurn_moves {x : Notes × Processor} (hc : Coherent x.2) : Moves .all x.2 (onTurn x).2 := by
  have hm := turn_moves hc x.1
  unfold onTurn
  split
  next ht => rwa [ht] at hm
  next ht =>
    rw [ht] at hm
    exact hm.trans closeAtEnd_moving.state
  next ht => rwa [ht] at hm

theorem iterate_moves (x : Notes × Processor) (k : Nat) (hc : Coherent x.2) :
    Moves .all x.2 (onTurn^[k] x).2 := by
  induction k with
  | zero => exact .refl
  | succ k ih =>
    rw [Function.iterate_succ_apply']
    exact ih.trans (onTurn_moves (Moves.coherent ih hc))

theorem onTurn_closed {x : Notes × Processor} (hc : Coherent x.2) (ho : x.2.isOpen = false) :
    onTurn x = ({}, x.2) := by
  simp only [onTurn, turn_closed hc ho, hc.closeAtEnd ho, stateOf]

theorem iterate_closed (x : Notes × Processor) (k : Nat) (hc : Coherent x.2)
    (ho : x.2.isOpen = false) : (onTurn^[k] x).2 = x.2 := by
  induction k with
  | zero => rfl
  | succ k ih =>
    rw [Function.iterate_succ_apply', onTurn_closed (ih ▸ hc) (ih ▸ ho), ih]

theorem apart_of_end {n k : Nat} (hc : Coherent p) (hn : n ≤ p.events.length)
    (ho : (onTurn^[k] ({}, p)).2.isOpen = false) (ha : Apart n (onTurn^[k] ({}, p)).2) :
    ∀ notes r, Reached p notes r → Apart n r := by
  intro notes r hr
  obtain ⟨j, hj⟩ := hr.iterate
  have hm := iterate_moves ({}, p) j hc
  rcases Nat.le_total j k with hle | hle
  · obtain ⟨d, rfl⟩ := Nat.exists_eq_add_of_le' hle
    rw [Function.iterate_add_apply, hj] at ha
    rw [hj] at hm
    have hlen := hn.trans (Moves.extends hm).events.length_le
    exact ha.mono (Moves.extends (iterate_moves (notes, r) d (Moves.coherent hm hc))) hlen
  · obtain ⟨d, rfl⟩ := Nat.exists_eq_add_of_le' hle
    have hk := Moves.coherent (iterate_moves ({}, p) k hc) hc
    have hsame := iterate_closed _ d hk ho
    rw [← Function.iterate_add_apply, hj] at hsame
    exact (show r = _ from hsame) ▸ ha

def couple : Files where
  directories := [["s".toList]]
  names := [(["s".toList, "a.nscr".toList], 0), (["s".toList, "b.nscr".toList], 1)]
  contents := ["<install><info>requirepackages=a,b<endinfo>\n<endinstall>\nfirst".toList,
    "<install><info>requirepackages=b,a<endinfo>\n<endinstall>\nsecond".toList].map Utf8.encode

def coupleSettings : Settings :=
  { home := ⟨"h".toList⟩, scripts := ⟨"s".toList⟩, logSet := some ⟨"log".toList⟩ }

def coupleOpened : Processor := stateOf (openScript ['a']
  (after [.setInstallMode true] { settings := coupleSettings, files := couple }))

theorem draining_couple : (∃ rs r, Drains coupleOpened rs r ∧ r.isOpen = false) ∧
    ∀ notes r, Reached coupleOpened notes r →
      (sessions 0 r).Pairwise (fun a b => a.same b = false) ∧
      (r.isInstalling = true → (sessions 0 r).tail <+: r.packages.tail) := by
  have hok : openScript ['a']
      (after [.setInstallMode true] { settings := coupleSettings, files := couple }) =
      .ok ⟨⟩ coupleOpened := rfl
  have hc : Coherent coupleOpened :=
    Call.run_coherent (.openScript ['a'])
      (after_coherent [.setInstallMode true] (fresh_coherent coupleSettings couple))
  have hi : (after [.setInstallMode true]
      { settings := coupleSettings, files := couple }).isInstalling = false := by decide +kernel
  have hs : coupleOpened.script.isSome = true := by decide +kernel
  obtain ⟨hdrain, horder⟩ :=
    draining coupleSettings couple [.setInstallMode true] ['a'] coupleOpened
    hi hok fun _ => hs
  exact ⟨hdrain (apart_of_end (k := 8) hc (Nat.zero_le _) (by decide +kernel) (by decide +kernel)),
    horder⟩

end ScriptFeed.Processor
