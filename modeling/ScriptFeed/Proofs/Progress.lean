import Mathlib.Data.Prod.Lex
import Mathlib.Data.Set.Card
import Mathlib.Data.Set.Finite.List
import ScriptFeed.Proofs.Chains

namespace ScriptFeed

namespace Processor

open Package Comment

variable {N : Allowed} {p q r : Processor} {fs : Files} {n : Nat}

inductive Course (N : Allowed) (p q : Processor) : Prop
  | keep (hc : q.current.chain = p.current.chain) (hs : q.session = p.session)
  | read (s : Session) (x : LineReader) (b : Bool) (hc : q.current.chain = p.current.chain)
      (hs : p.session = some s) (hq : q.session = some ⟨x, b⟩) (hr : s.reader.Reads p.files x)
  | queue (name : Text) (path : Path) (hn : N.queue name) (hp : p.packagePath? name = some path)
      (hc : q.current.chain = (p.current.chain.enqueue (p.script.getD ⟨[]⟩) path).2)
      (hs : q.session = p.session)
  | advance (path : Path) (x : LineReader) (ho : p.isOpen = true)
      (ha : p.current.chain.advance = (some path, q.current.chain))
      (hr : LineReader.openFile p.files path = .ok x) (hq : q.session = some ⟨x, false⟩)
  | down (hc : q.current.chain = {}) (hs : q.session = none)

theorem Course.of_frame (h : Frame p q) : Course N p q := .keep h.current h.session

theorem begin_frame (p : Processor) (r : Record) (files : Files) :
    Frame p (p.begin r files) ∨ p.installation = none ∧ (p.begin r files).current.chain = {} := by
  have hf := record_frame (p.recording r files) (.closed false)
  cases hi : p.installation with
  | none =>
    refine .inr ⟨rfl, ?_⟩
    have hc := hf.current
    rw [begin_eq]
    change ((p.recording r files).record (.closed false)).current.chain = {}
    rw [hc, current_chain]
    simp [recording, emit, hi]
  | some i =>
    refine .inl ⟨hf.session, hf.inclusion, ?_⟩
    have hc := hf.current
    rw [begin_eq]
    change some ((p.recording r files).record (.closed false)).current.chain = _
    rw [hc, current_chain, hi]
    simp [recording, emit, hi]

theorem begin_course (p : Processor) (r : Record) (files : Files) :
    Course N p (p.begin r files) := by
  rcases begin_frame p r files with h | ⟨hi, hc⟩
  · exact .of_frame h
  · exact .keep (by rw [hc, current_chain, hi]; rfl) (begin_session p r files)

theorem Move.course (hm : Move N p q) : Course N p q := by
  cases hm with
  | read s x b hs hr => exact .read s x b rfl hs rfl hr
  | adjust i ho hc hr => exact .keep hc rfl
  | queue name path ho hn hp =>
    exact .queue name path hn hp (queue_chain p path) (queue_frame p path).1
  | write e he => exact .of_frame (record_frame p e)
  | begin r files hN ho hr => exact begin_course p r files
  | finish b hb => exact .of_frame (closeRecord_frame p b)
  | advance i path chain x ho hi ha hr =>
    refine .advance path x ho ?_ hr rfl
    rw [show p.current = i by simp [current, hi]]
    exact ha
  | down => exact .down rfl rfl
  | _ => exact .keep rfl rfl

instance : Finite Char :=
  Finite.of_injective (fun c : Char => c.val.toFin) fun a b h => by
    apply Char.ext
    exact UInt32.toFin_inj.mp h

def packagePaths (roots : Roots) (k : Nat) : Set Path :=
  {path | ∃ name : Text, name.length ≤ k ∧
    (roots.resolve? ("packages/".toList ++ name) Inclusion.scriptExtension = some path ∨
      roots.resolve? name Inclusion.scriptExtension = some path)}

theorem packagePaths_finite (roots : Roots) (k : Nat) : (packagePaths roots k).Finite := by
  have hnames : {name : Text | name.length ≤ k}.Finite := List.finite_length_le Char k
  let f (lead name : Text) : Path :=
    (roots.resolve? (lead ++ name) Inclusion.scriptExtension).getD ⟨[]⟩
  refine ((hnames.image (f "packages/".toList)).union (hnames.image (f []))).subset ?_
  rintro path ⟨name, hlen, h | h⟩
  · exact .inl ⟨name, hlen, by simp only [f, h, Option.getD_some]⟩
  · exact .inr ⟨name, hlen, by simp only [f, List.nil_append, h, Option.getD_some]⟩

theorem packagePath?_mem {name : Text} {path : Path} {k : Nat} (h : p.packagePath? name = some path)
    (hk : name.length ≤ k) : path ∈ packagePaths p.settings.roots k := by
  unfold packagePath? at h
  dsimp only at h
  cases hp : p.settings.roots.resolve? ("packages/".toList ++ name) Inclusion.scriptExtension with
  | none =>
    rw [hp] at h
    exact ⟨name, hk, .inr h⟩
  | some path' =>
    rw [hp] at h
    dsimp only at h
    split at h
    · exact ⟨name, hk, .inl (hp.trans h)⟩
    · exact ⟨name, hk, .inr h⟩

def Within (S : Set Path) (p : Processor) : Prop := ∀ path ∈ p.current.chain.entries.tail, path ∈ S

theorem enqueue_entries (c : Chain) (origin package : Path) :
    ∀ path ∈ (c.enqueue origin package).2.entries.tail, path ∈ c.entries.tail ∨ path = package := by
  have hseed : (c.seed origin).entries ≠ [] ∧ (c.seed origin).entries.tail = c.entries.tail := by
    unfold Chain.seed
    by_cases h : c.entries = []
    · simp [h]
    · rw [if_neg h]
      exact ⟨h, rfl⟩
  intro path hpath
  unfold Chain.enqueue at hpath
  dsimp only at hpath
  split at hpath
  · exact .inl (hseed.2 ▸ hpath)
  · rw [List.tail_append_of_ne_nil hseed.1, hseed.2, List.mem_append] at hpath
    simpa using hpath

theorem enqueue_cursor (c : Chain) (origin package : Path) :
    (c.enqueue origin package).2.cursor = c.cursor := by
  have hseed : (c.seed origin).cursor = c.cursor := by
    unfold Chain.seed
    split <;> rfl
  unfold Chain.enqueue
  dsimp only
  split <;> exact hseed

theorem Course.within {S : Set Path} (h : Course N p q)
    (hN : ∀ name path, N.queue name → p.packagePath? name = some path → path ∈ S)
    (hp : Within S p) : Within S q := by
  intro path hpath
  cases h with
  | keep hc hs => exact hp path (hc ▸ hpath)
  | read s x b hc hs hq hr => exact hp path (hc ▸ hpath)
  | queue name path' hn hp' hc hs =>
    rw [hc] at hpath
    rcases enqueue_entries _ _ _ path hpath with h | rfl
    · exact hp path h
    · exact hN name path hn hp'
  | advance path' x ho ha hr hq =>
    rw [(advance_some ha).2] at hpath
    exact hp path hpath
  | down hc hs => simp [hc] at hpath

def left (fs : Files) (p : Processor) : Nat :=
  (p.session.map fun s => (s.reader.pending fs).length).getD 0

theorem left_of_session {s : Session} (h : p.session = some s) :
    p.left fs = (s.reader.pending fs).length := by simp [left, h]

theorem Contents.left_eq (h : Contents fs n p) (ha : Apart n p) : p.unread = p.left fs := by
  cases hs : p.session with
  | none => simp [unread, left, hs]
  | some s => rw [unread_of_session hs, left_of_session hs, h.pending ha (h.session s hs)]

def Onward (fs : Files) (p q : Processor) : Prop :=
  q.isOpen = true → p.isOpen = true ∧ (p.current.chain.cursor < q.current.chain.cursor ∨
    q.current.chain.cursor = p.current.chain.cursor ∧ q.left fs ≤ p.left fs)

theorem Onward.refl (fs : Files) (p : Processor) : Onward fs p p := fun h => ⟨h, .inr ⟨rfl, le_rfl⟩⟩

theorem Onward.trans (h : Onward fs p q) (h' : Onward fs q r) : Onward fs p r := by
  intro hr
  obtain ⟨hq, hqr⟩ := h' hr
  obtain ⟨hp, hpq⟩ := h hq
  exact ⟨hp, by omega⟩

theorem Contents.reads_le (h : Contents fs n p) (ha : Apart n p) {x y : LineReader}
    (hx : Knows n p x) (hr : x.Reads p.files y) :
    (y.pending fs).length ≤ (x.pending fs).length := by
  have hle := hr.pending.length_le
  rwa [h.pending ha hx, h.pending ha (hx.of_reads hr)] at hle

theorem Course.onward (h : Course N p q) (hp : Contents fs n p) (ha : Apart n p) :
    Onward fs p q := by
  intro hq
  cases h with
  | keep hc hs =>
    refine ⟨by rwa [isOpen, hs] at hq, .inr ⟨by rw [hc], ?_⟩⟩
    rw [left, hs, left]
  | read s x b hc hs hqs hr =>
    refine ⟨isOpen_of_session hs, .inr ⟨by rw [hc], ?_⟩⟩
    rw [left_of_session hqs, left_of_session hs]
    exact hp.reads_le ha (hp.session s hs) hr
  | queue name path hn hp' hc hs =>
    refine ⟨by rwa [isOpen, hs] at hq, .inr ⟨by rw [hc, enqueue_cursor], ?_⟩⟩
    rw [left, hs, left]
  | advance path x ho hadv hr hqs =>
    refine ⟨ho, .inl ?_⟩
    rw [(advance_some hadv).2]
    exact Nat.lt_succ_self _
  | down hc hs => simp [isOpen, hs] at hq

theorem bytes_le_size (fs : Files) (id : Nat) : (fs.bytes id).length ≤ fs.size := by
  unfold Files.bytes Files.size
  rw [List.getD_eq_getElem?_getD]
  cases h : fs.contents[id]? with
  | none => simp
  | some b => exact (List.sublist_flatten_of_mem (List.mem_of_getElem? h)).length_le

theorem Course.left_le (h : Course N p q) (hp : Contents fs n p) (ha : Apart n p)
    (hle : p.left fs ≤ fs.size) : q.left fs ≤ fs.size := by
  cases h with
  | keep hc hs => rwa [left, hs]
  | read s x b hc hs hqs hr =>
    rw [left_of_session hs] at hle
    rw [left_of_session hqs]
    exact (hp.reads_le ha (hp.session s hs) hr).trans hle
  | queue name path hn hp' hc hs => rwa [left, hs]
  | advance path x ho hadv hr hqs =>
    obtain ⟨-, -, hpend⟩ := openFile_find hr
    obtain ⟨id, hid⟩ := hpend fs
    rw [left_of_session hqs]
    exact hid.trans (bytes_le_size fs id)
  | down hc hs => simp [left, hs]

end Processor

end ScriptFeed
