import ScriptFeed.Program
import ScriptFeed.Proofs.Provenance
import ScriptFeed.Proofs.Questions

namespace ScriptFeed

namespace Text

theorem lowerChar_length (c : Char) : (lowerChar c).length = if c.toNat = 0x130 then 2 else 1 := by
  unfold lowerChar
  dsimp only
  by_cases hascii : c.toNat < 128
  · have hne : c.toNat ≠ 0x130 := by omega
    rw [if_pos hascii, if_neg hne]
    rfl
  · rw [if_neg hascii]
    by_cases hdot : c.toNat = 0x130
    · rw [if_pos hdot, if_pos hdot]
      rfl
    · rw [if_neg hdot, if_neg hdot]
      split <;> rfl

theorem lowerFrom_length (before t : Text) :
    (lowerFrom before t).length = t.length + t.countP (·.toNat = 0x130) := by
  induction t generalizing before with
  | nil => rfl
  | cons c t ih =>
    have hlow : (if c.toNat = 0x3A3 && meetsCased before && !meetsCased t then [Char.ofNat 0x3C2]
        else lowerChar c).length = if c.toNat = 0x130 then 2 else 1 := by
      by_cases hsigma : (c.toNat = 0x3A3 && meetsCased before && !meetsCased t) = true
      · have hne : c.toNat ≠ 0x130 := by
          simp only [Bool.and_eq_true, decide_eq_true_eq] at hsigma
          omega
        rw [if_pos hsigma, if_neg hne]
        rfl
      · rw [if_neg hsigma]
        exact lowerChar_length c
    rw [lowerFrom, List.length_append, hlow, ih, List.length_cons, List.countP_cons]
    simp only [decide_eq_true_eq]
    split <;> omega

theorem startsWith_lower_trim {t : Text} :
    startsWith (lower t) (lower (trim t)) = true ↔ Trimmed t := by
  constructor
  · intro h
    obtain ⟨rest, hrest⟩ := startsWith_iff.mp h
    have hpart := trim_part t
    have hcount := hpart.sublist.countP_le (p := (·.toNat = 0x130))
    have hlength := congrArg List.length hrest
    rw [List.length_append, lower, lower, lowerFrom_length, lowerFrom_length] at hlength
    exact hpart.sublist.eq_of_length_le (by omega)
  · intro h
    rw [h]
    exact startsWith_iff.mpr ⟨[], by rw [List.append_nil]⟩

end Text

namespace Settings

def yes? (line : Text) : Option Text :=
  (directive? line).bind fun t =>
    (assignment (words t)).toOption.bind fun x =>
      if x.1 = "yes_answer".toList ∧ x.2 ≠ [] then some x.2 else none

def yesOf (t : Text) : Text := ((lines t).filterMap yes?).getLast?.getD ['y']

theorem assign_yes (s : Settings) (name value : Text) :
    ((s.assign name value).toOption.getD s).yes =
      if name = "yes_answer".toList ∧ value ≠ [] then value else s.yes := by
  by_cases hname : name = "yes_answer".toList
  · subst hname
    by_cases hvalue : value = []
    · subst hvalue
      rfl
    · have hset : s.assign "yes_answer".toList value = .ok { s with yes := value } := by
        rw [assign, if_neg (by decide), if_neg (by decide), if_neg (by decide), if_neg (by decide),
          if_neg (by decide), if_pos rfl, if_neg hvalue]
      rw [hset, if_pos ⟨rfl, hvalue⟩]
      rfl
  · rw [if_neg fun h => hname h.1]
    unfold assign
    split
    · rfl
    split
    · rfl
    split
    · rfl
    split
    · rfl
    split
    · split <;> rfl
    split <;> rfl

theorem applyLine_yes (s : Settings) (line : Text) :
    ((s.applyLine line).toOption.getD s).yes = (yes? line).getD s.yes := by
  unfold applyLine yes?
  cases directive? line with
  | none => rfl
  | some t =>
    dsimp only
    rw [Option.bind_some]
    cases assignment (words t) with
    | error mistake => rfl
    | ok x =>
      obtain ⟨name, value⟩ := x
      change ((s.assign name value).toOption.getD s).yes =
        (if name = "yes_answer".toList ∧ value ≠ [] then some value else none).getD s.yes
      rw [assign_yes]
      split <;> rfl

theorem applyLines_yes (n : Nat) (s : Settings) (ls : List Text) :
    (applyLines n s ls).1.yes = (ls.filterMap yes?).getLast?.getD s.yes := by
  induction ls generalizing n s with
  | nil => rfl
  | cons line ls ih =>
    have hline := applyLine_yes s line
    have hrest : (applyLines n s (line :: ls)).1 =
        (applyLines (n + 1) ((s.applyLine line).toOption.getD s) ls).1 := by
      rw [applyLines]
      cases s.applyLine line <;> rfl
    rw [hrest, ih, hline]
    cases hyes : yes? line with
    | none => simp [hyes]
    | some value => cases hl : (ls.filterMap yes?).getLast? <;> simp [hyes, List.getLast?_cons, hl]

theorem apply_yes (home : Path) (t : Text) : ((rooted home).apply t).1.yes = yesOf t :=
  applyLines_yes 1 (rooted home) (lines t)

end Settings

namespace Processor

theorem stateOf_next {p : Processor} {t : Text} {fuel : Nat} (ho : p.isOpen = true)
    (h : (p.called fuel).bind given? = some t) : stateOf p.next = final (p.called fuel) p := by
  rw [next, next?_given fuel ho h]
  rfl

theorem accepts_yes (p : Processor) :
    p.accepts p.settings.yes = true ↔ Text.Trimmed p.settings.yes :=
  Text.startsWith_lower_trim

end Processor

namespace Program

open CommandLine Processor

variable {p : Processor} {c : Bool}

def configured (env : Settings.Environment) (files : Files) : Config → Text
  | .skip => []
  | .file path => (files.readText path).toOption.getD []
  | .search => ((env.findFile? files).bind fun path => (files.readText path).toOption).getD []

theorem settings_configured (env : Settings.Environment) (files : Files) (config : Config) :
    (settings env files config).1 =
      ((Settings.rooted env.home).apply (configured env files config)).1 := by
  have hfile (path : Path) : (settings env files (.file path)).1 =
      (env.settings.apply ((files.readText path).toOption.getD [])).1 := by
    unfold settings Settings.ofFile
    dsimp only
    cases files.readText path <;> rfl
  cases config with
  | skip => rfl
  | file path => exact hfile path
  | search =>
    cases hf : env.findFile? files with
    | none =>
      unfold settings configured
      rw [hf]
      rfl
    | some path =>
      have hfound : settings env files .search = settings env files (.file path) := by
        unfold settings
        rw [hf]
      rw [hfound, hfile, configured, hf]
      rfl

theorem setUp_settings (env : Settings.Environment) (files : Files) (now : Text) (args : Args)
    (typed : List Text) :
    (setUp env files now args typed).settings = (settings env files args.config).1 := rfl

theorem setUp_always (env : Settings.Environment) (files : Files) (now : Text) (args : Args)
    (typed : List Text) (hyes : args.yes = true) :
    Always ((setUp env files now args typed).accepts (setUp env files now args typed).settings.yes)
      (setUp env files now args typed) := by
  refine ⟨fun k _ => if args.yes then (setUp env files now args typed).settings.yes else
    Text.trim (typed.getD k []), rfl, ?_⟩
  intro k question
  dsimp only
  rw [if_pos hyes]

theorem flush_always (h : Always c p) (verbose : Bool) : Always c (flush verbose p).2 :=
  h.congr rfl rfl

def before (env : Settings.Environment) (files : Files) (now : Text) (args : Args)
    (typed : List Text) (calls : Nat) : Processor :=
  (serve args.verbose calls
    (flush args.verbose (stateOf (setUp env files now args typed).reopen)).2).2.2

theorem serve_always (h : Always c p) (hd : p.declined = []) (verbose : Bool) (calls : Nat) :
    Always c (serve verbose calls p).2.2 ∧ (serve verbose calls p).2.2.declined = [] := by
  induction calls generalizing p with
  | zero => exact ⟨h, hd⟩
  | succ calls ih =>
    have hturn : (turn verbose p).2.2 = (flush verbose (stateOf p.next)).2 := by
      unfold turn
      cases p.next <;> rfl
    have hnext : Always c (stateOf p.next) := (Passes.replies (.inr rfl) h).always
    rw [serve]
    split
    · apply ih
      · rw [hturn]
        exact flush_always hnext verbose
      · rw [hturn]
        rfl
    · exact ⟨h, hd⟩

theorem before_always (env : Settings.Environment) (files : Files) (now : Text) (args : Args)
    (typed : List Text) (hyes : args.yes = true) (calls : Nat) :
    Always ((setUp env files now args typed).accepts (setUp env files now args typed).settings.yes)
        (before env files now args typed calls) ∧
      (before env files now args typed calls).declined = [] := by
  have hopened :=
    (Changes.replies (W := .all) (reopen_changing trivial).state
      (setUp_always env files now args typed hyes)).always
  exact serve_always (flush_always hopened args.verbose) rfl args.verbose calls

/-- A settings text comes to the last yes that it sets, and a run that answers with it is taken at
its word exactly if the yes has no blank at either end; otherwise each license asked about is
declined. -/
theorem automatic_answers (env : Settings.Environment) (files : Files) (now : Text) (args : Args)
    (typed : List Text) (calls : Nat) (q : Processor) (hyes : args.yes = true)
    (hq : Passes (before env files now args typed calls) q) :
    (∀ (home : Path) (text : Text) (p : Processor),
      p.settings = ((Settings.rooted home).apply text).1 →
      (p.accepts p.settings.yes = true ↔ Text.Trimmed (Settings.yesOf text))) ∧
    ∃ packages, q.asked = (before env files now args typed calls).asked + packages.length ∧
      (Text.Trimmed (Settings.yesOf (configured env files args.config)) → q.declined = []) ∧
      (¬Text.Trimmed (Settings.yesOf (configured env files args.config)) →
        q.declined = packages) := by
  constructor
  · intro home text p hp
    rw [accepts_yes, hp, Settings.apply_yes]
  · have hyesOf : (setUp env files now args typed).settings.yes =
        Settings.yesOf (configured env files args.config) := by
      rw [setUp_settings, settings_configured, Settings.apply_yes]
    have htrimmed := accepts_yes (setUp env files now args typed)
    obtain ⟨hbefore, hnone⟩ := before_always env files now args typed hyes calls
    obtain ⟨-, packages, hasked, hdeclined⟩ := hq.replies hbefore
    rw [hnone, List.nil_append] at hdeclined
    rw [← hyesOf]
    refine ⟨packages, hasked, ?_, ?_⟩
    · intro h
      rw [hdeclined, if_pos (htrimmed.mpr h)]
    · intro h
      rw [hdeclined, if_neg fun hyes => h (htrimmed.mp hyes)]

def licensed (config : String) : Files :=
  scriptFiles [("main.nscr", "<info>name=a license=l requirepackages=b<endinfo>\nx\n"),
    ("b.nscr", "<info>name=b license=m<endinfo>\ny\n"), ("rc", config)]

def assenting : Args where
  script := "main".toList
  install := true
  yes := true
  verbose := false
  stops := []
  config := .file ⟨"s/rc".toList⟩

def firstCall (config : String) : Processor :=
  before { user := ⟨"u".toList⟩ } (licensed config) [] assenting [] 0

def severalAnswers : String :=
  "set yes_answer=\" y\"\nset yes_answer \"Oui  \\\"da\\\"\"\nset yes_answer=\"\"\nset script_dir=s\n"

theorem automatic_answers_several : (firstCall severalAnswers).isOpen = true ∧
    Settings.yesOf
        (configured { user := ⟨"u".toList⟩ } (licensed severalAnswers) assenting.config) =
      "Oui  \"da\"".toList ∧
    (stateOf (firstCall severalAnswers).next).declined = [] := by
  have hyes : Settings.yesOf (configured { user := ⟨"u".toList⟩ } (licensed severalAnswers)
      assenting.config) = "Oui  \"da\"".toList := by decide +kernel
  obtain ⟨-, packages, -, hnone, -⟩ := automatic_answers { user := ⟨"u".toList⟩ }
    (licensed severalAnswers) [] assenting [] 0 _ rfl (.inr rfl)
  rw [hyes] at hnone
  exact ⟨by decide +kernel, hyes, hnone (by unfold Text.Trimmed; decide)⟩

def blankAnswer : String := "set script_dir=s\nset yes_answer=\" y\"\n"

theorem blank_yes_declined :
    (firstCall blankAnswer).accepts (firstCall blankAnswer).settings.yes = false ∧
      (stateOf (firstCall blankAnswer).next).declined = ["a".toList, "b".toList] := by
  have hcalled : (firstCall blankAnswer).isOpen = true ∧
      ((firstCall blankAnswer).called 9).bind given? = some [] ∧
      (final ((firstCall blankAnswer).called 9) (firstCall blankAnswer)).declined =
        ["a".toList, "b".toList] := by decide +kernel
  obtain ⟨hopen, hgiven, hdeclined⟩ := hcalled
  refine ⟨by decide +kernel, ?_⟩
  rw [stateOf_next hopen hgiven]
  exact hdeclined

end Program

end ScriptFeed
