import Mathlib.Data.List.Nodup
import Mathlib.Data.List.SplitBy
import ScriptFeed.Proofs.Binding

namespace ScriptFeed.LocalFunctions

variable {params params' args : List Text} {body token word t : Text} {c : Char}

def tokens (t : Text) : List Text :=
  t.splitBy fun a b => Text.isNameChar a && Text.isNameChar b

def IsWord (token : Text) : Prop := token ≠ [] ∧ ∀ c ∈ token, Text.isNameChar c = true

def filled (params args : List Text) (token : Text) : Text :=
  match (params.idxOf? token).bind (args[·]?) with
  | some arg => '(' :: arg ++ [')']
  | none => token

def newName (params params' : List Text) (token : Text) : Text :=
  ((params.idxOf? token).bind (params'[·]?)).getD token

def renamed (params params' : List Text) (body : Text) : Text :=
  (tokens body).flatMap (newName params params')

theorem tokens_cons (hc : Text.isNameChar c = false) (t : Text) :
    tokens (c :: t) = [c] :: tokens t := by
  have happend : ([c] ++ t).splitBy (fun a b => Text.isNameChar a && Text.isNameChar b) = _ :=
    List.splitBy_append (by simp [hc])
  exact happend

theorem tokens_append (hword : IsWord word)
    (ht : ∀ c, t.head? = some c → Text.isNameChar c = false) :
    tokens (word ++ t) = word :: tokens t := by
  obtain ⟨hne, hname⟩ := hword
  have hchain : word.IsChain fun a b => (Text.isNameChar a && Text.isNameChar b) = true :=
    (List.pairwise_of_forall_mem_list fun a ha b hb => by rw [hname a ha, hname b hb]; rfl).isChain
  rw [tokens, List.splitBy_append, List.splitBy_of_isChain hne hchain]
  · rfl
  · intro a _ b hb
    rw [ht b hb, Bool.and_false]

theorem tokens_cut (t : Text) : (tokens t).flatten = t ∧
    (∀ token ∈ tokens t, IsWord token ∨ ∃ c, token = [c] ∧ Text.isNameChar c = false) ∧
    (tokens t).IsChain fun a b => ¬(IsWord a ∧ IsWord b) := by
  refine ⟨List.flatten_splitBy _ t, ?_, ?_⟩
  · induction t using words_induction with
    | nil => exact List.forall_mem_nil _
    | cons c t hc ih =>
      rw [tokens_cons hc]
      exact List.forall_mem_cons.mpr ⟨.inr ⟨c, rfl, hc⟩, ih⟩
    | append word t hne hword ht ih =>
      rw [tokens_append ⟨hne, hword⟩ ht]
      exact List.forall_mem_cons.mpr ⟨.inl ⟨hne, hword⟩, ih⟩
  · refine (List.isChain_getLast_head_splitBy _ t).imp ?_
    rintro a b ⟨ha, hb, hends⟩ ⟨hwa, hwb⟩
    rw [hwa.2 _ (List.getLast_mem ha), hwb.2 _ (List.head_mem hb)] at hends
    exact absurd hends (by decide)

theorem lookup_zip_eq (params args : List Text) (token : Text) :
    (params.zip args).lookup token = (params.idxOf? token).bind (args[·]?) := by
  induction params generalizing args with
  | nil => simp
  | cons p params ih =>
    cases args with
    | nil => simp
    | cons arg args =>
      rw [List.zip_cons_cons, List.lookup_cons, List.idxOf?_cons, ih]
      by_cases hp : token = p
      · simp [hp]
      · have hne : (token == p) = false := beq_false_of_ne hp
        have hne' : ¬(p == token) = true := by simpa using Ne.symm hp
        rw [hne, if_neg hne', Option.bind_map]
        rfl

theorem idxOf?_single (hparams : ∀ p ∈ params, Text.isIdentifier p = true)
    (hc : Text.isNameChar c = false) : params.idxOf? [c] = none := by
  rw [List.idxOf?_eq_none_iff]
  intro hmem
  have hname := (Text.isIdentifier_word (hparams _ hmem)).2 c List.mem_cons_self
  rw [hc] at hname
  exact absurd hname (by decide)

theorem bind_tokens (hparams : ∀ p ∈ params, Text.isIdentifier p = true) (args : List Text)
    (body : Text) : bind body params args = (tokens body).flatMap (filled params args) := by
  rw [bind]
  induction body using words_induction with
  | nil => rfl
  | cons c t hc ih =>
    rw [bindFrom_cons _ hc, tokens_cons hc, List.flatMap_cons, ih, filled, idxOf?_single hparams hc]
    rfl
  | append word t hne hword ht ih =>
    rw [bindFrom_whole hne hword ht, tokens_append ⟨hne, hword⟩ ht, List.flatMap_cons, ih, bound,
      List.reverse_reverse, lookup_zip_eq]
    rfl

theorem newName_word (hparams' : ∀ p ∈ params', Text.isIdentifier p = true) (hword : IsWord word) :
    IsWord (newName params params' word) := by
  rw [newName]
  cases h : (params.idxOf? word).bind (params'[·]?) with
  | none => exact hword
  | some p =>
    obtain ⟨i, -, hi⟩ := Option.bind_eq_some_iff.mp h
    exact Text.isIdentifier_word (hparams' p (List.mem_of_getElem? hi))

theorem newName_single (hparams : ∀ p ∈ params, Text.isIdentifier p = true)
    (hc : Text.isNameChar c = false) (params' : List Text) : newName params params' [c] = [c] := by
  rw [newName, idxOf?_single hparams hc]
  rfl

theorem renamed_cons (hparams : ∀ p ∈ params, Text.isIdentifier p = true)
    (hc : Text.isNameChar c = false) (params' : List Text) (t : Text) :
    renamed params params' (c :: t) = c :: renamed params params' t := by
  rw [renamed, tokens_cons hc, List.flatMap_cons, newName_single hparams hc]
  rfl

theorem tokens_renamed (hparams : ∀ p ∈ params, Text.isIdentifier p = true)
    (hparams' : ∀ p ∈ params', Text.isIdentifier p = true) (body : Text) :
    tokens (renamed params params' body) = (tokens body).map (newName params params') := by
  induction body using words_induction with
  | nil => rfl
  | cons c t hc ih =>
    rw [renamed_cons hparams hc, tokens_cons hc, tokens_cons hc, List.map_cons, ih,
      newName_single hparams hc]
  | append word t hne hword ht ih =>
    have hhead : ∀ c, (renamed params params' t).head? = some c → Text.isNameChar c = false := by
      cases t with
      | nil => simp [renamed, tokens]
      | cons d t =>
        rw [renamed_cons hparams (ht d rfl)]
        exact ht
    rw [renamed, tokens_append ⟨hne, hword⟩ ht, List.flatMap_cons, ← renamed,
      tokens_append (newName_word hparams' ⟨hne, hword⟩) hhead, ih, List.map_cons]

theorem filled_newName (hlength : params'.length = params.length) (hnodup : params'.Nodup)
    (hfresh : token ∉ params') (hargs : args.length = params.length) :
    filled params' args (newName params params' token) = filled params args token := by
  cases h : params.idxOf? token with
  | none =>
    have hnone : params'.idxOf? token = none := List.idxOf?_eq_none_iff.mpr hfresh
    rw [newName, h, Option.bind_none, Option.getD_none, filled, hnone, filled, h]
  | some i =>
    obtain ⟨hi, -⟩ := List.idxOf?_eq_some_iff.mp h
    have hi' : i < params'.length := hlength ▸ hi
    have hnew : newName params params' token = params'[i] := by
      rw [newName, h, Option.bind_some, List.getElem?_eq_getElem hi', Option.getD_some]
    have hplace : params'.idxOf? params'[i] = some i := by
      refine List.idxOf?_eq_some_iff.mpr ⟨hi', rfl, fun j hj he => ?_⟩
      exact absurd (hnodup.getElem_inj_iff.mp he) (Nat.ne_of_lt hj)
    have harg : args[i]? = some args[i] := List.getElem?_eq_getElem (hargs ▸ hi)
    rw [hnew, filled, hplace, filled, h, Option.bind_some, harg]

/-- Every word of the body that is a parameter is replaced by the argument at its first place
among the parameters, and all else is kept. The arguments are put in unread, so it makes no
difference what they mention. New names for the parameters, none of them given twice and none of
them a word of the body, change nothing. -/
theorem binding_simultaneous (hparams : ∀ p ∈ params, Text.isIdentifier p = true) (body : Text) :
    ((tokens body).flatten = body ∧
      (∀ token ∈ tokens body, IsWord token ∨ ∃ c, token = [c] ∧ Text.isNameChar c = false) ∧
      (tokens body).IsChain fun a b => ¬(IsWord a ∧ IsWord b)) ∧
    (∀ args : List Text, bind body params args = (tokens body).flatMap (filled params args)) ∧
    ∀ params' : List Text, params'.length = params.length → params'.Nodup →
      (∀ p ∈ params', Text.isIdentifier p = true) → (∀ p ∈ params', p ∉ tokens body) →
      ∀ args : List Text, args.length = params.length →
        bind (renamed params params' body) params' args = bind body params args := by
  refine ⟨tokens_cut body, fun args => bind_tokens hparams args body, ?_⟩
  intro params' hlength hnodup hparams' hfresh args hargs
  rw [bind_tokens hparams', bind_tokens hparams, tokens_renamed hparams hparams', List.flatMap_map]
  refine List.flatMap_congr fun token htoken => ?_
  exact filled_newName hlength hnodup (fun hmem => hfresh token hmem htoken) hargs

theorem binding_simultaneous_crossed :
    renamed ["w".toList, "h".toList] ["h".toList, "x_2".toList] "w + wh(é)".toList =
      "h + wh(é)".toList ∧
    bind "w + wh(é)".toList ["w".toList, "h".toList] ["h * w".toList, []] =
      "(h * w) + wh(é)".toList ∧
    bind "h + wh(é)".toList ["h".toList, "x_2".toList] ["h * w".toList, []] =
      "(h * w) + wh(é)".toList := by
  have hrenamed : renamed ["w".toList, "h".toList] ["h".toList, "x_2".toList] "w + wh(é)".toList =
      "h + wh(é)".toList := by decide
  have hparams : ∀ p ∈ ["w".toList, "h".toList], Text.isIdentifier p = true :=
    List.all_eq_true.mp (by decide)
  obtain ⟨-, hbind, hrename⟩ := binding_simultaneous hparams "w + wh(é)".toList
  have hnames :=
    hrename ["h".toList, "x_2".toList] rfl (by decide) (List.all_eq_true.mp (by decide))
    (by simp only [List.forall_mem_cons]; decide) ["h * w".toList, []] rfl
  have hold : bind "w + wh(é)".toList ["w".toList, "h".toList] ["h * w".toList, []] =
      "(h * w) + wh(é)".toList := (hbind ["h * w".toList, []]).trans (by decide)
  rw [hrenamed, hold] at hnames
  exact ⟨hrenamed, hold, hnames⟩

end ScriptFeed.LocalFunctions
