import Mathlib.Data.String.Basic
import ProjectsApi.Rollback.Script

/-!
# The arguments of the rollback script

The loop over `"$@"` takes one option at a time.  `Line` says which words spell which settings,
with nothing said about the loop; the loop accepts exactly these lines, and what comes later in a
line counts.  A word that is not an option is a usage error, wherever the line gets to it.
-/

namespace ProjectsApi

/-! ## The loop -/

/-- The options that take a value. -/
inductive ValueOption where
  | env
  | function
  | version
  deriving DecidableEq

def ValueOption.flag : ValueOption → String
  | env => "--env"
  | function => "--function"
  | version => "--version"

/-- The variables that the loop sets. -/
structure ScriptArguments where
  /-- `ENV_NAME` -/
  envName : String
  /-- `FUNCTION` -/
  function : String
  /-- `TARGET` -/
  target : String
  /-- `ASSUME_YES` -/
  assumeYes : Bool
  /-- `DRY_RUN` -/
  dryRun : Bool
  deriving DecidableEq

/-- The variables before the loop; `${ENV:-dev}` -/
def ScriptArguments.initial (env : Option String) : ScriptArguments where
  envName := (env.filter (· ≠ "")).getD "dev"
  function := ""
  target := ""
  assumeYes := false
  dryRun := false

def ValueOption.set (value : String) (vars : ScriptArguments) : ValueOption → ScriptArguments
  | env => { vars with envName := value }
  | function => { vars with function := value }
  | version => { vars with target := value }

/-- What `case "$1" in` takes a word for. -/
inductive Word where
  /-- `--env)` and its like -/
  | option (o : ValueOption)
  /-- `--env=*)` and its like, with what is left of the word -/
  | joined (o : ValueOption) (value : String)
  | yes
  | dryRun
  | help
  | unknown
  deriving DecidableEq

/-- The two patterns of an option with a value. -/
def ValueOption.word? (o : ValueOption) (word : String) : Option Word :=
  if word = o.flag then some (.option o)
  else (word.toList.dropPrefix? (o.flag.toList ++ ['='])).map fun value =>
    .joined o (String.ofList value)

/-- `case "$1" in` -/
def classify (word : String) : Word :=
  match ValueOption.env.word? word with
  | some found => found
  | none =>
      match ValueOption.function.word? word with
      | some found => found
      | none =>
          match ValueOption.version.word? word with
          | some found => found
          | none =>
              if word ∈ ["--yes", "-y"] then .yes
              else if word = "--dry-run" then .dryRun
              else if word ∈ ["-h", "--help"] then .help
              else .unknown

/-- How the loop ends. -/
inductive Parsed where
  | go (vars : ScriptArguments)
  /-- `usage; exit 0` -/
  | help
  /-- `usage >&2; die 1` -/
  | usageError (message : String)
  deriving DecidableEq

/-- `while [ $# -gt 0 ]` -/
def parseArguments (vars : ScriptArguments) : List String → Parsed
  | [] => .go vars
  | word :: rest =>
      match classify word with
      | .option o =>
          match rest with
          | [] => .usageError (word ++ " requires a value")
          | value :: rest => parseArguments (o.set value vars) rest
      | .joined o value => parseArguments (o.set value vars) rest
      | .yes => parseArguments { vars with assumeYes := true } rest
      | .dryRun => parseArguments { vars with dryRun := true } rest
      | .help => .help
      | .unknown => .usageError ("unknown argument: " ++ word)

/-! ## Lines of options -/

/-- What one option asks for. -/
inductive Setting where
  | value (o : ValueOption) (value : String)
  | yes
  | dryRun
  deriving DecidableEq

def Setting.apply (vars : ScriptArguments) : Setting → ScriptArguments
  | .value o text => o.set text vars
  | .yes => { vars with assumeYes := true }
  | .dryRun => { vars with dryRun := true }

/-- The words that spell a setting. -/
inductive Spells : Setting → List String → Prop where
  | separate (o : ValueOption) (value : String) : Spells (.value o value) [o.flag, value]
  | joined (o : ValueOption) (value : String) :
      Spells (.value o value) [o.flag ++ "=" ++ value]
  | yes {word : String} (hword : word ∈ ["--yes", "-y"]) : Spells .yes [word]
  | dryRun : Spells .dryRun ["--dry-run"]

/-- The words that spell settings, one after the other. -/
inductive Line : List Setting → List String → Prop where
  | nil : Line [] []
  | cons {setting : Setting} {settings : List Setting} {words rest : List String}
      (hspells : Spells setting words) (hline : Line settings rest) :
      Line (setting :: settings) (words ++ rest)

/-- The variables after the settings, the later ones counting. -/
def settle (vars : ScriptArguments) (settings : List Setting) : ScriptArguments :=
  settings.foldl Setting.apply vars

/-- A word that begins no setting and asks for no help. -/
structure Unknown (word : String) : Prop where
  option : ∀ o : ValueOption, word ≠ o.flag
  joined : ∀ (o : ValueOption) value, word ≠ o.flag ++ "=" ++ value
  plain : word ∉ ["--yes", "-y", "--dry-run", "-h", "--help"]

/-! ## What a word is taken for -/

theorem ValueOption.word?_flag (o : ValueOption) : o.word? o.flag = some (.option o) :=
  if_pos rfl

theorem ValueOption.word?_joined (o : ValueOption) (value : String) :
    o.word? (o.flag ++ "=" ++ value) = some (.joined o value) := by
  have hne : o.flag ++ "=" ++ value ≠ o.flag := by
    intro h
    have hlength := congrArg String.length h
    simp only [String.length_append] at hlength
    have hone : "=".length = 1 := by decide
    omega
  have hdrop : (o.flag ++ "=" ++ value).toList.dropPrefix? (o.flag.toList ++ ['=']) =
      some value.toList := by
    rw [List.dropPrefix?_eq_some_iff]
    exact ⟨o.flag.toList ++ ['='], by simp, by simp⟩
  rw [word?, if_neg hne, hdrop, Option.map_some, String.ofList_toList]

theorem ValueOption.word?_eq_some {o : ValueOption} {word : String} {found : Word}
    (h : o.word? word = some found) :
    (word = o.flag ∧ found = .option o) ∨
      ∃ value, word = o.flag ++ "=" ++ value ∧ found = .joined o value := by
  unfold word? at h
  split at h
  · exact Or.inl ⟨‹_›, (Option.some.inj h).symm⟩
  · obtain ⟨value, hvalue, rfl⟩ := Option.map_eq_some_iff.mp h
    obtain ⟨front, hword, hfront⟩ := List.dropPrefix?_eq_some_iff.mp hvalue
    refine Or.inr ⟨String.ofList value, ?_, rfl⟩
    rw [← String.toList_inj, hword, eq_of_beq hfront]
    simp

/-- The third letter of a word tells which option it can be. -/
theorem ValueOption.letter {o : ValueOption} {word : String}
    (h : (o.word? word).isSome = true) : word.toList[2]? = o.flag.toList[2]? := by
  obtain ⟨found, hfound⟩ := Option.isSome_iff_exists.mp h
  obtain ⟨rfl, -⟩ | ⟨value, rfl, -⟩ := word?_eq_some hfound
  · rfl
  · rw [String.toList_append, String.toList_append, List.append_assoc,
      List.getElem?_append_left (by cases o <;> decide)]

/-- So no word is taken for two options. -/
theorem ValueOption.word?_eq_none {o o' : ValueOption} (hne : o ≠ o') {word : String}
    (hword : (o'.word? word).isSome = true) : o.word? word = none := by
  by_contra hsome
  have hletters := (letter (Option.isSome_iff_ne_none.mpr hsome)).symm.trans (letter hword)
  cases o <;> cases o' <;> first | exact hne rfl | exact absurd hletters (by decide)

theorem classify_of_word? {o : ValueOption} {word : String} {found : Word}
    (h : o.word? word = some found) : classify word = found := by
  have hsome : (o.word? word).isSome = true := by rw [h]; rfl
  unfold classify
  cases o with
  | env => rw [h]
  | function => rw [ValueOption.word?_eq_none (by decide) hsome, h]
  | version =>
      rw [ValueOption.word?_eq_none (o := .env) (by decide) hsome,
        ValueOption.word?_eq_none (o := .function) (by decide) hsome, h]

theorem classify_flag (o : ValueOption) : classify o.flag = .option o :=
  classify_of_word? o.word?_flag

theorem classify_joined (o : ValueOption) (value : String) :
    classify (o.flag ++ "=" ++ value) = .joined o value :=
  classify_of_word? (o.word?_joined value)

/-- What a word is taken for is what it spells. -/
inductive Means (word : String) : Word → Prop where
  | option {o : ValueOption} (hword : word = o.flag) : Means word (.option o)
  | joined {o : ValueOption} {value : String} (hword : word = o.flag ++ "=" ++ value) :
      Means word (.joined o value)
  | yes (hword : word ∈ ["--yes", "-y"]) : Means word .yes
  | dryRun (hword : word = "--dry-run") : Means word .dryRun
  | help (hword : word ∈ ["-h", "--help"]) : Means word .help
  | unknown (hword : Unknown word) : Means word .unknown

theorem means_classify (word : String) : Means word (classify word) := by
  by_cases hoption : ∃ o : ValueOption, (o.word? word).isSome = true
  · obtain ⟨o, hsome⟩ := hoption
    obtain ⟨found, hfound⟩ := Option.isSome_iff_exists.mp hsome
    rw [classify_of_word? hfound]
    obtain ⟨hword, rfl⟩ | ⟨value, hword, rfl⟩ := ValueOption.word?_eq_some hfound
    · exact .option hword
    · exact .joined hword
  · have hnone : ∀ o : ValueOption, o.word? word = none := by
      intro o
      by_contra hsome
      exact hoption ⟨o, Option.isSome_iff_ne_none.mpr hsome⟩
    simp only [classify, hnone]
    split_ifs with hyes hdry hhelp
    · exact .yes hyes
    · exact .dryRun hdry
    · exact .help hhelp
    · refine .unknown ⟨?_, ?_, ?_⟩
      · rintro o rfl
        cases (hnone o).symm.trans o.word?_flag
      · rintro o value rfl
        cases (hnone o).symm.trans (o.word?_joined value)
      · simp_all

theorem Means.of_classify {word : String} {found : Word} (h : classify word = found) :
    Means word found :=
  h ▸ means_classify word

/-! ## What the loop does with a line -/

variable {vars vars' : ScriptArguments}

theorem Spells.parse {setting : Setting} {words : List String} (h : Spells setting words)
    (rest : List String) :
    parseArguments vars (words ++ rest) = parseArguments (setting.apply vars) rest := by
  cases h with
  | separate o value =>
      show parseArguments vars (o.flag :: value :: rest) = _
      rw [parseArguments, classify_flag]
      rfl
  | joined o value =>
      show parseArguments vars (_ :: rest) = _
      rw [parseArguments, classify_joined]
      rfl
  | @yes word hword =>
      have hyes : classify word = .yes := by
        rcases List.mem_pair.mp hword with rfl | rfl <;> decide
      show parseArguments vars (word :: rest) = _
      rw [parseArguments, hyes]
      rfl
  | dryRun =>
      show parseArguments vars ("--dry-run" :: rest) = _
      rw [parseArguments, show classify "--dry-run" = .dryRun by decide]
      rfl

theorem Line.parse {settings : List Setting} {words : List String} (h : Line settings words)
    (rest : List String) :
    parseArguments vars (words ++ rest) = parseArguments (settle vars settings) rest := by
  induction h generalizing vars with
  | nil => rfl
  | cons hspells hline ih => rw [List.append_assoc, hspells.parse, ih]; rfl

/-- Where the loop stops. -/
inductive Stops : List String → (ScriptArguments → Parsed) → Prop where
  | done : Stops [] .go
  | help {word : String} (hword : word ∈ ["-h", "--help"]) (rest : List String) :
      Stops (word :: rest) fun _ => .help
  | dangling (o : ValueOption) :
      Stops [o.flag] fun _ => .usageError (o.flag ++ " requires a value")
  | unknown {word : String} (hword : Unknown word) (rest : List String) :
      Stops (word :: rest) fun _ => .usageError ("unknown argument: " ++ word)

theorem classify_unknown {word : String} (h : Unknown word) : classify word = .unknown := by
  have hmeans := means_classify word
  generalize classify word = found at hmeans
  cases hmeans with
  | option hword => exact absurd hword (h.option _)
  | joined hword => exact absurd hword (h.joined _ _)
  | yes hword => exact absurd (List.mem_append_left _ hword) h.plain
  | dryRun hword => exact absurd (by simp [hword]) h.plain
  | help hword => exact absurd (List.mem_append_right ["--yes", "-y", "--dry-run"] hword) h.plain
  | unknown => rfl

theorem Stops.parse {args : List String} {result : ScriptArguments → Parsed}
    (h : Stops args result) : parseArguments vars args = result vars := by
  cases h with
  | done => rfl
  | @help word hword rest =>
      have hhelp : classify word = .help := by
        rcases List.mem_pair.mp hword with rfl | rfl <;> decide
      rw [parseArguments, hhelp]
  | dangling o => rw [parseArguments, classify_flag]
  | unknown hword rest => rw [parseArguments, classify_unknown hword]

/-- Every line is read up to where the loop stops. -/
theorem exists_line (args : List String) :
    ∃ settings words rest result, Line settings words ∧ args = words ++ rest ∧
      Stops rest result := by
  -- one setting read, and the line after it
  have hcons : ∀ {setting : Setting} {words args : List String}, Spells setting words →
      (∃ settings words rest result, Line settings words ∧ args = words ++ rest ∧
        Stops rest result) →
      ∃ settings words' rest result, Line settings words' ∧ words ++ args = words' ++ rest ∧
        Stops rest result := by
    rintro setting words args hspells ⟨settings, words', rest, result, hline, rfl, hstops⟩
    exact ⟨setting :: settings, words ++ words', rest, result, .cons hspells hline,
      (List.append_assoc _ _ _).symm, hstops⟩
  induction ScriptArguments.initial none, args using parseArguments.induct with
  | case1 => exact ⟨[], [], [], _, .nil, rfl, .done⟩
  | case2 vars word o hclass =>
      cases Means.of_classify hclass with
      | option hword =>
          subst hword
          exact ⟨[], [], _, _, .nil, rfl, .dangling o⟩
  | case3 vars word o hclass value rest ih =>
      cases Means.of_classify hclass with
      | option hword =>
          subst hword
          exact hcons (.separate o value) ih
  | case4 vars word rest o value hclass ih =>
      cases Means.of_classify hclass with
      | joined hword =>
          subst hword
          exact hcons (.joined o value) ih
  | case5 vars word rest hclass ih =>
      cases Means.of_classify hclass with
      | yes hword => exact hcons (.yes hword) ih
  | case6 vars word rest hclass ih =>
      cases Means.of_classify hclass with
      | dryRun hword =>
          subst hword
          exact hcons .dryRun ih
  | case7 vars word rest hclass =>
      cases Means.of_classify hclass with
      | help hword => exact ⟨[], [], _, _, .nil, rfl, .help hword rest⟩
  | case8 vars word rest hclass =>
      cases Means.of_classify hclass with
      | unknown hword => exact ⟨[], [], _, _, .nil, rfl, .unknown hword rest⟩

/-- The loop accepts exactly the lines that spell settings, and settles them in order; help is
what a line asks for before anything else stops it, and an error names what stopped it. -/
theorem parseArguments_language (vars : ScriptArguments) (args : List String) :
    (∀ vars', parseArguments vars args = .go vars' ↔
      ∃ settings, Line settings args ∧ vars' = settle vars settings) ∧
    (parseArguments vars args = .help ↔
      ∃ settings words word rest, Line settings words ∧ args = words ++ word :: rest ∧
        word ∈ ["-h", "--help"]) ∧
    ∀ message, parseArguments vars args = .usageError message ↔
      ∃ settings words, Line settings words ∧
        ((∃ o : ValueOption, args = words ++ [o.flag] ∧ message = o.flag ++ " requires a value") ∨
          ∃ word rest, args = words ++ word :: rest ∧ Unknown word ∧
            message = "unknown argument: " ++ word) := by
  obtain ⟨settings, words, rest, result, hline, rfl, hstops⟩ := exists_line args
  have hparse : parseArguments vars (words ++ rest) = result (settle vars settings) := by
    rw [hline.parse, hstops.parse]
  refine ⟨fun vars' => ⟨?_, ?_⟩, ⟨?_, ?_⟩, fun message => ⟨?_, ?_⟩⟩
  · intro h
    rw [hparse] at h
    cases hstops with
    | done =>
        rw [List.append_nil]
        exact ⟨settings, hline, (Parsed.go.inj h).symm⟩
    | help | dangling | unknown => cases h
  · rintro ⟨settings', hline', rfl⟩
    rw [← List.append_nil (words ++ rest), hline'.parse]
    rfl
  · intro h
    rw [hparse] at h
    cases hstops with
    | help hword rest => exact ⟨settings, words, _, rest, hline, rfl, hword⟩
    | done | dangling | unknown => cases h
  · rintro ⟨settings', words', word, rest', hline', heq, hword⟩
    rw [heq, hline'.parse, (Stops.help hword rest').parse]
  · intro h
    rw [hparse] at h
    cases hstops with
    | dangling o =>
        exact ⟨settings, words, hline, Or.inl ⟨o, rfl, (Parsed.usageError.inj h).symm⟩⟩
    | unknown hword rest =>
        exact ⟨settings, words, hline,
          Or.inr ⟨_, rest, rfl, hword, (Parsed.usageError.inj h).symm⟩⟩
    | done | help => cases h
  · rintro ⟨settings', words', hline', ⟨o, heq, rfl⟩ | ⟨word, rest', heq, hword, rfl⟩⟩
    · rw [heq, hline'.parse, (Stops.dangling o).parse]
    · rw [heq, hline'.parse, (Stops.unknown hword rest').parse]

end ProjectsApi
