import Mathlib.Data.List.Induction
import Mathlib.Data.List.TakeWhile
import Pipeline.CommandLine

/-!
# Passing — what a command line hands on to the pipeline

Options and tokens share one space of dashed words, and the change from the one to the other happens
once: at the first word that is no option, or at a double dash.  A word is an option by its form
alone (`CommandLine.IsOption`, `CommandLine.ofString_eq_token_iff`), but for the value that may
stand behind the option for the file of settings.

An option that is given (`CommandLine.Given`) has its words, and sets one thing.  Reading its words
sets it (`CommandLine.readWords_given`), so reading the words of several, each given once, sets them
all (`CommandLine.readWords_givens`).  The path of a file of settings may be left waiting by then;
what counts is what the command line comes to when it is taken in (`CommandLine.settle`).

**Behind the options every word is a token** (`CommandLine.tokens_untouched`).
-/

namespace Pipeline

namespace CommandLine

/-! ### Words that are options -/

/-- The names of the long options. -/
def optionNames : List String := ["config", "ignoreerror", "printerror", "version", "help"]

/-- The word is a long option, with a value behind an equals sign or without, or a cluster of
flags. -/
def IsOption (word : String) : Prop :=
  (∃ name ∈ optionNames, word = "--" ++ name ∨ ∃ value, word = "--" ++ name ++ "=" ++ value) ∨
    ∃ letters : List Char, letters ≠ [] ∧ (∀ c ∈ letters, c = 'v' ∨ c = 'h') ∧
      word = "-" ++ String.ofList letters

theorem takeWhile_ne_eq_iff {a : Char} {name : List Char} (h : a ∉ name) (body : List Char) :
    body.takeWhile (· ≠ a) = name ↔ body = name ∨ ∃ value, body = name ++ a :: value := by
  constructor
  · rintro rfl
    induction body with
    | nil => exact .inl rfl
    | cons b body ih =>
        by_cases hb : b = a
        · subst hb
          simp
        · have hgoes : (b :: body).takeWhile (· ≠ a) = b :: body.takeWhile (· ≠ a) :=
            List.takeWhile_cons_of_pos (decide_eq_true hb)
          rw [hgoes] at h ⊢
          refine (ih fun hmem => h (List.mem_cons_of_mem b hmem)).imp ?_ ?_
          · exact congrArg (b :: ·)
          · rintro ⟨value, hvalue⟩
            exact ⟨value, congrArg (b :: ·) hvalue⟩
  · have hname : ∀ b ∈ name, decide (b ≠ a) = true := by
      intro b hb
      exact decide_eq_true fun heq => h (heq ▸ hb)
    rintro (rfl | ⟨value, rfl⟩)
    · exact List.takeWhile_eq_self_iff.mpr hname
    · rw [List.takeWhile_append_of_pos hname, List.takeWhile_cons_of_neg (by simp),
        List.append_nil]

theorem plain_ne_token {word : Word} (value : Option String) (h : word ≠ .token) :
    word.plain value ≠ .token := by
  rw [Word.plain]
  split
  · nofun
  · exact h

theorem longWord_eq_token_iff (body : List Char) :
    longWord body = .token ↔ String.ofList (body.takeWhile (· ≠ '=')) ∉ optionNames := by
  have hknown : ∀ {word : Word} {name : String}, word ≠ .token → name ∈ optionNames →
      String.ofList (body.takeWhile (· ≠ '=')) = name →
        (word = .token ↔ String.ofList (body.takeWhile (· ≠ '=')) ∉ optionNames) := by
    intro word name hword hmem hname
    rw [hname]
    exact iff_of_false hword (not_not_intro hmem)
  rw [longWord]
  split
  · next hname => exact hknown nofun (by decide) hname
  · next hname => exact hknown (plain_ne_token _ nofun) (by decide) hname
  · next hname => exact hknown (plain_ne_token _ nofun) (by decide) hname
  · next hname => exact hknown (plain_ne_token _ nofun) (by decide) hname
  · next hname => exact hknown (plain_ne_token _ nofun) (by decide) hname
  · next hconfig hignore hprint hversion hhelp =>
      refine iff_of_true rfl ?_
      simp only [optionNames, List.mem_cons, List.not_mem_nil, or_false, not_or]
      exact ⟨hconfig, hignore, hprint, hversion, hhelp⟩

theorem isLong_iff {name : String} (h : '=' ∉ name.toList) (word : String) :
    (word = "--" ++ name ∨ ∃ value, word = "--" ++ name ++ "=" ++ value) ↔
      ∃ body, word.toList = '-' :: '-' :: body ∧
        String.ofList (body.takeWhile (· ≠ '=')) = name := by
  constructor
  · rintro (rfl | ⟨value, rfl⟩)
    · refine ⟨name.toList, by simp, ?_⟩
      rw [(takeWhile_ne_eq_iff h _).mpr (.inl rfl), String.ofList_toList]
    · refine ⟨name.toList ++ '=' :: value.toList, by simp, ?_⟩
      rw [(takeWhile_ne_eq_iff h _).mpr (.inr ⟨_, rfl⟩), String.ofList_toList]
  · rintro ⟨body, hword, hname⟩
    have hbody := (takeWhile_ne_eq_iff h body).mp (by rw [← hname, String.toList_ofList])
    refine hbody.imp ?_ ?_
    · rintro rfl
      simp [← String.toList_inj, hword]
    · rintro ⟨value, rfl⟩
      refine ⟨String.ofList value, ?_⟩
      simp [← String.toList_inj, hword]

theorem isOption_iff (word : String) :
    IsOption word ↔
      (∃ body, word.toList = '-' :: '-' :: body ∧
        String.ofList (body.takeWhile (· ≠ '=')) ∈ optionNames) ∨
      ∃ letters, letters ≠ [] ∧ (∀ c ∈ letters, c = 'v' ∨ c = 'h') ∧
        word.toList = '-' :: letters := by
  have hnames : ∀ name ∈ optionNames, '=' ∉ name.toList := by decide
  refine or_congr ⟨?_, ?_⟩ ?_
  · rintro ⟨name, hname, hword⟩
    obtain ⟨body, hbody, rfl⟩ := (isLong_iff (hnames name hname) word).mp hword
    exact ⟨body, hbody, hname⟩
  · rintro ⟨body, hbody, hname⟩
    exact ⟨_, hname, (isLong_iff (hnames _ hname) word).mpr ⟨body, hbody, rfl⟩⟩
  · simp [← String.toList_inj]

/-- **A word is a token by its form.** -/
theorem ofString_eq_token_iff (word : String) :
    Word.ofString word = .token ↔ ¬ IsOption word ∧ word ≠ "--" := by
  rw [isOption_iff, ← String.toList_inj.ne, Word.ofString]
  split
  · next hdashes => simp [hdashes]
  · next body hne hlong =>
      -- behind two dashes a name decides, for a dash is no flag
      have hflags : ¬ ∃ letters, letters ≠ [] ∧ (∀ c ∈ letters, c = 'v' ∨ c = 'h') ∧
          word.toList = '-' :: letters := by
        rintro ⟨letters, -, hall, hshort⟩
        rw [hlong] at hshort
        cases hshort
        exact absurd (hall '-' List.mem_cons_self) (by decide)
      have hdashes : word.toList ≠ "--".toList := by
        rw [hlong]
        intro h
        cases h
        exact hne rfl
      rw [longWord_eq_token_iff, or_iff_left hflags, and_iff_left hdashes]
      simp [hlong]
  · next letters hdashes hlong hshort =>
      have hname : ¬ ∃ body, word.toList = '-' :: '-' :: body ∧
          String.ofList (body.takeWhile (· ≠ '=')) ∈ optionNames := by
        rintro ⟨body, hbody, -⟩
        rw [hshort] at hbody
        cases hbody
        exact hlong body rfl
      have hne : word.toList ≠ "--".toList := by
        rw [hshort]
        intro h
        cases h
        exact hdashes rfl
      rw [or_iff_right hname, and_iff_left hne]
      simp [hshort, imp_iff_not_or]
  · next hdashes hlong hshort =>
      refine iff_of_true rfl ⟨?_, hdashes⟩
      rintro (⟨body, hbody, -⟩ | ⟨letters, -, -, hletters⟩)
      · exact hlong body hbody
      · exact hshort letters hletters

/-! ### Options that are given -/

/-- What an option sets. -/
inductive Setting where
  | config | ignoreError | printError | version
  deriving DecidableEq, Repr

/-- An option as it is given: the path of a file of settings in a word of its own or in the word of
the option, and the version by a letter or by its name. -/
inductive Given where
  | configApart (path : String)
  | configJoined (path : String)
  | ignoreError
  | printError
  | versionLetter
  | versionName
  deriving DecidableEq, Repr

namespace Given

/-- The words of an option. -/
def words : Given → List String
  | configApart path => ["--config", path]
  | configJoined path => ["--config=" ++ path]
  | ignoreError => ["--ignoreerror"]
  | printError => ["--printerror"]
  | versionLetter => ["-v"]
  | versionName => ["--version"]

/-- What the option sets. -/
def setting : Given → Setting
  | configApart _ | configJoined _ => .config
  | ignoreError => .ignoreError
  | printError => .printError
  | versionLetter | versionName => .version

/-- The path of a file of settings. -/
def path? : Given → Option String
  | configApart path | configJoined path => some path
  | _ => none

/-- A path is not empty, and in a word of its own it does not begin with a dash. -/
def Valid : Given → Prop
  | configApart path => path ≠ "" ∧ path.toList.head? ≠ some '-'
  | configJoined path => path ≠ ""
  | _ => True

end Given

/-- The command line of options and tokens. -/
def ofGiven (options : List Given) (tokens : List String) : CommandLine where
  config := options.findSome? Given.path?
  ignoreError := options.any (·.setting = .ignoreError)
  printError := options.any (·.setting = .printError)
  version := options.any (·.setting = .version)
  tokens

/-- The option has been given. -/
def has (c : CommandLine) : Setting → Bool
  | .config => c.config.isSome
  | .ignoreError => c.ignoreError
  | .printError => c.printError
  | .version => c.version

/-- Sets what an option sets. -/
def set (c : CommandLine) (option : Given) : CommandLine :=
  match option with
  | .configApart path | .configJoined path => { c with config := some path }
  | .ignoreError => { c with ignoreError := true }
  | .printError => { c with printError := true }
  | .versionLetter | .versionName => { c with version := true }

theorem Given.isSome_path? (option : Given) :
    option.path?.isSome = decide (option.setting = .config) := by
  cases option <;> rfl

theorem has_ofGiven (options : List Given) (tokens : List String) (setting : Setting) :
    (ofGiven options tokens).has setting = options.any (·.setting = setting) := by
  cases setting with
  | config =>
      show (options.findSome? Given.path?).isSome = _
      induction options with
      | nil => rfl
      | cons option options ih =>
          rw [List.findSome?_cons, List.any_cons, ← option.isSome_path?, ← ih]
          cases option.path? <;> rfl
  | ignoreError | printError | version => rfl

/-- One more option that has not been given sets what it sets. -/
theorem set_ofGiven {options : List Given} {option : Given} (tokens : List String)
    (hnew : (ofGiven options tokens).has option.setting = false) :
    (ofGiven options tokens).set option = ofGiven (options ++ [option]) tokens := by
  cases option with
  | configApart path | configJoined path =>
      have hnone : options.findSome? Given.path? = none :=
        Option.isNone_iff_eq_none.mp (Option.isSome_eq_false_iff.mp hnew)
      simp [set, ofGiven, Given.setting, Given.path?, hnone]
  | ignoreError | printError | versionLetter | versionName =>
      simp [set, ofGiven, Given.setting, Given.path?]

/-! ### Reading options -/

variable {c s : CommandLine} {waiting : Option String}

/-- A word without a dash is a token. -/
theorem ofString_of_head?_ne {word : String} (h : word.toList.head? ≠ some '-') :
    Word.ofString word = .token := by
  rw [Word.ofString]
  split <;> simp_all

theorem ofString_joined (path : String) : Word.ofString ("--config=" ++ path) = .config path := by
  simp [Word.ofString, longWord]

theorem setConfig_eq (hnew : s.has .config = false) {path : String} (hpath : path ≠ "") :
    s.setConfig path = .ok { s with config := some path } := by
  have hfilled : ¬ path.isEmpty = true := fun h => hpath (String.isEmpty_iff.mp h)
  rw [has] at hnew
  rw [setConfig, hnew, if_neg Bool.false_ne_true, if_neg hfilled]

theorem setSwitch_of_eq_false {given : Bool} (hnew : given = false) (c : CommandLine) :
    setSwitch given c = .ok c := by
  rw [hnew]
  rfl

theorem bind_of_eq_ok {α β : Type} {x : Except Refusal α} {a : α} (h : x = .ok a)
    (f : α → Except Refusal β) : x >>= f = f a := by
  rw [h]
  rfl

/-- **Reading the words of an option** sets what it sets. -/
theorem readWords_given (hs : c.settle waiting = .ok s) {option : Given} (hvalid : option.Valid)
    (hnew : s.has option.setting = false) :
    ∃ c' waiting', settle c' waiting' = .ok (s.set option) ∧
      ∀ rest, readWords c waiting (option.words ++ rest) = readWords c' waiting' rest := by
  cases option with
  | configApart path =>
      -- the path is not taken in yet, for the next word is looked at first
      obtain ⟨hpath, hdash⟩ := hvalid
      have hword : Word.ofString "--config" = .config none := by decide
      refine ⟨s, some path, setConfig_eq hnew hpath, fun rest => ?_⟩
      simp only [Given.words, List.cons_append, List.nil_append, readWords, hword, hs, bind,
        Except.bind, ofString_of_head?_ne hdash]
  | configJoined path =>
      refine ⟨s.set (.configJoined path), none, rfl, fun rest => ?_⟩
      simp only [Given.words, List.cons_append, List.nil_append, readWords, ofString_joined, hs]
      exact bind_of_eq_ok (setConfig_eq hnew hvalid) _
  | ignoreError =>
      have hword : Word.ofString "--ignoreerror" = .ignoreError := by decide
      have hswitch := setSwitch_of_eq_false hnew (s.set .ignoreError)
      refine ⟨s.set .ignoreError, none, rfl, fun rest => ?_⟩
      simp only [Given.words, List.cons_append, List.nil_append, readWords, hword, hs]
      exact bind_of_eq_ok hswitch _
  | printError =>
      have hword : Word.ofString "--printerror" = .printError := by decide
      have hswitch := setSwitch_of_eq_false hnew (s.set .printError)
      refine ⟨s.set .printError, none, rfl, fun rest => ?_⟩
      simp only [Given.words, List.cons_append, List.nil_append, readWords, hword, hs]
      exact bind_of_eq_ok hswitch _
  | versionLetter =>
      have hword : Word.ofString "-v" = .cluster ['v'] := by decide
      have hswitch := setSwitch_of_eq_false hnew (s.set .versionLetter)
      have hcluster : readCluster s ['v'] = .ok (s.set .versionLetter) := bind_of_eq_ok hswitch _
      refine ⟨s.set .versionLetter, none, rfl, fun rest => ?_⟩
      simp only [Given.words, List.cons_append, List.nil_append, readWords, hword, hs]
      exact bind_of_eq_ok hcluster _
  | versionName =>
      have hword : Word.ofString "--version" = .version := by decide
      have hswitch := setSwitch_of_eq_false hnew (s.set .versionName)
      refine ⟨s.set .versionName, none, rfl, fun rest => ?_⟩
      simp only [Given.words, List.cons_append, List.nil_append, readWords, hword, hs]
      exact bind_of_eq_ok hswitch _

/-- **Reading the words of options**, each given once, sets what they set. -/
theorem readWords_givens {options : List Given} (hvalid : ∀ option ∈ options, option.Valid)
    (honce : (options.map Given.setting).Nodup) :
    ∃ c waiting, settle c waiting = .ok (ofGiven options []) ∧
      ∀ rest, readWords {} none (options.flatMap Given.words ++ rest) =
        readWords c waiting rest := by
  induction options using List.reverseRecOn with
  | nil => exact ⟨{}, none, rfl, fun _ => rfl⟩
  | append_singleton options option ih =>
      rw [List.forall_mem_append, List.forall_mem_singleton] at hvalid
      rw [List.map_append, List.map_singleton, List.nodup_append] at honce
      obtain ⟨hfirst, -, hdisjoint⟩ := honce
      obtain ⟨c, waiting, hs, hread⟩ := ih hvalid.1 hfirst
      have hnew : (ofGiven options []).has option.setting = false := by
        rw [has_ofGiven, List.any_eq_false]
        intro other hother
        exact decide_eq_true_iff.not.mpr
          (hdisjoint _ (List.mem_map_of_mem hother) _ List.mem_cons_self)
      obtain ⟨c', waiting', hs', hread'⟩ := readWords_given hs hvalid.2 hnew
      refine ⟨c', waiting', ?_, fun rest => ?_⟩
      · rw [hs', set_ofGiven [] hnew]
      · rw [List.flatMap_append, List.flatMap_singleton, List.append_assoc, hread, hread']

/-! ### Reading tokens -/

/-- **Behind the options every word is a token.**  The options stand in any order, each of them
given once.  The tokens begin with the first word that is no option, or behind a double dash; from
there on no word is read as an option, nor as a double dash. -/
theorem tokens_untouched {options : List Given} (hvalid : ∀ option ∈ options, option.Valid)
    (honce : (options.map Given.setting).Nodup) (tokens : List String) :
    ((∀ word ∈ tokens.head?, ¬ IsOption word ∧ word ≠ "--") →
      read (options.flatMap Given.words ++ tokens) = .ok (ofGiven options tokens)) ∧
    read (options.flatMap Given.words ++ "--" :: tokens) = .ok (ofGiven options tokens) := by
  obtain ⟨c, waiting, hs, hread⟩ := readWords_givens hvalid honce
  constructor
  · intro hfirst
    rw [read, hread]
    cases tokens with
    | nil => exact hs
    | cons word rest =>
        have hword : Word.ofString word = .token :=
          (ofString_eq_token_iff word).mpr (hfirst word rfl)
        simp only [readWords, hword, hs]
        rfl
  · have hword : Word.ofString "--" = .separator := by decide
    rw [read, hread]
    simp only [readWords, hword, hs]
    rfl

/-- The path of a file of settings stands in a word of its own, and what follows the first token
looks like options. -/
theorem tokens_untouched_path :
    Given.Valid (.configApart "a b") ∧ (¬ IsOption "-e" ∧ "-e" ≠ "--") ∧
      read ["-v", "--config", "a b", "--ignoreerror", "-e", "--config", "--", "-v"] =
        .ok { config := some "a b", ignoreError := true, version := true,
              tokens := ["-e", "--config", "--", "-v"] } ∧
      read ["-v", "--config", "a b", "--ignoreerror", "--", "--config", "--", "-v"] =
        .ok { config := some "a b", ignoreError := true, version := true,
              tokens := ["--config", "--", "-v"] } := by
  have hpath : Given.Valid (.configApart "a b") := by simp [Given.Valid]
  have hvalid : ∀ option ∈ [Given.versionLetter, .configApart "a b", .ignoreError],
      option.Valid := by
    simp [Given.Valid]
  have honce : ([Given.versionLetter, .configApart "a b", .ignoreError].map
      Given.setting).Nodup := by
    decide
  have htoken : ¬ IsOption "-e" ∧ "-e" ≠ "--" := (ofString_eq_token_iff "-e").mp (by decide)
  have hfirst : ∀ word ∈ ["-e", "--config", "--", "-v"].head?, ¬ IsOption word ∧ word ≠ "--" := by
    intro word hword
    cases hword
    exact htoken
  exact ⟨hpath, htoken, (tokens_untouched hvalid honce _).1 hfirst,
    (tokens_untouched hvalid honce ["--config", "--", "-v"]).2⟩

end CommandLine

end Pipeline
