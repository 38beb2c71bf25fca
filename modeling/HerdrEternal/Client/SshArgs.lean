import Mathlib.Data.List.Basic

/-!
# The client's command line

The client stands in for `ssh`, so it is called with ssh's options, a target and a command.
`parse_ssh_args` of `client/src/main.rs` skips the options, none of which matters for its transport,
and keeps the target and the command.

**The grammar.** An option word (`SshOption`) is a dash and letters: any letters that take no value,
and at most one behind them that takes one, which is the rest of the word or else the whole next
word. A target (`SshTarget`) is a word that no option word can be, or any word behind `--`.

**Theorem (`parse_ssh_args_grammar`).** Option words, a target and further words are parsed into
that target and the further words, whatever the values and the further words look like; without a
target nothing is.
-/

namespace HerdrEternal

/-- The subset of ssh's command line that herdr emits. -/
structure SshArgs where
  target : String
  command : Option String
  deriving DecidableEq

def WITH_ARG : String := "BbcDEeFIiJLlmOoPpQRSWw"

def NO_ARG : String := "46AaCfGgKkMNnqsTtVvXxYy"

/-- The loop over the flags of a word: whether the next word is the value of its last flag. A flag
that is not known ends the loop. -/
def takesNext : List Char → Bool
  | [] => false
  | c :: rest =>
    if WITH_ARG.toList.contains c then rest.isEmpty
    else if !NO_ARG.toList.contains c then false
    else takesNext rest

/-- `strip_prefix('-')`, unless nothing is left. -/
def flagsOf (arg : String) : Option (List Char) :=
  match arg.toList with
  | '-' :: c :: flags => some (c :: flags)
  | _ => none

/-- The loop over the words, with its `target` and `command_parts`. -/
def parseLoop (args : List String) (target : Option String) (commandParts : List String) :
    Option String × List String :=
  match args with
  | [] => (target, commandParts)
  | arg :: args =>
    if target.isSome then parseLoop args target (commandParts ++ [arg])
    else if arg = "--" then parseLoop args.tail args.head? commandParts
    else
      match flagsOf arg with
      | none => parseLoop args (some arg) commandParts
      | some flags => parseLoop (if takesNext flags then args.tail else args) target commandParts
termination_by args.length
decreasing_by
  all_goals simp only [List.length_cons, List.length_tail]
  all_goals try split_ifs
  all_goals try simp only [List.length_tail]
  all_goals omega

def parseSshArgs (args : List String) : Option SshArgs :=
  let (target, commandParts) := parseLoop args none []
  target.map fun target =>
    ⟨target, if commandParts.isEmpty then none else some (String.intercalate " " commandParts)⟩

/-! ## ssh's grammar -/

/-- A letter that takes no value. -/
abbrev NoArg := { c : Char // c ∈ NO_ARG.toList }

/-- A letter that takes a value. -/
abbrev WithArg := { c : Char // c ∈ WITH_ARG.toList }

/-- An option word, with its value if that is a word of its own. -/
inductive SshOption where
  | bare (first : NoArg) (rest : List NoArg)
  /-- The value is the rest of the word. -/
  | attached (flags : List NoArg) (letter : WithArg) (first : Char) (rest : List Char)
  /-- The value is the next word. -/
  | detached (flags : List NoArg) (letter : WithArg) (value : String)

namespace SshOption

/-- The characters behind the dash. -/
def letters : SshOption → List Char
  | .bare first rest => (first :: rest).map (·.1)
  | .attached flags letter first rest => flags.map (·.1) ++ letter.1 :: first :: rest
  | .detached flags letter _ => flags.map (·.1) ++ [letter.1]

def word (o : SshOption) : String := String.ofList ('-' :: o.letters)

/-- The value, if it is a word of its own. -/
def valueWord : SshOption → List String
  | .bare .. | .attached .. => []
  | .detached _ _ value => [value]

def words (o : SshOption) : List String := o.word :: o.valueWord

end SshOption

/-- A word that is not read as an option: `-`, or one that does not start with a dash. -/
def PlainWord (word : String) : Prop := word = "-" ∨ word.toList.head? ≠ some '-'

inductive SshTarget where
  | plain (name : String) (h : PlainWord name)
  /-- Behind `--`. -/
  | dashed (name : String)

namespace SshTarget

def name : SshTarget → String
  | .plain name _ => name
  | .dashed name => name

def words : SshTarget → List String
  | .plain name _ => [name]
  | .dashed name => ["--", name]

end SshTarget

/-! ## Words of the grammar -/

theorem notMem_withArg (c : NoArg) : c.1 ∉ WITH_ARG.toList := by
  have hdisjoint : (NO_ARG.toList.all fun c => !WITH_ARG.toList.contains c) = true := by decide
  simpa using List.all_eq_true.mp hdisjoint c.1 c.2

theorem takesNext_flags (flags : List NoArg) (rest : List Char) :
    takesNext (flags.map (·.1) ++ rest) = takesNext rest := by
  induction flags with
  | nil => rfl
  | cons c flags ih =>
    rw [List.map_cons, List.cons_append, takesNext, if_neg (by simpa using notMem_withArg c),
      if_neg (by simpa using c.2)]
    exact ih

theorem takesNext_withArg (c : WithArg) (rest : List Char) :
    takesNext (c.1 :: rest) = rest.isEmpty := by
  rw [takesNext, if_pos (by simpa using c.2)]

/-- An option word takes the next word exactly if its value is not in it. -/
theorem takesNext_letters (o : SshOption) :
    takesNext o.letters = !o.valueWord.isEmpty := by
  cases o with
  | bare first rest =>
    have := takesNext_flags (first :: rest) []
    rwa [List.append_nil] at this
  | attached flags letter first rest =>
    exact (takesNext_flags flags _).trans (takesNext_withArg letter _)
  | detached flags letter value =>
    exact (takesNext_flags flags _).trans (takesNext_withArg letter _)

theorem dash_notMem : '-' ∉ NO_ARG.toList ∧ '-' ∉ WITH_ARG.toList := by decide

/-- The letters of an option word are there, and the first is not a dash. -/
theorem letters_cons (o : SshOption) : ∃ c rest, o.letters = c :: rest ∧ c ≠ '-' := by
  have hno : ∀ c : NoArg, c.1 ≠ '-' := fun c heq => dash_notMem.1 (heq ▸ c.2)
  have hwith : ∀ c : WithArg, c.1 ≠ '-' := fun c heq => dash_notMem.2 (heq ▸ c.2)
  cases o with
  | bare first rest => exact ⟨_, _, rfl, hno first⟩
  | attached flags letter first rest =>
    cases flags with
    | nil => exact ⟨_, _, rfl, hwith letter⟩
    | cons c flags => exact ⟨_, _, rfl, hno c⟩
  | detached flags letter value =>
    cases flags with
    | nil => exact ⟨_, _, rfl, hwith letter⟩
    | cons c flags => exact ⟨_, _, rfl, hno c⟩

theorem flagsOf_option (o : SshOption) :
    o.word ≠ "--" ∧ flagsOf o.word = some o.letters := by
  obtain ⟨c, rest, hletters, hne⟩ := letters_cons o
  rw [SshOption.word, hletters]
  constructor
  · intro heq
    have hlist := congrArg String.toList heq
    rw [String.toList_ofList] at hlist
    have hc : c :: rest = ['-'] := (List.cons.inj hlist).2
    exact hne (List.cons.inj hc).1
  · simp [flagsOf]

theorem flagsOf_plain {word : String} (h : PlainWord word) :
    word ≠ "--" ∧ flagsOf word = none := by
  rcases h with rfl | h
  · decide
  · constructor
    · rintro rfl
      exact h (by decide)
    · unfold flagsOf
      split
      · rename_i c flags heq
        rw [heq] at h
        exact absurd rfl h
      · rfl

/-! ## The loop over words of the grammar -/

theorem parseLoop_option (o : SshOption) (args : List String) :
    parseLoop (o.words ++ args) none [] = parseLoop args none [] := by
  obtain ⟨hne, hflags⟩ := flagsOf_option o
  rw [SshOption.words, List.cons_append, parseLoop, if_neg (by simp), if_neg hne, hflags]
  dsimp only
  rw [takesNext_letters]
  cases o with
  | bare => rfl
  | attached => rfl
  | detached => rfl

theorem parseLoop_options (options : List SshOption) (args : List String) :
    parseLoop (options.flatMap SshOption.words ++ args) none [] = parseLoop args none [] := by
  induction options with
  | nil => rfl
  | cons o options ih => rw [List.flatMap_cons, List.append_assoc, parseLoop_option, ih]

theorem parseLoop_target (target : SshTarget) (args : List String) :
    parseLoop (target.words ++ args) none [] = parseLoop args (some target.name) [] := by
  cases target with
  | plain name h =>
    obtain ⟨hne, hflags⟩ := flagsOf_plain h
    show parseLoop (name :: args) none [] = _
    rw [parseLoop, if_neg (by simp), if_neg hne, hflags]
    rfl
  | dashed name =>
    show parseLoop ("--" :: name :: args) none [] = _
    rw [parseLoop, if_neg (by simp), if_pos rfl]
    rfl

/-- Behind the target every word belongs to the command. -/
theorem parseLoop_command (args : List String) (target : String) (commandParts : List String) :
    parseLoop args (some target) commandParts = (some target, commandParts ++ args) := by
  induction args generalizing commandParts with
  | nil => rw [parseLoop, List.append_nil]
  | cons arg args ih =>
    rw [parseLoop, if_pos (by simp), ih, List.append_assoc, List.singleton_append]

/-- **`parse_ssh_args` follows ssh's grammar.** -/
theorem parse_ssh_args_grammar :
    (∀ (options : List SshOption) (target : SshTarget) (further : List String),
      parseSshArgs (options.flatMap SshOption.words ++ target.words ++ further) =
        some ⟨target.name,
          if further = [] then none else some (String.intercalate " " further)⟩) ∧
    ∀ (options : List SshOption) (dashes : Bool),
      parseSshArgs (options.flatMap SshOption.words ++ if dashes then ["--"] else []) = none := by
  constructor
  · intro options target further
    unfold parseSshArgs
    rw [List.append_assoc, parseLoop_options, parseLoop_target, parseLoop_command]
    cases further with
    | nil => rfl
    | cons word further => simp
  · intro options dashes
    unfold parseSshArgs
    rw [parseLoop_options]
    cases dashes with
    | false => simp [parseLoop]
    | true => simp [parseLoop]

end HerdrEternal
