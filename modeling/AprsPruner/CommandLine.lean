import AprsPruner.Basic
import AprsPruner.Lib.Getopt
import Mathlib.Data.List.Induction
import Mathlib.Data.List.TakeWhile

/-!
# The command line

`main` reads its options with `getopt(argc, argv, "vdc:")` before it makes the
application: `-c` names the configuration file, `-d` keeps the daemon on the console, and
`-v` ends it at once, as does anything that is no option, with the usage.

What `getopt` returns goes through a `char` and is then compared with -1.  Where `char`
is unsigned, as it is on ARM, the -1 at the end of the options has become 255, and is
taken for something that is no option.  Whether operands may stand before options depends
on `POSIXLY_CORRECT` in the environment.

## Main definitions

* `parseOptions` — the loop over `getopt`.
* `main` — from the command line to the start of the application.
* `lastConfig`, `onConsole` — what a list of options asks for.

## Main results

* `parseOptions_eq_run_iff` — **the options that the loop accepts.**
* `main_launches_iff` — when the application is started, and with what.
-/

namespace AprsPruner

open Getopt

/-! ### The loop over `getopt` -/

/-- `"vdc:"` -/
def optstring : Options := .ofString "vdc:".toList

/-- How the loop ends. -/
inductive Parsed where
  /-- The options are read. -/
  | run (config : Option Word) (console : Bool) : Parsed
  /-- `-v` ends the process. -/
  | version : Parsed
  /-- The usage ends the process, after the error of `getopt` if there was one. -/
  | usage (error : Option (Fault × Char)) : Parsed
  deriving DecidableEq, Repr

/-- The loop over `getopt` in `main`, which has read `config` and `console` so far. -/
def parseOptions (signedChar : Bool) (order : ArgOrder) (s : Scan) (config : Option Word)
    (console : Bool) : Parsed :=
  match _h : next order optstring s with
  | (.done, _) =>
    -- an unsigned `char` is not -1
    if signedChar then .run config console else .usage none
  | (.option c optarg, s') =>
    if c = 'c' then parseOptions signedChar order s' optarg console
    else if c = 'd' then parseOptions signedChar order s' config true
    else if c = 'v' then .version
    else .usage none
  | (.error fault c, _) => .usage (some (fault, c))
  termination_by s.size
  decreasing_by
    all_goals
      have hlt : (next order optstring s).2.size < s.size := size_next_lt (by rw [_h]; exact nofun)
      rwa [_h] at hlt

/-! ### From the command line to the application -/

/-- The name after the last slash of `argv[0]`. -/
def promptOf (argv0 : Word) : Word := (argv0.reverse.takeWhile (· ≠ '/')).reverse

/-- What `usage` writes to the standard error. -/
def usageText (prompt : Word) : String :=
  "Usage: " ++ String.ofList prompt ++ " -c <config_file_path>\n"

/-- The level that the log is set to. -/
inductive LevelSet where
  /-- The level of that number. -/
  | level (n : Int32) : LevelSet
  /-- `LogDebug`. -/
  | logDebug : LevelSet
  deriving DecidableEq, Repr

/-- The configured level, if there is one of that number. -/
def logLevel (cfg : Config) : LevelSet :=
  let loglevel := cfg.getInt "app.log.level" 6
  if 0 ≤ loglevel ∧ loglevel ≤ 7 then .level loglevel else .logDebug

/-- What the application is started with. -/
structure Launch where
  /-- The name it was called by. -/
  prompt : Word
  /-- The configuration file. -/
  config : Word
  /-- It stays on the console. -/
  console : Bool
  /-- The level of the log. -/
  level : LevelSet
  deriving DecidableEq, Repr

/-- What `main` does before `app->start()`. -/
inductive MainResult where
  /-- It ends, and has written that much to the standard error, with what `getopt` has. -/
  | exit (status : ℕ) (stderr : String) : MainResult
  /-- It has come to `app->start()`. -/
  | launch (l : Launch) : MainResult
  deriving DecidableEq, Repr

/-- The configuration file, if no option names one. -/
def kDefaultConfig : Word := "etc/aprspruner.conf".toList

/-- `main` up to `app->start()`: `words` are the words after `argv[0]`, `complains` is the
line that the C library's `getopt` writes about an error, and `cfg` is what the
configuration files hold. -/
def main (signedChar : Bool) (order : ArgOrder) (complains : Word → Fault × Char → String)
    (argv0 : Word) (words : List Word) (pidWritten : Bool) (cfg : Word → Config) : MainResult :=
  match parseOptions signedChar order ⟨[], words, []⟩ none false with
  | .version => .exit 0 ""
  | .usage error => .exit 1 ((error.elim "" (complains argv0)) ++ usageText (promptOf argv0))
  | .run config console =>
    let path := config.getD kDefaultConfig
    if pidWritten then .launch ⟨promptOf argv0, path, console, logLevel (cfg path)⟩
    else .exit 1 "Could not write to PID file.\n"

/-- **The prompt is what follows the last slash.** -/
theorem promptOf_spec (argv0 : Word) : '/' ∉ promptOf argv0 ∧
    (argv0 = promptOf argv0 ∨ ∃ dir, argv0 = dir ++ '/' :: promptOf argv0) := by
  have hsplit : argv0 = (argv0.reverse.dropWhile (· ≠ '/')).reverse ++ promptOf argv0 := by
    rw [promptOf, ← List.reverse_append, List.takeWhile_append_dropWhile, List.reverse_reverse]
  constructor
  · intro h
    have hpos := List.all_takeWhile (p := (· ≠ '/')) (l := argv0.reverse)
    rw [List.all_eq_true] at hpos
    have hpos := hpos _ (List.mem_reverse.mp h)
    simp at hpos
  · cases hrest : argv0.reverse.dropWhile (· ≠ '/') with
    | nil =>
      rw [hrest, List.reverse_nil, List.nil_append] at hsplit
      exact Or.inl hsplit
    | cons c dir =>
      have hc : c = '/' := by
        have hhead := List.head?_dropWhile_not (· ≠ '/') argv0.reverse
        rw [hrest] at hhead
        simpa using hhead
      rw [hrest, hc, List.reverse_cons, List.append_assoc, List.singleton_append] at hsplit
      exact Or.inr ⟨_, hsplit⟩

/-! ### What the loop accepts -/

/-- The file that the last `-c` names. -/
def lastConfig (os : List Spelled) : Option Word :=
  (os.filter (·.1 = 'c')).getLast?.bind Prod.snd

/-- There is a `-d`. -/
def onConsole (os : List Spelled) : Bool := os.any (·.1 = 'd')

/-- The options of the daemon. -/
theorem mem_of_isSome_optstring {c : Char} (h : (optstring c).isSome) :
    c = 'v' ∨ c = 'd' ∨ c = 'c' := by
  by_contra hnot
  push Not at hnot
  obtain ⟨hv, hd, hc⟩ := hnot
  by_cases hcolon : c = ':' ∨ c = ';'
  · simp [optstring, Options.ofString, hcolon] at h
  · have hrest : "vdc:".toList.dropWhile (· ≠ c) = [] := by
      rw [List.dropWhile_eq_nil_iff]
      rw [not_or] at hcolon
      have hlist : "vdc:".toList = ['v', 'd', 'c', ':'] := by decide
      simp [hlist, Ne.symm hv, Ne.symm hd, Ne.symm hc, Ne.symm hcolon.1]
    rw [optstring, Options.ofString, if_neg hcolon, hrest] at h
    cases h

/-- What the calls return is options that leave the loop with `config'` and `console'`, if
it has read `config` and `console` before. -/
def Accepts (answers : List Answer) (config : Option Word) (console : Bool)
    (config' : Option Word) (console' : Bool) : Prop :=
  ∃ os : List Spelled, answers = os.map Answer.ofSpelled ∧ (∀ o ∈ os, o.1 = 'c' ∨ o.1 = 'd') ∧
    config' = os.foldl (fun config o => if o.1 = 'c' then o.2 else config) config ∧
    console' = (console || onConsole os)

section Accepts

variable {config config' optarg : Option Word} {console console' : Bool} {as : List Answer}
  {c : Char}

theorem accepts_nil_iff :
    Accepts [] config console config' console' ↔ config = config' ∧ console = console' := by
  constructor
  · rintro ⟨os, hos, -, rfl, rfl⟩
    obtain rfl : os = [] := by simpa using hos.symm
    simp [onConsole]
  · rintro ⟨rfl, rfl⟩
    exact ⟨[], rfl, by simp, rfl, by simp [onConsole]⟩

/-- One more option. -/
theorem accepts_option_iff : Accepts (.option c optarg :: as) config console config' console' ↔
    (c = 'c' ∨ c = 'd') ∧
      Accepts as (if c = 'c' then optarg else config) (console || c = 'd') config' console' := by
  constructor
  · rintro ⟨os, hos, hletters, rfl, rfl⟩
    obtain ⟨os, rfl, has⟩ := exists_of_cons hos
    obtain ⟨hc, hletters⟩ := List.forall_mem_cons.mp hletters
    exact ⟨hc, os, has, hletters, rfl, by simp [onConsole, Bool.or_assoc]⟩
  · rintro ⟨hc, os, rfl, hletters, rfl, rfl⟩
    exact ⟨(c, optarg) :: os, rfl, List.forall_mem_cons.mpr ⟨hc, hletters⟩, rfl,
      by simp [onConsole, Bool.or_assoc]⟩

theorem not_accepts_error {fault : Fault} :
    ¬ Accepts (.error fault c :: as) config console config' console' :=
  fun ⟨_, hos, _⟩ => ne_of_error hos

end Accepts

/-- **The options that the loop accepts**, if a `char` is signed. -/
theorem parseOptions_eq_run_iff (signedChar : Bool) (order : ArgOrder) (s : Scan)
    (config config' : Option Word) (console console' : Bool) :
    parseOptions signedChar order s config console = .run config' console' ↔
      signedChar ∧ Accepts (answers order optstring s) config console config' console' := by
  fun_induction parseOptions signedChar order s config console with
  | case1 s config console s' h hsigned =>
    rw [answers_done h, accepts_nil_iff]
    simp [hsigned]
  | case2 s config console s' h hsigned => simp [hsigned]
  | case3 s config console optarg s' h ih =>
    rw [answers_next h nofun, accepts_option_iff, ih]
    simp
  | case4 s config console optarg s' h _ ih =>
    rw [answers_next h nofun, accepts_option_iff, ih]
    simp
  | case5 s config console optarg s' h =>
    rw [answers_next h nofun, accepts_option_iff]
    simp
  | case6 s config console c optarg s' h hc hd hv =>
    rw [answers_next h nofun, accepts_option_iff]
    simp [hc, hd]
  | case7 s config console fault c s' h =>
    rw [answers_next h nofun]
    simp [not_accepts_error]

/-- The loop ends with the file that the last `-c` names. -/
theorem foldl_eq_lastConfig (os : List Spelled) :
    os.foldl (fun config o => if o.1 = 'c' then o.2 else config) none = lastConfig os := by
  induction os using List.reverseRecOn with
  | nil => rfl
  | append_singleton os o ih =>
    rw [List.foldl_append, ih, lastConfig, lastConfig, List.filter_append]
    by_cases hc : o.1 = 'c'
    · simp [hc]
    · simp [hc]

/-- **When the application is started, and with what.**  On every command line: exactly if
a `char` is signed, the words spell options without a `-v`, and the file for the process
id can be written; and then with the file that the last `-c` names, on the console if there
is a `-d`.  Options are spelled before the first operand only where `POSIXLY_CORRECT` is
set, and else before and after operands.  Where a `char` is unsigned the application never
is started. -/
theorem main_launches_iff (signedChar : Bool) (order : ArgOrder)
    (complains : Word → Fault × Char → String) (argv0 : Word) (words : List Word)
    (pidWritten : Bool) (cfg : Word → Config) (l : Launch) :
    main signedChar order complains argv0 words pidWritten cfg = .launch l ↔
      signedChar ∧ pidWritten ∧ ∃ os, Spells order optstring os [] words ∧
        (∀ o ∈ os, o.1 ≠ 'v') ∧
        l = ⟨promptOf argv0, (lastConfig os).getD kDefaultConfig, onConsole os,
          logLevel (cfg ((lastConfig os).getD kDefaultConfig))⟩ := by
  have hletters : ∀ os, Spells order optstring os [] words →
      ((∀ o ∈ os, o.1 = 'c' ∨ o.1 = 'd') ↔ ∀ o ∈ os, o.1 ≠ 'v') := by
    intro os hos
    refine forall₂_congr fun o ho => ⟨?_, fun hv => ?_⟩
    · rintro (h | h) <;> simp [h]
    · rcases mem_of_isSome_optstring (hos.isSome o ho) with h | h | h
      · exact absurd h hv
      · exact Or.inr h
      · exact Or.inl h
  have hrun := parseOptions_eq_run_iff signedChar order ⟨[], words, []⟩ none
  constructor
  · intro h
    rw [main] at h
    split at h
    · cases h
    · cases h
    · next config console hparse =>
      obtain ⟨hsigned, os, hos, hcd, rfl, rfl⟩ := (hrun _ _ _).mp hparse
      have hspells := (answers_eq_iff words).mp hos
      split at h
      · next hpid =>
        rw [foldl_eq_lastConfig, Bool.false_or] at h
        exact ⟨hsigned, hpid, os, hspells, (hletters os hspells).mp hcd,
          (MainResult.launch.inj h).symm⟩
      · cases h
  · rintro ⟨hsigned, hpid, os, hspells, hv, rfl⟩
    have hparse := (hrun (lastConfig os) false (onConsole os)).mpr
      ⟨hsigned, os, (answers_eq_iff words).mpr hspells, (hletters os hspells).mpr hv,
        (foldl_eq_lastConfig os).symm, (Bool.false_or _).symm⟩
    rw [main, hparse]
    simp [hpid]

end AprsPruner
