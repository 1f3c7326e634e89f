import Mathlib.Algebra.GroupWithZero.Nat
import Mathlib.Data.List.Basic

/-!
# The options of a command line

`getopt` of the C library reads the short options out of the words of a command line,
one at every call.  A word that begins with `-` is a *cluster* of option letters; a letter
that takes an argument takes the rest of its cluster, or the next word if there is no
rest.  Words that are no clusters are operands.  By default they are set aside, and
reading goes on after them, up to the word `--`; where `POSIXLY_CORRECT` is set, the first
of them ends the options.

What a command line means can be said without saying how it is read: `Spells` is the
grammar of command lines.  Reading one gives the options it spells, and a command line
that is read without an error spells what was read.

## Main definitions

* `Options` — which letters are options, and which take an argument.
* `ArgOrder` — what becomes of operands.
* `Scan`, `next` — where reading is, and one call of `getopt`.
* `answers` — what all the calls return.
* `Spells order opts os cs ws` — the rest `cs` of a cluster and the words `ws` spell `os`.

## Main results

* `size_next_lt` — the calls come to an end.
* `answers_eq_iff` — **a command line is read as what it spells.**
-/

namespace Getopt

/-- A word of a command line. -/
abbrev Word := List Char

/-- Which letters are options, and whether they take an argument. -/
abbrev Options := Char → Option Bool

/-- The options that a string such as `"ab:"` lists: a letter with a colon after it takes
an argument. -/
def Options.ofString (s : List Char) : Options := fun c =>
  if c = ':' ∨ c = ';' then none
  else
    match s.dropWhile (· ≠ c) with
    | [] => none
    | [_] => some false
    | _ :: d :: _ => some (d = ':')

/-- What becomes of operands. -/
inductive ArgOrder where
  /-- They are set aside. -/
  | permute : ArgOrder
  /-- The first of them ends the options, as `POSIXLY_CORRECT` asks. -/
  | requireOrder : ArgOrder
  deriving DecidableEq, Repr

/-- Where reading is. -/
structure Scan where
  /-- The rest of a cluster. -/
  cluster : List Char
  /-- The words after it. -/
  words : List Word
  /-- The operands so far. -/
  operands : List Word
  deriving DecidableEq, Repr

/-- What is wrong with an option. -/
inductive Fault where
  /-- The letter is no option. -/
  | invalid : Fault
  /-- There is no argument for it. -/
  | missing : Fault
  deriving DecidableEq, Repr

/-- What a call returns. -/
inductive Answer where
  /-- A letter, with its argument in `optarg`. -/
  | option (letter : Char) (optarg : Option Word) : Answer
  /-- `?`, after an error. -/
  | error (fault : Fault) (letter : Char) : Answer
  /-- -1, at the end of the options. -/
  | done : Answer
  deriving DecidableEq, Repr

/-- The letter `c` of a cluster, of which `cs` is the rest. -/
def letter (opts : Options) (c : Char) (cs : List Char) (ws operands : List Word) :
    Answer × Scan :=
  match opts c, cs, ws with
  | none, cs, ws => (.error .invalid c, ⟨cs, ws, operands⟩)
  | some false, cs, ws => (.option c none, ⟨cs, ws, operands⟩)
  | some true, d :: cs, ws => (.option c (some (d :: cs)), ⟨[], ws, operands⟩)
  | some true, [], w :: ws => (.option c (some w), ⟨[], ws, operands⟩)
  | some true, [], [] => (.error .missing c, ⟨[], [], operands⟩)

/-- The next word that is a cluster, and what becomes of the operands before it. -/
def word (order : ArgOrder) (opts : Options) (operands : List Word) : List Word → Answer × Scan
  | [] => (.done, ⟨[], [], operands⟩)
  | ['-', '-'] :: ws => (.done, ⟨[], [], operands ++ ws⟩)
  | ('-' :: c :: cs) :: ws => letter opts c cs ws operands
  | w :: ws =>
    if order = .permute then word order opts (operands ++ [w]) ws
    else (.done, ⟨[], [], operands ++ w :: ws⟩)

/-- One call of `getopt`. -/
def next (order : ArgOrder) (opts : Options) (s : Scan) : Answer × Scan :=
  match s.cluster with
  | [] => word order opts s.operands s.words
  | c :: cs => letter opts c cs s.words s.operands

/-- The letters that are left, and one for each word. -/
def Scan.size (s : Scan) : ℕ := s.cluster.length + (s.words.map fun w => w.length + 1).sum

variable {order : ArgOrder} {opts : Options}

theorem size_letter_lt (opts : Options) (c : Char) (cs : List Char) (ws operands : List Word) :
    (letter opts c cs ws operands).2.size <
      (c :: cs).length + (ws.map fun w => w.length + 1).sum := by
  unfold letter
  split <;> simp only [Scan.size, List.length_cons, List.length_nil, List.map_cons, List.map_nil,
    List.sum_cons, List.sum_nil] <;> omega

theorem size_word_lt (operands ws : List Word) (h : (word order opts operands ws).1 ≠ .done) :
    (word order opts operands ws).2.size < (ws.map fun w => w.length + 1).sum := by
  fun_induction word order opts operands ws with
  | case1 => exact absurd rfl h
  | case2 => exact absurd rfl h
  | case3 operands c cs ws _ =>
    have hlt := size_letter_lt opts c cs ws operands
    simp only [List.map_cons, List.sum_cons, List.length_cons] at hlt ⊢
    omega
  | case4 operands w ws _ _ _ ih =>
    have hlt := ih h
    simp only [List.map_cons, List.sum_cons]
    omega
  | case5 => exact absurd rfl h

/-- **The calls come to an end**: each leaves less to read. -/
theorem size_next_lt {s : Scan} (h : (next order opts s).1 ≠ .done) :
    (next order opts s).2.size < s.size := by
  obtain ⟨cluster, words, operands⟩ := s
  cases cluster with
  | nil =>
    have hlt := size_word_lt operands words h
    simpa [next, Scan.size] using hlt
  | cons c cs => exact size_letter_lt opts c cs words operands

/-- What all the calls return, up to the -1. -/
def answers (order : ArgOrder) (opts : Options) (s : Scan) : List Answer :=
  if (next order opts s).1 = .done then []
  else (next order opts s).1 :: answers order opts (next order opts s).2
  termination_by s.size
  decreasing_by exact size_next_lt ‹_›

/-! ### What a command line means -/

/-- An option as it is spelled: its letter and its argument. -/
abbrev Spelled := Char × Option Word

/-- A word that is no cluster and does not end the options. -/
def IsOperand (w : Word) : Prop := ∀ c cs, w ≠ '-' :: c :: cs

/-- **The grammar of command lines**: the rest `cs` of a cluster, and the words after it,
spell the options `os`. -/
inductive Spells (order : ArgOrder) (opts : Options) :
    List Spelled → List Char → List Word → Prop
  /-- No words are left. -/
  | nil : Spells order opts [] [] []
  /-- The word `--` ends the options. -/
  | dashes (ws : List Word) : Spells order opts [] [] (['-', '-'] :: ws)
  /-- An operand is set aside. -/
  | operand {os : List Spelled} {w : Word} {ws : List Word} : order = .permute →
      IsOperand w → Spells order opts os [] ws → Spells order opts os [] (w :: ws)
  /-- An operand ends the options. -/
  | stop {w : Word} (ws : List Word) : order = .requireOrder →
      IsOperand w → Spells order opts [] [] (w :: ws)
  /-- A word that begins with `-` is a cluster. -/
  | cluster {os : List Spelled} {c : Char} {cs : List Char} {ws : List Word} :
      c :: cs ≠ ['-'] → Spells order opts os (c :: cs) ws →
        Spells order opts os [] (('-' :: c :: cs) :: ws)
  /-- A letter without an argument. -/
  | flag {os : List Spelled} {c : Char} {cs : List Char} {ws : List Word} :
      opts c = some false → Spells order opts os cs ws →
        Spells order opts ((c, none) :: os) (c :: cs) ws
  /-- A letter whose argument is the rest of its cluster. -/
  | attached {os : List Spelled} {c d : Char} {cs : List Char} {ws : List Word} :
      opts c = some true → Spells order opts os [] ws →
        Spells order opts ((c, some (d :: cs)) :: os) (c :: d :: cs) ws
  /-- A letter whose argument is the next word. -/
  | separate {os : List Spelled} {c : Char} {w : Word} {ws : List Word} :
      opts c = some true → Spells order opts os [] ws →
        Spells order opts ((c, some w) :: os) [c] (w :: ws)

/-- What a call returns for an option. -/
def Answer.ofSpelled (o : Spelled) : Answer := .option o.1 o.2

/-! ### Reading what is spelled -/

section Equations

variable {os : List Spelled} {c d : Char} {cs : List Char} {w : Word} {ws operands : List Word}

theorem word_cluster (h : c :: cs ≠ ['-']) :
    word order opts operands (('-' :: c :: cs) :: ws) = letter opts c cs ws operands :=
  word.eq_3 _ _ _ _ _ _ fun hc hcs => h (by rw [hc, hcs])

/-- An operand is set aside, or ends the options. -/
theorem word_operand (h : IsOperand w) :
    word order opts operands (w :: ws) =
      if order = .permute then word order opts (operands ++ [w]) ws
      else (.done, ⟨[], [], operands ++ w :: ws⟩) :=
  word.eq_4 _ _ _ _ _ (h '-' []) h

theorem letter_error (h : opts c = none) :
    letter opts c cs ws operands = (.error .invalid c, ⟨cs, ws, operands⟩) := by
  unfold letter
  rw [h]

theorem letter_flag (h : opts c = some false) :
    letter opts c cs ws operands = (.option c none, ⟨cs, ws, operands⟩) := by
  unfold letter
  rw [h]

theorem letter_attached (h : opts c = some true) :
    letter opts c (d :: cs) ws operands = (.option c (some (d :: cs)), ⟨[], ws, operands⟩) := by
  unfold letter
  rw [h]

theorem letter_separate (h : opts c = some true) :
    letter opts c [] (w :: ws) operands = (.option c (some w), ⟨[], ws, operands⟩) := by
  unfold letter
  rw [h]

theorem letter_missing (h : opts c = some true) :
    letter opts c [] [] operands = (.error .missing c, ⟨[], [], operands⟩) := by
  unfold letter
  rw [h]

/-- Two scans whose next call is the same are read alike. -/
theorem answers_congr {s s' : Scan} (h : next order opts s = next order opts s') :
    answers order opts s = answers order opts s' := by
  unfold answers
  rw [h]

theorem answers_nil : answers order opts ⟨[], [], operands⟩ = [] := by
  unfold answers
  rfl

theorem answers_dashes : answers order opts ⟨[], ['-', '-'] :: ws, operands⟩ = [] := by
  unfold answers
  rfl

theorem answers_operand (horder : order = .permute) (h : IsOperand w) :
    answers order opts ⟨[], w :: ws, operands⟩ = answers order opts ⟨[], ws, operands ++ [w]⟩ := by
  subst horder
  exact answers_congr (word_operand h)

theorem answers_cluster (h : c :: cs ≠ ['-']) :
    answers order opts ⟨[], ('-' :: c :: cs) :: ws, operands⟩ =
      answers order opts ⟨c :: cs, ws, operands⟩ :=
  answers_congr (word_cluster h)

theorem answers_done {s s' : Scan} (h : next order opts s = (.done, s')) :
    answers order opts s = [] := by
  unfold answers
  rw [h, if_pos rfl]

theorem answers_stop (horder : order = .requireOrder) (h : IsOperand w) :
    answers order opts ⟨[], w :: ws, operands⟩ = [] := by
  subst horder
  exact answers_done (word_operand h)

/-- A call that reads something. -/
theorem answers_next {s s' : Scan} {a : Answer} (h : next order opts s = (a, s')) (ha : a ≠ .done) :
    answers order opts s = a :: answers order opts s' := by
  rw [answers, h, if_neg ha]

theorem answers_letter {s : Scan} {a : Answer} (h : letter opts c cs ws operands = (a, s))
    (ha : a ≠ .done) : answers order opts ⟨c :: cs, ws, operands⟩ = a :: answers order opts s :=
  answers_next h ha

end Equations

variable {os : List Spelled} {cs : List Char} {ws : List Word}

/-- **What is spelled is read.** -/
theorem Spells.answers_eq (h : Spells order opts os cs ws) :
    ∀ operands, answers order opts ⟨cs, ws, operands⟩ = os.map Answer.ofSpelled := by
  induction h with
  | nil => exact fun _ => answers_nil
  | dashes ws => exact fun _ => answers_dashes
  | operand horder hw _ ih => exact fun operands => (answers_operand horder hw).trans (ih _)
  | stop ws horder hw => exact fun _ => answers_stop horder hw
  | cluster hne _ ih => exact fun operands => (answers_cluster hne).trans (ih _)
  | flag hc _ ih =>
    intro operands
    rw [answers_letter (letter_flag hc) nofun, ih]
    rfl
  | attached hc _ ih =>
    intro operands
    rw [answers_letter (letter_attached hc) nofun, ih]
    rfl
  | separate hc _ ih =>
    intro operands
    rw [answers_letter (letter_separate hc) nofun, ih]
    rfl

/-- Only options are spelled. -/
theorem Spells.isSome (h : Spells order opts os cs ws) : ∀ o ∈ os, (opts o.1).isSome := by
  induction h with
  | nil | dashes | stop => simp
  | operand _ _ _ ih | cluster _ _ ih => exact ih
  | flag hc _ ih | attached hc _ ih | separate hc _ ih =>
    exact List.forall_mem_cons.mpr ⟨by rw [hc]; rfl, ih⟩

/-- The options that begin with what a call has read. -/
theorem exists_of_cons {c : Char} {optarg : Option Word} {as : List Answer}
    (h : .option c optarg :: as = os.map Answer.ofSpelled) :
    ∃ os', os = (c, optarg) :: os' ∧ as = os'.map Answer.ofSpelled := by
  cases os with
  | nil => simp at h
  | cons o os =>
    obtain ⟨hhead, htail⟩ := List.cons.inj h
    obtain ⟨rfl, rfl⟩ := Answer.option.inj hhead
    exact ⟨os, rfl, htail⟩

/-- An error is no option. -/
theorem ne_of_error {fault : Fault} {c : Char} {as : List Answer} :
    .error fault c :: as ≠ os.map Answer.ofSpelled := by
  cases os with
  | nil => simp
  | cons o os => simp [Answer.ofSpelled]

/-- **What is read is spelled**, by induction on what is left to read. -/
theorem spells_of_answers_eq (s : Scan) (h : answers order opts s = os.map Answer.ofSpelled) :
    Spells order opts os s.cluster s.words := by
  induction hn : s.size using Nat.strongRecOn generalizing s os with
  | _ n ih =>
    subst hn
    obtain ⟨cluster, words, operands⟩ := s
    cases cluster with
    | cons c cs =>
      have hlt := size_letter_lt opts c cs words operands
      cases hc : opts c with
      | none =>
        rw [answers_letter (letter_error hc) nofun] at h
        exact absurd h ne_of_error
      | some takes =>
        cases takes with
        | false =>
          rw [answers_letter (letter_flag hc) nofun] at h
          obtain ⟨os, rfl, hrest⟩ := exists_of_cons h
          rw [letter_flag hc] at hlt
          exact .flag hc (ih _ hlt _ hrest rfl)
        | true =>
          cases cs with
          | cons d cs =>
            rw [answers_letter (letter_attached hc) nofun] at h
            obtain ⟨os, rfl, hrest⟩ := exists_of_cons h
            rw [letter_attached hc] at hlt
            exact .attached hc (ih _ hlt _ hrest rfl)
          | nil =>
            cases words with
            | nil =>
              rw [answers_letter (letter_missing hc) nofun] at h
              exact absurd h ne_of_error
            | cons w ws =>
              rw [answers_letter (letter_separate hc) nofun] at h
              obtain ⟨os, rfl, hrest⟩ := exists_of_cons h
              rw [letter_separate hc] at hlt
              exact .separate hc (ih _ hlt _ hrest rfl)
    | nil =>
      cases words with
      | nil =>
        rw [answers_nil] at h
        obtain rfl : os = [] := by simpa using h.symm
        exact .nil
      | cons w ws =>
        by_cases hdashes : w = ['-', '-']
        · subst hdashes
          rw [answers_dashes] at h
          obtain rfl : os = [] := by simpa using h.symm
          exact .dashes ws
        · by_cases hw : IsOperand w
          · cases order with
            | permute =>
              rw [answers_operand rfl hw] at h
              exact .operand rfl hw (ih _ (by simp [Scan.size]) _ h rfl)
            | requireOrder =>
              rw [answers_stop rfl hw] at h
              obtain rfl : os = [] := by simpa using h.symm
              exact .stop ws rfl hw
          · obtain ⟨c, cs, rfl⟩ : ∃ c cs, w = '-' :: c :: cs := by simpa [IsOperand] using hw
            have hne : c :: cs ≠ ['-'] := fun heq => hdashes (by rw [heq])
            rw [answers_cluster hne] at h
            exact .cluster hne (ih _ (by simp [Scan.size]) _ h rfl)

/-- **A command line is read as what it spells**: the calls return options and no error
exactly if it spells them. -/
theorem answers_eq_iff (words : List Word) :
    answers order opts ⟨[], words, []⟩ = os.map Answer.ofSpelled ↔ Spells order opts os [] words :=
  ⟨spells_of_answers_eq ⟨[], words, []⟩, fun h => h.answers_eq []⟩

end Getopt
