import Mathlib.Algebra.Order.Ring.Int
import Mathlib.Tactic.Linarith

/-!
# Clock readings, configuration and log lines

What every part of the daemon shares.  The C++ integer types are Lean's
fixed-width ones: `int` is `Int32`, `time_t` is `Int64`, `unsigned int` is
`UInt32` and `size_t` is `UInt64`.

## Main definitions

* `Clock` — a reading of `time(NULL)`.
* `InInt` — the value of some `int`.
* `Config` — the configuration, read with `getInt` and `getString`.
* `LogLine` — a line handed to the logger.

## Main results

* `Clock.secs_sub` — `time(NULL) - age` is exact for an age that fits in an `int`.
-/

namespace AprsPruner

/-! ### Time -/

/-- A reading of `time(NULL)`.  C++ leaves the overflow of a `time_t` undefined,
so the `2 ^ 31` seconds at either end of its range, from which subtracting an
`int` could overflow, are not readings. -/
structure Clock where
  /-- The value returned. -/
  time : Int64
  /-- It is not so low that subtracting an `int` could overflow. -/
  lower : -2 ^ 63 + 2 ^ 31 ≤ time.toInt
  /-- It is not so high either. -/
  upper : time.toInt < 2 ^ 63 - 2 ^ 31

/-- The seconds a reading stands for. -/
def Clock.secs (c : Clock) : ℤ := c.time.toInt

/-- The reading of `n` seconds after the epoch. -/
def Clock.ofEpoch (n : UInt32) : Clock where
  time := Int64.ofNat n.toNat
  lower := by
    have hlt := n.toNat_lt
    rw [Int64.toInt_ofNat_of_lt (by omega)]
    omega
  upper := by
    have hlt := n.toNat_lt
    rw [Int64.toInt_ofNat_of_lt (by omega)]
    omega

/-- The value lies in the range of `int`. -/
def InInt (z : ℤ) : Prop := -2 ^ 31 ≤ z ∧ z < 2 ^ 31

instance (z : ℤ) : Decidable (InInt z) := inferInstanceAs (Decidable (_ ∧ _))

theorem inInt_toInt (x : Int32) : InInt x.toInt := ⟨Int32.le_toInt x, Int32.toInt_lt x⟩

/-- An `int` passed as a `time_t` keeps its value, negative ones too. -/
theorem inInt_toInt64 (x : Int32) : InInt x.toInt64.toInt := by
  rw [Int32.toInt_toInt64]
  exact inInt_toInt x

/-- **`time(NULL) - age` does not overflow** for an age that fits in an `int`. -/
theorem Clock.secs_sub (c : Clock) {age : Int64} (h : InInt age.toInt) :
    (c.time - age).toInt = c.secs - age.toInt := by
  obtain ⟨hlo, hhi⟩ := h
  have hl := c.lower
  have hu := c.upper
  rw [Int64.toInt_sub, Clock.secs, Int.bmod_eq_of_le] <;> omega

/-! ### Configuration -/

/-- What the configuration file sets, under its dotted keys. -/
structure Config where
  /-- The integers that are set. -/
  ints : String → Option Int32
  /-- The strings that are set. -/
  strings : String → Option String

/-- `cfg->get_int`: the configured integer, or the default. -/
def Config.getInt (cfg : Config) (key : String) (dflt : Int32) : Int32 :=
  (cfg.ints key).getD dflt

/-- `cfg->get_string`: the configured string, or the default. -/
def Config.getString (cfg : Config) (key : String) (dflt : String) : String :=
  (cfg.strings key).getD dflt

/-- A configuration that sets one integer. -/
def Config.ofInt (key : String) (value : Int32) : Config where
  ints k := if k = key then some value else none
  strings _ := none

/-- The configuration that sets one integer more. -/
def Config.setInt (cfg : Config) (key : String) (value : Int32) : Config :=
  { cfg with ints := fun k => if k = key then some value else cfg.ints k }

/-- The two configurations agree on every key outside `keys`. -/
def Config.DifferOnlyIn (keys : Set String) (cfg cfg' : Config) : Prop :=
  ∀ key, key ∉ keys → cfg.ints key = cfg'.ints key ∧ cfg.strings key = cfg'.strings key

theorem Config.DifferOnlyIn.getInt_eq {keys : Set String} {cfg cfg' : Config}
    (h : cfg.DifferOnlyIn keys cfg') {key : String} (hk : key ∉ keys) (dflt : Int32) :
    cfg.getInt key dflt = cfg'.getInt key dflt := by
  rw [getInt, getInt, (h key hk).1]

theorem Config.differOnlyIn_setInt {keys : Set String} {key : String} (hk : key ∈ keys)
    (cfg : Config) (x y : Int32) : (cfg.setInt key x).DifferOnlyIn keys (cfg.setInt key y) := by
  intro k hout
  have hne : k ≠ key := fun h => hout (h ▸ hk)
  have hold : ∀ x, (cfg.setInt key x).ints k = cfg.ints k := fun x => if_neg hne
  exact ⟨by rw [hold, hold], rfl⟩

/-! ### Logging -/

/-- The levels the modelled code logs at. -/
inductive LogLevel where
  /-- `LogWarn` -/
  | warn : LogLevel
  /-- `LogNotice` -/
  | notice : LogLevel
  deriving DecidableEq, Repr

/-- One line handed to the logger. -/
structure LogLine where
  /-- The level it is logged at. -/
  level : LogLevel
  /-- What it says. -/
  text : String
  deriving DecidableEq, Repr

end AprsPruner
