import Vigil.Proofs.Decimal.Nearest
import Vigil.Settings.Load

/-!
# The limits of settings

The rules compare doubles. `Settings.limits` states the same limits in exact numbers, together with what is let
through although a limit is not kept: a load that is not a number, and a count that differs from its bound by
less than the two are rounded. `check_reports_first`: these are the only exceptions, and what is reported is the
first limit that is broken. What is known of accepted settings is read off the limits.
-/

namespace Vigil.Settings

open Decimal (value? rational)

variable {s : Settings}

-- ---------------------------------------------------------------------------
-- Limits
-- ---------------------------------------------------------------------------

structure Limit where
  key : String
  kept : Bool
  excused : Bool := false

namespace Limit

def broken (l : Limit) : Bool := !(l.kept || l.excused)

def count (key : String) (low high n : Nat) : Limit := { key, kept := low ≤ n && n ≤ high }

def fraction (key : String) (x : Float) : Limit :=
  { key, kept := (value? x).any fun a => rational 0 < a && a ≤ rational 1 }

/-- The limit of a load in percent, which lets through what is not a number. -/
def percentage (key : String) (low high : Nat) (x : Float) : Limit where
  key := key
  kept := (value? x).any fun a => rational low ≤ a && a ≤ rational high
  excused := x.isNaN

/-- The limit of a count by another one, which lets through what is rounded to that one. -/
def rounded (key : String) (low high n : Nat) : Limit :=
  { count key low high n with excused := low ≤ n && (Float.ofNat n == Float.ofNat high) }

end Limit

def limits (s : Settings) : List Limit :=
  [ .count "sampler.interval_ms" 50 60000 s.sampling.intervalMs,
    .count "classifier.tick_ms" 50 60000 s.assessment.tickMs,
    .count "logs.window_lines" 2 10000 s.logs.windowLines,
    .count "logs.min_lines" 1 s.logs.windowLines s.logs.minLines,
    .fraction "logs.exact_threshold" s.logs.exactThreshold,
    .fraction "logs.fuzzy_threshold" s.logs.fuzzyThreshold,
    .fraction "logs.progress_diversity" s.logs.progressDiversity,
    .percentage "cpu.sustained_percent" 1 100 s.cpu.sustainedPercent,
    .count "cpu.window_secs" 1 3600 s.cpu.windowSecs,
    .rounded "memory.leak_min_samples" 2 s.sampling.historyCapacity s.memory.leakMinSamples,
    .count "reaper.max_attempts" 1 10 s.reaping.maxAttempts,
    .count "reaper.poll_ms" 10 10000 s.reaping.pollMs ]

-- ---------------------------------------------------------------------------
-- Demands in exact numbers
-- ---------------------------------------------------------------------------

variable {low high n : Nat} {x : Float}

theorem between_iff : (Demand.between (.ofNat low) (.ofNat high)).holds x ↔
    x.isNaN ∨ ∃ a ∈ value? x, Count.value low ≤ a ∧ a ≤ Count.value high := by
  simp only [Demand.holds, Bool.not_eq_true', Bool.or_eq_false_iff, decide_eq_false_iff_not, Decimal.lt_iff,
    Count.value?_ofNat, Decimal.isNaN_iff]
  cases value? x <;> simp

theorem between_count_iff : (Demand.between (.ofNat low) (.ofNat high)).holds (.ofNat n) ↔
    Count.value low ≤ Count.value n ∧ Count.value n ≤ Count.value high := by
  rw [between_iff, Decimal.isNaN_iff, Count.value?_ofNat]
  simp

theorem value?_one : value? 1 = some (rational 1) :=
  (Count.value?_small (by decide)).trans (by rw [Nat.cast_one])

theorem fraction_iff : Demand.fraction.holds x ↔ ∃ a ∈ value? x, rational 0 < a ∧ a ≤ rational 1 := by
  have hzero : value? 0 = some (rational 0) := (Count.value?_small (by decide)).trans (by rw [Nat.cast_zero])
  simp only [Demand.holds, Bool.and_eq_true, decide_eq_true_eq, Decimal.lt_iff, Decimal.le_iff, hzero,
    value?_one]
  cases value? x <;> simp

/-- A rule demands what the limit asks for, or what it lets through. -/
structure Demands (r : Rule) (l : Limit) : Prop where
  key : r.key = l.key
  holds : r.holds = !l.broken

theorem demands_count (key : String) (hlow : low.log2 ≤ 52) (hhigh : high.log2 ≤ 52) :
    Demands ⟨key, .between (.ofNat low) (.ofNat high), .ofNat n⟩ (.count key low high n) where
  key := rfl
  holds := by
    rw [Bool.eq_iff_iff, Rule.holds, between_count_iff, Count.value_small hlow, Count.value_small hhigh,
      Count.value_le_iff hhigh, Count.le_value_iff hlow]
    simp [Limit.broken, Limit.count]

theorem demands_fraction (key : String) : Demands ⟨key, .fraction, x⟩ (.fraction key x) where
  key := rfl
  holds := by
    rw [Bool.eq_iff_iff, Rule.holds, fraction_iff]
    simp [Limit.broken, Limit.fraction, Option.any_eq_true]

theorem demands_percentage (key : String) (hlow : low.log2 ≤ 52) (hhigh : high.log2 ≤ 52) :
    Demands ⟨key, .between (.ofNat low) (.ofNat high), x⟩ (.percentage key low high x) where
  key := rfl
  holds := by
    rw [Bool.eq_iff_iff, Rule.holds, between_iff, Count.value_small hlow, Count.value_small hhigh]
    simp [Limit.broken, Limit.percentage, Option.any_eq_true, or_comm]

theorem demands_rounded (key : String) (hlow : low.log2 ≤ 52) :
    Demands ⟨key, .between (.ofNat low) (.ofNat high), .ofNat n⟩ (.rounded key low high n) where
  key := rfl
  holds := by
    have heq : (Float.ofNat n == Float.ofNat high) ↔ Count.value n = Count.value high := by
      rw [Decimal.beq_iff, Count.value?_ofNat, Count.value?_ofNat]
      simp [eq_comm]
    have hle : Count.value n ≤ Count.value high ↔ n ≤ high ∨ Count.value n = Count.value high := by
      constructor
      · intro h
        rcases Nat.le_total n high with hn | hn
        · exact .inl hn
        · exact .inr (le_antisymm h (Count.value_mono hn))
      · rintro (h | h)
        · exact Count.value_mono h
        · exact h.le
    rw [Bool.eq_iff_iff, Rule.holds, between_count_iff, Count.value_small hlow, Count.le_value_iff hlow, hle,
      ← heq]
    simp [Limit.broken, Limit.rounded, Limit.count, and_or_left]

-- ---------------------------------------------------------------------------
-- Checking
-- ---------------------------------------------------------------------------

inductive Agrees : List Rule → List Limit → Prop
  | nil : Agrees [] []
  | cons {r : Rule} {l : Limit} {rs : List Rule} {ls : List Limit} (h : Demands r l)
      (hrest : r.holds → Agrees rs ls) : Agrees (r :: rs) (l :: ls)

theorem Agrees.first {rs : List Rule} {ls : List Limit} (h : Agrees rs ls) :
    (rs.find? fun r => !r.holds).map (·.key) = (ls.find? (·.broken)).map (·.key) := by
  induction h with
  | nil => rfl
  | @cons r l rs ls hr _ ih =>
    have hholds := hr.holds
    cases hbroken : l.broken with
    | true =>
      rw [hbroken] at hholds
      rw [List.find?_cons_of_pos (by simp [hholds]), List.find?_cons_of_pos hbroken]
      exact congrArg some hr.key
    | false =>
      rw [hbroken] at hholds
      rw [List.find?_cons_of_neg (by simp [hholds]), List.find?_cons_of_neg (by simp [hbroken])]
      exact ih hholds

theorem agrees (s : Settings) : Agrees s.rules s.limits := by
  refine .cons (demands_count _ (by decide) (by decide)) fun _ => ?_
  refine .cons (demands_count _ (by decide) (by decide)) fun _ => ?_
  have hdemands : Demands ⟨"logs.window_lines", .between 2 10000, .ofNat s.logs.windowLines⟩
      (.count "logs.window_lines" 2 10000 s.logs.windowLines) := demands_count _ (by decide) (by decide)
  refine .cons hdemands fun hlines => ?_
  -- a window that is accepted is small enough to be compared without rounding
  have hwindow : s.logs.windowLines.log2 ≤ 52 := by
    rw [hdemands.holds] at hlines
    have hle : 2 ≤ s.logs.windowLines ∧ s.logs.windowLines ≤ 10000 := by
      simpa [Limit.broken, Limit.count] using hlines
    exact Count.log2_le (by omega)
  refine .cons (demands_count _ (by decide) hwindow) fun _ => ?_
  refine .cons (demands_fraction _) fun _ => ?_
  refine .cons (demands_fraction _) fun _ => ?_
  refine .cons (demands_fraction _) fun _ => ?_
  refine .cons (demands_percentage _ (by decide) (by decide)) fun _ => ?_
  refine .cons (demands_count _ (by decide) (by decide)) fun _ => ?_
  refine .cons (demands_rounded _ (by decide)) fun _ => ?_
  refine .cons (demands_count _ (by decide) (by decide)) fun _ => ?_
  exact .cons (demands_count _ (by decide) (by decide)) fun _ => .nil

theorem first_broken (s : Settings) : s.broken?.map (·.key) = (s.limits.find? (·.broken)).map (·.key) :=
  (agrees s).first

/-- Checking hands back settings that break no limit, and otherwise names the first one they break. -/
theorem check_reports_first (s : Settings) : s.check.mapError (·.key) =
    match s.limits.find? (·.broken) with
    | none => .ok s
    | some l => .error l.key := by
  have hfirst := first_broken s
  rw [check]
  cases hrule : s.broken? with
  | none =>
    rw [hrule] at hfirst
    rw [Option.map_eq_none_iff.mp hfirst.symm]
    rfl
  | some rule =>
    rw [hrule] at hfirst
    obtain ⟨l, hl, hkey⟩ := Option.map_eq_some_iff.mp hfirst.symm
    rw [hl]
    exact congrArg Except.error hkey.symm

def unattainable : Settings := { cpu := { sustainedPercent := 0 / 0 } }

theorem unkept_accepted : ¬ ∀ s : Settings, s.check = .ok s ↔ ∀ l ∈ s.limits, l.kept := by
  intro hclaim
  have haccepted : unattainable.broken? = none := by decide +kernel
  have hcheck : unattainable.check = .ok unattainable := by rw [check, haccepted]
  have hpercent : Limit.percentage "cpu.sustained_percent" 1 100 (0 / 0) ∈ unattainable.limits := by
    simp [limits, unattainable]
  exact absurd ((hclaim unattainable).mp hcheck _ hpercent) (by decide +kernel)

def unobservable : Settings :=
  { sampling := { historyCapacity := 9007199254740992 }, memory := { leakMinSamples := 9007199254740993 } }

example : unobservable.Accepted ∧ ∃ l ∈ unobservable.limits, !l.kept := by decide +kernel

-- ---------------------------------------------------------------------------
-- Accepted settings
-- ---------------------------------------------------------------------------

theorem Accepted.limit (h : s.Accepted) {l : Limit} (hl : l ∈ s.limits) : l.kept ∨ l.excused := by
  have hfirst := first_broken s
  rw [show s.broken? = none from h] at hfirst
  have hunbroken := List.find?_eq_none.mp (Option.map_eq_none_iff.mp hfirst.symm) l hl
  rwa [Limit.broken, Bool.not_eq_true, Bool.not_eq_false', Bool.or_eq_true] at hunbroken

theorem Accepted.count (h : s.Accepted) {key : String} (hl : .count key low high n ∈ s.limits) :
    low ≤ n ∧ n ≤ high := by
  simpa [Limit.count] using h.limit hl

theorem Accepted.interval_pos (h : s.Accepted) : 0 < s.sampling.intervalMs := by
  have hlimit : .count "sampler.interval_ms" 50 60000 s.sampling.intervalMs ∈ s.limits := by simp [limits]
  have hle := (h.count hlimit).1
  omega

theorem Accepted.windowLines_le (h : s.Accepted) : s.logs.windowLines ≤ 10000 := by
  have hlimit : .count "logs.window_lines" 2 10000 s.logs.windowLines ∈ s.limits := by simp [limits]
  exact (h.count hlimit).2

theorem Accepted.windowSecs_le (h : s.Accepted) : s.cpu.windowSecs ≤ 3600 := by
  have hlimit : .count "cpu.window_secs" 1 3600 s.cpu.windowSecs ∈ s.limits := by simp [limits]
  exact (h.count hlimit).2

theorem Accepted.cpu_window_le (h : s.Accepted) : s.cpu.window ≤ 3600000 :=
  Nat.mul_le_mul_right 1000 h.windowSecs_le

theorem Accepted.leakMinSamples_pos (h : s.Accepted) : 0 < s.memory.leakMinSamples := by
  have hlimit : .rounded "memory.leak_min_samples" 2 s.sampling.historyCapacity s.memory.leakMinSamples ∈
      s.limits := by
    simp [limits]
  have hle : 2 ≤ s.memory.leakMinSamples := by
    have hrounded := h.limit hlimit
    simp only [Limit.rounded, Limit.count, Bool.and_eq_true, decide_eq_true_eq] at hrounded
    rcases hrounded with hrounded | hrounded <;> exact hrounded.1
  omega

theorem Accepted.fuzzyThreshold_le (h : s.Accepted) : s.logs.fuzzyThreshold ≤ 1 := by
  have hlimit : .fraction "logs.fuzzy_threshold" s.logs.fuzzyThreshold ∈ s.limits := by simp [limits]
  obtain ⟨a, ha, -, hle⟩ : ∃ a ∈ value? s.logs.fuzzyThreshold, rational 0 < a ∧ a ≤ rational 1 := by
    simpa [Limit.fraction, Option.any_eq_true] using h.limit hlimit
  exact Decimal.le_iff.mpr ⟨a, ha, rational 1, value?_one, hle⟩

theorem Accepted.sustainedPercent_between (h : s.Accepted) (hnumber : ¬ s.cpu.sustainedPercent.isNaN) :
    ∃ a ∈ value? s.cpu.sustainedPercent, rational (1 : Nat) ≤ a ∧ a ≤ rational (100 : Nat) := by
  have hlimit : .percentage "cpu.sustained_percent" 1 100 s.cpu.sustainedPercent ∈ s.limits := by
    simp [limits]
  rcases h.limit hlimit with hkept | hexcused
  · simpa [Limit.percentage, Option.any_eq_true] using hkept
  · exact absurd hexcused hnumber

/-- What is not a number is let through, and no load reaches it. -/
theorem Accepted.sustainedPercent_le_iff (h : s.Accepted) :
    s.cpu.sustainedPercent ≤ 100 ↔ ¬ s.cpu.sustainedPercent.isNaN := by
  constructor
  · intro hle hnan
    obtain ⟨a, ha, -⟩ := Decimal.le_iff.mp hle
    rw [Decimal.isNaN_iff.mp hnan] at ha
    cases ha
  · intro hnumber
    obtain ⟨a, ha, -, hle⟩ := h.sustainedPercent_between hnumber
    exact Decimal.le_iff.mpr ⟨a, ha, rational (100 : Nat), Count.value?_small (by decide), hle⟩

end Vigil.Settings
