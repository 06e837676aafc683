import Mathlib.Algebra.Order.Group.Int
import Mathlib.Data.Int.Basic
import Mathlib.Tactic.Linarith
import Mathlib.Tactic.Ring

/-!
# Whole intervals

A clock counts whole intervals of a fixed length. When it is read, it counts
the intervals that have passed since its base and moves the base behind them;
a part of an interval is kept for the next reading. When it is set, its base
is the time of day, and what it has not counted is lost.
-/

namespace Intervals

/-- What happens to a clock. -/
inductive Beat where
  | read
  | set
deriving DecidableEq

/-- What a clock goes through: the intervals counted before it was last set,
when that was, and when it was last read. -/
structure Tally where
  counted : Int
  start : Int
  last : Int
deriving DecidableEq

namespace Tally

/-- A clock that is set at `t`. -/
def begun (t : Int) : Tally := ⟨0, t, t⟩

section

variable (n : Int)

/-- The whole intervals from the last setting to the last reading. -/
def running (c : Tally) : Int := (c.last - c.start) / n

/-- The intervals that have been counted. -/
def total (c : Tally) : Int := c.counted + c.running n

/-- The time up to which intervals have been counted. -/
def base (c : Tally) : Int := c.start + c.running n * n

def beat (t : Int) : Beat → Tally → Tally
  | .read, c => { c with last := t }
  | .set, c => ⟨c.total n, t, t⟩

/-- The clock after beats, each with its time. -/
def after (c : Tally) (beats : List (Int × Beat)) : Tally :=
  beats.foldl (fun c b => c.beat n b.1 b.2) c

end

/-- The clock is read and set in the order of time. -/
structure InOrder (c : Tally) : Prop where
  counted : 0 ≤ c.counted
  start_le : c.start ≤ c.last

variable {n t : Int} {c : Tally}

@[simp] theorem total_begun (n t : Int) : (begun t).total n = 0 := by
  simp [begun, total, running]

@[simp] theorem base_begun (n t : Int) : (begun t).base n = t := by
  simp [begun, base, running]

theorem inOrder_begun (t : Int) : (begun t).InOrder := ⟨le_rfl, le_rfl⟩

theorem running_nonneg (hn : 0 < n) (h : c.InOrder) : 0 ≤ c.running n :=
  Int.ediv_nonneg (sub_nonneg.mpr h.start_le) hn.le

theorem total_nonneg (hn : 0 < n) (h : c.InOrder) : 0 ≤ c.total n :=
  add_nonneg h.counted (running_nonneg hn h)

/-- The base is not ahead of the clock. -/
theorem base_le (hn : 0 < n) (c : Tally) : c.base n ≤ c.last := by
  have h := Int.ediv_mul_le (c.last - c.start) hn.ne'
  rw [base, running]
  linarith

theorem InOrder.beat (h : c.InOrder) (hn : 0 < n) (ht : c.last ≤ t) (b : Beat) :
    (c.beat n t b).InOrder := by
  cases b with
  | read => exact ⟨h.counted, h.start_le.trans ht⟩
  | set => exact ⟨total_nonneg hn h, le_rfl⟩

theorem after_cons (n t : Int) (b : Beat) (rest : List (Int × Beat)) (c : Tally) :
    c.after n ((t, b) :: rest) = (c.beat n t b).after n rest := rfl

theorem last_beat (n t : Int) (c : Tally) (b : Beat) : (c.beat n t b).last = t := by
  cases b <;> rfl

/-! ## Readings -/

/-- Nothing is lost between two readings: the intervals since the base are
those that are still to be counted. -/
theorem total_read (hn : 0 < n) (t : Int) (c : Tally) :
    (c.beat n t .read).total n = c.total n + (t - c.base n) / n := by
  have hsplit : (t - c.start) / n = c.running n + (t - c.base n) / n := by
    rw [show t - c.start = t - c.base n + c.running n * n by rw [base]; ring,
      Int.add_mul_ediv_right _ _ hn.ne', add_comm]
  change c.counted + (t - c.start) / n = c.counted + c.running n + (t - c.base n) / n
  rw [hsplit, add_assoc]

theorem base_read (hn : 0 < n) (t : Int) (c : Tally) :
    (c.beat n t .read).base n = c.base n + (t - c.base n) / n * n := by
  have h := total_read hn t c
  have hrunning : (c.beat n t .read).running n = c.running n + (t - c.base n) / n := by
    rw [total, total] at h
    change c.counted + _ = _ at h
    linarith
  rw [base, hrunning]
  change c.start + _ = c.start + _ + _
  ring

/-! ## Settings -/

@[simp] theorem total_set (n t : Int) (c : Tally) : (c.beat n t .set).total n = c.total n := by
  change c.total n + (t - t) / n = _
  rw [sub_self, Int.zero_ediv, add_zero]

@[simp] theorem base_set (n t : Int) (c : Tally) : (c.beat n t .set).base n = t := by
  change t + (t - t) / n * n = t
  rw [sub_self, Int.zero_ediv, zero_mul, add_zero]

/-! ## Runs -/

/-- The times of the beats do not fall, from `t` on to `t'`. -/
def Within {α : Type*} (t : Int) (beats : List (Int × α)) (t' : Int) : Prop :=
  match beats with
  | [] => t ≤ t'
  | b :: rest => t ≤ b.1 ∧ Within b.1 rest t'

instance {α : Type*} : ∀ (t : Int) (beats : List (Int × α)) (t' : Int),
    Decidable (Within t beats t')
  | t, [], t' => inferInstanceAs (Decidable (t ≤ t'))
  | t, b :: rest, t' =>
      have : Decidable (Within b.1 rest t') := instDecidableWithin b.1 rest t'
      inferInstanceAs (Decidable (t ≤ b.1 ∧ Within b.1 rest t'))

theorem Within.le {α : Type*} : ∀ {t : Int} {beats : List (Int × α)} {t' : Int},
    Within t beats t' → t ≤ t'
  | _, [], _, h => h
  | _, _ :: _, _, h => h.1.trans h.2.le

theorem Within.mono {α : Type*} {t u : Int} (hle : t ≤ u) : ∀ {beats : List (Int × α)} {t' : Int},
    Within u beats t' → Within t beats t'
  | [], _, h => hle.trans h
  | _ :: _, _, h => ⟨hle.trans h.1, h.2⟩

theorem InOrder.after (hn : 0 < n) {t' : Int} : ∀ {beats : List (Int × Beat)} {c : Tally},
    c.InOrder → Within c.last beats t' →
    (c.after n beats).InOrder ∧ (c.after n beats).last ≤ t'
  | [], _, h, hwithin => ⟨h, hwithin⟩
  | (t, b) :: rest, c, h, hwithin => by
      rw [after_cons]
      exact InOrder.after hn (h.beat hn hwithin.1 b) (by rw [last_beat]; exact hwithin.2)

/-- A clock that is only read counts every interval. -/
theorem total_reads (hn : 0 < n) : ∀ {beats : List (Int × Beat)} {c : Tally},
    (∀ b ∈ beats, b.2 = .read) →
    ((c.after n beats).beat n t .read).total n = c.counted + (t - c.start) / n
  | [], _, _ => rfl
  | (t₁, b) :: rest, c, h => by
      obtain rfl : b = .read := h (t₁, b) List.mem_cons_self
      rw [after_cons]
      exact total_reads hn fun b' hb' => h b' (List.mem_cons_of_mem _ hb')

/-- Between two settings of the clock, and from the last on to `t`, there is
less than an interval. -/
def Hurried (n start : Int) : List (Int × Beat) → Int → Prop
  | [], t => t < start + n
  | (_, .read) :: rest, t => Hurried n start rest t
  | (t₁, .set) :: rest, t => t₁ < start + n ∧ Hurried n t₁ rest t

/-- A clock that is set too often counts nothing. -/
theorem total_hurried (hn : 0 < n) : ∀ {beats : List (Int × Beat)} {c : Tally}, c.InOrder →
    Within c.last beats t → Hurried n c.start beats t →
    ((c.after n beats).beat n t .read).total n = c.counted
  | [], c, h, hwithin, hhurried => by
      have hzero : (t - c.start) / n = 0 := by
        refine Int.ediv_eq_zero_of_lt (sub_nonneg.mpr (h.start_le.trans hwithin)) ?_
        have hlt : t < c.start + n := hhurried
        linarith
      change c.counted + (t - c.start) / n = c.counted
      rw [hzero, add_zero]
  | (t₁, .read) :: rest, c, h, hwithin, hhurried => by
      rw [after_cons]
      exact total_hurried hn (h.beat hn hwithin.1 .read) hwithin.2 hhurried
  | (t₁, .set) :: rest, c, h, hwithin, hhurried => by
      have hzero : c.running n = 0 := by
        refine Int.ediv_eq_zero_of_lt (sub_nonneg.mpr h.start_le) ?_
        have := hwithin.1
        have hlt : t₁ < c.start + n := hhurried.1
        linarith
      have htotal : c.total n = c.counted := by rw [total, hzero, add_zero]
      have hrest := total_hurried hn (h.beat hn hwithin.1 .set) hwithin.2 hhurried.2
      rw [after_cons, hrest]
      exact htotal

/-- No run of beats counts more than the whole intervals it takes. -/
theorem total_le (hn : 0 < n) {origin : Int} : ∀ {beats : List (Int × Beat)} {c : Tally},
    c.total n * n ≤ c.base n - origin → Within c.last beats t →
    ((c.after n beats).beat n t .read).total n ≤ (t - origin) / n
  | [], c, h, _ => by
      have hcounted : c.total n + (t - c.base n) / n ≤ (t - origin) / n := by
        rw [Int.le_ediv_iff_mul_le hn, add_mul]
        have hread := Int.ediv_mul_le (t - c.base n) hn.ne'
        linarith
      rw [after, List.foldl_nil, total_read hn]
      exact hcounted
  | (t₁, b) :: rest, c, h, hwithin => by
      rw [after_cons]
      refine total_le hn ?_ (by rw [last_beat]; exact hwithin.2)
      cases b with
      | read =>
          rw [total_read hn, base_read hn, add_mul]
          linarith
      | set =>
          rw [total_set, base_set]
          have hbase := base_le hn c
          have := hwithin.1
          dsimp only at *
          linarith

end Tally

end Intervals
