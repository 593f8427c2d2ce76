/-
  The start up of the SD card's shifter: clocks for the card before it is selected.

  The start up counts the rising edges of the clock, down from `STARTUP_CLOCKS`, and ends with the one
  behind zero.  Two things keep it from what it is for.  The divider is loaded on every clock of the
  start up, and so never runs out: unless the divider is zero, the clock rises at most once.  And the
  counter has `$clog2(STARTUP_CLOCKS)` bits, one too few for a power of two, which it starts as zero.
-/
import Mathlib.Data.Nat.Log
import ZipStormMX.Sdcard.Llsdspi

namespace ZipStormMX.Sdcard

namespace Llsdspi

variable {c : LlCfg}

/-! ## The counter -/

/-- What the counter starts from. -/
def firstCount (c : LlCfg) : ℕ := c.startupClocks % 2 ^ Nat.clog 2 c.startupClocks

/-- Only a power of two does not fit. -/
theorem firstCount_eq_iff (hpos : 0 < c.startupClocks) :
    firstCount c = c.startupClocks ↔ ¬ ∃ k, c.startupClocks = 2 ^ k := by
  unfold firstCount
  constructor
  · rintro hfits ⟨k, hk⟩
    rw [hk, Nat.clog_pow 2 k (by decide), Nat.mod_self] at hfits
    exact absurd hfits.symm (Nat.two_pow_pos k).ne'
  · intro hno
    have hle := Nat.le_pow_clog (by decide : 1 < 2) c.startupClocks
    refine Nat.mod_eq_of_lt (Nat.lt_of_le_of_ne hle fun heq => hno ⟨_, heq⟩)

/-! ## One clock of the start up -/

section Step

variable {s : Llsdspi} {i : LlIn}

theorem hold_next (hpos : 0 < c.startupClocks) : (next c s i).startupHold =
    if startupEdge c s then s.startupCounter != 0 else s.startupHold := by
  have hne : (c.startupClocks == 0) = false := by simpa using hpos.ne'
  unfold next
  rw [hne]
  rfl

theorem oCsN_next (hhold : s.startupHold = true) : (next c s i).oCsN = true := by
  unfold next
  rw [hhold]
  rfl

theorem divider_next (hhold : s.startupHold = true) :
    (next c s i).rZCounter = (i.iSpeed == 0) := by
  rw [next_rZCounter, nextClkCounter, hhold]
  rfl

/-- With the divider run out, the clock changes. -/
theorem oSclk_toggles (hhold : s.startupHold = true) (hz : s.rZCounter = true) :
    (next c s i).oSclk = !s.oSclk := by
  unfold next
  rw [hhold, hz]
  rfl

/-- While the divider is not, it does not fall. -/
theorem oSclk_holds (hz : s.rZCounter = false) (hsclk : s.oSclk = true) :
    (next c s i).oSclk = true := by
  unfold next shift
  rw [hz]
  cases i.iCs <;> simp [hsclk]

end Step

/-! ## The whole start up -/

/-- The rising edges of the clock up to clock `n`. -/
def sckRises (s : ℕ → Llsdspi) : ℕ → ℕ
  | 0 => 0
  | n + 1 => sckRises s n + if !(s n).oSclk && (s (n + 1)).oSclk then 1 else 0

/-- The start up ends on some clock, after `STARTUP_CLOCKS + 1` rising edges, and the card is not
    selected before. -/
def StartupEnds (c : LlCfg) (s : ℕ → Llsdspi) : Prop :=
  ∃ n, (s n).startupHold = false ∧ (∀ m < n, (s m).startupHold = true) ∧
    sckRises s n = c.startupClocks + 1 ∧ ∀ m ≤ n, (s m).oCsN = true

section Runs

variable {s : ℕ → Llsdspi} {x : ℕ → LlIn} {speed : BitVec 7}

/-- With a divider that is not zero, the clock rises once at most. -/
theorem sckRises_le (h0 : AtPowerUp c (s 0)) (hstep : ∀ n, s (n + 1) = next c (s n) (x n))
    (hspeed : ∀ n, (x n).iSpeed = speed) (hslow : speed ≠ 0) :
    ∀ n, (∀ m < n, (s m).startupHold = true) → sckRises s n ≤ 1 := by
  have hrises : ∀ n, (∀ m < n + 1, (s m).startupHold = true) → (s (n + 1)).rZCounter = false ∧
      sckRises s (n + 1) ≤ if (s (n + 1)).oSclk then 1 else 0 := by
    intro n
    induction n with
    | zero =>
      intro hhold
      have hfirst := hhold 0 (by omega)
      have hsclk : (s 1).oSclk = false := by
        rw [hstep, oSclk_toggles hfirst h0.rZCounter, h0.oSclk]
        rfl
      refine ⟨?_, ?_⟩
      · rw [hstep, divider_next hfirst, hspeed]
        simpa using hslow
      · rw [sckRises, sckRises, h0.oSclk, hsclk]
        decide
    | succ n ih =>
      intro hhold
      obtain ⟨hz, hle⟩ := ih fun m hm => hhold m (by omega)
      refine ⟨?_, ?_⟩
      · rw [hstep, divider_next (hhold (n + 1) (by omega)), hspeed]
        simpa using hslow
      · rw [sckRises]
        cases hsclk : (s (n + 1)).oSclk
        · rw [hsclk] at hle
          have hzero : sckRises s (n + 1) = 0 := Nat.le_zero.1 hle
          rw [hzero, Bool.not_false, Bool.true_and, Nat.zero_add]
        · have hstays : (s (n + 1 + 1)).oSclk = true := by
            rw [hstep]
            exact oSclk_holds hz hsclk
          rw [hsclk] at hle
          rw [hstays]
          exact hle
  intro n hhold
  cases n with
  | zero => exact Nat.zero_le 1
  | succ n =>
    refine (hrises n hhold).2.trans ?_
    split_ifs
    · exact Nat.le_refl 1
    · exact Nat.zero_le 1

/-- At full speed the clock changes on every clock, and every other one counts. -/
theorem running (hpos : 0 < c.startupClocks) (h0 : AtPowerUp c (s 0))
    (hstep : ∀ n, s (n + 1) = next c (s n) (x n)) (hspeed : ∀ n, (x n).iSpeed = 0) :
    ∀ n, n ≤ 2 * firstCount c + 2 → (s n).startupHold = true ∧ (s n).rZCounter = true ∧
      (s n).oSclk = decide (n % 2 = 0) ∧ (s n).pastSclk = decide (n = 0 ∨ n % 2 = 1) ∧
      (s n).startupCounter = firstCount c - (n - 1) / 2 ∧ sckRises s n = n / 2 := by
  intro n
  induction n with
  | zero =>
    intro _
    refine ⟨?_, h0.rZCounter, h0.oSclk, h0.pastSclk, h0.startupCounter, rfl⟩
    rw [h0.startupHold, decide_eq_true hpos]
  | succ n ih =>
    intro hn
    obtain ⟨hhold, hz, hsclk, hpast, hcount, hrises⟩ := ih (by omega)
    have hedge : startupEdge c (s n) = decide (n ≠ 0 ∧ n % 2 = 0) := by
      unfold startupEdge
      rw [decide_eq_true hpos, hhold, hpast, hsclk]
      by_cases hzero : n = 0
      · simp [hzero]
      · rcases Nat.mod_two_eq_zero_or_one n with hpar | hpar <;> simp [hzero, hpar]
    have hnext : (s (n + 1)).oSclk = decide ((n + 1) % 2 = 0) := by
      rw [hstep, oSclk_toggles hhold hz, hsclk]
      rcases Nat.mod_two_eq_zero_or_one n with hpar | hpar
      · have hodd : (n + 1) % 2 = 1 := by omega
        rw [hpar, hodd]
        rfl
      · have heven : (n + 1) % 2 = 0 := by omega
        rw [hpar, heven]
        rfl
    refine ⟨?_, ?_, hnext, ?_, ?_, ?_⟩
    · rw [hstep, hold_next hpos, hedge, hhold, hcount]
      split_ifs with hon
      · rw [decide_eq_true_iff] at hon
        simp only [bne_iff_ne]
        omega
      · rfl
    · rw [hstep, divider_next hhold, hspeed]
      rfl
    · rw [hstep]
      show (s n).oSclk = _
      rw [hsclk]
      refine decide_eq_decide.2 ?_
      omega
    · have hcounter : (s (n + 1)).startupCounter =
          if startupEdge c (s n) && (s n).startupCounter != 0 then (s n).startupCounter - 1
          else (s n).startupCounter := by
        rw [hstep]
        rfl
      rw [hcounter, hedge, hcount]
      split_ifs with hon
      · simp only [Bool.and_eq_true, decide_eq_true_iff] at hon
        omega
      · simp only [Bool.and_eq_true, decide_eq_true_iff, bne_iff_ne, not_and] at hon
        omega
    · rw [sckRises, hrises, hsclk, hnext]
      rcases Nat.mod_two_eq_zero_or_one n with hpar | hpar
      · simp [hpar]
        omega
      · have heven : (n + 1) % 2 = 0 := by omega
        simp [hpar, heven]
        omega

/-- The edge with the counter at zero ends it. -/
theorem ended (hpos : 0 < c.startupClocks) (h0 : AtPowerUp c (s 0))
    (hstep : ∀ n, s (n + 1) = next c (s n) (x n)) (hspeed : ∀ n, (x n).iSpeed = 0) :
    (s (2 * firstCount c + 3)).startupHold = false ∧
      sckRises s (2 * firstCount c + 3) = firstCount c + 1 := by
  obtain ⟨hhold, -, hsclk, hpast, hcount, hrises⟩ :=
    running hpos h0 hstep hspeed (2 * firstCount c + 2) (Nat.le_refl _)
  have hhigh : (s (2 * firstCount c + 2)).oSclk = true := by
    rw [hsclk, decide_eq_true_iff]
    omega
  have hlow : (s (2 * firstCount c + 2)).pastSclk = false := by
    rw [hpast, decide_eq_false_iff_not]
    omega
  have hzero : (s (2 * firstCount c + 2)).startupCounter = 0 := by omega
  refine ⟨?_, ?_⟩
  · rw [hstep, hold_next hpos, startupEdge, decide_eq_true hpos, hhold, hlow, hhigh, hzero]
    rfl
  · rw [sckRises, hrises, hhigh]
    show (2 * firstCount c + 2) / 2 + 0 = _
    omega

theorem unselected (h0 : AtPowerUp c (s 0)) (hstep : ∀ n, s (n + 1) = next c (s n) (x n)) {n : ℕ}
    (hhold : ∀ m < n, (s m).startupHold = true) : ∀ m ≤ n, (s m).oCsN = true := by
  intro m hm
  cases m with
  | zero => exact h0.oCsN
  | succ m =>
    rw [hstep]
    exact oCsN_next (hhold m (by omega))

/-- **When the start up ends.**  It ends as it should if and only if the divider is zero and the
    number of clocks is not a power of two. -/
theorem startupEnds_iff (hpos : 0 < c.startupClocks) (h0 : AtPowerUp c (s 0))
    (hstep : ∀ n, s (n + 1) = next c (s n) (x n)) (hspeed : ∀ n, (x n).iSpeed = speed) :
    StartupEnds c s ↔ speed = 0 ∧ ¬ ∃ k, c.startupClocks = 2 ^ k := by
  rw [← firstCount_eq_iff hpos]
  constructor
  · rintro ⟨n, hoff, hon, hcount, -⟩
    have hfast : speed = 0 := by
      by_contra hslow
      have hle := sckRises_le h0 hstep hspeed hslow n hon
      omega
    subst hfast
    refine ⟨rfl, ?_⟩
    obtain ⟨hend, hrises⟩ := ended hpos h0 hstep hspeed
    -- the start up ends once
    have hlast : n = 2 * firstCount c + 3 := by
      rcases Nat.lt_trichotomy n (2 * firstCount c + 3) with hlt | heq | hgt
      · rw [(running hpos h0 hstep hspeed n (by omega)).1] at hoff
        exact absurd hoff (by decide)
      · exact heq
      · rw [hon _ hgt] at hend
        exact absurd hend (by decide)
    rw [hlast, hrises] at hcount
    omega
  · rintro ⟨rfl, hfits⟩
    obtain ⟨hend, hrises⟩ := ended hpos h0 hstep hspeed
    have hhold : ∀ m < 2 * firstCount c + 3, (s m).startupHold = true := fun m hm =>
      (running hpos h0 hstep hspeed m (by omega)).1
    exact ⟨_, hend, hhold, by rw [hrises, hfits], unselected h0 hstep hhold⟩

end Runs

/-! ### Three clocks, and the default -/

/-- Nothing is asked of the shifter. -/
def unasked (speed : BitVec 7) : LlIn := ⟨speed, false, false, 0, true, true⟩

theorem startupEnds_iff_three :
    StartupEnds ⟨3, false⟩ (Clocked.run (next ⟨3, false⟩) (poweredUp ⟨3, false⟩) fun _ => unasked 0) ↔
      (0 : BitVec 7) = 0 ∧ ¬ ∃ k, 3 = 2 ^ k :=
  startupEnds_iff (by decide) (atPowerUp_poweredUp ⟨3, false⟩) (fun _ => rfl) fun _ => rfl

/-- With the parameters as the source gives them, the start up does not end. -/
theorem default_not_ends : ¬ ∀ (c : LlCfg) (s : ℕ → Llsdspi) (x : ℕ → LlIn) (speed : BitVec 7),
    0 < c.startupClocks → AtPowerUp c (s 0) → (∀ n, s (n + 1) = next c (s n) (x n)) →
    (∀ n, (x n).iSpeed = speed) → StartupEnds c s := by
  intro h
  obtain ⟨n, -, hon, hcount, -⟩ := h ⟨75, false⟩
    (Clocked.run (next ⟨75, false⟩) (poweredUp ⟨75, false⟩) fun _ => unasked 0x63)
    (fun _ => unasked 0x63) 0x63 (by decide) (atPowerUp_poweredUp ⟨75, false⟩) (fun _ => rfl)
    fun _ => rfl
  have hle := sckRises_le (atPowerUp_poweredUp ⟨75, false⟩) (fun _ => rfl)
    (x := fun _ => unasked 0x63) (fun _ => rfl) (by decide) n hon
  rw [hcount] at hle
  exact absurd hle (by decide)

end Llsdspi

end ZipStormMX.Sdcard
