/-
  The errors that the SD card reports, and what the controller makes of them.

  When a block comes in, the card may send an error token in place of the start token, and when a block
  goes out it answers with a data response.  Both are captured, each in a register of its own, but the
  flag for the bus looks at the one while a block goes the other way: at the error token during a write,
  and at the data response during a read.  A command moves its block one way only (`Directs`), so the
  flag is never set (`Unseen`), and an error of the card is not reported unless something else is.
-/
import ZipStormMX.Sdcard.Blocks

namespace ZipStormMX.Sdcard

namespace Sdspi

/-! ## What the card says -/

section Card

variable (c : SdspiCfg) (s : Sdspi c.lgfifoln)

/-- An error token, `0000xxx1`, in place of the start token of a block. -/
def errorToken : Bool :=
  s.llFifoWr && llOutStb c s && !s.rHaveStartToken && (llOutDat c s).extractLsb' 4 4 == 0 &&
    (llOutDat c s).getLsbD 0

/-- The data response to a block, `xxx0sss1`, when it is the one to a CRC error or a write error. -/
def badResponse : Bool :=
  s.readyForResponseToken && llOutStb c s && !s.rHaveDataResponseToken &&
    !(llOutDat c s).getLsbD 4 && (llOutDat c s).getLsbD 0 &&
    ((llOutDat c s).extractLsb' 1 3 == 0b101 || (llOutDat c s).extractLsb' 1 3 == 0b110)

/-- Software clears the error: a command write, while the controller is free, that asks for it. -/
def clearsErr : Bool :=
  !s.preCmdState && !s.rCmdBusy && newCmd c s && s.rWbData.getLsbD 15

end Card

variable {c : SdspiCfg} {s : Sdspi c.lgfifoln} {i : SdspiIn}

/-! ## The registers that look the wrong way -/

/-- What is captured in one direction is not there in the other, and the flag is never set. -/
structure Unseen (s : Sdspi c.lgfifoln) : Prop where
  readToken : s.rReadErrToken ≠ 0 → s.rFifoWr = false
  ready : s.readyForResponseToken = true → s.rFifoWr = true
  response : s.rDataResponseToken ≠ 0 → s.rFifoWr = true
  flag : s.rErrToken = false

theorem unseen_first (h : AtPowerUp c s) : Unseen (c := c) (next c s i) where
  readToken hne := by simp [h.rCmdBusy] at hne
  ready hready := by simp [h.rCmdBusy] at hready
  response hne := by simp [h.rCmdBusy] at hne
  flag := by simp [nextErrToken, h.llFifoRd, h.llFifoWr, h.rErrToken]

/-- While a block goes out no error token is looked at, and no data response while one comes in. -/
theorem Unseen.flag_next (h : Unseen (c := c) s) (hdirects : Directs (c := c) s) :
    (Sdspi.next c s i).rErrToken = false := by
  rw [next_rErrToken, nextErrToken, h.flag]
  split_ifs with hrd hwr hcmd
  · rw [Bool.false_or, Bool.eq_false_iff]
    intro hbit
    have hne : s.rReadErrToken ≠ 0 := by
      intro hzero
      rw [hzero] at hbit
      exact absurd hbit (by decide)
    exact absurd ((hdirects.outwards hrd).symm.trans (h.readToken hne)) (by decide)
  · rw [Bool.false_or, Bool.eq_false_iff]
    intro hbit
    rw [Bool.and_eq_true, bne_iff_ne] at hbit
    exact absurd ((h.response hbit.1).symm.trans (hdirects.inwards hwr)) (by decide)
  · rfl
  · rfl

theorem Unseen.next (h : Unseen (c := c) s) (hdirects : Directs (c := c) s) :
    Unseen (c := c) (Sdspi.next c s i) := by
  cases hbusy : s.rCmdBusy
  · exact ⟨fun hne => by simp [hbusy] at hne, fun hready => by simp [hbusy] at hready,
      fun hne => by simp [hbusy] at hne, h.flag_next hdirects⟩
  · refine ⟨fun hne => ?_, fun hready => ?_, fun hne => ?_, h.flag_next hdirects⟩
    · rw [rFifoWr_busy hbusy]
      cases hwr : s.llFifoWr
      · refine h.readToken ?_
        simpa [hbusy, hwr] using hne
      · exact hdirects.inwards hwr
    · rw [rFifoWr_busy hbusy]
      rw [next_readyForResponseToken, hbusy, Bool.true_and, Bool.or_eq_true] at hready
      rcases hready with hrd | hready
      · exact hdirects.outwards hrd
      · exact h.ready hready
    · rw [rFifoWr_busy hbusy]
      cases hready : s.readyForResponseToken
      · refine h.response ?_
        simpa [hbusy, hready] using hne
      · exact h.ready hready

/-- The other errors: the controller notes them with the next byte that is taken. -/
def othersErr (s : Sdspi c.lgfifoln) : Bool := s.preCmdState && (s.fifoCrcErr || s.rWatchdogErr)

theorem Unseen.err_busy (h : Unseen (c := c) s) (hbusy : s.rCmdBusy = true) :
    (Sdspi.next c s i).rCmdErr = (s.rCmdErr || othersErr (c := c) s) := by
  rw [next_rCmdErr, nextCmdErr, hbusy, h.flag, othersErr]
  cases s.preCmdState
  · simp
  · simp [Bool.or_assoc]

/-- An error stays until it is cleared. -/
theorem err_stays (herr : s.rCmdErr = true) (hkeep : clearsErr c s = false) :
    (next c s i).rCmdErr = true := by
  rw [next_rCmdErr, nextCmdErr, herr]
  unfold clearsErr at hkeep
  cases hpre : s.preCmdState
  · cases hgo : !s.rCmdBusy && newCmd c s
    · rfl
    · rw [Bool.and_eq_true] at hgo
      rw [hpre, hgo.1, hgo.2] at hkeep
      rw [if_neg (by decide), if_pos rfl, show s.rWbData.getLsbD 15 = false from hkeep]
      rfl
  · rfl

/-! ## Commands -/

section Runs

variable {s : ℕ → Sdspi c.lgfifoln} {x : ℕ → SdspiIn} {a b : ℕ}

/-- A command that moves a block starts on clock `a`, and on clock `b` the controller is free again. -/
structure BlockCommand (c : SdspiCfg) (s : ℕ → Sdspi c.lgfifoln) (a b : ℕ) : Prop where
  order : 0 < a ∧ a < b
  starts : starts c (s a) = true
  block : (s a).rWbData.getLsbD 11 = true
  busy : ∀ t, a < t → t < b → (s t).rCmdBusy = true
  free : (s b).rCmdBusy = false

/-- The card reports an error during the command. -/
def Fails (c : SdspiCfg) (s : ℕ → Sdspi c.lgfifoln) (a b : ℕ) : Prop :=
  ∃ t, a < t ∧ t < b ∧ (errorToken c (s t) = true ∨ badResponse c (s t) = true)

/-- From clock `b` on the status shows an error until it is cleared. -/
def ShowsError (c : SdspiCfg) (s : ℕ → Sdspi c.lgfifoln) (b : ℕ) : Prop :=
  ∀ n, b ≤ n → (∀ t, b ≤ t → t < n → clearsErr c (s t) = false) →
    (s n).rCmdErr = true ∨ (s n).rErrToken = true

/-- The command sets neither of the error bits. -/
def SetsNone (s : ℕ → Sdspi c.lgfifoln) (a b : ℕ) : Prop :=
  (s b).rCmdErr = (s (a + 1)).rCmdErr ∧ (s b).rErrToken = (s (a + 1)).rErrToken

/-- The status is right about the card: an error is shown, and without one, nor any other, none. -/
def ReportsCard (c : SdspiCfg) (s : ℕ → Sdspi c.lgfifoln) (a b : ℕ) : Prop :=
  (Fails c s a b → ShowsError c s b) ∧
  (¬ Fails c s a b → (∀ t, a < t → t < b → (s t).fifoCrcErr = false ∧ (s t).rWatchdogErr = false) →
    SetsNone s a b)

theorem unseen_run (h0 : AtPowerUp c (s 0)) (hstep : ∀ n, s (n + 1) = next c (s n) (x n)) :
    ∀ n, Unseen (c := c) (s (n + 1)) := by
  intro n
  induction n with
  | zero =>
    rw [hstep]
    exact unseen_first h0
  | succ n ih =>
    rw [hstep]
    exact ih.next (directs_run h0 hstep n)

theorem BlockCommand.err_first (h : BlockCommand c s a b)
    (hstep : ∀ n, s (n + 1) = next c (s n) (x n)) :
    (s (a + 1)).rCmdErr = ((s a).rCmdErr && !(s a).rWbData.getLsbD 15) := by
  obtain ⟨hbusy, hpre, hnew⟩ := free_of_starts h.starts
  rw [hstep, next_rCmdErr, nextCmdErr, hpre, hbusy, hnew]
  rfl

/-- The command sets the error bit for the other errors only. -/
theorem BlockCommand.err_iff (h : BlockCommand c s a b) (h0 : AtPowerUp c (s 0))
    (hstep : ∀ n, s (n + 1) = next c (s n) (x n)) : ∀ m, a < m → m ≤ b →
      ((s m).rCmdErr = true ↔ (s (a + 1)).rCmdErr = true ∨
        ∃ t, a < t ∧ t < m ∧ othersErr (c := c) (s t) = true) := by
  intro m ham
  induction m, ham using Nat.le_induction with
  | base =>
    refine fun _ => ⟨.inl, fun herr => herr.resolve_right ?_⟩
    rintro ⟨t, hat, htm, -⟩
    omega
  | succ m ham ih =>
    intro hmb
    have hunseen := unseen_run h0 hstep (m - 1)
    rw [show m - 1 + 1 = m by omega] at hunseen
    rw [hstep, hunseen.err_busy (h.busy m ham (by omega)), Bool.or_eq_true, ih (by omega), or_assoc]
    refine or_congr_right ⟨?_, ?_⟩
    · rintro (⟨t, hat, htm, ht⟩ | hm)
      · exact ⟨t, hat, by omega, ht⟩
      · exact ⟨m, ham, by omega, hm⟩
    · rintro ⟨t, hat, htm, ht⟩
      rcases Nat.lt_or_eq_of_le (Nat.le_of_lt_succ htm) with hlt | rfl
      · exact .inl ⟨t, hat, hlt, ht⟩
      · exact .inr ht

theorem err_kept (hstep : ∀ n, s (n + 1) = next c (s n) (x n)) (herr : (s b).rCmdErr = true) :
    ∀ n, b ≤ n → (∀ t, b ≤ t → t < n → clearsErr c (s t) = false) → (s n).rCmdErr = true := by
  intro n hn
  induction n, hn using Nat.le_induction with
  | base => exact fun _ => herr
  | succ n hn ih =>
    intro hkeep
    rw [hstep]
    exact err_stays (ih fun t hbt htn => hkeep t hbt (by omega)) (hkeep n hn (by omega))

/-- **What the status is worth.**  The card's errors are reported only where the error bit is set for
    another reason: it was set before the command and the command has not cleared it, or there is a
    CRC error or a time-out as well. -/
theorem reportsCard_iff (h0 : AtPowerUp c (s 0)) (hstep : ∀ n, s (n + 1) = next c (s n) (x n))
    (h : BlockCommand c s a b) : ReportsCard c s a b ↔
      (Fails c s a b → ((s a).rCmdErr = true ∧ (s a).rWbData.getLsbD 15 = false) ∨
        ∃ t, a < t ∧ t < b ∧ (s t).preCmdState = true ∧
          ((s t).fifoCrcErr = true ∨ (s t).rWatchdogErr = true)) := by
  have hflag : ∀ n, 0 < n → (s n).rErrToken = false := by
    intro n hn
    have hunseen := unseen_run h0 hstep (n - 1)
    rw [show n - 1 + 1 = n by omega] at hunseen
    exact hunseen.flag
  have herr : (s b).rCmdErr = true ↔ ((s a).rCmdErr = true ∧ (s a).rWbData.getLsbD 15 = false) ∨
      ∃ t, a < t ∧ t < b ∧ (s t).preCmdState = true ∧
        ((s t).fifoCrcErr = true ∨ (s t).rWatchdogErr = true) := by
    rw [h.err_iff h0 hstep b h.order.2 (Nat.le_refl b), h.err_first hstep]
    simp only [othersErr, Bool.and_eq_true, Bool.or_eq_true, Bool.not_eq_true']
  obtain ⟨hpos, hab⟩ := h.order
  constructor
  · rintro ⟨hshown, -⟩ hfails
    refine herr.1 ((hshown hfails b (Nat.le_refl b) fun t hbt htb => absurd hbt (by omega)).resolve_right
      fun hset => ?_)
    rw [hflag b (by omega)] at hset
    exact absurd hset (by decide)
  · intro hothers
    refine ⟨fun hfails n hn hkeep => ?_, fun _ hnone => ⟨?_, ?_⟩⟩
    · exact .inl (err_kept hstep (herr.2 (hothers hfails)) n hn hkeep)
    · -- no other error comes, so the bit is as the command has left it
      rw [Bool.eq_iff_iff, h.err_iff h0 hstep b hab (Nat.le_refl b)]
      refine ⟨fun hset => hset.resolve_right ?_, .inl⟩
      rintro ⟨t, hat, htb, ht⟩
      rw [othersErr, (hnone t hat htb).1, (hnone t hat htb).2, Bool.or_false, Bool.and_false] at ht
      exact absurd ht (by decide)
    · rw [hflag b (by omega), hflag (a + 1) (by omega)]

/-! ### A block that fails -/

theorem seven_pos : 0 < 7 := Nat.succ_pos 6

/-- No start up sequence, and the wires at full speed. -/
def fastCfg : SdspiCfg := ⟨⟨0, false⟩, 7, seven_pos, 7, 0⟩

/-- A command to read a block.  The card's answer is `0x00`, and then `0x01`: an error token. -/
def errorAnswer (n : ℕ) : SdspiIn where
  iWbStb := n == 0
  iWbWe := true
  iWbAddr := cmdAddress
  iWbData := 0x0851
  iMiso := !(decide (122 ≤ n) && decide (n < 153))
  iBusGrant := true

def errorRun : ℕ → Sdspi 7 := Clocked.run (next fastCfg) (poweredUp fastCfg) errorAnswer

theorem errorRun_command : BlockCommand fastCfg errorRun 1 174 where
  order := by decide
  starts := by decide +kernel
  block := by decide +kernel
  busy := by
    have hbusy : ∀ t < 174, 1 < t → (errorRun t).rCmdBusy = true := by decide +kernel
    exact fun t h1 ht => hbusy t ht h1
  free := by decide +kernel

theorem reportsCard_iff_errorRun : ReportsCard fastCfg errorRun 1 174 ↔
    (Fails fastCfg errorRun 1 174 →
      ((errorRun 1).rCmdErr = true ∧ (errorRun 1).rWbData.getLsbD 15 = false) ∨
      ∃ t, 1 < t ∧ t < 174 ∧ (errorRun t).preCmdState = true ∧
        ((errorRun t).fifoCrcErr = true ∨ (errorRun t).rWatchdogErr = true)) :=
  reportsCard_iff (atPowerUp_poweredUp fastCfg) (fun _ => rfl) errorRun_command

/-- Nothing in the status says that the card has sent an error. -/
theorem errorRun_unreported : ¬ ∀ (c : SdspiCfg) (s : ℕ → Sdspi c.lgfifoln) (x : ℕ → SdspiIn),
    AtPowerUp c (s 0) → (∀ n, s (n + 1) = next c (s n) (x n)) →
    ∀ a b, BlockCommand c s a b → ReportsCard c s a b := by
  intro h
  have hreports := h fastCfg errorRun errorAnswer (atPowerUp_poweredUp fastCfg) (fun _ => rfl) 1 174
    errorRun_command
  have hfails : Fails fastCfg errorRun 1 174 := ⟨156, by decide, by decide, .inl (by decide +kernel)⟩
  have hquiet : (errorRun 174).rCmdErr = false ∧ (errorRun 174).rErrToken = false := by
    decide +kernel
  rcases hreports.1 hfails 174 (Nat.le_refl _) (fun t h1 h2 => absurd h1 (by omega)) with herr | hflag
  · rw [hquiet.1] at herr
    exact absurd herr (by decide)
  · rw [hquiet.2] at hflag
    exact absurd hflag (by decide)

end Runs

end Sdspi

end ZipStormMX.Sdcard
