/-
  What holds of the SDRAM controller whatever the bus does.

  The start up runs once, and from then on the refresh has its turn again and again.  Either of them
  takes the memory only after all banks are closed: the first command of the refresh closes them, and
  nothing is open before the start up ends.  And a request is either waiting or gone: the wire
  `issued` and the command state machine agree on when it goes.
-/
import Mathlib.Tactic.FinCases
import ZipStormMX.Clocked
import ZipStormMX.Sdram.Wbsdram

namespace ZipStormMX.Sdram

open Genuctrl

/-! ## The two tables -/

theorem resetProgram_closes : Closes resetProgram := rfl

theorem refreshProgram_closes (remaining : ℕ) : Closes (refreshProgram remaining) := rfl

/-- Once the start up has ended, it does not start again. -/
theorem reset_ends (k : Fin 16) (h : (stage resetProgram k).2.active = false) :
    (shows (stage resetProgram k).1 (stage resetProgram k).2).active = false := by
  revert h
  revert k
  decide

/-- The commands of upkeep. -/
def Upkeep (cmd : BitVec 4) : Prop :=
  cmd = cmdNoop ∨ cmd = cmdPrecharge ∨ cmd = cmdRefresh ∨ cmd = cmdSetMode

instance (cmd : BitVec 4) : Decidable (Upkeep cmd) := by
  unfold Upkeep
  infer_instance

theorem reset_upkeep (k : Fin 16) : Upkeep (stage resetProgram k).2.cmd ∧
    ((stage resetProgram k).2.cmd = cmdPrecharge → (stage resetProgram k).2.addr10 = true) := by
  revert k
  decide

/-- How long it waits between two refreshes does not change what the table shows. -/
theorem refresh_shown (remaining : ℕ) (k : Fin 17) :
    (stage (refreshProgram remaining) k).2 = (stage (refreshProgram 0) k).2 := by
  fin_cases k <;> rfl

theorem refresh_upkeep (remaining : ℕ) (k : Fin 16) :
    Upkeep (stage (refreshProgram remaining) k).2.cmd ∧
    ((stage (refreshProgram remaining) k).2.active = true →
      (stage (refreshProgram remaining) k).2.stall = true) := by
  have hk := refresh_shown remaining k.castSucc
  rw [Fin.val_castSucc] at hk
  rw [hk]
  clear hk
  revert k
  decide

/-- The refresh takes the memory with the command that closes all banks. -/
theorem refresh_first (remaining : ℕ) (k : Fin 16)
    (ha : (stage (refreshProgram remaining) (k + 1)).2.active = true)
    (hp : (stage (refreshProgram remaining) (k + 1)).2.cmd ≠ cmdPrecharge) :
    (stage (refreshProgram remaining) k).2.active = true := by
  have hk := refresh_shown remaining k.castSucc
  have hk' := refresh_shown remaining k.succ
  rw [Fin.val_castSucc] at hk
  rw [Fin.val_succ] at hk'
  rw [hk'] at ha hp
  rw [hk]
  clear hk hk'
  revert ha hp
  revert k
  decide

/-! ## The invariant -/

namespace Wbsdram

/-- What holds at every clock. -/
structure Kept (c : SdramCfg) (s : Wbsdram) : Prop where
  hold : s.startupIdle ≠ 0 → s.startupHold = true
  held : s.startupHold = true → s.resetActive = true
  resetStaged : Staged resetProgram s.resetController
  refreshStaged : Staged (refreshProgram c.ckRemaining) s.refreshController
  starting : s.resetActive = true → s.maintenanceMode = true ∧
    s.refreshController = Genuctrl.init (refreshProgram c.ckRemaining)
  first : s.refreshActive = true → s.refreshController.oCmd.cmd ≠ cmdPrecharge →
    s.maintenanceMode = true
  upkeep : Upkeep s.maintenanceCmd
  closing : s.maintenanceCmd = cmdPrecharge → s.maintenanceAddr.getLsbD 10 = true
  closed : s.maintenanceMode = true → s.maintenanceCmd ≠ cmdPrecharge →
    ∀ b, s.bankActive.get b = 0
  waiting : s.rPending = true → s.oWbStall = true
  driving : s.nxtDmod = true → s.rPending = false
  sent : s.oCmd = cmdRead ∨ s.oCmd = cmdWrite → s.rPending = false
  idle : s.resetActive = true → s.oWbStall = true ∧ s.rPending = false

variable {c : SdramCfg} {s : Wbsdram} {i : SdramIn}

theorem kept_powerUp (h : AtPowerUp c s) : Kept c s where
  hold _ := h.startupHold
  held _ := by
    rw [resetActive, h.resetController]
    rfl
  resetStaged := by
    rw [h.resetController]
    exact staged_init
  refreshStaged := by
    rw [h.refreshController]
    exact staged_init
  starting _ := ⟨h.maintenanceMode, h.refreshController⟩
  first hr := by
    rw [refreshActive, h.refreshController] at hr
    simp [Genuctrl.init, refreshProgram] at hr
  upkeep := by
    rw [h.maintenanceCmd]
    decide
  closing hc := by
    rw [h.maintenanceCmd] at hc
    exact absurd hc (by decide)
  closed _ _ b := by rw [h.bankActive, Banks.get_both]
  waiting _ := h.oWbStall
  driving _ := h.rPending
  sent _ := h.rPending
  idle _ := ⟨h.oWbStall, h.rPending⟩

/-- The start up does not come back. -/
theorem Kept.resetActive_of_next (h : Kept c s) (hr : (next c s i).resetActive = true) :
    s.resetActive = true := by
  cases hhold : s.startupHold
  · by_contra hoff
    have hoff' : (stage resetProgram s.resetController.rAddr).2.active = false := by
      have hshown : s.resetController.oCmd = (stage resetProgram s.resetController.rAddr).2 :=
        congrArg Prod.snd h.resetStaged.stage
      rw [← hshown]
      simpa [resetActive] using hoff
    have hends := reset_ends _ hoff'
    rw [resetActive, next_resetController, hhold] at hr
    rcases h.resetStaged.oCmd_next with hnext | hnext
    · rw [hnext, hoff'] at hr
      simp at hr
    · rw [hnext] at hr
      have hsame : (stage resetProgram (s.resetController.rAddr.val + 1)).2.active = false :=
        hends
      simp [hsame] at hr
  · exact h.held hhold

/-- What the state machine does is what `issued` says. -/
theorem Kept.issued_iff (h : Kept c s) (hcyc : i.iWbCyc = true) :
    issued s i = true ↔ action c s = .read ∨ action c s = .write := by
  cases hp : s.rPending
  · have hno : issued s i = false := by
      simp [issued, hp]
    have hact : action c s ≠ .read ∧ action c s ≠ .write := by
      unfold action pending
      rw [hp]
      constructor <;> (intro ha; split_ifs at ha; simp_all)
    simp [hno, hact]
  · have hdmod : s.nxtDmod = false := by
      cases hd : s.nxtDmod
      · rfl
      · simp [h.driving hd] at hp
    unfold issued action pending
    rw [hp, hdmod, hcyc, h.waiting hp]
    cases s.maintenanceMode <;> cases s.refreshStall <;> cases s.rBankValid <;>
      cases ready s (rBank s) <;> cases s.rWe <;> simp <;> split_ifs <;> simp_all

/-- Nothing is accepted while a request waits. -/
theorem Kept.busCyc_eq (h : Kept c s) (hp : s.rPending = true) : busCyc s i = false := by
  simp [busCyc, h.waiting hp]

theorem pending_of_issued (h : issued s i = true) : s.rPending = true := by
  cases hp : s.rPending
  · simp [issued, hp] at h
  · rfl

theorem pending_of_sends (h : action c s = .read ∨ action c s = .write) : s.rPending = true := by
  cases hp : s.rPending
  · unfold action pending at h
    rw [hp] at h
    rcases h with ha | ha <;> (split_ifs at ha; simp_all)
  · rfl

/-- A request that goes out is no longer waiting, and one whose bus cycle ends neither. -/
theorem Kept.nextPending_of_sends (h : Kept c s) (ha : action c s = .read ∨ action c s = .write) :
    nextPending s i = false := by
  have hbus := @Kept.busCyc_eq c s i h (pending_of_sends ha)
  cases hcyc : i.iWbCyc
  · simp [nextPending, hbus, hcyc]
  · simp [nextPending, hbus, (h.issued_iff hcyc).2 ha]

theorem Kept.next (h : Kept c s) : Kept c (Wbsdram.next c s i) where
  hold hidle := by
    rw [next_startupIdle] at hidle
    rw [next_startupHold]
    simp
    omega
  held hhold := by
    cases hold : s.startupHold
    · have hzero : s.startupIdle = 0 := by
        by_contra hidle
        simp [h.hold hidle] at hold
      simp [hzero] at hhold
    · rw [resetActive, next_resetController, hold]
      rfl
  resetStaged := h.resetStaged.next resetProgram_closes _
  refreshStaged := h.refreshStaged.next (refreshProgram_closes _) _
  starting hr := by
    have hold := h.resetActive_of_next hr
    refine ⟨by simp [hold], ?_⟩
    rw [next_refreshController, hold]
    rfl
  first hr hp := by
    cases hreset : s.resetActive
    · rw [next_maintenanceMode, hreset, Bool.false_or]
      rw [refreshActive, next_refreshController, hreset] at hr
      rw [next_refreshController, hreset] at hp
      have hshown : s.refreshController.oCmd =
          (stage (refreshProgram c.ckRemaining) s.refreshController.rAddr).2 :=
        congrArg Prod.snd h.refreshStaged.stage
      rw [refreshActive, hshown]
      rcases h.refreshStaged.oCmd_next with hnext | hnext
      · rw [hnext] at hr
        exact hr
      · rw [hnext] at hr hp
        exact refresh_first _ _ hr hp
    · simp [hreset]
  upkeep := by
    have hreset : s.resetController.oCmd = (stage resetProgram s.resetController.rAddr).2 :=
      congrArg Prod.snd h.resetStaged.stage
    have hrefresh : s.refreshController.oCmd =
        (stage (refreshProgram c.ckRemaining) s.refreshController.rAddr).2 :=
      congrArg Prod.snd h.refreshStaged.stage
    rw [next_maintenanceCmd]
    split_ifs
    · rw [hreset]
      exact (reset_upkeep _).1
    · rw [hrefresh]
      exact (refresh_upkeep _ _).1
    · exact .inl rfl
  closing hc := by
    have hreset : s.resetController.oCmd = (stage resetProgram s.resetController.rAddr).2 :=
      congrArg Prod.snd h.resetStaged.stage
    rw [next_maintenanceCmd] at hc
    rw [next_maintenanceAddr]
    cases hon : s.resetActive
    · rw [if_neg (by decide : ¬(false = true)), if_pos rfl]
      decide
    · rw [hon, if_pos rfl, hreset] at hc
      rw [hreset, (reset_upkeep _).2 hc]
      decide
  closed hm hp b := by
    have hmode : s.maintenanceMode = true := by
      rw [next_maintenanceMode, Bool.or_eq_true] at hm
      rw [next_maintenanceCmd] at hp
      cases hon : s.resetActive
      · have hre : s.refreshActive = true := hm.resolve_left (by simp [hon])
        rw [hon, hre] at hp
        exact h.first hre hp
      · exact (h.starting hon).1
    simp [nextBankActive, action, hmode]
  waiting hp := by
    rw [next_rPending] at hp
    rw [next_oWbStall]
    unfold nextStall
    split_ifs with hm
    · rfl
    · have hold : s.rPending = true ∨ busCyc s i = true := by
        unfold nextPending at hp
        split_ifs at hp with hb hi hcyc
        · exact .inr hb
        · exact .inl hp
      have hrest : ((s.rPending && s.oCmd != cmdRead && s.oCmd != cmdWrite) || busCyc s i) = true := by
        rcases hold with hold | hold
        · have hread : s.oCmd ≠ cmdRead := fun he => by simp [h.sent (.inl he)] at hold
          have hwrite : s.oCmd ≠ cmdWrite := fun he => by simp [h.sent (.inr he)] at hold
          simp [hold, hread, hwrite]
        · simp [hold]
      have hno : action c s ≠ .read ∧ action c s ≠ .write := by
        constructor <;> intro ha
        · simp [h.nextPending_of_sends (.inl ha)] at hp
        · simp [h.nextPending_of_sends (.inr ha)] at hp
      cases ha : action c s <;> first | exact hrest | simp [ha] at hno
  driving hd := by
    rw [next_nxtDmod, Bool.and_eq_true] at hd
    have hbus := @Kept.busCyc_eq c s i h (pending_of_issued hd.1)
    simp [nextPending, hbus, hd.1]
  sent hc := by
    rw [next_oCmd] at hc
    rw [next_rPending]
    have hup := h.upkeep
    unfold nextCmd at hc
    cases ha : action c s with
    | maintain =>
      rw [ha] at hc
      rcases hup with hup | hup | hup | hup <;>
        (simp only [hup] at hc; exact absurd hc (by decide))
    | read => exact h.nextPending_of_sends (.inl ha)
    | write => exact h.nextPending_of_sends (.inr ha)
    | _ =>
      rw [ha] at hc
      dsimp only at hc
      exact absurd hc (by decide)
  idle hr := by
    have hold := h.resetActive_of_next hr
    have hbus : busCyc s i = false := by
      simp [busCyc, (h.idle hold).1]
    refine ⟨?_, ?_⟩
    · simp [nextStall, (h.starting hold).1]
    · simp [nextPending, hbus, (h.idle hold).2]

theorem kept_run {s : ℕ → Wbsdram} {i : ℕ → SdramIn} (h0 : AtPowerUp c (s 0))
    (hstep : ∀ n, s (n + 1) = next c (s n) (i n)) : ∀ n, Kept c (s n) := by
  intro n
  induction n with
  | zero => exact kept_powerUp h0
  | succ n ih =>
    rw [hstep]
    exact ih.next

/-! ## From power up on -/

/-- Nothing is asked for. -/
def quiet : SdramIn :=
  { iWbCyc := false, iWbStb := false, iWbWe := false, iWbAddr := 0, iWbData := 0, iWbSel := 0,
    iRamData := 0 }

def readOf (a : BitVec 19) : SdramIn :=
  { quiet with iWbCyc := true, iWbStb := true, iWbAddr := a }

def writeOf (a : BitVec 19) : SdramIn :=
  { readOf a with iWbWe := true, iWbData := 0x12345678, iWbSel := 0b1111 }

/-- The controller while it waits for the memory to wake up. -/
def poweringUp (c : SdramCfg) (idle : ℕ) : Wbsdram :=
  { bankActive := .both 0, bankRow := .both 0, rBarrellAck := 0, rPending := false, rWe := false,
    rAddr := 0, rData := 0, rSel := 0b1111, nxtSel := 0b11, fwdAddr := 12, rBankValid := false,
    fwdBankValid := false, clocksTilIdle := 0, nxtDmod := false, oCmd := cmdNoop,
    oRamAddr := modeCommand, oRamDmod := false, oRamData := 0, oRamDqm := 0b11, oWbStall := true,
    oWbData := 0, maintenanceMode := true, maintenanceCmd := cmdNoop,
    maintenanceAddr := modeCommand, startupHold := true, startupIdle := idle,
    resetController := Genuctrl.init resetProgram,
    refreshController := Genuctrl.init (refreshProgram c.ckRemaining) }

theorem atPowerUp_poweringUp (c : SdramCfg) : AtPowerUp c (poweringUp c c.startupIdle) :=
  ⟨rfl, rfl, rfl, rfl, rfl, rfl, rfl, rfl, rfl, rfl, rfl, rfl, rfl, rfl, rfl, rfl, rfl, rfl, rfl⟩

theorem poweringUp_next (c : SdramCfg) (k : ℕ) :
    next c (poweringUp c (k + 1)) quiet = poweringUp c k := by
  have hact : action c (poweringUp c (k + 1)) = .maintain := rfl
  have hactive : nextBankActive c (poweringUp c (k + 1)) = .both 0 := by
    unfold nextBankActive
    rw [hact]
  have hshows : ∀ a, shows (poweringUp c (k + 1)) a = false := fun a => by
    simp [shows, poweringUp]
  unfold next
  rw [hactive, hshows, hshows, hshows]
  simp only [poweringUp, Wbsdram.mk.injEq]
  refine ⟨trivial, ?_⟩
  repeat' apply And.intro
  all_goals first | rfl | decide

/-- The inputs `x`, once the wait at power up is over. -/
def late (c : SdramCfg) (x : ℕ → SdramIn) (n : ℕ) : SdramIn :=
  if n < c.startupIdle then quiet else x (n - c.startupIdle)

theorem late_after (c : SdramCfg) (x : ℕ → SdramIn) (k : ℕ) :
    late c x (c.startupIdle + k) = x k := by
  unfold late
  rw [if_neg (by omega), Nat.add_sub_cancel_left]

/-- The controller from power up on. -/
def started (c : SdramCfg) (x : ℕ → SdramIn) : ℕ → Wbsdram :=
  Clocked.run (next c) (poweringUp c c.startupIdle) (late c x)

theorem started_before (c : SdramCfg) (x : ℕ → SdramIn) :
    ∀ n ≤ c.startupIdle, started c x n = poweringUp c (c.startupIdle - n) := by
  intro n
  induction n with
  | zero => exact fun _ => rfl
  | succ n ih =>
    intro hn
    have hlate : late c x n = quiet := if_pos hn
    have hidle : c.startupIdle - n = c.startupIdle - (n + 1) + 1 := by omega
    show next c (started c x n) (late c x n) = _
    rw [ih (by omega), hlate, hidle, poweringUp_next]

theorem started_after (c : SdramCfg) (x : ℕ → SdramIn) (k : ℕ) :
    started c x (c.startupIdle + k) = Clocked.run (next c) (poweringUp c 0) x k := by
  have hzero := started_before c x c.startupIdle (Nat.le_refl _)
  rw [Nat.sub_self] at hzero
  have hlate : (fun j => late c x (c.startupIdle + j)) = x := funext (late_after c x)
  show Clocked.run _ _ _ _ = _
  rw [Clocked.run_add, hlate]
  exact congrArg (fun s => Clocked.run (next c) s x k) hzero

end Wbsdram

end ZipStormMX.Sdram
