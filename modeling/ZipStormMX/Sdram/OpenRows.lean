/-
  The rows of the SDRAM: each access goes to a row that is open.

  `Rows` is the memory's side: which row each of the two banks has open, as the commands on the pins
  make it.  `Touches` says what may stand on the pins then.  The controller's side is `bank_active`
  and `bank_row`, and the invariant is `Tracks`: behind the command on the pins they are the memory's
  rows.

  The look-ahead breaks it.  It writes the row register of its bank on every clock that it is in, also
  when it neither closes nor opens the bank, and the controller then takes the row it wants for the
  one that is open.  Without that (`misleads`), and so whenever the look-ahead is left out, the
  controller touches open rows only.
-/
import ZipStormMX.Sdram.Maintenance

namespace ZipStormMX.Sdram

/-! ## The memory -/

/-- The command pins and the address pins. -/
structure Pins where
  csN : Bool
  rasN : Bool
  casN : Bool
  weN : Bool
  addr : BitVec 12

namespace Pins

variable (p : Pins)

def activates : Bool := !p.csN && !p.rasN && p.casN && p.weN
def precharges : Bool := !p.csN && !p.rasN && p.casN && !p.weN
def refreshes : Bool := !p.csN && !p.rasN && !p.casN && p.weN
def setsMode : Bool := !p.csN && !p.rasN && !p.casN && !p.weN
def reads : Bool := !p.csN && p.rasN && !p.casN && p.weN
def writes : Bool := !p.csN && p.rasN && !p.casN && !p.weN

def bank : Bool := p.addr.getLsbD 11
def row : BitVec 11 := p.addr.extractLsb' 0 11
def col : BitVec 8 := p.addr.extractLsb' 0 8

/-- Address bit 10: all banks are closed, or this one behind the access. -/
def closesAll : Bool := p.addr.getLsbD 10

end Pins

/-- The row that each bank has open. -/
abbrev Rows := Banks (Option (BitVec 11))

/-- What a command leaves open. -/
def Rows.after (m : Rows) (p : Pins) : Rows :=
  if p.activates then m.set p.bank (some p.row)
  else if p.precharges then
    if p.closesAll then Banks.both none else m.set p.bank none
  else if (p.reads || p.writes) && p.closesAll then m.set p.bank none
  else m

/-- What may stand on the pins: an access to the row and the column of the request that waits for it,
    once the start up has ended; an opening of a closed bank; upkeep when both banks are closed. -/
structure Touches (m : Rows) (request : Option (BitVec 19)) (started : Bool) (p : Pins) : Prop where
  access : p.reads = true ∨ p.writes = true → started = true ∧
    ∃ a, request = some a ∧ p.bank = bankOf a ∧ p.col = colOf a ∧ m.get p.bank = some (rowOf a)
  activate : p.activates = true → m.get p.bank = none
  upkeep : p.refreshes = true ∨ p.setsMode = true → ∀ b, m.get b = none

namespace Wbsdram

def pins (s : Wbsdram) : Pins where
  csN := s.oCmd.getLsbD 3
  rasN := s.oCmd.getLsbD 2
  casN := s.oCmd.getLsbD 1
  weN := s.oCmd.getLsbD 0
  addr := s.oRamAddr

/-- The rows open before the command of clock `n`, when the memory comes up with `m`. -/
def rowsAt (m : Rows) (s : ℕ → Wbsdram) : ℕ → Rows
  | 0 => m
  | n + 1 => (rowsAt m s n).after (pins (s n))

/-- The request that has been accepted, and neither gone out nor been given up. -/
def requestAt (s : ℕ → Wbsdram) (i : ℕ → SdramIn) : ℕ → Option (BitVec 19)
  | 0 => none
  | n + 1 =>
    if busCyc (s n) (i n) then some (i n).iWbAddr
    else if !(i n).iWbCyc || (pins (s n)).reads || (pins (s n)).writes then none
    else requestAt s i n

/-! ## The look-ahead -/

/-- The books have the bank open. -/
def booked (s : Wbsdram) (b : Bool) : Bool := (s.bankActive.get b).getLsbD 4

/-- The look-ahead enters the row it wants for a bank that keeps another one open, or it closes both
    banks and has closed one in its books. -/
def misleads (c : SdramCfg) (s : Wbsdram) : Bool :=
  match action c s with
  | .ahead =>
    booked s (fwdBank s) && s.bankRow.get (fwdBank s) != fwdRow s
  | .aheadPrecharge =>
    (rowAddr s (fwdBank s) (fwdRow s)).getLsbD 10 && booked s (!fwdBank s)
  | _ => false

/-! ## The books -/

variable {c : SdramCfg} {s : Wbsdram} {i : SdramIn} {m : Rows}

/-- The start up has not closed the banks yet. -/
inductive Unprimed (s : Wbsdram) : Prop
  | waits (mode : s.maintenanceMode = true) (cmd : s.maintenanceCmd = cmdNoop)
      (step : s.resetController.rStep = true) (addr : s.resetController.rAddr ≤ 2)
      (active : s.bankActive = .both 0)
  | shown (mode : s.maintenanceMode = true) (cmd : s.maintenanceCmd = cmdNoop)
      (step : s.resetController.rStep = true) (addr : s.resetController.rAddr = 3)
      (hold : s.startupHold = false) (active : s.bankActive = .both 0)
  | sent (mode : s.maintenanceMode = true) (cmd : s.maintenanceCmd = cmdPrecharge)
      (active : s.bankActive = .both 0)

/-- The controller's books are right. -/
structure Tracks (s : Wbsdram) (m : Rows) : Prop where
  isOpen : ∀ b, booked s b = true → m.get b = some (s.bankRow.get b)
  isClosed : ∀ b, booked s b = false → m.get b = none ∨ Unprimed s
  valid : s.rBankValid = true → booked s (rBank s) = true → s.bankRow.get (rBank s) = rRow s

theorem shifted_top (a : BitVec 5) : (shifted a).getLsbD 4 = a.getLsbD 4 := by
  revert a
  decide

theorem opened_top (a : BitVec 5) : (shifted a ||| 0b10000).getLsbD 4 = true := by
  revert a
  decide

theorem closed_top (a : BitVec 5) : (shifted a &&& 0b00001).getLsbD 4 = false := by
  revert a
  decide

theorem set_top (m : Banks (BitVec 5)) (b' : Bool) (v : BitVec 5) (b : Bool) :
    ((m.set b' v).get b).getLsbD 4 = if b = b' then v.getLsbD 4 else (m.get b).getLsbD 4 := by
  by_cases hb : b = b'
  · rw [hb, Banks.get_set_self, if_pos rfl]
  · rw [Banks.get_set_of_ne _ hb, if_neg hb]

theorem booked_next (b : Bool) : booked (next c s i) b =
    match action c s with
    | .maintain => false
    | .activate => b == rBank s || booked s b
    | .aheadActivate => b == fwdBank s || booked s b
    | .precharge => b != rBank s && booked s b
    | .aheadPrecharge => b != fwdBank s && booked s b
    | .write | .read | .rest | .ahead => booked s b := by
  unfold booked
  rw [next_bankActive]
  unfold nextBankActive
  cases action c s
  case maintain => simp
  case activate =>
    simp only [set_top, Banks.get_map, opened_top, shifted_top]
    split_ifs with hb <;> simp [hb]
  case aheadActivate =>
    simp only [set_top, Banks.get_map, opened_top, shifted_top]
    split_ifs with hb <;> simp [hb]
  case precharge =>
    simp only [set_top, Banks.get_map, closed_top, shifted_top]
    split_ifs with hb <;> simp [hb]
  case aheadPrecharge =>
    simp only [set_top, Banks.get_map, closed_top, shifted_top]
    split_ifs with hb <;> simp [hb]
  all_goals
    dsimp only
    rw [Banks.get_map, shifted_top]

/-! ### One clock -/

/-- When the state machine takes a branch. -/
theorem action_spec : match action c s with
    | .maintain => s.maintenanceMode = true
    | .rest => s.maintenanceMode = false
    | .activate => s.maintenanceMode = false ∧ s.rPending = true ∧ s.rBankValid = false ∧
        s.bankActive.get (rBank s) = 0
    | .precharge => s.maintenanceMode = false ∧ s.rPending = true ∧ s.rBankValid = false ∧
        s.bankActive.get (rBank s) = 0b11111
    | .read | .write => s.maintenanceMode = false ∧ s.rBankValid = true ∧
        ready s (rBank s) = true
    | .ahead => s.maintenanceMode = false ∧ s.rPending = true ∧ s.rBankValid = true ∧
        c.optFwdAddress = true ∧ s.fwdBankValid = false
    | .aheadPrecharge => s.maintenanceMode = false ∧ s.rPending = true ∧ s.rBankValid = true ∧
        c.optFwdAddress = true ∧ s.fwdBankValid = false
    | .aheadActivate => s.maintenanceMode = false ∧ s.rPending = true ∧ s.rBankValid = true ∧
        c.optFwdAddress = true ∧ s.fwdBankValid = false ∧ s.bankActive.get (fwdBank s) = 0 := by
  cases ha : action c s <;> unfold action pending at ha <;> split_ifs at ha <;> simp_all

theorem booked_of_zero {b : Bool} (h : s.bankActive.get b = 0) : booked s b = false := by
  rw [booked, h]
  simp

theorem booked_of_ready {b : Bool} (h : ready s b = true) : booked s b = true := by
  unfold ready at h
  unfold booked
  revert h
  generalize s.bankActive.get b = a
  revert a
  decide

theorem shows_iff (a : BitVec 19) : shows s a = true ↔
    booked s (bankOf a) = true ∧ s.bankRow.get (bankOf a) = rowOf a := by
  simp [shows, booked]

/-- A bank that stays open keeps its row. -/
theorem row_kept {b : Bool} (hm : misleads c s = false) (hb : booked s b = true)
    (hb' : booked (next c s i) b = true) : (next c s i).bankRow.get b = s.bankRow.get b := by
  have hspec := @action_spec c s
  rw [booked_next] at hb'
  rw [next_bankRow]
  unfold nextBankRow
  unfold misleads at hm
  cases ha : action c s <;> rw [ha] at hspec hm hb'
  case activate =>
    have hne : b ≠ rBank s := by
      rintro rfl
      simp [booked_of_zero hspec.2.2.2] at hb
    exact Banks.get_set_of_ne _ hne _
  case ahead =>
    by_cases hbf : b = fwdBank s
    · subst hbf
      have hrow : s.bankRow.get (fwdBank s) = fwdRow s := by
        simpa [hb] using hm
      exact (Banks.get_set_self _ _ _).trans hrow.symm
    · exact Banks.get_set_of_ne _ hbf _
  case aheadPrecharge =>
    have hne : b ≠ fwdBank s := by
      rintro rfl
      simp at hb'
    exact Banks.get_set_of_ne _ hne _
  case aheadActivate =>
    have hne : b ≠ fwdBank s := by
      rintro rfl
      simp [booked_of_zero hspec.2.2.2.2.2] at hb
    exact Banks.get_set_of_ne _ hne _

/-- The row that a request finds is the one in the books. -/
theorem Tracks.valid_next (hm : misleads c s = false)
    (hv : (next c s i).rBankValid = true)
    (hb : booked (next c s i) (rBank (next c s i)) = true) :
    (next c s i).bankRow.get (rBank (next c s i)) = rRow (next c s i) := by
  have haddr : ∃ a, (next c s i).rAddr = a ∧ shows s a = true := by
    cases hbus : busCyc s i
    · exact ⟨s.rAddr, by simp [hbus], by simpa [hbus] using hv⟩
    · exact ⟨i.iWbAddr, by simp [hbus], by simpa [hbus] using hv⟩
  obtain ⟨a, ha, hshows⟩ := haddr
  obtain ⟨hold, hrow⟩ := (shows_iff a).1 hshows
  unfold rBank rRow at *
  rw [ha] at hb ⊢
  rw [row_kept hm hold hb, hrow]

theorem Unprimed.maintains (h : Unprimed s) : s.maintenanceMode = true := by
  cases h with
  | waits mode => exact mode
  | shown mode => exact mode
  | sent mode => exact mode

theorem Unprimed.next (h : Unprimed s) (hk : Kept c s) (hp : s.maintenanceCmd ≠ cmdPrecharge) :
    Unprimed (Wbsdram.next c s i) := by
  have hactive : nextBankActive c s = .both 0 := by
    unfold nextBankActive action
    simp [h.maintains]
  have hword : s.resetController.rCmd = (Genuctrl.stage resetProgram s.resetController.rAddr).1 :=
    congrArg Prod.fst hk.resetStaged.stage
  have hshown : s.resetController.oCmd = (Genuctrl.stage resetProgram s.resetController.rAddr).2 :=
    congrArg Prod.snd hk.resetStaged.stage
  cases h with
  | waits _ _ hstep haddr =>
    have hstages : ∀ k : Fin 16, k ≤ 2 → (Genuctrl.stage resetProgram k).2.active = true ∧
        (Genuctrl.stage resetProgram k).2.cmd = cmdNoop ∧
        Genuctrl.clocks (Genuctrl.stage resetProgram k).1 = 0 := by
      decide
    obtain ⟨hact, hcmd, hclocks⟩ := hstages _ haddr
    have hmode : (Wbsdram.next c s i).maintenanceMode = true := by
      simp [resetActive, hshown, hact]
    have hcmd' : (Wbsdram.next c s i).maintenanceCmd = cmdNoop := by
      simp [resetActive, hshown, hact, hcmd]
    cases hhold : s.startupHold
    · have hidle : s.startupIdle = 0 := by
        by_contra hidle
        simp [hk.hold hidle] at hhold
      have hstep' : (Wbsdram.next c s i).resetController.rStep = true := by
        simp [hhold, hstep, hword, hclocks]
      have hlast : s.resetController.rAddr ≠ 15 := by
        intro h15
        rw [h15] at haddr
        exact absurd haddr (by decide)
      have haddr' : (Wbsdram.next c s i).resetController.rAddr = s.resetController.rAddr + 1 := by
        simp [hhold, hstep, hlast]
      rcases (by omega : s.resetController.rAddr + 1 ≤ 2 ∨ s.resetController.rAddr + 1 = 3) with h2 | h3
      · exact .waits hmode hcmd' hstep' (haddr' ▸ h2) hactive
      · exact .shown hmode hcmd' hstep' (haddr'.trans h3) (by simp [hidle]) hactive
    · refine .waits hmode hcmd' ?_ ?_ hactive
      · rw [next_resetController, hhold]
        rfl
      · rw [next_resetController, hhold]
        exact (by decide : (0 : Fin 16) ≤ 2)
  | shown _ _ hstep haddr =>
    have hthree : s.resetController.oCmd = ⟨true, cmdPrecharge, true⟩ := by
      rw [hshown, haddr]
      rfl
    exact .sent (by simp [resetActive, hthree]) (by simp [resetActive, hthree]) hactive
  | sent _ hcmd => exact absurd hcmd hp

theorem unprimed_powerUp (h : AtPowerUp c s) : Unprimed s := by
  refine .waits h.maintenanceMode h.maintenanceCmd ?_ ?_ h.bankActive
  · rw [h.resetController]
    rfl
  · rw [h.resetController]
    exact (by decide : (0 : Fin 16) ≤ 2)

/-! ### Pins -/

theorem reads_iff : (pins s).reads = true ↔ s.oCmd = cmdRead := by
  unfold Pins.reads pins
  dsimp only
  generalize s.oCmd = cmd
  revert cmd
  decide

theorem writes_iff : (pins s).writes = true ↔ s.oCmd = cmdWrite := by
  unfold Pins.writes pins
  dsimp only
  generalize s.oCmd = cmd
  revert cmd
  decide

theorem activates_iff : (pins s).activates = true ↔ s.oCmd = cmdActivate := by
  unfold Pins.activates pins
  dsimp only
  generalize s.oCmd = cmd
  revert cmd
  decide

theorem precharges_iff : (pins s).precharges = true ↔ s.oCmd = cmdPrecharge := by
  unfold Pins.precharges pins
  dsimp only
  generalize s.oCmd = cmd
  revert cmd
  decide

theorem refreshes_iff : (pins s).refreshes = true ↔ s.oCmd = cmdRefresh := by
  unfold Pins.refreshes pins
  dsimp only
  generalize s.oCmd = cmd
  revert cmd
  decide

theorem setsMode_iff : (pins s).setsMode = true ↔ s.oCmd = cmdSetMode := by
  unfold Pins.setsMode pins
  dsimp only
  generalize s.oCmd = cmd
  revert cmd
  decide

theorem after_activate (h : s.oCmd = cmdActivate) :
    m.after (pins s) = m.set (pins s).bank (some (pins s).row) := by
  simp [Rows.after, activates_iff.2 h]

theorem after_precharge (h : s.oCmd = cmdPrecharge) : m.after (pins s) =
    if (pins s).closesAll then Banks.both none else m.set (pins s).bank none := by
  have hno : (pins s).activates = false := by
    rw [Bool.eq_false_iff, ne_eq, activates_iff, h]
    decide
  simp [Rows.after, hno, precharges_iff.2 h]

theorem after_access (h : (pins s).closesAll = false) (ha : s.oCmd ≠ cmdActivate)
    (hp : s.oCmd ≠ cmdPrecharge) : m.after (pins s) = m := by
  have hno : (pins s).activates = false ∧ (pins s).precharges = false := by
    constructor
    · rwa [Bool.eq_false_iff, ne_eq, activates_iff]
    · rwa [Bool.eq_false_iff, ne_eq, precharges_iff]
  simp [Rows.after, hno, h]

theorem after_other (ha : s.oCmd ≠ cmdActivate) (hp : s.oCmd ≠ cmdPrecharge)
    (hr : s.oCmd ≠ cmdRead) (hw : s.oCmd ≠ cmdWrite) : m.after (pins s) = m := by
  have hno : (pins s).activates = false ∧ (pins s).precharges = false ∧
      (pins s).reads = false ∧ (pins s).writes = false := by
    refine ⟨?_, ?_, ?_, ?_⟩
    · rwa [Bool.eq_false_iff, ne_eq, activates_iff]
    · rwa [Bool.eq_false_iff, ne_eq, precharges_iff]
    · rwa [Bool.eq_false_iff, ne_eq, reads_iff]
    · rwa [Bool.eq_false_iff, ne_eq, writes_iff]
  simp [Rows.after, hno]

/-- The address pins of a row command. -/
theorem ofBool_append_top (b : Bool) (row : BitVec 11) :
    (BitVec.ofBool b ++ row).getLsbD 11 = b := by
  rw [BitVec.getLsbD_append, if_neg (by decide)]
  cases b <;> rfl

theorem ofBool_append_low (b : Bool) (row : BitVec 11) :
    (BitVec.ofBool b ++ row).extractLsb' 0 11 = row := by
  apply BitVec.eq_of_getLsbD_eq
  intro k hk
  rw [BitVec.getLsbD_extractLsb', BitVec.getLsbD_append, Nat.zero_add, if_pos hk]
  simp [hk]

theorem rowAddr_bank (b : Bool) (row : BitVec 11) : (rowAddr s b row).getLsbD 11 = b := by
  unfold rowAddr
  split_ifs
  · rw [BitVec.getLsbD_and, ofBool_append_top]
    exact Bool.and_true b
  · exact ofBool_append_top b row

theorem rowAddr_opens {b : Bool} (row : BitVec 11) (h : s.bankActive.get b = 0) :
    (rowAddr s b row).extractLsb' 0 11 = row := by
  unfold rowAddr
  rw [h, if_neg (by decide)]
  exact ofBool_append_low b row

theorem rowAddr_closes {b : Bool} (row : BitVec 11) (h : s.bankActive.get b = 0b11111) :
    (rowAddr s b row).getLsbD 10 = false := by
  unfold rowAddr
  rw [h, if_pos (by decide), BitVec.getLsbD_and]
  exact Bool.and_false _

/-- The address pins of an access. -/
theorem accessAddr_bank (b : Bool) (col : BitVec 8) :
    (BitVec.ofBool b ++ (0#3 ++ col)).getLsbD 11 = b := ofBool_append_top b _

theorem accessAddr_open (b : Bool) (col : BitVec 8) :
    (BitVec.ofBool b ++ (0#3 ++ col)).getLsbD 10 = false := by
  rw [BitVec.getLsbD_append, if_pos (by decide), BitVec.getLsbD_append, if_neg (by decide)]
  rfl

theorem accessAddr_col (b : Bool) (col : BitVec 8) :
    (BitVec.ofBool b ++ (0#3 ++ col)).extractLsb' 0 8 = col := by
  apply BitVec.eq_of_getLsbD_eq
  intro k hk
  rw [BitVec.getLsbD_extractLsb', BitVec.getLsbD_append, Nat.zero_add, if_pos (by omega),
    BitVec.getLsbD_append, if_pos hk]
  simp [hk]

/-- The address pins, by what the state machine does. -/
theorem ramAddr_spec (hk : Kept c s) : match action c s with
    | .maintain => nextRamAddr c s i = s.maintenanceAddr
    | .activate | .precharge => nextRamAddr c s i = rowAddr s (rBank s) (rRow s)
    | .read | .write => i.iWbCyc = true →
        nextRamAddr c s i = BitVec.ofBool (rBank s) ++ (0#3 ++ rCol s)
    | .ahead | .aheadPrecharge | .aheadActivate =>
        nextRamAddr c s i = rowAddr s (fwdBank s) (fwdRow s)
    | .rest => True := by
  have hspec := @action_spec c s
  have hissued : action c s ≠ .read ∧ action c s ≠ .write → issued s i = false := by
    intro hno
    cases hcyc : i.iWbCyc
    · simp [issued, hcyc]
    · rw [Bool.eq_false_iff, ne_eq, hk.issued_iff hcyc]
      simp [hno]
  unfold nextRamAddr
  cases ha : action c s <;> rw [ha] at hspec hissued
  case maintain => simp [hspec]
  case rest => trivial
  case activate => simp [hspec]
  case precharge => simp [hspec]
  case read =>
    intro hcyc
    simp [hspec, (hk.issued_iff hcyc).2 (.inl ha)]
  case write =>
    intro hcyc
    simp [hspec, (hk.issued_iff hcyc).2 (.inr ha)]
  all_goals simp [hspec, hissued]

/-- The command pins, by what the state machine does. -/
theorem cmd_spec : match action c s with
    | .maintain => nextCmd c s i = s.maintenanceCmd
    | .activate | .aheadActivate => nextCmd c s i = cmdActivate
    | .precharge | .aheadPrecharge => nextCmd c s i = cmdPrecharge
    | .write => nextCmd c s i = if i.iWbCyc then cmdWrite else 0b1100
    | .read => nextCmd c s i = if i.iWbCyc then cmdRead else 0b1101
    | .rest | .ahead => nextCmd c s i = 0b1111 := by
  unfold nextCmd
  cases action c s
  case write => cases i.iWbCyc <;> rfl
  case read => cases i.iWbCyc <;> rfl
  all_goals rfl

/-- The rows, by what the state machine does. -/
theorem after_spec (hk : Kept c s) : match action c s with
    | .maintain => m.after (pins (Wbsdram.next c s i)) =
        if s.maintenanceCmd = cmdPrecharge then Banks.both none else m
    | .activate => m.after (pins (Wbsdram.next c s i)) =
        m.set (rBank s) (some (rRow s))
    | .precharge => m.after (pins (Wbsdram.next c s i)) = m.set (rBank s) none
    | .write | .read | .rest | .ahead => m.after (pins (Wbsdram.next c s i)) = m
    | .aheadPrecharge => m.after (pins (Wbsdram.next c s i)) =
        if (rowAddr s (fwdBank s) (fwdRow s)).getLsbD 10 then Banks.both none
        else m.set (fwdBank s) none
    | .aheadActivate => m.after (pins (Wbsdram.next c s i)) =
        m.set (fwdBank s) (some (fwdRow s)) := by
  have hspec := @action_spec c s
  have haddr := @ramAddr_spec c s i hk
  have hcmd := @cmd_spec c s i
  cases ha : action c s <;> rw [ha] at hspec haddr hcmd
  case maintain =>
    have hcmd' : (Wbsdram.next c s i).oCmd = s.maintenanceCmd := hcmd
    dsimp only
    rcases hk.upkeep with hup | hup | hup | hup
    · rw [if_neg (by rw [hup]; decide)]
      refine after_other ?_ ?_ ?_ ?_ <;> (rw [hcmd', hup]; decide)
    · rw [if_pos hup, after_precharge (hcmd'.trans hup), if_pos]
      show (nextRamAddr c s i).getLsbD 10 = true
      rw [haddr]
      exact hk.closing hup
    · rw [if_neg (by rw [hup]; decide)]
      refine after_other ?_ ?_ ?_ ?_ <;> (rw [hcmd', hup]; decide)
    · rw [if_neg (by rw [hup]; decide)]
      refine after_other ?_ ?_ ?_ ?_ <;> (rw [hcmd', hup]; decide)
  case rest =>
    have hcmd' : (Wbsdram.next c s i).oCmd = 0b1111 := hcmd
    refine after_other ?_ ?_ ?_ ?_ <;> (rw [hcmd']; decide)
  case ahead =>
    have hcmd' : (Wbsdram.next c s i).oCmd = 0b1111 := hcmd
    refine after_other ?_ ?_ ?_ ?_ <;> (rw [hcmd']; decide)
  case activate =>
    rw [after_activate hcmd]
    have hbank : (pins (Wbsdram.next c s i)).bank = rBank s := by
      show (nextRamAddr c s i).getLsbD 11 = _
      rw [haddr, rowAddr_bank]
    have hrow : (pins (Wbsdram.next c s i)).row = rRow s := by
      show (nextRamAddr c s i).extractLsb' 0 11 = _
      rw [haddr, rowAddr_opens _ hspec.2.2.2]
    rw [hbank, hrow]
  case precharge =>
    rw [after_precharge hcmd]
    have hbank : (pins (Wbsdram.next c s i)).bank = rBank s := by
      show (nextRamAddr c s i).getLsbD 11 = _
      rw [haddr, rowAddr_bank]
    have hone : (pins (Wbsdram.next c s i)).closesAll = false := by
      show (nextRamAddr c s i).getLsbD 10 = _
      rw [haddr, rowAddr_closes _ hspec.2.2.2]
    rw [hbank, hone, if_neg (by decide)]
  case aheadActivate =>
    rw [after_activate hcmd]
    have hbank : (pins (Wbsdram.next c s i)).bank = fwdBank s := by
      show (nextRamAddr c s i).getLsbD 11 = _
      rw [haddr, rowAddr_bank]
    have hrow : (pins (Wbsdram.next c s i)).row = fwdRow s := by
      show (nextRamAddr c s i).extractLsb' 0 11 = _
      rw [haddr, rowAddr_opens _ hspec.2.2.2.2.2]
    rw [hbank, hrow]
  case aheadPrecharge =>
    rw [after_precharge hcmd]
    have hbank : (pins (Wbsdram.next c s i)).bank = fwdBank s := by
      show (nextRamAddr c s i).getLsbD 11 = _
      rw [haddr, rowAddr_bank]
    have hall : (pins (Wbsdram.next c s i)).closesAll =
        (rowAddr s (fwdBank s) (fwdRow s)).getLsbD 10 := by
      show (nextRamAddr c s i).getLsbD 10 = _
      rw [haddr]
    rw [hbank, hall]
  case read =>
    dsimp only at hcmd haddr ⊢
    cases hcyc : i.iWbCyc
    · have hcmd' : (Wbsdram.next c s i).oCmd = 0b1101 := by
        rw [next_oCmd, hcmd, hcyc, if_neg (by decide)]
      refine after_other ?_ ?_ ?_ ?_ <;> (rw [hcmd']; decide)
    · have hcmd' : (Wbsdram.next c s i).oCmd = cmdRead := by
        rw [next_oCmd, hcmd, hcyc, if_pos rfl]
      refine after_access ?_ (by rw [hcmd']; decide) (by rw [hcmd']; decide)
      show (nextRamAddr c s i).getLsbD 10 = _
      rw [haddr hcyc, accessAddr_open]
  case write =>
    dsimp only at hcmd haddr ⊢
    cases hcyc : i.iWbCyc
    · have hcmd' : (Wbsdram.next c s i).oCmd = 0b1100 := by
        rw [next_oCmd, hcmd, hcyc, if_neg (by decide)]
      refine after_other ?_ ?_ ?_ ?_ <;> (rw [hcmd']; decide)
    · have hcmd' : (Wbsdram.next c s i).oCmd = cmdWrite := by
        rw [next_oCmd, hcmd, hcyc, if_pos rfl]
      refine after_access ?_ (by rw [hcmd']; decide) (by rw [hcmd']; decide)
      show (nextRamAddr c s i).getLsbD 10 = _
      rw [haddr hcyc, accessAddr_open]

/-- The books follow the rows. -/
theorem Tracks.next (h : Tracks s m) (hk : Kept c s) (hm : misleads c s = false) :
    Tracks (Wbsdram.next c s i) (m.after (pins (Wbsdram.next c s i))) := by
  have hspec := @action_spec c s
  have hafter := @after_spec c s i m hk
  have hnone : s.maintenanceMode = false → ∀ b, booked s b = false → m.get b = none := by
    intro hmode b hb
    refine (h.isClosed b hb).resolve_right fun hu => ?_
    simp [hu.maintains] at hmode
  refine ⟨?_, ?_, valid_next hm⟩
  · intro b hb'
    have hkept : booked s b = true → (m.after (pins (Wbsdram.next c s i))).get b = m.get b →
        (m.after (pins (Wbsdram.next c s i))).get b = some ((Wbsdram.next c s i).bankRow.get b) := by
      intro hb hrow
      rw [hrow, h.isOpen b hb, row_kept hm hb hb']
    rw [booked_next] at hb'
    cases ha : action c s <;> rw [ha] at hspec hafter hb' <;> dsimp only at hafter hb'
    case maintain => simp at hb'
    case activate =>
      by_cases hb : b = rBank s
      · rw [hafter, hb, Banks.get_set_self, next_bankRow, nextBankRow, ha]
        dsimp only
        rw [Banks.get_set_self]
      · refine hkept (by simpa [hb] using hb') ?_
        rw [hafter, Banks.get_set_of_ne _ hb]
    case aheadActivate =>
      by_cases hb : b = fwdBank s
      · rw [hafter, hb, Banks.get_set_self, next_bankRow, nextBankRow, ha]
        dsimp only
        rw [Banks.get_set_self]
      · refine hkept (by simpa [hb] using hb') ?_
        rw [hafter, Banks.get_set_of_ne _ hb]
    case precharge =>
      have hb : b ≠ rBank s ∧ booked s b = true := by simpa using hb'
      refine hkept hb.2 ?_
      rw [hafter, Banks.get_set_of_ne _ hb.1]
    case aheadPrecharge =>
      have hb : b ≠ fwdBank s ∧ booked s b = true := by simpa using hb'
      refine hkept hb.2 ?_
      have hother : b = !fwdBank s := by
        cases b <;> cases hf : fwdBank s <;> simp_all
      have hone : (rowAddr s (fwdBank s) (fwdRow s)).getLsbD 10 = false := by
        unfold misleads at hm
        rw [ha] at hm
        rw [hother] at hb
        simpa [hb.2] using hm
      rw [hafter, hone, if_neg (by decide), Banks.get_set_of_ne _ hb.1]
    all_goals exact hkept hb' (by rw [hafter])
  · intro b hb'
    rw [booked_next] at hb'
    cases ha : action c s <;> rw [ha] at hspec hafter hb' <;> dsimp only at hafter hb' hspec
    case maintain =>
      rw [hafter]
      split_ifs with hp
      · exact .inl (Banks.get_both _ _)
      · have hzero := hk.closed hspec hp b
        exact (h.isClosed b (booked_of_zero hzero)).imp_right fun hu => hu.next hk hp
    case activate =>
      have hb : b ≠ rBank s ∧ booked s b = false := by simpa using hb'
      left
      rw [hafter, Banks.get_set_of_ne _ hb.1]
      exact hnone hspec.1 b hb.2
    case aheadActivate =>
      have hb : b ≠ fwdBank s ∧ booked s b = false := by simpa using hb'
      left
      rw [hafter, Banks.get_set_of_ne _ hb.1]
      exact hnone hspec.1 b hb.2
    case precharge =>
      left
      rw [hafter]
      by_cases hb : b = rBank s
      · rw [hb, Banks.get_set_self]
      · rw [Banks.get_set_of_ne _ hb]
        exact hnone hspec.1 b (by simpa [hb] using hb')
    case aheadPrecharge =>
      left
      rw [hafter]
      split_ifs with hall
      · exact Banks.get_both _ _
      · by_cases hb : b = fwdBank s
        · rw [hb, Banks.get_set_self]
        · rw [Banks.get_set_of_ne _ hb]
          exact hnone hspec.1 b (by simpa [hb] using hb')
    case rest => exact .inl (by rw [hafter]; exact hnone hspec b hb')
    all_goals exact .inl (by rw [hafter]; exact hnone hspec.1 b hb')

/-- An access on the pins comes from the state machine, in a bus cycle. -/
theorem sends_of_access (hk : Kept c s)
    (h : (next c s i).oCmd = cmdRead ∨ (next c s i).oCmd = cmdWrite) :
    (action c s = .read ∨ action c s = .write) ∧ i.iWbCyc = true := by
  have hcmd := @cmd_spec c s i
  rw [next_oCmd] at h
  cases ha : action c s <;> rw [ha] at hcmd <;> dsimp only at hcmd <;> rw [hcmd] at h
  case maintain =>
    rcases hk.upkeep with hup | hup | hup | hup <;> (rw [hup] at h; exact absurd h (by decide))
  case read =>
    cases hcyc : i.iWbCyc
    · rw [hcyc] at h
      exact absurd h (by decide)
    · exact ⟨.inl rfl, rfl⟩
  case write =>
    cases hcyc : i.iWbCyc
    · rw [hcyc] at h
      exact absurd h (by decide)
    · exact ⟨.inr rfl, rfl⟩
  all_goals exact absurd h (by decide)

/-- What goes to the pins may stand there. -/
theorem Tracks.touches {request : Option (BitVec 19)} (h : Tracks s m) (hk : Kept c s)
    (hreq : s.rPending = true → i.iWbCyc = true → request = some s.rAddr) :
    Touches m request (!(Wbsdram.next c s i).resetActive) (pins (Wbsdram.next c s i)) := by
  have hspec := @action_spec c s
  have haddr := @ramAddr_spec c s i hk
  have hcmd := @cmd_spec c s i
  have hnone : s.maintenanceMode = false → ∀ b, booked s b = false → m.get b = none := by
    intro hmode b hb
    refine (h.isClosed b hb).resolve_right fun hu => ?_
    simp [hu.maintains] at hmode
  refine ⟨?_, ?_, ?_⟩
  · intro hacc
    rw [reads_iff, writes_iff] at hacc
    obtain ⟨ha, hcyc⟩ := sends_of_access hk hacc
    have hspec' : s.maintenanceMode = false ∧ s.rBankValid = true ∧ ready s (rBank s) = true := by
      rcases ha with ha | ha <;> (rw [ha] at hspec; exact hspec)
    have haddr' : nextRamAddr c s i = BitVec.ofBool (rBank s) ++ (0#3 ++ rCol s) := by
      rcases ha with ha | ha <;> (rw [ha] at haddr; exact haddr hcyc)
    have hbank : (pins (Wbsdram.next c s i)).bank = rBank s := by
      show (nextRamAddr c s i).getLsbD 11 = _
      rw [haddr', accessAddr_bank]
    have hcol : (pins (Wbsdram.next c s i)).col = rCol s := by
      show (nextRamAddr c s i).extractLsb' 0 8 = _
      rw [haddr', accessAddr_col]
    have hbooked := booked_of_ready hspec'.2.2
    refine ⟨?_, s.rAddr, hreq (pending_of_sends ha) hcyc, hbank, hcol, ?_⟩
    · cases hr : (Wbsdram.next c s i).resetActive
      · rfl
      · have hmode := (hk.starting (hk.resetActive_of_next hr)).1
        simp [hspec'.1] at hmode
    · rw [hbank, h.isOpen _ hbooked, h.valid hspec'.2.1 hbooked]
      rfl
  · intro hact
    rw [activates_iff, next_oCmd] at hact
    cases ha : action c s <;> rw [ha] at hspec haddr hcmd <;> dsimp only at hspec haddr hcmd <;>
      rw [hcmd] at hact
    case activate =>
      show m.get ((nextRamAddr c s i).getLsbD 11) = none
      rw [haddr, rowAddr_bank]
      exact hnone hspec.1 _ (booked_of_zero hspec.2.2.2)
    case aheadActivate =>
      show m.get ((nextRamAddr c s i).getLsbD 11) = none
      rw [haddr, rowAddr_bank]
      exact hnone hspec.1 _ (booked_of_zero hspec.2.2.2.2.2)
    case maintain =>
      rcases hk.upkeep with hup | hup | hup | hup <;>
        (rw [hup] at hact; exact absurd hact (by decide))
    case read => cases hcyc : i.iWbCyc <;> (rw [hcyc] at hact; exact absurd hact (by decide))
    case write => cases hcyc : i.iWbCyc <;> (rw [hcyc] at hact; exact absurd hact (by decide))
    all_goals exact absurd hact (by decide)
  · intro hup b
    rw [refreshes_iff, setsMode_iff, next_oCmd] at hup
    cases ha : action c s <;> rw [ha] at hspec hcmd <;> dsimp only at hspec hcmd <;>
      rw [hcmd] at hup
    case maintain =>
      have hp : s.maintenanceCmd ≠ cmdPrecharge := by
        rcases hup with hup | hup <;> (rw [hup]; decide)
      refine (h.isClosed b (booked_of_zero (hk.closed hspec hp b))).resolve_right fun hu => ?_
      cases hu with
      | waits _ hnoop => rw [hnoop] at hup; exact absurd hup (by decide)
      | shown _ hnoop => rw [hnoop] at hup; exact absurd hup (by decide)
      | sent _ hsent => exact hp hsent
    case read => cases hcyc : i.iWbCyc <;> (rw [hcyc] at hup; exact absurd hup (by decide))
    case write => cases hcyc : i.iWbCyc <;> (rw [hcyc] at hup; exact absurd hup (by decide))
    all_goals exact absurd hup (by decide)

/-! ### Whole runs -/

/-- A request that waits in a bus cycle is still the one to be served. -/
theorem request_kept {s : ℕ → Wbsdram} {i : ℕ → SdramIn} {n : ℕ} (hk : Kept c (s n))
    (hp : (s n).rPending = true) (hcyc : (i n).iWbCyc = true)
    (h : requestAt s i n = some (s n).rAddr) : requestAt s i (n + 1) = some (s n).rAddr := by
  have hno : (pins (s n)).reads = false ∧ (pins (s n)).writes = false := by
    constructor
    · rw [Bool.eq_false_iff, ne_eq, reads_iff]
      intro hc
      simp [hk.sent (.inl hc)] at hp
    · rw [Bool.eq_false_iff, ne_eq, writes_iff]
      intro hc
      simp [hk.sent (.inr hc)] at hp
  show (if busCyc (s n) (i n) then some (i n).iWbAddr
    else if !(i n).iWbCyc || (pins (s n)).reads || (pins (s n)).writes then none
    else requestAt s i n) = _
  rw [hk.busCyc_eq hp]
  simp [hcyc, hno, h]

theorem waits_next {s : ℕ → Wbsdram} {i : ℕ → SdramIn} {n : ℕ}
    (hstep : ∀ n, s (n + 1) = next c (s n) (i n)) (hk : Kept c (s n))
    (h : (s n).rPending = true → requestAt s i n = some (s n).rAddr) :
    (s (n + 1)).rPending = true → requestAt s i (n + 1) = some (s (n + 1)).rAddr := by
  intro hp
  rw [hstep] at hp ⊢
  cases hbus : busCyc (s n) (i n)
  · have hold : (s n).rPending = true ∧ (i n).iWbCyc = true := by
      rw [next_rPending, nextPending, hbus] at hp
      cases hi : issued (s n) (i n) <;> cases hcyc : (i n).iWbCyc <;> rw [hi, hcyc] at hp <;>
        simp_all
    rw [request_kept hk hold.1 hold.2 (h hold.1)]
    simp [hbus]
  · simp [requestAt, hbus]

/-- **Open rows.**  As long as the look-ahead does not mislead it, every command that the controller
    gives touches open rows only, whatever the memory's banks were at power up and whatever the bus
    does. -/
theorem touches_open_rows {s : ℕ → Wbsdram} {i : ℕ → SdramIn} (m : Rows)
    (h0 : AtPowerUp c (s 0)) (hstep : ∀ n, s (n + 1) = next c (s n) (i n)) (n : ℕ)
    (hahead : ∀ k < n, misleads c (s k) = false) :
    Touches (rowsAt m s n) (requestAt s i n) (!(s n).resetActive) (pins (s n)) := by
  have hkept := kept_run h0 hstep
  have hwaits : ∀ n, (s n).rPending = true → requestAt s i n = some (s n).rAddr := by
    intro n
    induction n with
    | zero => intro hp; simp [h0.rPending] at hp
    | succ n ih => exact waits_next hstep (hkept n) ih
  have hrows : ∀ n, (∀ k < n, misleads c (s k) = false) → Tracks (s n) (rowsAt m s (n + 1)) := by
    intro n
    induction n with
    | zero =>
      intro _
      have hzero : ∀ b, booked (s 0) b = false := fun b =>
        booked_of_zero (by rw [h0.bankActive, Banks.get_both])
      refine ⟨fun b hb => ?_, fun b _ => .inr (unprimed_powerUp h0), fun _ hb => ?_⟩
      · simp [hzero b] at hb
      · simp [hzero] at hb
    | succ n ih =>
      intro hall
      show Tracks (s (n + 1)) ((rowsAt m s (n + 1)).after (pins (s (n + 1))))
      rw [hstep]
      exact (ih fun k hk => hall k (by omega)).next (hkept n) (hall n (by omega))
  cases n with
  | zero =>
    have hnoop : (s 0).oCmd = cmdNoop := h0.oCmd
    refine ⟨fun h => ?_, fun h => ?_, fun h => ?_⟩
    · rw [reads_iff, writes_iff, hnoop] at h
      exact absurd h (by decide)
    · rw [activates_iff, hnoop] at h
      exact absurd h (by decide)
    · rw [refreshes_iff, setsMode_iff, hnoop] at h
      exact absurd h (by decide)
  | succ n =>
    have htracks := hrows n fun k hk => hahead k (by omega)
    rw [hstep]
    exact htracks.touches (hkept n) fun hp hcyc => request_kept (hkept n) hp hcyc (hwaits n hp)

theorem misleads_of_plain (h : c.optFwdAddress = false) : misleads c s = false := by
  have hspec := @action_spec c s
  unfold misleads
  cases ha : action c s <;> rw [ha] at hspec <;> simp_all

/-! ## The look-ahead at work -/

theorem rowsAt_add (m : Rows) (s : ℕ → Wbsdram) (a : ℕ) :
    ∀ k, rowsAt m s (a + k) = rowsAt (rowsAt m s a) (fun j => s (a + j)) k := by
  intro k
  induction k with
  | zero => rfl
  | succ k ih =>
    show (rowsAt m s (a + k)).after (pins (s (a + k))) = _
    rw [ih]
    rfl

theorem rowsAt_before (c : SdramCfg) (x : ℕ → SdramIn) (m : Rows) :
    ∀ n ≤ c.startupIdle, rowsAt m (started c x) n = m := by
  intro n
  induction n with
  | zero => exact fun _ => rfl
  | succ n ih =>
    intro hn
    show (rowsAt m (started c x) n).after (pins (started c x n)) = m
    rw [ih (by omega), started_before c x n (by omega)]
    have hnoop : (poweringUp c (c.startupIdle - n)).oCmd = cmdNoop := rfl
    refine after_other ?_ ?_ ?_ ?_ <;> (rw [hnoop]; decide)

/-- The rows, once the wait at power up is over. -/
theorem rowsAt_after (c : SdramCfg) (x : ℕ → SdramIn) (m : Rows) (k : ℕ) :
    rowsAt m (started c x) (c.startupIdle + k) =
      rowsAt m (Clocked.run (next c) (poweringUp c 0) x) k := by
  rw [rowsAt_add, rowsAt_before c x m _ (Nat.le_refl _)]
  exact congrArg (fun s => rowsAt m s k) (funext fun j => started_after c x j)

theorem plain_touches_open_rows :
    Touches (rowsAt (.both none) (started ⟨50000000, false⟩ fun _ => readOf 512) 6000)
      (requestAt (started ⟨50000000, false⟩ fun _ => readOf 512)
        (late ⟨50000000, false⟩ fun _ => readOf 512) 6000)
      (!(started ⟨50000000, false⟩ (fun _ => readOf 512) 6000).resetActive)
      (pins (started ⟨50000000, false⟩ (fun _ => readOf 512) 6000)) :=
  touches_open_rows _ (atPowerUp_poweringUp _) (fun _ => rfl) 6000
    fun _ _ => misleads_of_plain rfl

/-- Bank 1 has row 1 open and bank 0 has row 2.  While a write to the end of row 2 waits for the read
    before it, the look-ahead enters row 2 for bank 1, where the last read goes. -/
def crossing (k : ℕ) : SdramIn :=
  if k < 30 then readOf 384
  else if k < 36 then readOf 512
  else if k < 42 then writeOf 632
  else readOf 640

/-- The last read goes to a bank that has another row open. -/
theorem crossing_misses {s : ℕ → Wbsdram} {i : ℕ → SdramIn} {m : Rows} {n : ℕ}
    (hs : ∀ k, s (n + k) = Clocked.run (next ⟨50000000, true⟩) (poweringUp ⟨50000000, true⟩ 0) crossing k)
    (hi : ∀ k, i (n + k) = crossing k)
    (hm : rowsAt m s (n + 48) = rowsAt (.both none)
      (Clocked.run (next ⟨50000000, true⟩) (poweringUp ⟨50000000, true⟩ 0) crossing) 48)
    (up : Bool) : ¬ Touches (rowsAt m s (n + 48)) (requestAt s i (n + 48)) up (pins (s (n + 48))) := by
  intro htouches
  have hpins : (pins (s (n + 48))).reads = true ∧ (pins (s (n + 48))).bank = true := by
    rw [hs]
    decide +kernel
  have hrow : (rowsAt m s (n + 48)).get true = some 1 := by
    rw [hm]
    decide +kernel
  have hrequest : requestAt s i (n + 46 + 1 + 1) = some 640 := by
    have haccept : busCyc (s (n + 46)) (crossing 46) = true := by
      rw [hs]
      decide +kernel
    have hwait : busCyc (s (n + 47)) (crossing 47) = false ∧
        (pins (s (n + 47))).reads = false ∧ (pins (s (n + 47))).writes = false := by
      rw [hs]
      decide +kernel
    have hlast : requestAt s i (n + 46 + 1) = some 640 := by
      unfold requestAt
      rw [hi, haccept]
      rfl
    unfold requestAt
    rw [hlast, hi 47, hwait.1, hwait.2.1, hwait.2.2]
    rfl
  obtain ⟨-, a, ha, hbank, -, hopen⟩ := htouches.access (.inl hpins.1)
  rw [hrequest, Option.some.injEq] at ha
  rw [hpins.2, hrow, ← ha] at hopen
  exact absurd hopen (by decide)

theorem reads_another_row : ¬ ∀ (c : SdramCfg) (m : Rows) (s : ℕ → Wbsdram) (i : ℕ → SdramIn),
    AtPowerUp c (s 0) → (∀ n, s (n + 1) = next c (s n) (i n)) → ∀ n,
    Touches (rowsAt m s n) (requestAt s i n) (!(s n).resetActive) (pins (s n)) := by
  intro h
  have htouches := h ⟨50000000, true⟩ (.both none) (started ⟨50000000, true⟩ crossing)
    (late ⟨50000000, true⟩ crossing) (atPowerUp_poweringUp _) fun _ => rfl
  exact crossing_misses (started_after _ crossing) (late_after _ crossing)
    (rowsAt_after _ crossing _ 48) _ (htouches _)

end Wbsdram

end ZipStormMX.Sdram
