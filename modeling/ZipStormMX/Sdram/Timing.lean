/-
  The gaps between the commands of the SDRAM.

  Within a bank it is `bank_active` that counts: an activation is four clocks from the end of the
  register, and nothing that needs the bank open comes before (`Ages`).  The look-ahead is the crux.
  It looks at one bank only, and at the first clock at which it could close it, address bit 10 would
  close the other one with it.  It never does so at that clock: the request that waits has found its
  row in the other bank, and two banks are opened within three clocks only when the request waits for
  the first of the two.

  Between the state machine and the sequencers it is the stall that counts: the last command before a
  refresh is six clocks away from it.
-/
import ZipStormMX.Sdram.OpenRows
import ZipStormMX.Sdram.Phases

namespace ZipStormMX.Sdram

namespace Wbsdram

variable {c : SdramCfg}

/-! ## Turns -/

section Turns

variable {s : ℕ → Wbsdram} {i : ℕ → SdramIn}

/-- What the state machine does is not cut short: the sequencers are six clocks away. -/
theorem undisturbed (hseq : ∀ n, Sequenced c (s n))
    (hstep : ∀ n, s (n + 1) = Wbsdram.next c (s n) (i n)) {n : ℕ}
    (hmode : (s n).maintenanceMode = false) (hstall : (s n).refreshStall = false) :
    ∀ k ≤ 6, (s (n + k)).maintenanceMode = false := by
  have hoff : (s n).resetActive = false := by
    rw [Bool.eq_false_iff]
    intro hon
    rw [((hseq n).kept.starting hon).1] at hmode
    exact absurd hmode (by decide)
  have hfar : ¬(c.ckRemaining + 4 ≤ refreshPhase c (s n) ∧
      refreshPhase c (s n) ≤ c.ckRemaining + 20) := by
    rw [← (hseq n).refreshStall_iff, hstall]
    decide
  intro k hk
  cases k with
  | zero => exact hmode
  | succ k =>
    have hoff' := resetActive_off hseq hstep hoff k
    have hactive : (s (n + k)).refreshActive = false := by
      rw [Bool.eq_false_iff, ne_eq, (hseq (n + k)).refreshActive_iff,
        refreshPhase_add hseq hstep hoff k]
      have hle := @refreshPhase_le c (s n)
      rcases Nat.lt_or_ge (refreshPhase c (s n) + k) (c.ckRemaining + 25) with hlt | hge
      · rw [Nat.mod_eq_of_lt hlt]
        omega
      · rw [Nat.mod_eq_sub_mod hge, Nat.mod_eq_of_lt (by omega)]
        omega
    rw [show n + (k + 1) = (n + k) + 1 from rfl, hstep, next_maintenanceMode, hoff', hactive]
    rfl

/-- Behind the command that closes all banks the sequencer keeps the memory, and waits. -/
theorem waits_behind_precharge (hseq : ∀ n, Sequenced c (s n))
    (hstep : ∀ n, s (n + 1) = Wbsdram.next c (s n) (i n)) {n : ℕ}
    (hg : gives (s n) = cmdPrecharge) :
    takes (s (n + 1)) = true ∧ gives (s (n + 1)) = cmdNoop := by
  rcases (hseq n).gives_precharge hg with ⟨-, hphase⟩ | ⟨hoff, hphase⟩
  · have hnext := resetPhase_add hseq hstep (by omega : 0 < resetPhase (s n)) 1 (by omega)
    rw [hphase] at hnext
    have hon : (s (n + 1)).resetActive = true := by
      rw [(hseq (n + 1)).resetActive_iff]
      omega
    refine ⟨by simp [takes, hon], ?_⟩
    rw [(hseq (n + 1)).gives_reset hon, hnext]
    rfl
  · have hoff' := resetActive_off hseq hstep hoff 1
    have hnext := refreshPhase_add hseq hstep hoff 1
    rw [hphase, Nat.mod_eq_of_lt (by omega)] at hnext
    have hon : (s (n + 1)).refreshActive = true := by
      rw [(hseq (n + 1)).refreshActive_iff]
      omega
    refine ⟨by simp [takes, hon], ?_⟩
    rw [(hseq (n + 1)).gives_refresh hoff', if_neg (by omega), if_neg (by omega)]

/-- Behind a refresh the sequencer keeps the memory for five clocks, and waits. -/
theorem waits_behind_refresh (hseq : ∀ n, Sequenced c (s n))
    (hstep : ∀ n, s (n + 1) = Wbsdram.next c (s n) (i n)) {n : ℕ}
    (hg : gives (s n) = cmdRefresh) {k : ℕ} (h1 : 1 ≤ k) (h5 : k ≤ 5) :
    takes (s (n + k)) = true ∧ gives (s (n + k)) = cmdNoop := by
  rcases (hseq n).gives_refreshes hg with ⟨-, hphase⟩ | ⟨hoff, hphase⟩
  · have hnext := resetPhase_add hseq hstep (by omega : 0 < resetPhase (s n)) k (by omega)
    have hon : (s (n + k)).resetActive = true := by
      rw [(hseq (n + k)).resetActive_iff]
      omega
    refine ⟨by simp [takes, hon], ?_⟩
    rw [(hseq (n + k)).gives_reset hon, if_neg (by omega), if_neg (by omega), if_neg (by omega)]
  · have hoff' := resetActive_off hseq hstep hoff k
    have hnext := refreshPhase_add hseq hstep hoff k
    rw [hphase, Nat.mod_eq_of_lt (by omega)] at hnext
    have hon : (s (n + k)).refreshActive = true := by
      rw [(hseq (n + k)).refreshActive_iff]
      omega
    refine ⟨by simp [takes, hon], ?_⟩
    rw [(hseq (n + k)).gives_refresh hoff', if_neg (by omega), if_neg (by omega)]

/-- The refresh comes back after each turn of its table. -/
theorem refresh_returns (hseq : ∀ n, Sequenced c (s n))
    (hstep : ∀ n, s (n + 1) = Wbsdram.next c (s n) (i n)) {n : ℕ}
    (hg : gives (s n) = cmdRefresh) (hoff : (s n).resetActive = false) :
    takes (s (n + (c.ckRemaining + 25))) = true ∧
      gives (s (n + (c.ckRemaining + 25))) = cmdRefresh := by
  have hphase : refreshPhase c (s n) = c.ckRemaining + 14 := by
    rcases (hseq n).gives_refreshes hg with ⟨hon, -⟩ | ⟨-, hphase⟩
    · rw [hoff] at hon
      exact absurd hon (by decide)
    · exact hphase
  have hoff' := resetActive_off hseq hstep hoff (c.ckRemaining + 25)
  have hnext := refreshPhase_add hseq hstep hoff (c.ckRemaining + 25)
  rw [Nat.add_mod_right, hphase, Nat.mod_eq_of_lt (by omega)] at hnext
  have hon := (hseq (n + (c.ckRemaining + 25))).refreshActive_iff
  rw [hnext] at hon
  refine ⟨by simp [takes, hon], ?_⟩
  rw [(hseq _).gives_refresh hoff', if_neg (by omega), if_pos hnext]

/-- When the sequencers give the memory back, all banks are closed. -/
theorem closed_at_end (hseq : ∀ n, Sequenced c (s n)) (h0 : AtPowerUp c (s 0))
    (hstep : ∀ n, s (n + 1) = Wbsdram.next c (s n) (i n)) {n : ℕ}
    (hmode : (s n).maintenanceMode = true) (hend : (s (n + 1)).maintenanceMode = false) (b : Bool) :
    (s n).bankActive.get b = 0 := by
  refine (hseq n).kept.closed hmode ?_ b
  intro hc
  cases n with
  | zero =>
    rw [h0.maintenanceCmd] at hc
    exact absurd hc (by decide)
  | succ n =>
    have hg : gives (s n) = cmdPrecharge := by
      rw [hstep] at hc
      exact hc
    have hon := (waits_behind_precharge hseq hstep hg).1
    rw [hstep] at hend
    have hoff : takes (s (n + 1)) = false := hend
    rw [hoff] at hon
    exact absurd hon (by decide)

end Turns

/-! ## Ages -/

variable {s : Wbsdram} {i : SdramIn}

/-- The state machine opens a bank. -/
def opens (c : SdramCfg) (s : Wbsdram) (b : Bool) : Bool :=
  match action c s with
  | .activate => rBank s == b
  | .aheadActivate => fwdBank s == b
  | _ => false

/-- The state machine closes a bank. -/
def shuts (c : SdramCfg) (s : Wbsdram) (b : Bool) : Bool :=
  match action c s with
  | .precharge => rBank s == b
  | .aheadPrecharge => fwdBank s == b
  | _ => false

/-- Nothing goes out while the refresh stalls the bus. -/
theorem running (h : action c s ≠ .maintain) (h' : action c s ≠ .rest) :
    s.refreshStall = false := by
  rw [Bool.eq_false_iff]
  intro hstall
  unfold action at h h'
  split_ifs at h h'
  · exact h rfl
  · exact h' rfl

theorem precharge_guard (h : action c s = .precharge) : s.clocksTilIdle = 0 := by
  unfold action at h
  split_ifs at h with h1 h2 h3 h4 h5
  have hlt : s.clocksTilIdle < 1 := by
    simp only [Bool.and_eq_true, decide_eq_true_eq] at h5
    exact h5.2
  bv_omega

theorem write_guard (h : action c s = .write) : s.rWe = true := by
  unfold action at h
  split_ifs at h
  assumption

/-- The look-ahead closes its bank only if the bank of the request is not open for long enough. -/
theorem aheadPrecharge_guard (hk : Kept c s) (h : action c s = .aheadPrecharge) :
    ready s (fwdBank s) = true ∧ s.clocksTilIdle ≤ 1 ∧ ready s (rBank s) = false := by
  unfold action at h
  split_ifs at h with _ _ _ _ _ hwait _ hahead hclose
  simp only [Bool.and_eq_true, Bool.not_eq_true', decide_eq_true_eq] at hahead hclose
  refine ⟨hclose.1, hclose.2, ?_⟩
  rw [Bool.eq_false_iff]
  intro hready
  apply hwait
  have hpending : pending s = true := by
    simp [pending, hahead.1.2, hk.waiting hahead.1.2]
  have hlt : s.clocksTilIdle < 5 := by
    have hle := hclose.2
    bv_omega
  rw [hpending, hready, decide_eq_true hlt, decide_eq_true hclose.2]
  cases s.rWe <;> rfl

theorem opens_spec {b : Bool} (h : opens c s b = true) : s.maintenanceMode = false ∧
    s.refreshStall = false ∧ s.rPending = true ∧ s.bankActive.get b = 0 := by
  have hspec := @action_spec c s
  have hrun := @running c s
  unfold opens at h
  cases ha : action c s <;> rw [ha] at h hspec hrun <;> dsimp only at h hspec
  case activate =>
    rw [← beq_iff_eq.1 h]
    exact ⟨hspec.1, hrun (by decide) (by decide), hspec.2.1, hspec.2.2.2⟩
  case aheadActivate =>
    rw [← beq_iff_eq.1 h]
    exact ⟨hspec.1, hrun (by decide) (by decide), hspec.2.1, hspec.2.2.2.2.2⟩
  all_goals exact absurd h (by decide)

theorem shuts_spec (hk : Kept c s) {b : Bool} (h : shuts c s b = true) :
    s.maintenanceMode = false ∧ s.refreshStall = false ∧ s.rPending = true ∧
      ready s b = true := by
  have hspec := @action_spec c s
  have hrun := @running c s
  have hguard := @aheadPrecharge_guard c s hk
  unfold shuts at h
  cases ha : action c s <;> rw [ha] at h hspec hrun hguard <;> dsimp only at h hspec
  case precharge =>
    rw [← beq_iff_eq.1 h]
    refine ⟨hspec.1, hrun (by decide) (by decide), hspec.2.1, ?_⟩
    rw [ready, hspec.2.2.2]
    decide
  case aheadPrecharge =>
    rw [← beq_iff_eq.1 h]
    exact ⟨hspec.1, hrun (by decide) (by decide), hspec.2.1, (hguard rfl).1⟩
  all_goals exact absurd h (by decide)

theorem shifted_closed : ∀ a : BitVec 5, (a.extractLsb' 1 4 == 0b1111) = true →
    shifted a &&& 0b00001 = 0b00001 := by
  decide

/-- The register of a bank, by what the state machine does with the bank. -/
theorem active_next (hk : Kept c s) (hmode : s.maintenanceMode = false) (b : Bool) :
    (next c s i).bankActive.get b = if opens c s b then 0b10000
      else if shuts c s b then 0b00001 else shifted (s.bankActive.get b) := by
  have hopen := @opens_spec c s b
  have hshut := @shuts_spec c s hk b
  have hset : ∀ (b' : Bool) (v : BitVec 5),
      ((s.bankActive.map shifted).set b' v).get b =
        if (b' == b) = true then v else shifted (s.bankActive.get b) := by
    intro b' v
    by_cases hb : b = b'
    · rw [hb, Banks.get_set_self, if_pos (beq_self_eq_true b')]
    · rw [Banks.get_set_of_ne _ hb, Banks.get_map, if_neg (by simpa using Ne.symm hb)]
  have hno : ¬(false = true) := by decide
  rw [next_bankActive]
  unfold nextBankActive
  unfold opens shuts at *
  cases ha : action c s <;> rw [ha] at hopen hshut <;> dsimp only at hopen hshut ⊢
  case maintain =>
    have hspec := @action_spec c s
    rw [ha] at hspec
    dsimp only at hspec
    rw [hspec] at hmode
    exact absurd hmode (by decide)
  case activate =>
    rw [hset, if_neg hno]
    split_ifs with hb
    · rw [beq_iff_eq.1 hb, Banks.get_map, (hopen hb).2.2.2]
      rfl
    · rfl
  case aheadActivate =>
    rw [hset, if_neg hno]
    split_ifs with hb
    · rw [beq_iff_eq.1 hb, Banks.get_map, (hopen hb).2.2.2]
      rfl
    · rfl
  case precharge =>
    rw [hset, if_neg hno]
    split_ifs with hb
    · rw [beq_iff_eq.1 hb, Banks.get_map]
      exact shifted_closed _ (hshut hb).2.2.2
    · rfl
  case aheadPrecharge =>
    rw [hset, if_neg hno]
    split_ifs with hb
    · rw [beq_iff_eq.1 hb, Banks.get_map]
      exact shifted_closed _ (hshut hb).2.2.2
    · rfl
  all_goals rw [Banks.get_map, if_neg hno, if_neg hno]

/-- What the register of a bank may hold: closed, just closed, or open for one clock and more. -/
def Shape (a : BitVec 5) : Prop :=
  a = 0 ∨ a = 0b00001 ∨ a = 0b10000 ∨ a = 0b11000 ∨ a = 0b11100 ∨ a = 0b11110 ∨ a = 0b11111

instance (a : BitVec 5) : Decidable (Shape a) := by
  unfold Shape
  infer_instance

theorem shape_shifted : ∀ a, Shape a → Shape (shifted a) := by
  decide

/-- The registers of the banks, and the request that waits. -/
structure Ages (s : Wbsdram) : Prop where
  fwdAddr : s.fwdAddr = s.rAddr + 12
  shape : ∀ b, Shape (s.bankActive.get b)
  /-- A request that has found its row: the bank shows it, and has not been opened just now. -/
  found : s.maintenanceMode = false → s.rBankValid = true →
    booked s (rBank s) = true ∧ s.bankRow.get (rBank s) = rRow s ∧
      s.bankActive.get (rBank s) ≠ 0b10000
  /-- A request that has not, although its bank shows it: the bank has been opened just now. -/
  missed : s.maintenanceMode = false → s.rBankValid = false →
    booked s (rBank s) = true → s.bankRow.get (rBank s) = rRow s →
      s.bankActive.get (rBank s) = 0b10000
  /-- A bank that has been opened for one clock: for the request, or for the look-ahead. -/
  first : ∀ b, s.bankActive.get b = 0b10000 → s.oWbStall = true ∧
    ((s.rBankValid = false ∧ rBank s = b) ∨
      (s.rBankValid = true ∧ rBank s = !b ∧ fwdBank s = b ∧ s.bankRow.get b = fwdRow s))
  second : ∀ b, s.bankActive.get b = 0b11000 → s.bankActive.get (!b) ≠ 0b10000 ∧
    (s.rPending = true → s.bankActive.get (!b) = 0 → rBank s = b)
  third : ∀ b, s.bankActive.get b = 0b11100 → s.bankActive.get (!b) ≠ 0b11000 ∧
    (s.bankActive.get (!b) = 0b10000 → s.oWbStall = true ∧ rBank s = b)
  fourth : ∀ b, s.bankActive.get b = 0b11110 → s.bankActive.get (!b) ≠ 0b11100 ∧
    (s.bankActive.get (!b) = 0b11000 → rBank s = b)

theorem ages_powerUp (h : AtPowerUp c s) : Ages s := by
  have hzero : ∀ b, s.bankActive.get b = 0 := fun b => by
    rw [h.bankActive, Banks.get_both]
  refine ⟨?_, fun b => .inl (hzero b), fun hm => ?_, fun hm => ?_, fun b hb => ?_,
    fun b hb => ?_, fun b hb => ?_, fun b hb => ?_⟩
  · rw [h.fwdAddr, h.rAddr]
    rfl
  · rw [h.maintenanceMode] at hm
    exact absurd hm (by decide)
  · rw [h.maintenanceMode] at hm
    exact absurd hm (by decide)
  all_goals
    rw [hzero] at hb
    exact absurd hb (by decide)

/-! ### One clock -/

/-- Behind a clock that serves nothing a request stays, and keeps the bus stalled. -/
theorem stall_next (hk : Kept c s) (hp : s.rPending = true) (hr : action c s ≠ .read)
    (hw : action c s ≠ .write) : (next c s i).oWbStall = true := by
  have hread : s.oCmd ≠ cmdRead := fun he => by simp [hk.sent (.inl he)] at hp
  have hwrite : s.oCmd ≠ cmdWrite := fun he => by simp [hk.sent (.inr he)] at hp
  rw [next_oWbStall]
  unfold nextStall
  split_ifs
  · rfl
  · cases ha : action c s <;>
      first | exact absurd ha hr | exact absurd ha hw | simp [hp, hread, hwrite]

theorem addr_kept (h : busCyc s i = false) :
    (next c s i).rAddr = s.rAddr ∧ (next c s i).fwdAddr = s.fwdAddr := by
  simp [h]

theorem busCyc_of_stall (h : s.oWbStall = true) : busCyc s i = false := by
  simp [busCyc, h]

/-- A request waits: it has been accepted now, or it waited before. -/
theorem pending_prev (h : (next c s i).rPending = true) :
    busCyc s i = true ∨ s.rPending = true := by
  rw [next_rPending] at h
  unfold nextPending at h
  split_ifs at h with hb hi hcyc
  · exact .inl hb
  · exact .inr h

/-- A bank that is open for more than a clock was open a clock before. -/
theorem active_prev (hk : Kept c s) {b : Bool} {v : BitVec 5}
    (h : (next c s i).bankActive.get b = v) (h0 : v ≠ 0) (h1 : v ≠ 0b00001) (h2 : v ≠ 0b10000) :
    s.maintenanceMode = false ∧ shifted (s.bankActive.get b) = v := by
  cases hmode : s.maintenanceMode
  · rw [active_next hk hmode] at h
    split_ifs at h
    · exact absurd h.symm h2
    · exact absurd h.symm h1
    · exact ⟨rfl, h⟩
  · have hzero : (next c s i).bankActive.get b = 0 := by
      simp [nextBankActive, action, hmode]
    rw [hzero] at h
    exact absurd h.symm h0

/-- A bank that has been open for one clock has been opened by the state machine. -/
theorem opens_prev (hk : Kept c s) {b : Bool}
    (h : (next c s i).bankActive.get b = 0b10000) : opens c s b = true := by
  cases hmode : s.maintenanceMode
  · rw [active_next hk hmode] at h
    split_ifs at h with hopen hshut
    · exact hopen
    · exact absurd h (by decide)
    · exact absurd h ((by decide : ∀ a, shifted a ≠ 0b10000) _)
  · have hzero : (next c s i).bankActive.get b = 0 := by
      simp [nextBankActive, action, hmode]
    rw [hzero] at h
    exact absurd h (by decide)

theorem opens_serves {b : Bool} (h : opens c s b = true) :
    action c s ≠ .read ∧ action c s ≠ .write := by
  unfold opens at h
  constructor <;> (intro ha; rw [ha] at h; exact absurd h Bool.false_ne_true)

theorem Ages.first_next (h : Ages s) (hk : Kept c s) (b : Bool)
    (hb : (next c s i).bankActive.get b = 0b10000) : (next c s i).oWbStall = true ∧
    (((next c s i).rBankValid = false ∧ rBank (next c s i) = b) ∨
      ((next c s i).rBankValid = true ∧ rBank (next c s i) = !b ∧ fwdBank (next c s i) = b ∧
        (next c s i).bankRow.get b = fwdRow (next c s i))) := by
  have hopen := opens_prev hk hb
  obtain ⟨hmode, -, hp, hzero⟩ := opens_spec hopen
  obtain ⟨hr, hw⟩ := opens_serves hopen
  refine ⟨stall_next hk hp hr hw, ?_⟩
  have hbus : busCyc s i = false := hk.busCyc_eq hp
  obtain ⟨hra, hfa⟩ := addr_kept hbus
  have hvalid : (next c s i).rBankValid = shows s s.rAddr := by
    simp [hbus]
  have hspec := @action_spec c s
  unfold rBank fwdBank fwdRow at *
  rw [hra, hfa, hvalid]
  unfold opens at hopen
  cases ha : action c s <;> rw [ha] at hopen hspec <;> dsimp only at hopen hspec
  case activate =>
    have hbank : bankOf s.rAddr = b := beq_iff_eq.1 hopen
    refine .inl ⟨?_, hbank⟩
    rw [← hbank] at hzero
    simp [shows, hzero]
  case aheadActivate =>
    have hbank : bankOf s.fwdAddr = b := beq_iff_eq.1 hopen
    obtain ⟨hbooked, hrow, -⟩ := h.found hmode hspec.2.2.1
    refine .inr ⟨(shows_iff _).2 ⟨hbooked, hrow⟩, ?_, hbank, ?_⟩
    · have hne : bankOf s.rAddr ≠ b := by
        intro he
        rw [show rBank s = b from he, booked, hzero] at hbooked
        exact absurd hbooked (by decide)
      cases b <;> simpa using hne
    · rw [next_bankRow]
      unfold nextBankRow
      rw [ha]
      dsimp only
      rw [← hbank]
      exact Banks.get_set_self _ _ _
  all_goals exact absurd hopen (by decide)

theorem shifted_second : ∀ a, Shape a → shifted a = 0b11000 → a = 0b10000 := by
  decide

theorem shifted_third : ∀ a, Shape a → shifted a = 0b11100 → a = 0b11000 := by
  decide

theorem shifted_fourth : ∀ a, Shape a → shifted a = 0b11110 → a = 0b11100 := by
  decide

/-- An open bank shows it a clock later. -/
theorem booked_nonzero (hk : Kept c s) (hmode : s.maintenanceMode = false) {b : Bool}
    (h : booked s b = true) : (next c s i).bankActive.get b ≠ 0 := by
  rw [active_next hk hmode]
  split_ifs
  · decide
  · decide
  · exact (by decide : ∀ a : BitVec 5, a.getLsbD 4 = true → shifted a ≠ 0) _ h

theorem Ages.second_next (h : Ages s) (hk : Kept c s) (b : Bool)
    (hb : (next c s i).bankActive.get b = 0b11000) :
    (next c s i).bankActive.get (!b) ≠ 0b10000 ∧ ((next c s i).rPending = true →
      (next c s i).bankActive.get (!b) = 0 → rBank (next c s i) = b) := by
  obtain ⟨hmode, hshift⟩ := active_prev hk hb (by decide) (by decide) (by decide)
  have hold := shifted_second _ (h.shape b) hshift
  obtain ⟨hstall, hfirst⟩ := h.first b hold
  have hbus := @busCyc_of_stall s i hstall
  refine ⟨fun hother => ?_, fun hp hzero => ?_⟩
  · -- the other bank is not opened right behind this one
    have hopen := opens_prev hk hother
    have hspec := @action_spec c s
    unfold opens at hopen
    cases ha : action c s <;> rw [ha] at hopen hspec <;> dsimp only at hopen hspec
    case activate =>
      have hbank := beq_iff_eq.1 hopen
      rcases hfirst with ⟨-, hrb⟩ | ⟨hvalid, -⟩
      · rw [hbank] at hrb
        exact absurd hrb (by cases b <;> decide)
      · rw [hspec.2.2.1] at hvalid
        exact absurd hvalid (by decide)
    case aheadActivate =>
      have hbank := beq_iff_eq.1 hopen
      rcases hfirst with ⟨hvalid, -⟩ | ⟨-, -, hfb, -⟩
      · rw [hspec.2.2.1] at hvalid
        exact absurd hvalid (by decide)
      · rw [hbank] at hfb
        exact absurd hfb (by cases b <;> decide)
    all_goals exact absurd hopen (by decide)
  · have hp' : s.rPending = true := (pending_prev hp).resolve_left (by rw [hbus]; decide)
    have hrb : rBank (next c s i) = rBank s := by
      rw [rBank, (addr_kept hbus).1]
      rfl
    rw [hrb]
    rcases hfirst with ⟨-, hbank⟩ | ⟨hvalid, hbank, -⟩
    · exact hbank
    · obtain ⟨hbooked, -⟩ := h.found hmode hvalid
      rw [hbank] at hbooked
      exact absurd hzero (booked_nonzero hk hmode hbooked)

theorem Ages.third_next (h : Ages s) (hk : Kept c s) (b : Bool)
    (hb : (next c s i).bankActive.get b = 0b11100) :
    (next c s i).bankActive.get (!b) ≠ 0b11000 ∧ ((next c s i).bankActive.get (!b) = 0b10000 →
      (next c s i).oWbStall = true ∧ rBank (next c s i) = b) := by
  obtain ⟨hmode, hshift⟩ := active_prev hk hb (by decide) (by decide) (by decide)
  have hold := shifted_third _ (h.shape b) hshift
  obtain ⟨hno, hsecond⟩ := h.second b hold
  refine ⟨fun hother => ?_, fun hother => ?_⟩
  · obtain ⟨-, hshift'⟩ := active_prev hk hother (by decide) (by decide) (by decide)
    exact hno (shifted_second _ (h.shape _) hshift')
  · have hopen := opens_prev hk hother
    obtain ⟨-, -, hp, hzero⟩ := opens_spec hopen
    obtain ⟨hr, hw⟩ := opens_serves hopen
    have hbus : busCyc s i = false := hk.busCyc_eq hp
    refine ⟨stall_next hk hp hr hw, ?_⟩
    rw [rBank, (addr_kept hbus).1]
    exact hsecond hp hzero

theorem Ages.fourth_next (h : Ages s) (hk : Kept c s) (b : Bool)
    (hb : (next c s i).bankActive.get b = 0b11110) :
    (next c s i).bankActive.get (!b) ≠ 0b11100 ∧ ((next c s i).bankActive.get (!b) = 0b11000 →
      rBank (next c s i) = b) := by
  obtain ⟨hmode, hshift⟩ := active_prev hk hb (by decide) (by decide) (by decide)
  have hold := shifted_fourth _ (h.shape b) hshift
  obtain ⟨hno, hthird⟩ := h.third b hold
  refine ⟨fun hother => ?_, fun hother => ?_⟩
  · obtain ⟨-, hshift'⟩ := active_prev hk hother (by decide) (by decide) (by decide)
    exact hno (shifted_third _ (h.shape _) hshift')
  · obtain ⟨-, hshift'⟩ := active_prev hk hother (by decide) (by decide) (by decide)
    obtain ⟨hstall, hbank⟩ := hthird (shifted_second _ (h.shape _) hshift')
    rw [rBank, (addr_kept (busCyc_of_stall hstall)).1]
    exact hbank

theorem Ages.shape_next (h : Ages s) (hk : Kept c s) (b : Bool) :
    Shape ((next c s i).bankActive.get b) := by
  cases hmode : s.maintenanceMode
  · rw [active_next hk hmode]
    split_ifs
    · decide
    · decide
    · exact shape_shifted _ (h.shape b)
  · have hzero : (next c s i).bankActive.get b = 0 := by
      simp [nextBankActive, action, hmode]
    exact .inl hzero

/-- What becomes of the row of a bank. -/
theorem row_next (b : Bool) : (next c s i).bankRow.get b = s.bankRow.get b ∨
    (opens c s b = true ∧ rBank s = b) ∨
    (s.rPending = true ∧ s.rBankValid = true ∧ fwdBank s = b ∧
      (next c s i).bankRow.get b = fwdRow s) := by
  have hspec := @action_spec c s
  have hset : ∀ (b' : Bool) (row : BitVec 11), b' ≠ b →
      (s.bankRow.set b' row).get b = s.bankRow.get b :=
    fun b' row hne => Banks.get_set_of_ne _ (Ne.symm hne) _
  rw [next_bankRow]
  unfold nextBankRow opens
  cases ha : action c s <;> rw [ha] at hspec <;> dsimp only at hspec ⊢
  case activate =>
    by_cases hb : rBank s = b
    · exact .inr (.inl ⟨beq_iff_eq.2 hb, hb⟩)
    · exact .inl (hset _ _ hb)
  case maintain | precharge | write | read | rest => exact .inl rfl
  all_goals
    by_cases hb : fwdBank s = b
    · refine .inr (.inr ⟨hspec.2.1, hspec.2.2.1, hb, ?_⟩)
      rw [← hb]
      exact Banks.get_set_self _ _ _
    · exact .inl (hset _ _ hb)

/-- The look-ahead stays in the row, or it goes to the other bank. -/
theorem ahead_row (a : BitVec 19) (h : bankOf (a + 12) = bankOf a) : rowOf (a + 12) = rowOf a := by
  unfold bankOf at h
  unfold rowOf
  rw [BitVec.getLsbD, BitVec.getLsbD, Nat.testBit_eq_decide_div_mod_eq,
    Nat.testBit_eq_decide_div_mod_eq, decide_eq_decide, BitVec.toNat_add] at h
  apply BitVec.eq_of_toNat_eq
  rw [BitVec.extractLsb'_toNat, BitVec.extractLsb'_toNat, BitVec.toNat_add,
    Nat.shiftRight_eq_div_pow, Nat.shiftRight_eq_div_pow]
  have hlt := a.isLt
  have h12 : (12 : BitVec 19).toNat = 12 := rfl
  rw [h12] at h ⊢
  omega

/-- A request that has just been accepted finds the memory at rest. -/
theorem unserved (hp : s.rPending = false) (b : Bool) :
    opens c s b = false ∧ (next c s i).bankRow.get b = s.bankRow.get b := by
  have hopen : opens c s b = false := by
    rw [Bool.eq_false_iff]
    intro hopen
    rw [(opens_spec hopen).2.2.1] at hp
    exact absurd hp (by decide)
  refine ⟨hopen, ?_⟩
  rcases @row_next c s i b with hrow | ⟨hopen', -⟩ | ⟨hp', -⟩
  · exact hrow
  · rw [hopen] at hopen'
    exact absurd hopen' (by decide)
  · rw [hp] at hp'
    exact absurd hp' (by decide)

/-- The bank in which a request has found its row is not closed under it. -/
theorem Ages.found_open (h : Ages s) (hk : Kept c s)
    (hshows : shows s s.rAddr = true) : shuts c s (rBank s) = false := by
  obtain ⟨hbooked, hrow⟩ := (shows_iff _).1 hshows
  rw [Bool.eq_false_iff]
  intro hshut
  obtain ⟨hmode, -⟩ := shuts_spec hk hshut
  have hspec := @action_spec c s
  unfold shuts at hshut
  cases ha : action c s <;> rw [ha] at hshut hspec <;> dsimp only at hshut hspec
  case precharge =>
    have hfresh := h.missed hmode hspec.2.2.1 hbooked hrow
    rw [hspec.2.2.2] at hfresh
    exact absurd hfresh (by decide)
  case aheadPrecharge =>
    obtain ⟨hready, -, hno⟩ := aheadPrecharge_guard hk ha
    rw [beq_iff_eq.1 hshut, hno] at hready
    exact absurd hready (by decide)
  all_goals exact absurd hshut (by decide)

theorem Ages.found_next (h : Ages s) (hk : Kept c s)
    (hend : s.maintenanceMode = true → ∀ b, s.bankActive.get b = 0)
    (hv : (next c s i).rBankValid = true) : booked (next c s i) (rBank (next c s i)) = true ∧
      (next c s i).bankRow.get (rBank (next c s i)) = rRow (next c s i) ∧
      (next c s i).bankActive.get (rBank (next c s i)) ≠ 0b10000 := by
  have hshows : shows s (next c s i).rAddr = true := by
    cases hbus : busCyc s i <;> simpa [hbus] using hv
  obtain ⟨hbooked, hrow⟩ := (shows_iff _).1 hshows
  have hmode : s.maintenanceMode = false := by
    rw [Bool.eq_false_iff]
    intro hmode
    rw [booked, hend hmode] at hbooked
    exact absurd hbooked (by decide)
  have hopen : opens c s (bankOf (next c s i).rAddr) = false := by
    rw [Bool.eq_false_iff]
    intro hopen
    rw [booked, (opens_spec hopen).2.2.2] at hbooked
    exact absurd hbooked (by decide)
  have hstays : shuts c s (bankOf (next c s i).rAddr) = false ∧
      (next c s i).bankRow.get (bankOf (next c s i).rAddr) = rowOf (next c s i).rAddr := by
    cases hp' : s.rPending
    · refine ⟨?_, (unserved hp' _).2.trans hrow⟩
      rw [Bool.eq_false_iff]
      intro hshut
      rw [(shuts_spec hk hshut).2.2.1] at hp'
      exact absurd hp' (by decide)
    · have haddr : (next c s i).rAddr = s.rAddr := (addr_kept (hk.busCyc_eq hp')).1
      rw [haddr] at hshows hopen hrow ⊢
      refine ⟨h.found_open hk hshows, ?_⟩
      rcases @row_next c s i (bankOf s.rAddr) with hsame | ⟨hopen', -⟩ | ⟨-, -, hbank, hset⟩
      · exact hsame.trans hrow
      · rw [hopen] at hopen'
        exact absurd hopen' (by decide)
      · rw [hset, fwdRow, h.fwdAddr]
        rw [fwdBank, h.fwdAddr] at hbank
        exact ahead_row _ hbank
  have hactive : (next c s i).bankActive.get (bankOf (next c s i).rAddr) =
      shifted (s.bankActive.get (bankOf (next c s i).rAddr)) := by
    rw [active_next hk hmode, hopen, hstays.1, if_neg (by decide), if_neg (by decide)]
  refine ⟨?_, hstays.2, ?_⟩
  · rw [booked, rBank, hactive, shifted_top]
    exact hbooked
  · rw [rBank, hactive]
    exact (by decide : ∀ a, shifted a ≠ 0b10000) _

theorem Ages.missed_next (h : Ages s) (hk : Kept c s)
    (hv : (next c s i).rBankValid = false)
    (hb : booked (next c s i) (rBank (next c s i)) = true)
    (hrow : (next c s i).bankRow.get (rBank (next c s i)) = rRow (next c s i)) :
    (next c s i).bankActive.get (rBank (next c s i)) = 0b10000 := by
  have hshows : shows s (next c s i).rAddr = false := by
    cases hbus : busCyc s i <;> simpa [hbus] using hv
  have hmode : s.maintenanceMode = false := by
    rw [Bool.eq_false_iff]
    intro hmode
    have hzero : (next c s i).bankActive.get (rBank (next c s i)) = 0 := by
      simp [nextBankActive, action, hmode]
    rw [booked, hzero] at hb
    exact absurd hb (by decide)
  unfold rBank rRow at *
  unfold booked at hb
  rw [active_next hk hmode] at hb ⊢
  split_ifs at hb ⊢ with hopen hshut
  · rfl
  · exact absurd hb (by decide)
  · exfalso
    rw [shifted_top] at hb
    have hno : s.bankRow.get (bankOf (next c s i).rAddr) ≠ rowOf (next c s i).rAddr := by
      intro hsame
      rw [(shows_iff _).2 ⟨hb, hsame⟩] at hshows
      exact absurd hshows (by decide)
    rcases @row_next c s i (bankOf (next c s i).rAddr) with hsame | ⟨hopen', -⟩ | ⟨hp', hv', -⟩
    · exact hno (hsame.symm.trans hrow)
    · exact hopen hopen'
    · have haddr : (next c s i).rAddr = s.rAddr := (addr_kept (hk.busCyc_eq hp')).1
      rw [haddr] at hno
      exact hno (h.found hmode hv').2.1

/-- **One clock.** -/
theorem Ages.next (h : Ages s) (hk : Kept c s)
    (hend : s.maintenanceMode = true → (Wbsdram.next c s i).maintenanceMode = false →
      ∀ b, s.bankActive.get b = 0) : Ages (Wbsdram.next c s i) where
  fwdAddr := by
    rw [next_fwdAddr, next_rAddr]
    split_ifs
    · rfl
    · exact h.fwdAddr
  shape := h.shape_next hk
  found hm := h.found_next hk fun hmode => hend hmode hm
  missed _ := h.missed_next hk
  first := h.first_next hk
  second := h.second_next hk
  third := h.third_next hk
  fourth := h.fourth_next hk

theorem ages_run {s : ℕ → Wbsdram} {i : ℕ → SdramIn} (h0 : AtPowerUp c (s 0))
    (hstep : ∀ n, s (n + 1) = Wbsdram.next c (s n) (i n)) : ∀ n, Ages (s n) := by
  have hseq := sequenced_run h0 hstep
  intro n
  induction n with
  | zero => exact ages_powerUp h0
  | succ n ih =>
    rw [hstep]
    refine ih.next (hseq n).kept fun hmode hend b => ?_
    rw [← hstep] at hend
    exact closed_at_end hseq h0 hstep hmode hend b

/-- The look-ahead closes a bank only behind the first clock at which it could, and so with address
    bit 10 low. -/
theorem Ages.ahead_closes (h : Ages s) (hk : Kept c s) (ha : action c s = .aheadPrecharge) :
    s.bankActive.get (fwdBank s) = 0b11111 := by
  have hspec := @action_spec c s
  rw [ha] at hspec
  dsimp only at hspec
  obtain ⟨hready, -, hno⟩ := aheadPrecharge_guard hk ha
  have hother : rBank s = !fwdBank s := by
    have hne : rBank s ≠ fwdBank s := by
      intro he
      rw [he, hready] at hno
      exact absurd hno (by decide)
    revert hne
    cases rBank s <;> cases fwdBank s <;> decide
  have hready' : s.bankActive.get (fwdBank s) = 0b11110 ∨
      s.bankActive.get (fwdBank s) = 0b11111 :=
    (by decide : ∀ a, Shape a → (a.extractLsb' 1 4 == 0b1111) = true →
      a = 0b11110 ∨ a = 0b11111) _ (h.shape _) hready
  rcases hready' with hfour | hfive
  · exfalso
    obtain ⟨hthird, hsecond⟩ := h.fourth _ hfour
    obtain ⟨hbooked, -, hfirst⟩ := h.found hspec.1 hspec.2.2.1
    rw [← hother] at hthird hsecond
    have hyoung : s.bankActive.get (rBank s) = 0b11000 :=
      (by decide : ∀ a, Shape a → a.getLsbD 4 = true → (a.extractLsb' 1 4 == 0b1111) = false →
        a ≠ 0b10000 → a ≠ 0b11100 → a = 0b11000) _ (h.shape _) hbooked hno hfirst hthird
    have hbank := hsecond hyoung
    rw [hother] at hbank
    exact absurd hbank (by cases fwdBank s <;> decide)
  · exact hfive

/-! ## Pins -/

end Wbsdram

namespace Pins

variable (p : Pins) (b : Bool)

def opens : Bool := p.activates && p.bank == b

/-- A PRECHARGE, of this bank or of all. -/
def closes : Bool := p.precharges && (p.closesAll || p.bank == b)

def accesses : Bool := (p.reads || p.writes) && p.bank == b

/-- A NOOP, or the memory is not selected. -/
def rests : Bool := p.csN || (p.rasN && p.casN && p.weN)

end Pins

namespace Wbsdram

theorem opens_of_pins (hk : Kept c s) {b : Bool}
    (h : (pins (next c s i)).opens b = true) : opens c s b = true := by
  rw [Pins.opens, Bool.and_eq_true, activates_iff, beq_iff_eq] at h
  obtain ⟨hcmd, hbank⟩ := h
  have haddr := @ramAddr_spec c s i hk
  have hspec := @cmd_spec c s i
  have hup := hk.upkeep
  rw [next_oCmd] at hcmd
  have hbank' : (nextRamAddr c s i).getLsbD 11 = b := hbank
  unfold opens
  cases ha : action c s <;> rw [ha] at haddr hspec <;> dsimp only at haddr hspec ⊢ <;>
    rw [hspec] at hcmd
  case activate =>
    rw [haddr, rowAddr_bank] at hbank'
    exact beq_iff_eq.2 hbank'
  case aheadActivate =>
    rw [haddr, rowAddr_bank] at hbank'
    exact beq_iff_eq.2 hbank'
  case maintain =>
    rw [hcmd] at hup
    exact absurd hup (by decide)
  case read => cases hcyc : i.iWbCyc <;> (rw [hcyc] at hcmd; exact absurd hcmd (by decide))
  case write => cases hcyc : i.iWbCyc <;> (rw [hcyc] at hcmd; exact absurd hcmd (by decide))
  all_goals exact absurd hcmd (by decide)

theorem closes_of_pins (hk : Kept c s) (hages : Ages s) {b : Bool}
    (h : (pins (next c s i)).closes b = true) :
    (s.maintenanceMode = true ∧ s.maintenanceCmd = cmdPrecharge) ∨ shuts c s b = true := by
  rw [Pins.closes, Bool.and_eq_true, precharges_iff, Bool.or_eq_true, beq_iff_eq] at h
  obtain ⟨hcmd, hbank⟩ := h
  have haddr := @ramAddr_spec c s i hk
  have hspec := @cmd_spec c s i
  have hact := @action_spec c s
  rw [next_oCmd] at hcmd
  have hbank' : (nextRamAddr c s i).getLsbD 10 = true ∨ (nextRamAddr c s i).getLsbD 11 = b := hbank
  unfold shuts
  cases ha : action c s <;> rw [ha] at haddr hspec hact <;> dsimp only at haddr hspec hact ⊢ <;>
    rw [hspec] at hcmd
  case maintain => exact .inl ⟨hact, hcmd⟩
  case precharge =>
    rw [haddr, rowAddr_bank, rowAddr_closes _ hact.2.2.2] at hbank'
    exact .inr (beq_iff_eq.2 (hbank'.resolve_left (by decide)))
  case aheadPrecharge =>
    rw [haddr, rowAddr_bank, rowAddr_closes _ (hages.ahead_closes hk ha)] at hbank'
    exact .inr (beq_iff_eq.2 (hbank'.resolve_left (by decide)))
  case read => cases hcyc : i.iWbCyc <;> (rw [hcyc] at hcmd; exact absurd hcmd (by decide))
  case write => cases hcyc : i.iWbCyc <;> (rw [hcyc] at hcmd; exact absurd hcmd (by decide))
  all_goals exact absurd hcmd (by decide)

theorem accesses_of_pins (hk : Kept c s) {b : Bool}
    (h : (pins (next c s i)).accesses b = true) : (action c s = .read ∨ action c s = .write) ∧
      ready s b = true := by
  rw [Pins.accesses, Bool.and_eq_true, Bool.or_eq_true, reads_iff, writes_iff, beq_iff_eq] at h
  obtain ⟨hcmd, hbank⟩ := h
  have haddr := @ramAddr_spec c s i hk
  have hspec := @cmd_spec c s i
  have hact := @action_spec c s
  have hup := hk.upkeep
  rw [next_oCmd] at hcmd
  have hbank' : (nextRamAddr c s i).getLsbD 11 = b := hbank
  cases ha : action c s <;> rw [ha] at haddr hspec hact <;> dsimp only at haddr hspec hact <;>
    rw [hspec] at hcmd
  case maintain =>
    rcases hcmd with hcmd | hcmd <;> (rw [hcmd] at hup; exact absurd hup (by decide))
  case read =>
    cases hcyc : i.iWbCyc
    · rw [hcyc] at hcmd
      exact absurd hcmd (by decide)
    · rw [haddr hcyc, accessAddr_bank] at hbank'
      rw [← hbank']
      exact ⟨.inl rfl, hact.2.2⟩
  case write =>
    cases hcyc : i.iWbCyc
    · rw [hcyc] at hcmd
      exact absurd hcmd (by decide)
    · rw [haddr hcyc, accessAddr_bank] at hbank'
      rw [← hbank']
      exact ⟨.inr rfl, hact.2.2⟩
  all_goals exact absurd hcmd (by decide)

theorem writes_of_pins (hk : Kept c s) (h : (pins (next c s i)).writes = true) :
    action c s = .write := by
  rw [writes_iff, next_oCmd] at h
  have hspec := @cmd_spec c s i
  have hup := hk.upkeep
  cases ha : action c s <;> rw [ha] at hspec <;> dsimp only at hspec <;> rw [hspec] at h
  case maintain =>
    rw [h] at hup
    exact absurd hup (by decide)
  case read => cases hcyc : i.iWbCyc <;> (rw [hcyc] at h; exact absurd h (by decide))
  all_goals exact absurd h (by decide)

theorem refreshes_of_pins (h : (pins (next c s i)).refreshes = true) :
    s.maintenanceMode = true ∧ s.maintenanceCmd = cmdRefresh := by
  rw [refreshes_iff, next_oCmd] at h
  have hspec := @cmd_spec c s i
  have hact := @action_spec c s
  cases ha : action c s <;> rw [ha] at hspec hact <;> dsimp only at hspec hact <;> rw [hspec] at h
  case maintain => exact ⟨hact, h⟩
  case read => cases hcyc : i.iWbCyc <;> (rw [hcyc] at h; exact absurd h (by decide))
  case write => cases hcyc : i.iWbCyc <;> (rw [hcyc] at h; exact absurd h (by decide))
  all_goals exact absurd h (by decide)

/-- In maintenance mode the sequencer's command goes to the memory. -/
theorem oCmd_next (hmode : s.maintenanceMode = true) : (next c s i).oCmd = s.maintenanceCmd := by
  simp [nextCmd, action, hmode]

theorem rests_of_noop (h : s.oCmd = cmdNoop) : (pins s).rests = true := by
  unfold Pins.rests pins
  rw [h]
  rfl

/-! ## Gaps -/

/-- The clocks of the default timing. -/
def ckRcd : ℕ := 4
def ckRc : ℕ := 6
def ckRas : ℕ := 4
def ckRp : ℕ := 2
def ckDpl : ℕ := 2

/-- The words of a burst: the last three bits of the mode register. -/
def burst : ℕ := 2 ^ (modeCommand.extractLsb' 0 3).toNat

/-- The gaps between the commands on the pins, with a refresh after `refresh` clocks at the latest
    once the memory is up. -/
structure KeepsGaps (refresh : ℕ) (up : ℕ → Prop) (p : ℕ → Pins) : Prop where
  closesOpens : ∀ b m n, m < n → (p m).closes b = true →
    (p n).opens b = true ∨ (p n).refreshes = true → m + ckRp ≤ n
  opensAccesses : ∀ b m n, m < n → (p m).opens b = true → (p n).accesses b = true → m + ckRcd ≤ n
  opensCloses : ∀ b m n, m < n → (p m).opens b = true → (p n).closes b = true → m + ckRas ≤ n
  writesCloses : ∀ b m n, m < n → (p m).writes = true → (p m).bank = b → (p n).closes b = true →
    m + (burst - 1) + ckDpl ≤ n
  refreshesRests : ∀ m n, m < n → (p m).refreshes = true → n < m + ckRc → (p n).rests = true
  refreshesAgain : ∀ m, up m → (p m).refreshes = true →
    ∃ n, m < n ∧ n ≤ m + refresh ∧ (p n).refreshes = true

section Gaps

variable {s : ℕ → Wbsdram} {i : ℕ → SdramIn}

/-- For three clocks behind its activation a bank is not open for long enough. -/
theorem young (hseq : ∀ n, Sequenced c (s n))
    (hstep : ∀ n, s (n + 1) = Wbsdram.next c (s n) (i n)) {n : ℕ} {b : Bool}
    (hopen : opens c (s n) b = true) : ready (s (n + 1)) b = false ∧
      ready (s (n + 2)) b = false ∧ ready (s (n + 3)) b = false := by
  obtain ⟨hmode, hstall, -⟩ := opens_spec hopen
  have hquiet := undisturbed hseq hstep hmode hstall
  have hone : (s (n + 1)).bankActive.get b = 0b10000 := by
    rw [hstep, active_next (hseq n).kept hmode, if_pos hopen]
  have hgrows : ∀ k ≤ 6, (s (n + k)).bankActive.get b ≠ 0 → ready (s (n + k)) b = false →
      (s (n + k + 1)).bankActive.get b = shifted ((s (n + k)).bankActive.get b) := by
    intro k hk hne hready
    rw [hstep, active_next (hseq _).kept (hquiet k hk), if_neg, if_neg]
    · intro hshut
      rw [(shuts_spec (hseq _).kept hshut).2.2.2] at hready
      exact absurd hready (by decide)
    · exact fun hopen' => hne (opens_spec hopen').2.2.2
  have hready1 : ready (s (n + 1)) b = false := by
    rw [ready, hone]
    decide
  have htwo : (s (n + 2)).bankActive.get b = 0b11000 := by
    rw [hgrows 1 (by decide) (by rw [hone]; decide) hready1, hone]
    decide
  have hready2 : ready (s (n + 2)) b = false := by
    rw [ready, htwo]
    decide
  have hthree : (s (n + 3)).bankActive.get b = 0b11100 := by
    rw [hgrows 2 (by decide) (by rw [htwo]; decide) hready2, htwo]
    decide
  refine ⟨hready1, hready2, ?_⟩
  rw [ready, hthree]
  decide

/-- Nothing stands on the pins at power up. -/
theorem after_powerUp (h0 : AtPowerUp c (s 0)) {n : ℕ} (h : (s n).oCmd ≠ cmdNoop) :
    ∃ k, n = k + 1 := by
  cases n with
  | zero => exact absurd h0.oCmd h
  | succ k => exact ⟨k, rfl⟩

/-- What the state machine closes may not be opened on the next clock, nor refreshed. -/
theorem closes_opens (h0 : AtPowerUp c (s 0)) (hseq : ∀ n, Sequenced c (s n))
    (hages : ∀ n, Ages (s n)) (hstep : ∀ n, s (n + 1) = Wbsdram.next c (s n) (i n)) {n : ℕ}
    {b : Bool} (hclose : (pins (s (n + 1))).closes b = true) :
    (pins (s (n + 2))).opens b = false ∧ (pins (s (n + 2))).refreshes = false := by
  have hkept := fun n => (hseq n).kept
  rw [hstep] at hclose
  rcases closes_of_pins (hkept n) (hages n) hclose with ⟨hmode, hcmd⟩ | hshut
  · -- the sequencer waits
    have hwait : (s (n + 1)).maintenanceMode = true ∧ (s (n + 1)).maintenanceCmd = cmdNoop := by
      cases n with
      | zero =>
        rw [h0.maintenanceCmd] at hcmd
        exact absurd hcmd (by decide)
      | succ n =>
        have hg : gives (s n) = cmdPrecharge := by
          rw [hstep] at hcmd
          exact hcmd
        obtain ⟨htakes, hgives⟩ := waits_behind_precharge hseq hstep hg
        rw [hstep]
        exact ⟨htakes, hgives⟩
    have hcmd' : (s (n + 2)).oCmd = cmdNoop := by
      rw [hstep, oCmd_next hwait.1, hwait.2]
    constructor
    · rw [Bool.eq_false_iff]
      intro hopen
      rw [Pins.opens, Bool.and_eq_true, activates_iff, hcmd'] at hopen
      exact absurd hopen.1 (by decide)
    · rw [Bool.eq_false_iff, ne_eq, refreshes_iff, hcmd']
      decide
  · obtain ⟨hmode, hstall, -, hready⟩ := shuts_spec (hkept n) hshut
    have hmode' := undisturbed hseq hstep hmode hstall 1 (by decide)
    constructor
    · rw [Bool.eq_false_iff]
      intro hopen
      rw [hstep] at hopen
      have hzero := (opens_spec (opens_of_pins (hkept _) hopen)).2.2.2
      rw [hstep] at hzero
      exact booked_nonzero (hkept n) hmode (booked_of_ready hready) hzero
    · rw [Bool.eq_false_iff]
      intro href
      rw [hstep] at href
      rw [(refreshes_of_pins href).1] at hmode'
      exact absurd hmode' (by decide)

/-- An activation: nothing that takes a bank open for long enough comes for three clocks. -/
theorem opens_gap (h0 : AtPowerUp c (s 0)) (hseq : ∀ n, Sequenced c (s n))
    (hages : ∀ n, Ages (s n)) (hstep : ∀ n, s (n + 1) = Wbsdram.next c (s n) (i n)) {n : ℕ}
    {b : Bool} (hopen : (pins (s n)).opens b = true) {k : ℕ} (h1 : 1 ≤ k) (h3 : k ≤ 3) :
    (pins (s (n + k))).accesses b = false ∧ (pins (s (n + k))).closes b = false := by
  have hkept := fun n => (hseq n).kept
  have hcmd : (s n).oCmd ≠ cmdNoop := by
    rw [Pins.opens, Bool.and_eq_true, activates_iff] at hopen
    rw [hopen.1]
    decide
  obtain ⟨m, rfl⟩ := after_powerUp h0 hcmd
  rw [hstep] at hopen
  have hopens := opens_of_pins (hkept m) hopen
  obtain ⟨hmode, hstall, -⟩ := opens_spec hopens
  have hyoung : ready (s (m + k)) b = false := by
    obtain ⟨hone, htwo, hthree⟩ := young hseq hstep hopens
    rcases (by omega : k = 1 ∨ k = 2 ∨ k = 3) with rfl | rfl | rfl
    · exact hone
    · exact htwo
    · exact hthree
  have hmode' := undisturbed hseq hstep hmode hstall k (by omega)
  rw [show m + 1 + k = m + k + 1 by omega, hstep]
  constructor
  · rw [Bool.eq_false_iff]
    intro haccess
    rw [(accesses_of_pins (hkept _) haccess).2] at hyoung
    exact absurd hyoung (by decide)
  · rw [Bool.eq_false_iff]
    intro hclose
    rcases closes_of_pins (hkept _) (hages _) hclose with ⟨hon, -⟩ | hshut
    · rw [hmode'] at hon
      exact absurd hon (by decide)
    · rw [(shuts_spec (hkept _) hshut).2.2.2] at hyoung
      exact absurd hyoung (by decide)

/-- Two clocks behind a write the look-ahead closes nothing: the request that has come since finds its
    row in a bank that was opened before the write, and so for the look-ahead of the write itself. -/
theorem write_ahead (hseq : ∀ n, Sequenced c (s n)) (hages : ∀ n, Ages (s n))
    (hstep : ∀ n, s (n + 1) = Wbsdram.next c (s n) (i n)) {n : ℕ}
    (hw : action c (s n) = .write) (hidle : (s (n + 1)).rPending = false)
    (hmode1 : (s (n + 1)).maintenanceMode = false) :
    action c (s (n + 2)) ≠ .aheadPrecharge := by
  have hkept := fun n => (hseq n).kept
  intro ha
  have hspec := @action_spec c (s (n + 2))
  rw [ha] at hspec
  dsimp only at hspec
  have hwrite := @action_spec c (s n)
  rw [hw] at hwrite
  dsimp only at hwrite
  obtain ⟨-, -, hno⟩ := aheadPrecharge_guard (hkept _) ha
  obtain ⟨hbooked, -, hfirst⟩ := (hages (n + 2)).found hspec.1 hspec.2.2.1
  obtain ⟨b, hb⟩ : ∃ b, rBank (s (n + 2)) = b := ⟨_, rfl⟩
  rw [hb] at hno hbooked hfirst
  have hold : ∀ m, opens c (s m) b = false → shuts c (s m) b = false →
      (s m).maintenanceMode = false →
      (s (m + 1)).bankActive.get b = shifted ((s m).bankActive.get b) := by
    intro m hopen hshut hmode
    rw [hstep, active_next (hkept m) hmode, hopen, hshut, if_neg (by decide), if_neg (by decide)]
  have hlast := hold (n + 1) (unserved (c := c) (i := i (n + 1)) hidle b).1 (by
    rw [Bool.eq_false_iff]
    intro hshut
    rw [(shuts_spec (hkept _) hshut).2.2.1] at hidle
    exact absurd hidle (by decide)) hmode1
  have hprev := hold n (by unfold opens; rw [hw]) (by unfold shuts; rw [hw]) hwrite.1
  -- the bank was opened one clock before the write
  have hfresh : (s n).bankActive.get b = 0b10000 :=
    (by decide : ∀ a, Shape a → (shifted (shifted a)).getLsbD 4 = true →
      ((shifted (shifted a)).extractLsb' 1 4 == 0b1111) = false → a = 0b10000) _
      ((hages n).shape b) (by rw [← hprev, ← hlast]; exact hbooked)
      (by rw [← hprev, ← hlast]; exact hno)
  obtain ⟨hstall, hbank⟩ := (hages n).first b hfresh
  rcases hbank with ⟨hvalid, -⟩ | ⟨-, -, hfwd, hrow⟩
  · rw [hwrite.2.1] at hvalid
    exact absurd hvalid (by decide)
  · have hfa : (s (n + 1)).fwdAddr = (s n).fwdAddr := by
      rw [hstep]
      exact (addr_kept (busCyc_of_stall hstall)).2
    have hrow' : (s (n + 1)).bankRow = (s n).bankRow := by
      rw [hstep, next_bankRow]
      unfold nextBankRow
      rw [hw]
    have hbank' : bankOf (s (n + 1)).fwdAddr = b := by
      rw [hfa]
      exact hfwd
    have hshows : shows (s (n + 1)) (s (n + 1)).fwdAddr = true := by
      rw [shows_iff, hbank', hrow', hfa]
      refine ⟨?_, hrow⟩
      rw [booked, hprev, hfresh]
      decide
    have hvalid : (s (n + 2)).fwdBankValid = true := by
      rw [hstep]
      exact hshows
    rw [hspec.2.2.2.2] at hvalid
    exact absurd hvalid (by decide)

/-- A write: no bank is closed for two clocks. -/
theorem writes_gap (h0 : AtPowerUp c (s 0)) (hseq : ∀ n, Sequenced c (s n))
    (hages : ∀ n, Ages (s n)) (hstep : ∀ n, s (n + 1) = Wbsdram.next c (s n) (i n)) {n : ℕ}
    (hwrites : (pins (s n)).writes = true) {k : ℕ} (h1 : 1 ≤ k) (h2 : k ≤ 2) (b : Bool) :
    (pins (s (n + k))).closes b = false := by
  have hkept := fun n => (hseq n).kept
  have hcmd : (s n).oCmd ≠ cmdNoop := by
    rw [writes_iff] at hwrites
    rw [hwrites]
    decide
  obtain ⟨m, rfl⟩ := after_powerUp h0 hcmd
  rw [hstep] at hwrites
  have hw := writes_of_pins (hkept m) hwrites
  have hact := @action_spec c (s m)
  rw [hw] at hact
  dsimp only at hact
  have hstall : (s m).refreshStall = false := running (by rw [hw]; decide) (by rw [hw]; decide)
  have hquiet := undisturbed hseq hstep hact.1 hstall
  have hidle : (s (m + 1)).rPending = false := by
    rw [hstep]
    exact (hkept m).nextPending_of_sends (.inr hw)
  rw [Bool.eq_false_iff]
  intro hclose
  rw [show m + 1 + k = m + k + 1 by omega, hstep] at hclose
  rcases closes_of_pins (hkept _) (hages _) hclose with ⟨hon, -⟩ | hshut
  · rw [hquiet k (by omega)] at hon
    exact absurd hon (by decide)
  · rcases (by omega : k = 1 ∨ k = 2) with rfl | rfl
    · rw [(shuts_spec (hkept _) hshut).2.2.1] at hidle
      exact absurd hidle (by decide)
    · have htil : (s (m + 1)).clocksTilIdle = 2 := by
        rw [hstep, next_clocksTilIdle]
        unfold nextClocksTilIdle
        rw [hw]
      have htil' : (s (m + 2)).clocksTilIdle = 1 := by
        have hspec := @action_spec c (s (m + 1))
        rw [hstep, next_clocksTilIdle]
        unfold nextClocksTilIdle
        rw [htil]
        cases ha : action c (s (m + 1)) <;> rw [ha] at hspec <;> dsimp only at hspec ⊢
        case maintain =>
          rw [hquiet 1 (by decide)] at hspec
          exact absurd hspec (by decide)
        case read | write =>
          rw [pending_of_sends (c := c) (by rw [ha]; simp)] at hidle
          exact absurd hidle (by decide)
        all_goals rfl
      unfold shuts at hshut
      cases ha : action c (s (m + 2)) <;> rw [ha] at hshut
      case precharge =>
        rw [precharge_guard ha] at htil'
        exact absurd htil' (by decide)
      case aheadPrecharge =>
        exact write_ahead hseq hages hstep hw hidle (hquiet 1 (by decide)) ha
      all_goals exact absurd hshut Bool.false_ne_true

/-- A refresh on the pins has been given by a sequencer two clocks before. -/
theorem refresh_given (h0 : AtPowerUp c (s 0))
    (hstep : ∀ n, s (n + 1) = Wbsdram.next c (s n) (i n)) {n : ℕ}
    (href : (pins (s n)).refreshes = true) : ∃ m, n = m + 2 ∧ gives (s m) = cmdRefresh := by
  have hcmd : (s n).oCmd ≠ cmdNoop := by
    rw [refreshes_iff] at href
    rw [href]
    decide
  obtain ⟨k, rfl⟩ := after_powerUp h0 hcmd
  rw [hstep] at href
  have hgiven := (refreshes_of_pins href).2
  cases k with
  | zero =>
    rw [h0.maintenanceCmd] at hgiven
    exact absurd hgiven (by decide)
  | succ m =>
    rw [hstep] at hgiven
    exact ⟨m, rfl, hgiven⟩

/-- A refresh: the memory rests for five clocks. -/
theorem refreshes_gap (h0 : AtPowerUp c (s 0)) (hseq : ∀ n, Sequenced c (s n))
    (hstep : ∀ n, s (n + 1) = Wbsdram.next c (s n) (i n)) {n : ℕ}
    (href : (pins (s n)).refreshes = true) {k : ℕ} (h1 : 1 ≤ k) (h5 : k ≤ 5) :
    (pins (s (n + k))).rests = true := by
  obtain ⟨m, rfl, hg⟩ := refresh_given h0 hstep href
  obtain ⟨htakes, hgives⟩ := waits_behind_refresh hseq hstep hg h1 h5
  have hmode : (s (m + k + 1)).maintenanceMode = true := by
    rw [hstep]
    exact htakes
  have hcmd : (s (m + k + 1)).maintenanceCmd = cmdNoop := by
    rw [hstep]
    exact hgives
  refine rests_of_noop ?_
  rw [show m + 2 + k = m + k + 1 + 1 by omega, hstep, oCmd_next hmode, hcmd]

/-- Once the start up has ended, a refresh follows a refresh. -/
theorem refreshes_again (h0 : AtPowerUp c (s 0)) (hseq : ∀ n, Sequenced c (s n))
    (hstep : ∀ n, s (n + 1) = Wbsdram.next c (s n) (i n)) {n : ℕ}
    (href : (pins (s n)).refreshes = true) (hup : (s n).resetActive = false) :
    (pins (s (n + (c.ckRemaining + 25)))).refreshes = true := by
  obtain ⟨m, rfl, hg⟩ := refresh_given h0 hstep href
  have hoff : (s m).resetActive = false := by
    rcases (hseq m).gives_refreshes hg with ⟨-, hphase⟩ | ⟨hoff, -⟩
    · have hlater := resetPhase_add hseq hstep (by omega : 0 < resetPhase (s m)) 2 (by omega)
      have hon : (s (m + 2)).resetActive = true := by
        rw [(hseq (m + 2)).resetActive_iff]
        omega
      rw [hup] at hon
      exact absurd hon (by decide)
    · exact hoff
  obtain ⟨htakes, hgives⟩ := refresh_returns hseq hstep hg hoff
  have hmode : (s (m + (c.ckRemaining + 25) + 1)).maintenanceMode = true := by
    rw [hstep]
    exact htakes
  have hcmd : (s (m + (c.ckRemaining + 25) + 1)).maintenanceCmd = cmdRefresh := by
    rw [hstep]
    exact hgives
  rw [refreshes_iff, show m + 2 + (c.ckRemaining + 25) = m + (c.ckRemaining + 25) + 1 + 1 by omega,
    hstep, oCmd_next hmode, hcmd]

/-- **The gaps.**  Whatever the bus does, and with the look-ahead or without it, the commands on the
    pins keep the distances of the default timing.  A turn of the refresh table takes 24 clocks of its
    own, and `CK_REMAINING` is what is left of `CK_REFRESH`. -/
theorem commands_spaced (h0 : AtPowerUp c (s 0))
    (hstep : ∀ n, s (n + 1) = Wbsdram.next c (s n) (i n)) (hc : 24 ≤ c.ckRefresh) :
    KeepsGaps (c.ckRefresh + 1) (fun n => (s n).resetActive = false) (fun n => pins (s n)) := by
  have hseq := sequenced_run h0 hstep
  have hages := ages_run h0 hstep
  refine ⟨?_, ?_, ?_, ?_, ?_, ?_⟩
  · intro b m n hmn hclose hthen
    have hcmd : (s m).oCmd ≠ cmdNoop := by
      rw [Pins.closes, Bool.and_eq_true, precharges_iff] at hclose
      rw [hclose.1]
      decide
    obtain ⟨k, rfl⟩ := after_powerUp h0 hcmd
    obtain ⟨hopen, href⟩ := closes_opens h0 hseq hages hstep hclose
    have hne : n ≠ k + 2 := by
      rintro rfl
      rcases hthen with hthen | hthen
      · rw [hopen] at hthen
        exact absurd hthen (by decide)
      · rw [href] at hthen
        exact absurd hthen (by decide)
    unfold ckRp
    omega
  · intro b m n hmn hopen haccess
    unfold ckRcd
    by_contra hlt
    have hno := (opens_gap h0 hseq hages hstep hopen (k := n - m) (by omega) (by omega)).1
    rw [show m + (n - m) = n by omega, haccess] at hno
    exact absurd hno (by decide)
  · intro b m n hmn hopen hclose
    unfold ckRas
    by_contra hlt
    have hno := (opens_gap h0 hseq hages hstep hopen (k := n - m) (by omega) (by omega)).2
    rw [show m + (n - m) = n by omega, hclose] at hno
    exact absurd hno (by decide)
  · intro b m n hmn hwrites _ hclose
    have hburst : burst = 2 := by decide
    unfold ckDpl
    rw [hburst]
    by_contra hlt
    have hno := writes_gap h0 hseq hages hstep hwrites (k := n - m) (by omega) (by omega) b
    rw [show m + (n - m) = n by omega, hclose] at hno
    exact absurd hno (by decide)
  · intro m n hmn href hlt
    unfold ckRc at hlt
    have hrests := refreshes_gap h0 hseq hstep href (k := n - m) (by omega) (by omega)
    rwa [show m + (n - m) = n by omega] at hrests
  · intro m hup href
    have hperiod : c.ckRemaining + 25 = c.ckRefresh + 1 := by
      unfold SdramCfg.ckRemaining
      omega
    exact ⟨m + (c.ckRemaining + 25), by omega, by omega, refreshes_again h0 hseq hstep href hup⟩

end Gaps

theorem commands_spaced_fifty :
    KeepsGaps 390 (fun n => (started ⟨50000000, true⟩ crossing n).resetActive = false)
      (fun n => pins (started ⟨50000000, true⟩ crossing n)) := by
  exact commands_spaced (c := ⟨50000000, true⟩) (s := started ⟨50000000, true⟩ crossing)
    (i := late ⟨50000000, true⟩ crossing) (atPowerUp_poweringUp _) (fun _ => rfl) (by decide)

end Wbsdram

end ZipStormMX.Sdram
