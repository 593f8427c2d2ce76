/-
  Each request is served once, and with its own data.

  The clocks on which requests are accepted, commands stand on the pins and acknowledgements are given
  are three lists (`Clocked.clocks`), and the statement is that the `k`-th of each belong together.
  `Books` keeps them together: what has been accepted is what has been sent out and the request that
  waits, and the clock on which each acknowledgement is due is one of those that have passed or one in
  the shift register, in order.  `Spaced` is why the order holds: a write may set its bit low in the
  register only when no read has a bit above it.

  That every request is sent out is read off the refresh.  It closes both banks and then stays away
  for longer than it takes to open a bank, so a request that is still waiting when it ends goes out
  five clocks later, and a refresh always comes.
-/
import ZipStormMX.Sdram.OpenRows

namespace ZipStormMX.Sdram

open Clocked

/-- The clocks from a read command to its acknowledgement, and one more. -/
def rdly : ℕ := 6

structure Request where
  we : Bool
  addr : BitVec 19
  data : BitVec 32
  sel : BitVec 4

def SdramIn.request (i : SdramIn) : Request :=
  { we := i.iWbWe, addr := i.iWbAddr, data := i.iWbData, sel := i.iWbSel }

namespace Wbsdram

variable (s : ℕ → Wbsdram) (i : ℕ → SdramIn)

/-- The clocks before `n` on which a request is accepted. -/
def acceptClocks : ℕ → List ℕ := clocks fun t => busCyc (s t) (i t)

/-- The clocks before `n` on which a READ or a WRITE stands on the pins. -/
def commandClocks : ℕ → List ℕ := clocks fun t => (pins (s t)).reads || (pins (s t)).writes

/-- The clocks before `n` on which a request is acknowledged. -/
def ackClocks : ℕ → List ℕ := clocks fun t => oWbAck (s t)

/-- A request is carried out by the command at clock `cmd` and the acknowledgement at clock `ack`. -/
structure Carried (r : Request) (cmd ack : ℕ) : Prop where
  direction : if r.we then (pins (s cmd)).writes = true else (pins (s cmd)).reads = true
  bank : (pins (s cmd)).bank = bankOf r.addr
  col : (pins (s cmd)).col = colOf r.addr
  write : r.we = true →
    ((s cmd).oRamData = r.data.extractLsb' 16 16 ∧ (s (cmd + 1)).oRamData = r.data.extractLsb' 0 16) ∧
    ((s cmd).oRamDqm = ~~~(r.sel.extractLsb' 2 2) ∧
      (s (cmd + 1)).oRamDqm = ~~~(r.sel.extractLsb' 0 2)) ∧
    ((s cmd).oRamDmod = true ∧ (s (cmd + 1)).oRamDmod = true)
  read : r.we = false → ack = cmd + (rdly - 1) ∧
    (s ack).oWbData = (i (ack - 2)).iRamData ++ (i (ack - 1)).iRamData

/-! ## The shift register -/

section Step

variable {c : SdramCfg} {s : Wbsdram} {i : SdramIn}

/-- The clocks until the acknowledgements that are in the register. -/
def slots (b : BitVec 6) : List ℕ := (List.range 6).filter fun k => b.getLsbD k

theorem slots_shift (b : BitVec 6) :
    slots b = (if b.getLsbD 0 then [0] else []) ++ (slots (b >>> 1)).map (· + 1) := by
  revert b
  decide +kernel

theorem slots_read (b : BitVec 6) : slots (b >>> 1 ||| 0b100000) = slots (b >>> 1) ++ [5] := by
  revert b
  decide +kernel

theorem slots_write (b : BitVec 6) (h : ∀ k : Fin 6, 2 ≤ k.val → b.getLsbD k = false) :
    slots (b >>> 1 ||| 0b000010) = slots (b >>> 1) ++ [1] := by
  revert h
  revert b
  decide +kernel

/-- No acknowledgement is further away than the memory is busy. -/
structure Spaced (s : Wbsdram) : Prop where
  busy : s.clocksTilIdle ≤ 5
  near : ∀ k : Fin 6, s.rBarrellAck.getLsbD k = true → k.val ≤ s.clocksTilIdle.toNat

theorem near_shift (b : BitVec 6) (t : BitVec 3)
    (h : ∀ k : Fin 6, b.getLsbD k = true → k.val ≤ t.toNat) :
    ∀ k : Fin 6, (b >>> 1).getLsbD k = true → k.val ≤ (if t != 0 then t - 1 else t).toNat := by
  revert h
  revert t
  revert b
  decide +kernel

theorem near_write (b : BitVec 6) (h : ∀ k : Fin 6, 2 ≤ k.val → b.getLsbD k = false) :
    ∀ k : Fin 6, (b >>> 1 ||| 0b000010).getLsbD k = true → k.val ≤ 2 := by
  revert h
  revert b
  decide +kernel

theorem write_spec (h : action c s = .write) : s.rWe = true ∧ s.clocksTilIdle ≤ 1 := by
  unfold action at h
  split_ifs at h
  simp_all

theorem read_spec (h : action c s = .read) : s.rWe = false := by
  unfold action at h
  split_ifs at h
  simp_all

/-- A write finds no read on its way. -/
theorem Spaced.clear_of_write (h : Spaced s) (ha : action c s = .write) (k : Fin 6)
    (hk : 2 ≤ k.val) : s.rBarrellAck.getLsbD k = false := by
  rw [Bool.eq_false_iff]
  intro hbit
  have hnear := h.near k hbit
  have hidle : s.clocksTilIdle.toNat ≤ 1 := (write_spec ha).2
  omega

theorem Spaced.next (h : Spaced s) : Spaced (Wbsdram.next c s i) where
  busy := by
    have hbusy := h.busy
    have hless : ∀ t : BitVec 3, t ≤ 5 → (if t != 0 then t - 1 else t) ≤ 5 := by
      decide
    rw [next_clocksTilIdle]
    unfold nextClocksTilIdle
    cases action c s
    case maintain => exact hbusy
    case write => exact (by decide : (2 : BitVec 3) ≤ 5)
    case read => exact (by decide : (5 : BitVec 3) ≤ 5)
    all_goals exact hless _ hbusy
  near := by
    intro k hbit
    rw [next_rBarrellAck] at hbit
    rw [next_clocksTilIdle]
    unfold nextBarrellAck at hbit
    unfold nextClocksTilIdle
    cases hcyc : i.iWbCyc
    · simp [hcyc] at hbit
    · rw [hcyc, if_neg (by decide)] at hbit
      cases ha : action c s <;> rw [ha] at hbit
      case maintain =>
        have hshift := near_shift _ _ h.near k hbit
        have hle : (if s.clocksTilIdle != 0 then s.clocksTilIdle - 1 else s.clocksTilIdle).toNat ≤
            s.clocksTilIdle.toNat := by
          generalize s.clocksTilIdle = t
          revert t
          decide
        exact Nat.le_trans hshift hle
      case write => exact near_write _ (fun k hk => h.clear_of_write ha k hk) k hbit
      case read => exact Nat.le_of_lt_succ k.isLt
      all_goals exact near_shift _ _ h.near k hbit

/-! ## Books -/

/-- The request in the registers. -/
def current (s : Wbsdram) : Request :=
  { we := s.rWe, addr := s.rAddr, data := s.rData, sel := s.rSel }

def waiting (s : Wbsdram) : List Request := if s.rPending then [current s] else []

/-- The clock on which the acknowledgement of what goes out on clock `t` is due. -/
def due (s : Wbsdram) (t : ℕ) : ℕ := if s.rWe then t + 2 else t + rdly

/-- The acknowledgements to come, as clocks. -/
def dues (s : Wbsdram) (n : ℕ) : List ℕ := (slots s.rBarrellAck).map (n + ·)

/-- What is accepted goes out or waits. -/
theorem waiting_next (hk : Kept c s) (hcyc : s.rPending = true → i.iWbCyc = true) :
    waiting s ++ (if busCyc s i then [i.request] else []) =
      (if issued s i then [current s] else []) ++ waiting (next c s i) := by
  unfold waiting
  rw [next_rPending]
  unfold nextPending
  cases hp : s.rPending
  · have hissued : issued s i = false := by
      simp [issued, hp]
    cases hbus : busCyc s i
    · simp [hissued]
    · simp [hissued, current, hbus, SdramIn.request]
  · have hbus := @Kept.busCyc_eq c s i hk hp
    cases hissued : issued s i
    · simp [hbus, hcyc hp, current]
    · simp [hbus]

/-- What goes out is acknowledged when it is due. -/
theorem dues_next (hk : Kept c s) (hs : Spaced s) (n : ℕ)
    (hcyc : s.rPending = true ∨ s.rBarrellAck ≠ 0 → i.iWbCyc = true) :
    dues s n ++ (if issued s i then [due s n] else []) =
      (if oWbAck s then [n] else []) ++ dues (next c s i) (n + 1) := by
  have hshift : dues s n = (if oWbAck s then [n] else []) ++
      (slots (s.rBarrellAck >>> 1)).map (n + 1 + ·) := by
    unfold dues oWbAck
    rw [slots_shift, List.map_append, List.map_map]
    congr 1
    · cases s.rBarrellAck.getLsbD 0 <;> rfl
    · refine List.map_congr_left fun k _ => ?_
      simp only [Function.comp]
      omega
  rw [hshift, List.append_assoc]
  congr 1
  unfold dues
  rw [next_rBarrellAck]
  unfold nextBarrellAck
  cases hc : i.iWbCyc
  · have hnone : s.rPending = false ∧ s.rBarrellAck = 0 := by
      constructor
      · cases hp : s.rPending
        · rfl
        · simp [hcyc (.inl hp)] at hc
      · by_contra hne
        simp [hcyc (.inr hne)] at hc
    have hissued : issued s i = false := by
      simp [issued, hc]
    have hzero : slots (0#6 >>> 1) = [] ∧ slots 0#6 = [] := by
      decide
    rw [hissued, hnone.2, if_neg (by decide), if_pos (by decide)]
    exact congrArg (List.map (n + 1 + ·)) (hzero.1.trans hzero.2.symm)
  · have hissued := @Kept.issued_iff c s i hk hc
    rw [if_neg (by decide : ¬(!true) = true)]
    cases ha : action c s <;> rw [ha] at hissued
    case write =>
      rw [hissued.2 (.inr rfl), if_pos rfl, slots_write _ fun k hk => hs.clear_of_write ha k hk,
        List.map_append]
      simp [due, (write_spec ha).1]
    case read =>
      rw [hissued.2 (.inl rfl), if_pos rfl, slots_read, List.map_append]
      simp [due, read_spec ha, rdly]
    all_goals
      have hno : issued s i = false := by
        rw [Bool.eq_false_iff, ne_eq, hissued]
        simp
      rw [hno, if_neg (by decide), List.append_nil]

/-- A data command stands on the pins on the clock after it is issued. -/
theorem command_next (hk : Kept c s) :
    ((pins (next c s i)).reads || (pins (next c s i)).writes) = issued s i := by
  rw [Bool.eq_iff_iff, Bool.or_eq_true, reads_iff, writes_iff]
  constructor
  · intro h
    obtain ⟨ha, hcyc⟩ := sends_of_access hk h
    exact (hk.issued_iff hcyc).2 ha
  · intro h
    have hcyc : i.iWbCyc = true := by
      cases hcyc : i.iWbCyc
      · simp [issued, hcyc] at h
      · rfl
    have hcmd := @cmd_spec c s i
    rcases (hk.issued_iff hcyc).1 h with ha | ha
    · rw [ha] at hcmd
      left
      rw [next_oCmd, hcmd, hcyc, if_pos rfl]
    · rw [ha] at hcmd
      right
      rw [next_oCmd, hcmd, hcyc, if_pos rfl]

end Step

/-! ## Runs -/

section Run

variable {c : SdramCfg} {s : ℕ → Wbsdram} {i : ℕ → SdramIn}

/-- The clocks before `n` on which a request goes out. -/
def issueClocks (s : ℕ → Wbsdram) (i : ℕ → SdramIn) : ℕ → List ℕ :=
  clocks fun t => issued (s t) (i t)

/-- What has been accepted, sent out and acknowledged before clock `n`. -/
structure Books (s : ℕ → Wbsdram) (i : ℕ → SdramIn) (n : ℕ) : Prop where
  requests : (acceptClocks s i n).map (fun t => (i t).request) =
    (issueClocks s i n).map (fun t => current (s t)) ++ waiting (s n)
  acks : (issueClocks s i n).map (fun t => due (s t) t) = (ackClocks s n).map id ++ dues (s n) n

theorem Books.outstanding (h : Books s i n) (ho : (s n).rPending = true ∨ (s n).rBarrellAck ≠ 0) :
    (ackClocks s n).length < (acceptClocks s i n).length := by
  have hreq := congrArg List.length h.requests
  have hack := congrArg List.length h.acks
  simp only [List.length_append, List.length_map] at hreq hack
  rcases ho with hp | hb
  · have hone : (waiting (s n)).length = 1 := by
      simp [waiting, hp]
    omega
  · have hsome : 0 < (dues (s n) n).length := by
      have hne : ∀ b : BitVec 6, b ≠ 0 → 0 < (slots b).length := by
        decide +kernel
      unfold dues
      rw [List.length_map]
      exact hne _ hb
    omega

theorem books (h0 : AtPowerUp c (s 0)) (hstep : ∀ n, s (n + 1) = next c (s n) (i n))
    (hcyc : ∀ n, (ackClocks s n).length < (acceptClocks s i n).length → (i n).iWbCyc = true) :
    ∀ n, Spaced (s n) ∧ Books s i n := by
  have hkept := kept_run h0 hstep
  intro n
  induction n with
  | zero =>
    refine ⟨⟨?_, ?_⟩, ?_, ?_⟩
    · rw [h0.clocksTilIdle]
      decide
    · rw [h0.rBarrellAck]
      intro k hk
      simp at hk
    · simp [acceptClocks, issueClocks, clocks, waiting, h0.rPending]
    · have hzero : slots 0#6 = [] := by
        decide
      simp [issueClocks, ackClocks, clocks, dues, h0.rBarrellAck, hzero]
  | succ n ih =>
    obtain ⟨hs, hb⟩ := ih
    have hon : (s n).rPending = true ∨ (s n).rBarrellAck ≠ 0 → (i n).iWbCyc = true := fun ho =>
      hcyc n (hb.outstanding ho)
    refine ⟨by rw [hstep]; exact hs.next, ?_, ?_⟩
    · refine @clocks_conserve _ _ _ _ _ (fun t => waiting (s t)) n hb.requests ?_
      rw [hstep]
      exact waiting_next (hkept n) fun hp => hon (.inl hp)
    · refine @clocks_conserve _ _ _ _ _ (fun t => dues (s t) t) n hb.acks ?_
      rw [hstep]
      exact dues_next (hkept n) hs n hon

theorem stall_of_sends {s : Wbsdram} (h : action c s = .read ∨ action c s = .write) :
    s.refreshStall = false := by
  cases hstall : s.refreshStall
  · rfl
  · unfold action at h
    rw [hstall] at h
    rcases h with ha | ha <;> (split_ifs at ha; simp_all)

/-- No upkeep begins on the clock after a request has gone out. -/
theorem mode_of_sends {s : Wbsdram} {i : SdramIn} (hk : Kept c s)
    (h : action c s = .read ∨ action c s = .write) : (next c s i).maintenanceMode = false := by
  have hspec := @action_spec c s
  have hmode : s.maintenanceMode = false := by
    rcases h with ha | ha <;> (rw [ha] at hspec; exact hspec.1)
  have hreset : s.resetActive = false := by
    cases hr : s.resetActive
    · rfl
    · simp [(hk.starting hr).1] at hmode
  have hrefresh : s.refreshActive = false := by
    cases hr : s.refreshActive
    · rfl
    · have hshown : s.refreshController.oCmd =
          (Genuctrl.stage (refreshProgram c.ckRemaining) s.refreshController.rAddr).2 :=
        congrArg Prod.snd hk.refreshStaged.stage
      have hstall := stall_of_sends h
      rw [refreshStall, hshown, (refresh_upkeep _ _).2 (by rw [← hshown]; exact hr)] at hstall
      simp at hstall
  simp [hreset, hrefresh]

/-- What goes out is carried out. -/
theorem carried (hstep : ∀ n, s (n + 1) = next c (s n) (i n)) (hkept : ∀ n, Kept c (s n)) {t : ℕ}
    (ht : issued (s t) (i t) = true) :
    Carried s i (current (s t)) (t + 1) (due (s t) t) := by
  have hp := pending_of_issued ht
  have hcyc : (i t).iWbCyc = true := by
    cases hcyc : (i t).iWbCyc
    · simp [issued, hcyc] at ht
    · rfl
  have hsends := ((hkept t).issued_iff hcyc).1 ht
  have hspec := @action_spec c (s t)
  have haddr := @ramAddr_spec c (s t) (i t) (hkept t)
  have hcmd := @cmd_spec c (s t) (i t)
  have haddr' : (s (t + 1)).oRamAddr =
      BitVec.ofBool (rBank (s t)) ++ (0#3 ++ rCol (s t)) := by
    rw [hstep]
    rcases hsends with ha | ha <;> (rw [ha] at haddr; exact haddr hcyc)
  have hdmod : (s t).nxtDmod = false := by
    cases hd : (s t).nxtDmod
    · rfl
    · simp [(hkept t).driving hd] at hp
  refine ⟨?_, ?_, ?_, ?_, ?_⟩
  · show if (s t).rWe = true then _ else _
    rcases hsends with ha | ha
    · rw [read_spec ha, if_neg (by decide), reads_iff, hstep]
      rw [ha] at hcmd
      exact hcmd.trans (if_pos hcyc)
    · rw [(write_spec ha).1, if_pos rfl, writes_iff, hstep]
      rw [ha] at hcmd
      exact hcmd.trans (if_pos hcyc)
  · show (s (t + 1)).oRamAddr.getLsbD 11 = _
    rw [haddr', accessAddr_bank]
    rfl
  · show (s (t + 1)).oRamAddr.extractLsb' 0 8 = _
    rw [haddr', accessAddr_col]
    rfl
  · intro hwe
    have hwe' : (s t).rWe = true := hwe
    have ha : action c (s t) = .write := by
      refine hsends.resolve_left fun ha => ?_
      simp [read_spec ha] at hwe'
    rw [ha] at hspec hcmd
    have hbus := @Kept.busCyc_eq c (s t) (i t) (hkept t) hp
    have hsent : (s t).oCmd ≠ cmdWrite := fun hw => by
      simp [(hkept t).sent (.inr hw)] at hp
    have hcmd' : (s (t + 1)).oCmd = cmdWrite := by
      rw [hstep]
      exact hcmd.trans (if_pos hcyc)
    have hmode : (s (t + 1)).maintenanceMode = false := by
      rw [hstep]
      exact mode_of_sends (hkept t) (.inr ha)
    have hbooked : ((s t).bankActive.get (rBank (s t))).getLsbD 4 = true :=
      booked_of_ready hspec.2.2
    refine ⟨⟨?_, ?_⟩, ⟨?_, ?_⟩, ?_, ?_⟩
    · rw [hstep]
      simp [hdmod, ht, hwe', current]
    · rw [hstep (t + 1), hstep t]
      simp [ht, hwe', hbus, current]
    · rw [hstep, next_oRamDqm]
      unfold nextDqm
      have hidle : (s t).clocksTilIdle ≤ 1 := (write_spec ha).2
      rw [hspec.1, hwe', hspec.2.1, hbooked, decide_eq_true hidle, if_neg (by decide),
        if_neg (by simpa using hsent), if_neg (by decide), if_pos (by decide)]
      rfl
    · rw [hstep (t + 1), next_oRamDqm]
      unfold nextDqm
      rw [hmode, hcmd', hstep]
      simp [current]
    · rw [hstep]
      simp [ht, hwe']
    · rw [hstep (t + 1), next_oRamDmod, hstep t]
      simp [ht, hwe']
  · intro hwe
    have hwe' : (s t).rWe = false := hwe
    have hdue : due (s t) t = t + 6 := by
      simp [due, hwe', rdly]
    rw [hdue]
    refine ⟨rfl, ?_⟩
    show (s (t + 5 + 1)).oWbData = (i (t + 4)).iRamData ++ (i (t + 5)).iRamData
    rw [hstep, next_oWbData]
    congr 1
    rw [hstep, next_oWbData]
    exact BitVec.extractLsb'_append_eq_right

/-! ### Progress -/

/-- Behind the refresh the memory is left alone for six clocks at least. -/
theorem refresh_over (remaining : ℕ) (j : Fin 6) :
    (Genuctrl.stage (refreshProgram remaining) (Fin.ofNat 16 (12 + j)).val).2 =
      ⟨false, false, cmdNoop⟩ ∧
    Genuctrl.clocks (Genuctrl.stage (refreshProgram remaining) (Fin.ofNat 16 (11 + j)).val).1 = 0 := by
  fin_cases j <;> exact ⟨rfl, rfl⟩

/-- A request waits while its bank is being opened. -/
structure Opening (s : Wbsdram) (active : BitVec 5) (valid : Bool) (busy : ℕ) : Prop where
  mode : s.maintenanceMode = false
  stall : s.refreshStall = false
  pending : s.rPending = true
  bank : s.bankActive.get (rBank s) = active
  found : s.rBankValid = valid
  row : active.getLsbD 4 = true → s.bankRow.get (rBank s) = rRow s
  busy : s.clocksTilIdle.toNat ≤ busy

section Opening

variable {s : Wbsdram} {i : SdramIn} {active : BitVec 5} {valid : Bool} {busy : ℕ}

/-- The address stays while the request waits, and the row it finds is the one that is booked. -/
theorem Opening.stays (h : Opening s active valid busy) (hk : Kept c s) :
    (next c s i).rAddr = s.rAddr ∧
      (next c s i).rBankValid = (active.getLsbD 4) := by
  have hbus := @Kept.busCyc_eq c s i hk h.pending
  refine ⟨by simp [hbus], ?_⟩
  have hshows : shows s s.rAddr = active.getLsbD 4 := by
    have hactive : s.bankActive.get (bankOf s.rAddr) = active := h.bank
    unfold shows
    rw [hactive]
    cases htop : active.getLsbD 4
    · rfl
    · have hrow : s.bankRow.get (bankOf s.rAddr) = rowOf s.rAddr := h.row htop
      simp [hrow]
  rw [next_rBankValid, hbus, ← hshows]
  rfl

theorem less_toNat (t : BitVec 3) : (if t != 0 then t - 1 else t).toNat = t.toNat - 1 := by
  revert t
  decide

/-- The bank is closed, and is opened. -/
theorem Opening.activate (h : Opening s 0 false busy) (hk : Kept c s)
    (hmode : (next c s i).maintenanceMode = false) (hstall : (next c s i).refreshStall = false)
    (hp : (next c s i).rPending = true) :
    Opening (next c s i) 0b10000 false (busy - 1) := by
  have hact : action c s = .activate := by
    unfold action
    rw [h.mode, h.stall, h.pending, h.found, h.bank]
    rfl
  obtain ⟨haddr, hvalid⟩ := @Opening.stays c s i _ _ _ h hk
  have hbank : rBank (next c s i) = rBank s := congrArg bankOf haddr
  refine ⟨hmode, hstall, hp, ?_, hvalid, fun _ => ?_, ?_⟩
  · rw [hbank, next_bankActive]
    unfold nextBankActive
    rw [hact]
    dsimp only
    rw [Banks.get_set_self, Banks.get_map, h.bank]
    decide
  · rw [hbank, next_bankRow]
    unfold nextBankRow
    rw [hact]
    exact (Banks.get_set_self _ _ _).trans (congrArg rowOf haddr).symm
  · rw [next_clocksTilIdle]
    unfold nextClocksTilIdle
    rw [hact, less_toNat]
    exact Nat.sub_le_sub_right h.busy 1

/-- The bank is not open for long enough yet. -/
theorem Opening.wait (h : Opening s active valid busy) (hc : c.optFwdAddress = false)
    (hk : Kept c s) (hready : active.extractLsb' 1 4 ≠ 0b1111) (hzero : valid = true ∨ active ≠ 0)
    (hmode : (next c s i).maintenanceMode = false) (hstall : (next c s i).refreshStall = false)
    (hp : (next c s i).rPending = true) :
    Opening (next c s i) (shifted active) (active.getLsbD 4) (busy - 1) := by
  have hno : ready s (rBank s) = false := by
    unfold ready
    rw [h.bank]
    simpa using hready
  have hact : action c s = .rest := by
    have hfull : active ≠ 31#5 := by
      rintro rfl
      exact hready (by decide)
    unfold action
    rw [h.mode, h.stall, h.pending, h.found, h.bank, hno, hc]
    cases valid
    · have hopen : active ≠ 0#5 := hzero.resolve_left (by decide)
      simp [hopen, hfull]
    · simp
  obtain ⟨haddr, hvalid⟩ := @Opening.stays c s i _ _ _ h hk
  have hbank : rBank (next c s i) = rBank s := congrArg bankOf haddr
  refine ⟨hmode, hstall, hp, ?_, hvalid, fun htop => ?_, ?_⟩
  · rw [hbank, next_bankActive]
    unfold nextBankActive
    rw [hact]
    dsimp only
    rw [Banks.get_map, h.bank]
  · rw [hbank, next_bankRow]
    unfold nextBankRow
    rw [hact]
    rw [shifted_top] at htop
    exact (h.row htop).trans (congrArg rowOf haddr).symm
  · rw [next_clocksTilIdle]
    unfold nextClocksTilIdle
    rw [hact, less_toNat]
    exact Nat.sub_le_sub_right h.busy 1

/-- The bank is open. -/
theorem Opening.sends (h : Opening s active true 1) (hk : Kept c s)
    (hready : active.extractLsb' 1 4 = 0b1111) :
    action c s = .read ∨ action c s = .write := by
  have hyes : ready s (rBank s) = true := by
    unfold ready
    rw [h.bank, hready]
    rfl
  have hidle : s.clocksTilIdle ≤ 1 := h.busy
  have hidle' : s.clocksTilIdle < 5 := by
    have := h.busy
    show s.clocksTilIdle.toNat < 5
    omega
  unfold action Wbsdram.pending
  rw [h.mode, h.stall, h.pending, h.found, hyes, hk.waiting h.pending, decide_eq_true hidle,
    decide_eq_true hidle']
  cases s.rWe
  · exact .inl rfl
  · exact .inr rfl

end Opening

/-- The refresh ends, and the memory is left alone. -/
theorem refresh_ends (hstep : ∀ n, s (n + 1) = next c (s n) (i n)) (hkept : ∀ n, Kept c (s n))
    {n : ℕ} (hreset : ∀ m, n ≤ m → (s m).resetActive = false) :
    ∃ m, n ≤ m ∧ (s m).refreshController.rAddr = 11 ∧
      ∀ j : Fin 6, (s (m + 1 + j)).refreshController.oCmd = ⟨false, false, cmdNoop⟩ := by
  have hu : ∀ k, (s (k + 1)).refreshController =
      Genuctrl.next (refreshProgram c.ckRemaining) (s k).refreshController (s k).resetActive := by
    intro k
    rw [hstep]
    rfl
  obtain ⟨m, hm, hms, hma⟩ := @Genuctrl.addr_comes _ _ (fun k => (s k).refreshController)
    (fun k => (s k).resetActive) n rfl hu hreset (fun k => (hkept k).refreshStaged)
    (27 - (s n).refreshController.rAddr.val)
  have heleven : (s m).refreshController.rAddr = 11 := by
    rw [hma]
    apply Fin.ext
    simp only [Fin.val_add, Fin.ofNat]
    omega
  have hsteps : ∀ j, j ≤ 6 → (s (m + j)).refreshController.rStep = true ∧
      (s (m + j)).refreshController.rAddr = Fin.ofNat 16 (11 + j) := by
    intro j
    induction j with
    | zero => exact fun _ => ⟨hms, heleven⟩
    | succ j ih =>
      intro hj
      obtain ⟨hstep', haddr⟩ := ih (by omega)
      have hword : (s (m + j)).refreshController.rCmd = (Genuctrl.stage
          (refreshProgram c.ckRemaining) (s (m + j)).refreshController.rAddr).1 :=
        congrArg Prod.fst (hkept (m + j)).refreshStaged.stage
      have hover := (refresh_over c.ckRemaining ⟨j, by omega⟩).2
      show (s (m + j + 1)).refreshController.rStep = true ∧
        (s (m + j + 1)).refreshController.rAddr = _
      rw [hu, hreset (m + j) (by omega)]
      refine ⟨?_, ?_⟩
      · rw [Genuctrl.next_rStep, hstep', hword, haddr, hover]
        rfl
      · have hnext : Fin.ofNat 16 (11 + j) + 1 = Fin.ofNat 16 (11 + (j + 1)) := by
          apply Fin.ext
          simp only [Fin.val_add, Fin.ofNat]
          omega
        rw [Genuctrl.next_rAddr, hstep', haddr]
        simpa [refreshProgram] using hnext
  refine ⟨m, hm, heleven, fun j => ?_⟩
  have hshown : (s (m + 1 + j)).refreshController.oCmd = (Genuctrl.stage
      (refreshProgram c.ckRemaining) (s (m + 1 + j)).refreshController.rAddr).2 :=
    congrArg Prod.snd (hkept (m + 1 + j)).refreshStaged.stage
  have haddr := (hsteps (1 + j) (by omega)).2
  rw [hshown, Nat.add_assoc, haddr, ← Nat.add_assoc]
  exact (refresh_over c.ckRemaining j).1

/-- **Progress.**  A request goes out. -/
theorem goes_out (hc : c.optFwdAddress = false) (hstep : ∀ n, s (n + 1) = next c (s n) (i n))
    (hkept : ∀ n, Kept c (s n)) (hspaced : ∀ n, Spaced (s n))
    (hcyc : ∀ n, (s n).rPending = true → (i n).iWbCyc = true) {n : ℕ}
    (hp : (s n).rPending = true) : ∃ m, n ≤ m ∧ issued (s m) (i m) = true := by
  by_contra hnever
  push Not at hnever
  have hno : ∀ m, n ≤ m → issued (s m) (i m) = false := fun m hm => by
    simpa using hnever m hm
  have hwaits : ∀ m, n ≤ m → (s m).rPending = true := by
    intro m hm
    induction m, hm using Nat.le_induction with
    | base => exact hp
    | succ m hm ih =>
      have hbus := @Kept.busCyc_eq c (s m) (i m) (hkept m) ih
      rw [hstep, next_rPending, nextPending, hbus, hno m hm, hcyc m ih, ih]
      rfl
  have hreset : ∀ m, n ≤ m → (s m).resetActive = false := by
    intro m hm
    cases hr : (s m).resetActive
    · rfl
    · have hidle := ((hkept m).idle hr).2
      rw [hwaits m hm] at hidle
      simp at hidle
  obtain ⟨m, hm, haddr, hover⟩ := refresh_ends hstep hkept hreset
  have hmode : ∀ j : Fin 5, (s (m + 1 + j + 1)).maintenanceMode = false := by
    intro j
    have hcmd := hover j.castSucc
    rw [Fin.val_castSucc] at hcmd
    rw [hstep, next_maintenanceMode, hreset _ (by omega), refreshActive, hcmd]
    rfl
  have hstall : ∀ j : Fin 6, (s (m + 1 + j)).refreshStall = false := by
    intro j
    rw [refreshStall, hover]
  -- the last clock of the refresh finds both banks closed
  have hlast : (s (m + 1)).maintenanceMode = true ∧ (s (m + 1)).maintenanceCmd = cmdNoop := by
    have hshown : (s m).refreshController.oCmd = (Genuctrl.stage
        (refreshProgram c.ckRemaining) (s m).refreshController.rAddr).2 :=
      congrArg Prod.snd (hkept m).refreshStaged.stage
    have hend : (s m).refreshController.oCmd = ⟨true, true, cmdNoop⟩ := by
      rw [hshown, haddr]
      rfl
    rw [hstep]
    constructor
    · simp [refreshActive, hend]
    · simp [refreshActive, hend, hreset m hm]
  have hclosed := (hkept (m + 1)).closed hlast.1 (by rw [hlast.2]; decide)
  have hfirst : Opening (s (m + 2)) 0 false 5 := by
    have hbus := @Kept.busCyc_eq c (s (m + 1)) (i (m + 1)) (hkept _) (hwaits _ (by omega))
    have hact : action c (s (m + 1)) = .maintain := by
      unfold action
      rw [hlast.1]
      rfl
    refine ⟨hmode 0, hstall 1, hwaits _ (by omega), ?_, ?_, fun h => ?_, (hspaced (m + 2)).busy⟩
    · rw [hstep (m + 1), next_bankActive]
      unfold nextBankActive
      rw [hact]
      exact Banks.get_both _ _
    · rw [hstep (m + 1), next_rBankValid, hbus, if_neg (by decide)]
      unfold shows
      rw [hclosed]
      simp
    · simp at h
  have hsecond : Opening (s (m + 3)) 0b10000 false 4 := by
    have hopening := @Opening.activate c (s (m + 2)) (i (m + 2)) 5 hfirst (hkept _)
    rw [← hstep] at hopening
    exact hopening (hmode 1) (hstall 2) (hwaits _ (by omega))
  have hthird : Opening (s (m + 4)) 0b11000 true 3 := by
    have hopening := @Opening.wait c (s (m + 3)) (i (m + 3)) _ _ _ hsecond hc (hkept _)
      (by decide) (.inr (by decide))
    rw [← hstep] at hopening
    exact hopening (hmode 2) (hstall 3) (hwaits _ (by omega))
  have hfourth : Opening (s (m + 5)) 0b11100 true 2 := by
    have hopening := @Opening.wait c (s (m + 4)) (i (m + 4)) _ _ _ hthird hc (hkept _)
      (by decide) (.inr (by decide))
    rw [← hstep] at hopening
    exact hopening (hmode 3) (hstall 4) (hwaits _ (by omega))
  have hfifth : Opening (s (m + 6)) 0b11110 true 1 := by
    have hopening := @Opening.wait c (s (m + 5)) (i (m + 5)) _ _ _ hfourth hc (hkept _)
      (by decide) (.inr (by decide))
    rw [← hstep] at hopening
    exact hopening (hmode 4) (hstall 5) (hwaits _ (by omega))
  have hsends := hfifth.sends (hkept _) (by decide)
  have hon := hcyc _ (hwaits (m + 6) (by omega))
  have hissued := ((hkept (m + 6)).issued_iff hon).2 hsends
  rw [hno (m + 6) (by omega)] at hissued
  simp at hissued

/-! ### Each request, once -/

/-- What has gone out stands on the pins one clock later. -/
theorem commandClocks_succ (h0 : AtPowerUp c (s 0)) (hstep : ∀ n, s (n + 1) = next c (s n) (i n))
    (n : ℕ) : commandClocks s (n + 1) = (issueClocks s i n).map (· + 1) := by
  refine clocks_shift ?_ (fun n => ?_) n
  · have hnoop : (s 0).oCmd = cmdNoop := h0.oCmd
    have hr : (pins (s 0)).reads = false := by
      rw [Bool.eq_false_iff, ne_eq, reads_iff, hnoop]
      decide
    have hw : (pins (s 0)).writes = false := by
      rw [Bool.eq_false_iff, ne_eq, writes_iff, hnoop]
      decide
    rw [hr, hw]
    rfl
  · have hkept := kept_run h0 hstep n
    rw [hstep]
    exact command_next hkept

/-- What goes out is not acknowledged before it stands on the pins. -/
theorem acks_le_commands (hb : ∀ n, Books s i n)
    (hcmd : ∀ n, commandClocks s (n + 1) = (issueClocks s i n).map (· + 1)) :
    ∀ n, (ackClocks s n).length ≤ (commandClocks s n).length := by
  intro n
  cases n with
  | zero => exact Nat.le_refl 0
  | succ n =>
    rw [hcmd, List.length_map]
    have hacks := (hb (n + 1)).acks
    have hsplit : issueClocks s i (n + 1) =
        issueClocks s i n ++ if issued (s n) (i n) then [n] else [] := clocks_succ _ n
    have hlen := congrArg List.length hacks
    rw [List.map_id, List.length_append, List.length_map, hsplit, List.length_append] at hlen
    cases hissued : issued (s n) (i n)
    · rw [hissued] at hlen
      simp only [Bool.false_eq_true, if_false, List.length_nil] at hlen
      omega
    · have hsome : 0 < (dues (s (n + 1)) (n + 1)).length := by
        -- otherwise what goes out on clock `n` would have been acknowledged by then
        by_contra hnone
        have hnil : dues (s (n + 1)) (n + 1) = [] := List.length_eq_zero_iff.1 (by omega)
        rw [hnil, List.append_nil, List.map_id, hsplit, hissued, if_pos rfl] at hacks
        have hmem : due (s n) n ∈ ackClocks s (n + 1) := by
          rw [← hacks]
          simp
        have hpast := (mem_clocks.1 hmem).1
        unfold due rdly at hpast
        split at hpast <;> omega
      rw [hissued] at hlen
      simp only [if_true, List.length_cons, List.length_nil] at hlen
      omega

theorem commands_le_accepts (hb : ∀ n, Books s i n)
    (hcmd : ∀ n, commandClocks s (n + 1) = (issueClocks s i n).map (· + 1)) :
    ∀ n, (commandClocks s n).length ≤ (acceptClocks s i n).length := by
  intro n
  cases n with
  | zero => exact Nat.le_refl 0
  | succ n =>
    rw [hcmd, List.length_map]
    have hreq := congrArg List.length (hb (n + 1)).requests
    have hmono := (clocks_mono (fun t => issued (s t) (i t)) (Nat.le_add_right n 1)).length_le
    rw [List.length_map, List.length_append, List.length_map] at hreq
    unfold issueClocks at hreq ⊢
    omega

/-- What is accepted `k`-th goes out `k`-th. -/
theorem goes_out_in_turn (hb : ∀ n, Books s i n)
    (hout : ∀ n, (s n).rPending = true → ∃ m, n ≤ m ∧ issued (s m) (i m) = true) {n k t : ℕ}
    (hk : (acceptClocks s i n)[k]? = some t) :
    ∃ m u, (issueClocks s i m)[k]? = some u ∧ (i t).request = current (s u) := by
  have hlt : k < (acceptClocks s i n).length := (List.getElem?_eq_some_iff.1 hk).1
  have hreach : ∃ m, n ≤ m ∧ k < (issueClocks s i m).length := by
    have hreq := congrArg List.length (hb n).requests
    rw [List.length_map, List.length_append, List.length_map] at hreq
    by_cases hissued : k < (issueClocks s i n).length
    · exact ⟨n, Nat.le_refl n, hissued⟩
    · -- it is the one that waits
      have hp : (s n).rPending = true := by
        by_contra hp
        rw [waiting, if_neg hp, List.length_nil] at hreq
        omega
      rw [waiting, if_pos hp, List.length_singleton] at hreq
      obtain ⟨m, hm, hgoes⟩ := hout n hp
      refine ⟨m + 1, by omega, ?_⟩
      have hmono := (clocks_mono (fun t => issued (s t) (i t)) hm).length_le
      unfold issueClocks at hreq ⊢
      rw [clocks_succ, hgoes, if_pos rfl, List.length_append, List.length_singleton]
      omega
  obtain ⟨m, hm, hkm⟩ := hreach
  refine ⟨m, (issueClocks s i m)[k], List.getElem?_eq_getElem hkm, ?_⟩
  have hreq := congrArg (fun l => l[k]?) (hb m).requests
  have hacc : (acceptClocks s i m)[k]? = some t := clocks_get_mono hm hk
  rw [List.getElem?_map, hacc, List.getElem?_append_left (by simpa using hkm), List.getElem?_map,
    List.getElem?_eq_getElem hkm] at hreq
  exact Option.some.inj hreq

/-- Nothing goes out before it is accepted. -/
theorem accepted_before (hb : ∀ n, Books s i n) {n m k t u : ℕ}
    (hk : (acceptClocks s i n)[k]? = some t) (hu : (issueClocks s i m)[k]? = some u) : t ≤ u := by
  have hreq := congrArg List.length (hb (u + 1)).requests
  have hissued : issued (s u) (i u) = true := (mem_clocks.1 (List.mem_of_getElem? hu)).2
  have hlen : (clocks (fun t => issued (s t) (i t)) u).length = k := clocks_length_of_get hu
  have hlt : k < (acceptClocks s i (u + 1)).length := by
    rw [List.length_map, List.length_append, List.length_map] at hreq
    unfold issueClocks at hreq
    rw [clocks_succ, hissued, if_pos rfl, List.length_append, hlen, List.length_singleton] at hreq
    omega
  have hat : (acceptClocks s i (u + 1))[k]? = some (acceptClocks s i (u + 1))[k] :=
    List.getElem?_eq_getElem hlt
  have hlate := clocks_get_mono (Nat.le_max_left n (u + 1)) hk
  have hearly := clocks_get_mono (Nat.le_max_right n (u + 1)) hat
  have heq : t = (acceptClocks s i (u + 1))[k] := Option.some.inj (hlate.symm.trans hearly)
  have hpast := (mem_clocks.1 (List.mem_of_getElem? hat)).1
  omega

/-- What goes out `k`-th is acknowledged `k`-th. -/
theorem acknowledged_in_turn (hb : ∀ n, Books s i n) {m k u : ℕ}
    (hk : (issueClocks s i m)[k]? = some u) :
    (ackClocks s (m + rdly))[k]? = some (due (s u) u) := by
  have hu : u < m := (mem_clocks.1 (List.mem_of_getElem? hk)).1
  have hacks := congrArg (fun l => l[k]?) (hb (m + rdly)).acks
  have hlater : (issueClocks s i (m + rdly))[k]? = some u := clocks_get_mono (by omega) hk
  rw [List.getElem?_map, hlater, List.map_id] at hacks
  have hpast : due (s u) u < m + rdly := by
    unfold due rdly
    split <;> omega
  by_cases hin : k < (ackClocks s (m + rdly)).length
  · rw [List.getElem?_append_left hin] at hacks
    exact hacks.symm
  · -- what is still in the register is due later
    rw [List.getElem?_append_right (by omega)] at hacks
    have hmem := List.mem_of_getElem? hacks.symm
    unfold dues at hmem
    obtain ⟨j, -, hj⟩ := List.mem_map.1 hmem
    dsimp only at hj
    omega

/-- Each request that is accepted is sent out once and acknowledged once, in turn, and carried out
    with its own data. -/
theorem completes_once (hc : c.optFwdAddress = false) (h0 : AtPowerUp c (s 0))
    (hstep : ∀ n, s (n + 1) = next c (s n) (i n))
    (hcyc : ∀ n, (ackClocks s n).length < (acceptClocks s i n).length → (i n).iWbCyc = true) :
    (∀ n, (ackClocks s n).length ≤ (commandClocks s n).length ∧
      (commandClocks s n).length ≤ (acceptClocks s i n).length) ∧
    ∀ n k t : ℕ, (acceptClocks s i n)[k]? = some t →
      ∃ m cmd ack : ℕ, (commandClocks s m)[k]? = some cmd ∧
        (ackClocks s m)[k]? = some ack ∧ t < cmd ∧ cmd < ack ∧ Carried s i (i t).request cmd ack := by
  have hkept := kept_run h0 hstep
  have hbooks := books h0 hstep hcyc
  have hb : ∀ n, Books s i n := fun n => (hbooks n).2
  have hcmd := commandClocks_succ (i := i) h0 hstep
  have hout : ∀ n, (s n).rPending = true → ∃ m, n ≤ m ∧ issued (s m) (i m) = true := fun n hp =>
    goes_out hc hstep hkept (fun n => (hbooks n).1)
      (fun n hp => hcyc n ((hb n).outstanding (.inl hp))) hp
  refine ⟨fun n => ⟨acks_le_commands hb hcmd n, commands_le_accepts hb hcmd n⟩, ?_⟩
  intro n k t hk
  obtain ⟨m, u, hu, hreq⟩ := goes_out_in_turn hb hout hk
  have hissued : issued (s u) (i u) = true := (mem_clocks.1 (List.mem_of_getElem? hu)).2
  refine ⟨m + rdly, u + 1, due (s u) u, ?_, acknowledged_in_turn hb hu, ?_, ?_, ?_⟩
  · show (commandClocks s (m + 5 + 1))[k]? = _
    have hlater : (issueClocks s i (m + 5))[k]? = some u := clocks_get_mono (by omega) hu
    rw [hcmd, List.getElem?_map, hlater]
    rfl
  · exact Nat.lt_succ_of_le (accepted_before hb hk hu)
  · unfold due rdly
    split <;> omega
  · rw [hreq]
    exact carried hstep hkept hissued

/-- The controller with a master that asks for word 512 all the time. -/
def asked : ℕ → Wbsdram :=
  Clocked.run (next ⟨50000000, false⟩) (poweringUp ⟨50000000, false⟩
    (SdramCfg.startupIdle ⟨50000000, false⟩)) fun _ => readOf 512

theorem completes_asked :
    (∀ n, (ackClocks asked n).length ≤ (commandClocks asked n).length ∧
      (commandClocks asked n).length ≤ (acceptClocks asked (fun _ => readOf 512) n).length) ∧
    ∀ n k t : ℕ, (acceptClocks asked (fun _ => readOf 512) n)[k]? = some t →
      ∃ m cmd ack : ℕ, (commandClocks asked m)[k]? = some cmd ∧
        (ackClocks asked m)[k]? = some ack ∧ t < cmd ∧ cmd < ack ∧
        Carried asked (fun _ => readOf 512) (readOf 512).request cmd ack :=
  completes_once rfl (atPowerUp_poweringUp _) (fun _ => rfl) fun _ _ => rfl

end Run

end Wbsdram

end ZipStormMX.Sdram
