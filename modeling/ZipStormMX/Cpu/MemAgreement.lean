/-
  `memops` and `pipemem`, on one access.

  `Agree` says what both have to do with one access from the idle state: raise an error for a
  misaligned one and leave the bus alone, else put the word address, the byte selects and the data on
  the bus for as long as they strobe, and bring back the addressed bytes.  The lanes are those of a big
  endian memory (`firstByte`, `width`), which both case tables are compared with.

  They do agree, but for one default: with alignment errors on, `pipemem` takes every access for a
  misaligned one.  (And under a lock `memops` does not strobe a second time on the bus it holds.)
-/
import Mathlib.Tactic.FinCases
import ZipStormMX.Clocked
import ZipStormMX.Cpu.Memops
import ZipStormMX.Cpu.Pipemem

namespace ZipStormMX.Cpu

/-! ## Lanes -/

/-- The bytes of an access: a word, a halfword, or a byte. -/
def width (op : BitVec 3) : ℕ :=
  if op.extractLsb' 1 2 = 0b01#2 then 4 else if op.extractLsb' 1 2 = 0b10#2 then 2 else 1

/-- The first of them, in its word. -/
def firstByte (op : BitVec 3) (addr : BitVec 32) : ℕ := addr.toNat % 4 / width op * width op

/-- The distance of the last of them from the low end of the word, in bits. -/
def laneShift (op : BitVec 3) (addr : BitVec 32) : ℕ := 8 * (4 - firstByte op addr - width op)

/-- The low bytes that an access of this width moves. -/
def lowBytes (op : BitVec 3) (d : BitVec 32) : BitVec 32 := (d.extractLsb' 0 (8 * width op)).setWidth 32

/-- The addressed bytes of a word of the memory. -/
def addressed (op : BitVec 3) (addr : BitVec 32) (d : BitVec 32) : BitVec 32 :=
  (d.extractLsb' (laneShift op addr) (8 * width op)).setWidth 32

/-- The bits of the lanes that are selected. -/
def laneMask (sel : BitVec 4) : BitVec 32 :=
  (BitVec.ofBool (sel.getLsbD 3)).signExtend 8 ++ (BitVec.ofBool (sel.getLsbD 2)).signExtend 8 ++
    (BitVec.ofBool (sel.getLsbD 1)).signExtend 8 ++ (BitVec.ofBool (sel.getLsbD 0)).signExtend 8

/-- A word of the memory after a store. -/
def stored (old data : BitVec 32) (sel : BitVec 4) : BitVec 32 :=
  (data &&& laneMask sel) ||| (old &&& ~~~laneMask sel)

/-- A word off a multiple of four, or a halfword at an odd address. -/
def Misaligned (op : BitVec 3) (addr : BitVec 32) : Prop := addr.toNat % width op ≠ 0

instance (op : BitVec 3) (addr : BitVec 32) : Decidable (Misaligned op addr) :=
  inferInstanceAs (Decidable (_ ≠ _))

section Lanes

variable (op : BitVec 3) (addr d old : BitVec 32)

theorem addr_low : (addr.extractLsb' 0 2).toNat = addr.toNat % 4 := by
  rw [BitVec.extractLsb'_toNat, Nat.shiftRight_zero]

/-- What the tables look at decides the lanes. -/
theorem firstByte_low (a b : BitVec 32) (h : a.extractLsb' 0 2 = b.extractLsb' 0 2) :
    firstByte op a = firstByte op b := by
  unfold firstByte
  rw [← addr_low, ← addr_low, h]

theorem badAlignment_iff : badAlignment (laneKey op addr) = true ↔ Misaligned op addr := by
  have hmod : addr.toNat % width op = (addr.extractLsb' 0 2).toNat % width op := by
    rw [addr_low]
    unfold width
    split_ifs <;> omega
  unfold Misaligned laneKey
  rw [hmod]
  unfold width
  generalize addr.extractLsb' 0 2 = a
  generalize op.extractLsb' 1 2 = k
  revert a k
  decide

/-- The lanes of each access: its width, its low address bits, its bytes and their place. -/
def laneTable : List (BitVec 2 × BitVec 2 × ℕ × ℕ) :=
  [(0b01#2, 0#2, 4, 0), (0b01#2, 1#2, 4, 0), (0b01#2, 2#2, 4, 0), (0b01#2, 3#2, 4, 0),
    (0b10#2, 0#2, 2, 16), (0b10#2, 1#2, 2, 16), (0b10#2, 2#2, 2, 0), (0b10#2, 3#2, 2, 0),
    (0b11#2, 0#2, 1, 24), (0b11#2, 1#2, 1, 16), (0b11#2, 2#2, 1, 8), (0b11#2, 3#2, 1, 0)]

theorem mem_laneTable (hop : op.extractLsb' 1 2 ≠ 0#2) :
    (op.extractLsb' 1 2, addr.extractLsb' 0 2, width op, laneShift op addr) ∈ laneTable := by
  have hlow : addr.toNat % 4 = (addr.extractLsb' 0 2).toNat := (addr_low addr).symm
  unfold laneShift firstByte
  rw [hlow]
  unfold width
  revert hop
  generalize addr.extractLsb' 0 2 = a
  generalize op.extractLsb' 1 2 = k
  revert a k
  decide

/-- A property of every access is one of each row. -/
theorem forall_lanes {P : BitVec 2 → BitVec 2 → ℕ → ℕ → Prop} (hop : op.extractLsb' 1 2 ≠ 0#2)
    (h : ∀ e ∈ laneTable, P e.1 e.2.1 e.2.2.1 e.2.2.2) :
    P (op.extractLsb' 1 2) (addr.extractLsb' 0 2) (width op) (laneShift op addr) :=
  h _ (mem_laneTable op addr hop)

theorem append_zero_left {m n : ℕ} (x : BitVec n) : 0#m ++ x = x.setWidth (m + n) := by
  apply BitVec.eq_of_getLsbD_eq
  intro j hj
  rw [BitVec.getLsbD_append, BitVec.getLsbD_setWidth]
  by_cases hn : j < n
  · simp [hn, hj]
  · simp [hn, BitVec.getLsbD_of_ge x j (by omega)]

/-- The value of a load. -/
theorem laneResult_eq (hop : op.extractLsb' 1 2 ≠ 0#2) :
    laneResult (laneKey op addr) d = addressed op addr d := by
  have hrow : ∀ e ∈ laneTable, laneResult (e.1 ++ e.2.1) d =
      (d.extractLsb' e.2.2.2 (8 * e.2.2.1)).setWidth 32 := by
    intro e he
    fin_cases he
    all_goals simp [laneResult, casez]
    all_goals exact append_zero_left _
  exact forall_lanes (P := fun k a w sh => laneResult (k ++ a) d =
    (d.extractLsb' sh (8 * w)).setWidth 32) op addr hop hrow

theorem signExtend_bit (b : Bool) (j : ℕ) (hj : j < 8) :
    ((BitVec.ofBool b).signExtend 8).getLsbD j = b := by
  have hbit : ∀ (b : Bool) (k : Fin 8), ((BitVec.ofBool b).signExtend 8).getLsbD k = b := by
    decide
  exact hbit b ⟨j, hj⟩

theorem laneMask_bit (sel : BitVec 4) (j : ℕ) (hj : j < 32) :
    (laneMask sel).getLsbD j = sel.getLsbD (j / 8) := by
  unfold laneMask
  simp only [BitVec.getLsbD_append]
  split_ifs with h0 h1 h2
  · rw [signExtend_bit _ _ h0, show j / 8 = 0 by omega]
  · rw [signExtend_bit _ _ h1, show j / 8 = 1 by omega]
  · rw [signExtend_bit _ _ h2, show j / 8 = 2 by omega]
  · rw [signExtend_bit _ _ (by omega), show j / 8 = 3 by omega]

/-- The selected lanes. -/
theorem laneSel_bit (hop : op.extractLsb' 1 2 ≠ 0#2) (j : ℕ) (hj : j < 32) :
    (laneSel (laneKey op addr)).getLsbD (j / 8) =
      decide (laneShift op addr ≤ j ∧ j < laneShift op addr + 8 * width op) := by
  have hrow : ∀ e ∈ laneTable, ∀ k < 4, (laneSel (e.1 ++ e.2.1)).getLsbD k =
      decide (e.2.2.2 / 8 ≤ k ∧ k < e.2.2.2 / 8 + e.2.2.1) := by
    decide
  have hbit := forall_lanes op addr (P := fun k a w sh => ∀ n < 4, (laneSel (k ++ a)).getLsbD n =
    decide (sh / 8 ≤ n ∧ n < sh / 8 + w)) hop hrow (j / 8) (by omega)
  have height : ∀ e ∈ laneTable, e.2.2.2 % 8 = 0 := by
    decide
  have hshift := forall_lanes op addr (P := fun _ _ _ sh => sh % 8 = 0) hop height
  unfold laneKey
  rw [hbit]
  apply decide_eq_decide.2
  omega

/-- What stands in the selected lanes. -/
theorem lane_bit (hop : op.extractLsb' 1 2 ≠ 0#2) (j : ℕ) (hj : j < 32)
    (hlow : laneShift op addr ≤ j) (hhigh : j < laneShift op addr + 8 * width op) :
    (laneData (laneKey op addr) d).getLsbD j = d.getLsbD (j - laneShift op addr) ∧
      (laneCopies (laneKey op addr) d).getLsbD j = d.getLsbD (j - laneShift op addr) := by
  have hrow : ∀ e ∈ laneTable, e.2.2.2 ≤ j → j < e.2.2.2 + 8 * e.2.2.1 →
      (laneData (e.1 ++ e.2.1) d).getLsbD j = d.getLsbD (j - e.2.2.2) ∧
        (laneCopies (e.1 ++ e.2.1) d).getLsbD j = d.getLsbD (j - e.2.2.2) := by
    intro e he
    fin_cases he
    all_goals
      intro hl hh
      dsimp only at hl hh
      simp only [laneData, laneCopies, casez, BitVec.reduceAppend, BitVec.reduceAnd, BitVec.reduceBEq,
        Bool.false_eq_true, if_true, if_false, BitVec.getLsbD_append, BitVec.getLsbD_extractLsb',
        Nat.sub_zero, Nat.zero_add]
      grind
  exact forall_lanes op addr (P := fun k a w sh => sh ≤ j → j < sh + 8 * w →
    (laneData (k ++ a) d).getLsbD j = d.getLsbD (j - sh) ∧
      (laneCopies (k ++ a) d).getLsbD j = d.getLsbD (j - sh)) hop hrow hlow hhigh

theorem addressed_bit (j : ℕ) (hj : j < 32) : (addressed op addr d).getLsbD j =
    (decide (j < 8 * width op) && d.getLsbD (laneShift op addr + j)) := by
  unfold addressed
  rw [BitVec.getLsbD_setWidth, BitVec.getLsbD_extractLsb', decide_eq_true hj, Bool.true_and]

theorem lowBytes_bit (j : ℕ) (hj : j < 32) : (lowBytes op d).getLsbD j =
    (decide (j < 8 * width op) && d.getLsbD j) := by
  unfold lowBytes
  rw [BitVec.getLsbD_setWidth, BitVec.getLsbD_extractLsb', decide_eq_true hj, Bool.true_and,
    Nat.zero_add]

/-- The data of a store, in the lanes that are selected. -/
def InLanes (data : BitVec 32) : Prop :=
  ∀ j < 32, laneShift op addr ≤ j → j < laneShift op addr + 8 * width op →
    data.getLsbD j = d.getLsbD (j - laneShift op addr)

/-- A load gets back what a store has stored. -/
theorem reload {data : BitVec 32} (hop : op.extractLsb' 1 2 ≠ 0#2) (h : InLanes op addr d data) :
    addressed op addr (stored old data (laneSel (laneKey op addr))) = lowBytes op d := by
  have hfit := forall_lanes op addr (P := fun _ _ w sh => sh + 8 * w ≤ 32) hop (by decide)
  apply BitVec.eq_of_getLsbD_eq
  intro j hj
  rw [addressed_bit op addr _ j hj, lowBytes_bit op d j hj]
  by_cases hlow : j < 8 * width op
  · have hlane := h (laneShift op addr + j) (by omega) (by omega) (by omega)
    rw [Nat.add_sub_cancel_left] at hlane
    unfold stored
    rw [BitVec.getLsbD_or, BitVec.getLsbD_and, BitVec.getLsbD_and, BitVec.getLsbD_not,
      laneMask_bit _ _ (by omega), laneSel_bit op addr hop _ (by omega),
      decide_eq_true (by omega : laneShift op addr ≤ laneShift op addr + j ∧
        laneShift op addr + j < laneShift op addr + 8 * width op), hlane]
    simp
  · simp [hlow]

/-- Two ways to fill the lanes agree where it matters. -/
theorem lanes_agree {a b : BitVec 32} (hop : op.extractLsb' 1 2 ≠ 0#2) (ha : InLanes op addr d a)
    (hb : InLanes op addr d b) : a &&& laneMask (laneSel (laneKey op addr)) =
      b &&& laneMask (laneSel (laneKey op addr)) := by
  apply BitVec.eq_of_getLsbD_eq
  intro j hj
  rw [BitVec.getLsbD_and, BitVec.getLsbD_and, laneMask_bit _ _ hj, laneSel_bit op addr hop j hj]
  by_cases hin : laneShift op addr ≤ j ∧ j < laneShift op addr + 8 * width op
  · rw [ha j hj hin.1 hin.2, hb j hj hin.1 hin.2]
  · rw [decide_eq_false hin, Bool.and_false, Bool.and_false]

end Lanes

/-! ## The tables of `pipemem`

`pipemem.v` writes its tables in another order, and leaves the row for words to the default. -/

namespace Pipemem

/-- The byte selects. -/
def selTable (k : BitVec 4) : BitVec 4 :=
  if casez k 0b1000#4 0b1110#4 then 0b1100#4
  else if casez k 0b1010#4 0b1110#4 then 0b0011#4
  else if casez k 0b1100#4 0b1111#4 then 0b1000#4
  else if casez k 0b1101#4 0b1111#4 then 0b0100#4
  else if casez k 0b1110#4 0b1111#4 then 0b0010#4
  else if casez k 0b1111#4 0b1111#4 then 0b0001#4
  else 0b1111#4

theorem selTable_eq (k : BitVec 4) : selTable k = laneSel k := by
  revert k
  decide

/-- The value of a load. -/
def resultTable (k : BitVec 4) (d : BitVec 32) : BitVec 32 :=
  if casez k 0b1100#4 0b1111#4 then 0#24 ++ d.extractLsb' 24 8
  else if casez k 0b1101#4 0b1111#4 then 0#24 ++ d.extractLsb' 16 8
  else if casez k 0b1110#4 0b1111#4 then 0#24 ++ d.extractLsb' 8 8
  else if casez k 0b1111#4 0b1111#4 then 0#24 ++ d.extractLsb' 0 8
  else if casez k 0b1000#4 0b1110#4 then 0#16 ++ d.extractLsb' 16 16
  else if casez k 0b1010#4 0b1110#4 then 0#16 ++ d.extractLsb' 0 16
  else d

theorem resultTable_eq (k : BitVec 4) (d : BitVec 32) : resultTable k d = laneResult k d := by
  have hk : ∀ k : BitVec 4, k ∈ (List.range 16).map (BitVec.ofNat 4) := by
    decide
  have h := hk k
  fin_cases h <;> simp [resultTable, laneResult, casez]

end Pipemem

/-! ## One access -/

/-- One access: a request, then nothing but its answer. -/
structure LoneAccess (x : ℕ → MemIn) (T : ℕ) : Prop where
  stb : (x 0).iStb = true
  op : (x 0).iOp.extractLsb' 1 2 ≠ 0#2
  pos : 1 ≤ T
  alone : ∀ n, 1 ≤ n → n ≤ T → (x n).iStb = false
  reset : ∀ n ≤ T, (x n).iReset = false
  waits : ∀ n, 1 ≤ n → n < T → (x n).iWbAck = false
  errs : ∀ n, 1 ≤ n → n ≤ T → (x n).iWbErr = false
  ack : (x T).iWbAck = true

/-- An access that is refused. -/
def Refused (c : MemCfg) (r : MemIn) : Prop := c.optAlignmentErr = true ∧ Misaligned r.iOp r.iAddr

/-- The access goes to the local bus. -/
def MemCfg.isLocal (c : MemCfg) (r : MemIn) : Bool := c.withLocalBus && lclAddr r.iAddr

/-- The request has not been taken by clock `n + 1`. -/
def strobing (x : ℕ → MemIn) : ℕ → Bool
  | 0 => true
  | n + 1 => strobing x n && (x (n + 1)).iWbStall

/-- A unit carries an access out. -/
structure Carries {AW : ℕ} (c : MemCfg) (x : ℕ → MemIn) (T : ℕ) (o : ℕ → MemOut AW) : Prop where
  err : (o 1).oErr = true ↔ Refused c (x 0)
  untouched : Refused c (x 0) → ∀ n < T, (o (n + 1)).oWbCycGbl = false ∧
    (o (n + 1)).oWbCycLcl = false ∧ (o (n + 1)).oWbStbGbl = false ∧ (o (n + 1)).oWbStbLcl = false
  strobe : ¬Refused c (x 0) → ∀ n < T,
    (o (n + 1)).oWbStbGbl = (strobing x n && !c.isLocal (x 0)) ∧
      (o (n + 1)).oWbStbLcl = (strobing x n && c.isLocal (x 0))
  addr : ¬Refused c (x 0) → ∀ n < T, strobing x n = true →
    (o (n + 1)).oWbAddr = (x 0).iAddr.extractLsb' 2 AW ∧ (o (n + 1)).oWbWe = (x 0).iOp.getLsbD 0
  sel : ¬Refused c (x 0) → ∀ n < T, strobing x n = true → ∀ j < 32,
    (o (n + 1)).oWbSel.getLsbD (j / 8) = decide (laneShift (x 0).iOp (x 0).iAddr ≤ j ∧
      j < laneShift (x 0).iOp (x 0).iAddr + 8 * width (x 0).iOp)
  data : ¬Refused c (x 0) → ∀ n < T, strobing x n = true →
    InLanes (x 0).iOp (x 0).iAddr (x 0).iData (o (n + 1)).oWbData
  result : ¬Refused c (x 0) → (x 0).iOp.getLsbD 0 = false → (o (T + 1)).oValid = true ∧
    (o (T + 1)).oWreg = (x 0).iOreg ∧
    (o (T + 1)).oResult = addressed (x 0).iOp (x 0).iAddr (x T).iWbData
  reload : ¬Refused c (x 0) → ∀ n < T, strobing x n = true → ∀ old,
    addressed (x 0).iOp (x 0).iAddr (stored old (o (n + 1)).oWbData (o (n + 1)).oWbSel) =
      lowBytes (x 0).iOp (x 0).iData

theorem Carries.sel_eq {AW : ℕ} {c : MemCfg} {x : ℕ → MemIn} {T n : ℕ} {o : ℕ → MemOut AW}
    (h : Carries c x T o) (hop : (x 0).iOp.extractLsb' 1 2 ≠ 0#2) (hr : ¬Refused c (x 0)) (hn : n < T)
    (hs : strobing x n = true) : (o (n + 1)).oWbSel = laneSel (laneKey (x 0).iOp (x 0).iAddr) := by
  apply BitVec.eq_of_getLsbD_eq
  intro k hk
  have hbit := h.sel hr n hn hs (8 * k) (by omega)
  have hbit' := laneSel_bit (x 0).iOp (x 0).iAddr hop (8 * k) (by omega)
  rw [Nat.mul_div_cancel_left k (by omega)] at hbit hbit'
  exact hbit.trans hbit'.symm

/-- Two units carry an access out alike. -/
structure Agree {AW : ℕ} (c : MemCfg) (x : ℕ → MemIn) (T : ℕ) (m p : ℕ → MemOut AW) : Prop where
  left : Carries c x T m
  right : Carries c x T p
  same : ¬Refused c (x 0) → ∀ n < T, strobing x n = true →
    (m (n + 1)).oWbAddr = (p (n + 1)).oWbAddr ∧ (m (n + 1)).oWbSel = (p (n + 1)).oWbSel ∧
      (m (n + 1)).oWbData &&& laneMask (m (n + 1)).oWbSel =
        (p (n + 1)).oWbData &&& laneMask (p (n + 1)).oWbSel

/-! ## memops -/

namespace Memops

variable {AW : ℕ} {c : MemCfg} {x : ℕ → MemIn} {T : ℕ}

/-- No access is under way. -/
structure Idle (s : Memops AW) : Prop where
  gbl : s.rWbCycGbl = false
  lcl : s.rWbCycLcl = false
  stbGbl : s.oWbStbGbl = false
  stbLcl : s.oWbStbLcl = false

/-- Nothing is on the bus, and no cycle is held. -/
structure Off (s : Memops AW) : Prop extends Idle s where
  lockGbl : s.lockGbl = false
  lockLcl : s.lockLcl = false

/-- The lock holds the bus that the access goes to. -/
def held (c : MemCfg) (s : Memops AW) (r : MemIn) : Bool :=
  c.implementLock && (if c.isLocal r then s.lockLcl else s.lockGbl)

/-- The access is under way, `n + 1` clocks after it was asked for. -/
structure Busy (c : MemCfg) (x : ℕ → MemIn) (s : Memops AW) (n : ℕ) : Prop where
  gbl : s.rWbCycGbl = !c.isLocal (x 0)
  lcl : s.rWbCycLcl = c.isLocal (x 0)
  stbGbl : s.oWbStbGbl = (strobing x n && !c.isLocal (x 0))
  stbLcl : s.oWbStbLcl = (strobing x n && c.isLocal (x 0))
  addr : s.oWbAddr = (x 0).iAddr.extractLsb' 2 AW
  we : s.oWbWe = (x 0).iOp.getLsbD 0
  sel : s.oWbSel = laneSel (laneKey (x 0).iOp (x 0).iAddr)
  data : InLanes (x 0).iOp (x 0).iAddr (x 0).iData s.oWbData
  key : s.rOp = laneKey (x 0).iOp (x 0).iAddr
  wreg : s.oWreg = (x 0).iOreg

theorem misaligned_iff (hx : LoneAccess x T) : misaligned c (x 0) = true ↔ Refused c (x 0) := by
  unfold misaligned Refused
  rw [hx.stb, Bool.and_true, Bool.and_eq_true, badAlignment_iff]

/-- A request that is not refused is strobed, unless the lock holds its bus already. -/
theorem stb_start {s : Memops AW} (hx : LoneAccess x T) (hs : Idle s) (hr : ¬Refused c (x 0)) :
    (next c s (x 0)).oWbStbGbl = (!held c s (x 0) && !c.isLocal (x 0)) ∧
      (next c s (x 0)).oWbStbLcl = (!held c s (x 0) && c.isLocal (x 0)) := by
  have hmis : misaligned c (x 0) = false := by
    rw [Bool.eq_false_iff, ne_eq, misaligned_iff hx]
    exact hr
  rw [next_oWbStbGbl, next_oWbStbLcl, nextStbGbl, nextStbLcl, hx.reset 0 (Nat.zero_le T), hs.gbl,
    hs.lcl, hs.stbGbl, hs.stbLcl]
  unfold oWbCycGbl oWbCycLcl gblStb lclStb held MemCfg.isLocal
  rw [hmis, hx.stb, hs.gbl, hs.lcl]
  cases c.implementLock <;> cases c.withLocalBus <;> cases lclAddr (x 0).iAddr <;>
    cases s.lockGbl <;> cases s.lockLcl <;> simp

/-- The request, when it is not refused. -/
theorem busy_start {s : Memops AW} (hx : LoneAccess x T) (hs : Idle s) (hr : ¬Refused c (x 0))
    (hh : held c s (x 0) = false) : Busy c x (next c s (x 0)) 0 := by
  have hmis : misaligned c (x 0) = false := by
    rw [Bool.eq_false_iff, ne_eq, misaligned_iff hx]
    exact hr
  have hreset := hx.reset 0 (Nat.zero_le T)
  have hstb := hx.stb
  have hgbl : gblStb c (x 0) = !c.isLocal (x 0) := by
    unfold gblStb MemCfg.isLocal
    rw [hmis, hstb]
    cases c.withLocalBus <;> cases lclAddr (x 0).iAddr <;> rfl
  have hlcl : lclStb c (x 0) = c.isLocal (x 0) := by
    unfold lclStb MemCfg.isLocal
    rw [hmis, hstb]
    cases c.withLocalBus <;> cases lclAddr (x 0).iAddr <;> rfl
  have hstbs := stb_start hx hs hr
  refine ⟨?_, ?_, ?_, ?_, ?_, ?_, ?_, ?_, ?_, ?_⟩
  · simp [nextCycGbl, hreset, hs.gbl, hs.lcl, hgbl]
  · simp [nextCycLcl, hreset, hs.gbl, hs.lcl, hlcl]
  · rw [hstbs.1, hh]
    rfl
  · rw [hstbs.2, hh]
    rfl
  · simp [hstb]
  · rw [next_oWbWe, hstb, if_pos rfl]
  · simp [hstb]
  · intro j hj hlow hhigh
    obtain ⟨hdata, hcopies⟩ := lane_bit (x 0).iOp (x 0).iAddr (x 0).iData hx.op j hj hlow hhigh
    rw [next_oWbData, hstb, if_pos rfl]
    split
    · exact hdata
    · exact hcopies
  · simp [hstb]
  · simp [hstb]

theorem Busy.next {s : Memops AW} {n : ℕ} (h : Busy c x s n) (hx : LoneAccess x T) (hn : n + 1 < T) :
    Busy c x (Memops.next c s (x (n + 1))) (n + 1) := by
  have hreset := hx.reset (n + 1) (by omega)
  have hstb := hx.alone (n + 1) (by omega) (by omega)
  have hack := hx.waits (n + 1) (by omega) hn
  have herr := hx.errs (n + 1) (by omega) (by omega)
  have hgbl := h.gbl
  have hlcl := h.lcl
  have hbusy : (s.rWbCycGbl || s.rWbCycLcl) = true := by
    rw [hgbl, hlcl]
    cases c.isLocal (x 0) <;> rfl
  have hzero : zeroOut c s = false := by
    unfold zeroOut oWbCycGbl oWbCycLcl
    rw [hgbl, hlcl]
    cases c.isLocal (x 0) <;> simp
  refine ⟨?_, ?_, ?_, ?_, ?_, ?_, ?_, ?_, ?_, ?_⟩
  · rw [next_rWbCycGbl, nextCycGbl, hreset, hbusy, hack, herr, hgbl]
    rfl
  · rw [next_rWbCycLcl, nextCycLcl, hreset, hbusy, hack, herr, hlcl]
    rfl
  · rw [next_oWbStbGbl, nextStbGbl, hreset, herr, h.stbGbl]
    have hnone : gblStb c (x (n + 1)) = false := by
      simp [gblStb, hstb]
    rw [hnone]
    show _ = (strobing x n && (x (n + 1)).iWbStall && !c.isLocal (x 0))
    unfold oWbCycGbl
    rw [hgbl]
    cases c.isLocal (x 0) <;> cases strobing x n <;> cases (x (n + 1)).iWbStall <;> simp
  · rw [next_oWbStbLcl, nextStbLcl, hreset, herr, h.stbLcl]
    have hnone : lclStb c (x (n + 1)) = false := by
      simp [lclStb, hstb]
    rw [hnone]
    show _ = (strobing x n && (x (n + 1)).iWbStall && c.isLocal (x 0))
    unfold oWbCycLcl
    rw [hlcl]
    cases c.isLocal (x 0) <;> cases strobing x n <;> cases (x (n + 1)).iWbStall <;> simp
  · simp [hstb, hzero, h.addr]
  · rw [next_oWbWe, hstb, hzero, h.we]
    rfl
  · simp [hstb, hzero, h.sel]
  · rw [next_oWbData, hstb, hzero]
    exact h.data
  · simp [hstb, h.key]
  · simp [hstb, h.wreg]

/-- The answer ends the access. -/
theorem Busy.idle {s : Memops AW} {n : ℕ} (h : Busy c x s n) (hx : LoneAccess x (n + 1))
    (htaken : strobing x (n + 1) = false) : Idle (Memops.next c s (x (n + 1))) := by
  have hstb := hx.alone (n + 1) (by omega) (Nat.le_refl _)
  have hbusy : (s.rWbCycGbl || s.rWbCycLcl) = true := by
    rw [h.gbl, h.lcl]
    cases c.isLocal (x 0) <;> rfl
  have hgbl : gblStb c (x (n + 1)) = false := by
    simp [gblStb, hstb]
  have hlcl : lclStb c (x (n + 1)) = false := by
    simp [lclStb, hstb]
  have hgone : (strobing x n && (x (n + 1)).iWbStall) = false := htaken
  refine ⟨?_, ?_, ?_, ?_⟩
  · simp [nextCycGbl, hbusy, hx.ack]
  · simp [nextCycLcl, hbusy, hx.ack]
  · rw [next_oWbStbGbl, nextStbGbl, h.stbGbl, hgbl]
    cases c.isLocal (x 0) <;> simp_all
  · rw [next_oWbStbLcl, nextStbLcl, h.stbLcl, hlcl]
    cases c.isLocal (x 0) <;> simp_all

/-- A refused request leaves the unit off the bus. -/
theorem off_start {s : Memops AW} (hx : LoneAccess x T) (hs : Idle s) (hr : Refused c (x 0)) :
    Off (next c s (x 0)) := by
  have hmis : misaligned c (x 0) = true := (misaligned_iff hx).2 hr
  have hreset := hx.reset 0 (Nat.zero_le T)
  have hgbl : gblStb c (x 0) = false := by
    simp [gblStb, hmis]
  have hlcl : lclStb c (x 0) = false := by
    simp [lclStb, hmis]
  refine ⟨⟨?_, ?_, ?_, ?_⟩, ?_, ?_⟩
  · simp [nextCycGbl, hreset, hs.gbl, hs.lcl, hgbl]
  · simp [nextCycLcl, hreset, hs.gbl, hs.lcl, hlcl]
  · simp [nextStbGbl, hs.stbGbl, hgbl]
  · simp [nextStbLcl, hs.stbLcl, hlcl]
  · simp [nextLockGbl, hreset, lockKill, hmis]
  · simp [nextLockLcl, hreset, lockKill, hmis]

theorem Off.next {s : Memops AW} {i : MemIn} (h : Off s) (hr : i.iReset = false)
    (hstb : i.iStb = false) : Off (Memops.next c s i) := by
  have hgbl : gblStb c i = false := by
    simp [gblStb, hstb]
  have hlcl : lclStb c i = false := by
    simp [lclStb, hstb]
  refine ⟨⟨?_, ?_, ?_, ?_⟩, ?_, ?_⟩
  · simp [nextCycGbl, hr, h.gbl, h.lcl, hgbl]
  · simp [nextCycLcl, hr, h.gbl, h.lcl, hlcl]
  · simp [nextStbGbl, h.stbGbl, hgbl]
  · simp [nextStbLcl, h.stbLcl, hlcl]
  · simp [nextLockGbl, hr, h.gbl, h.lockGbl]
  · simp [nextLockLcl, hr, h.lcl, h.lockLcl]

theorem busy_run {s : ℕ → Memops AW} (hx : LoneAccess x T) (h0 : Idle (s 0))
    (hstep : ∀ n, s (n + 1) = next c (s n) (x n)) (hr : ¬Refused c (x 0))
    (hh : held c (s 0) (x 0) = false) : ∀ n < T, Busy c x (s (n + 1)) n := by
  intro n
  induction n with
  | zero =>
    intro _
    rw [hstep]
    exact busy_start hx h0 hr hh
  | succ n ih =>
    intro hn
    rw [hstep]
    exact (ih (by omega)).next hx hn

theorem off_run {s : ℕ → Memops AW} (hx : LoneAccess x T) (h0 : Idle (s 0))
    (hstep : ∀ n, s (n + 1) = next c (s n) (x n)) (hr : Refused c (x 0)) :
    ∀ n ≤ T, Off (s (n + 1)) := by
  intro n
  induction n with
  | zero =>
    intro _
    rw [hstep]
    exact off_start hx h0 hr
  | succ n ih =>
    intro hn
    rw [hstep]
    exact (ih (by omega)).next (hx.reset _ (by omega)) (hx.alone _ (by omega) (by omega))

/-- **memops** carries an access out unless the lock holds its bus already. -/
theorem carries {s : ℕ → Memops AW} (hx : LoneAccess x T) (h0 : Idle (s 0))
    (hstep : ∀ n, s (n + 1) = next c (s n) (x n))
    (hok : ¬Refused c (x 0) → held c (s 0) (x 0) = false) :
    Carries c x T fun n => out c (s n) := by
  have hbusy : ¬Refused c (x 0) → ∀ n < T, Busy c x (s (n + 1)) n := by
    intro hr
    exact busy_run hx h0 hstep hr (hok hr)
  refine ⟨?_, ?_, ?_, ?_, ?_, ?_, ?_, ?_⟩
  · rw [← misaligned_iff hx]
    show (s 1).oErr = true ↔ _
    rw [hstep, next_oErr, nextErr, hx.reset 0 (Nat.zero_le T), oBusy, h0.gbl, h0.lcl, hx.stb]
    rfl
  · intro hr n hn
    have hs := off_run hx h0 hstep hr n (Nat.le_of_lt hn)
    refine ⟨?_, ?_, hs.stbGbl, hs.stbLcl⟩
    · simp [out, oWbCycGbl, hs.gbl, hs.lockGbl]
    · simp [out, oWbCycLcl, hs.lcl, hs.lockLcl]
  · intro hr n hn
    have hs := hbusy hr n hn
    exact ⟨hs.stbGbl, hs.stbLcl⟩
  · intro hr n hn _
    have hs := hbusy hr n hn
    exact ⟨hs.addr, hs.we⟩
  · intro hr n hn _ j hj
    show (s (n + 1)).oWbSel.getLsbD (j / 8) = _
    rw [(hbusy hr n hn).sel]
    exact laneSel_bit _ _ hx.op j hj
  · intro hr n hn _
    exact (hbusy hr n hn).data
  · intro hr hload
    obtain ⟨n, rfl⟩ : ∃ n, T = n + 1 := ⟨T - 1, by have := hx.pos; omega⟩
    have hs := hbusy hr n (by omega)
    have hreset := hx.reset (n + 1) (Nat.le_refl _)
    have hcyc : (oWbCycGbl c (s (n + 1)) || oWbCycLcl c (s (n + 1))) = true := by
      unfold oWbCycGbl oWbCycLcl
      rw [hs.gbl, hs.lcl]
      cases c.isLocal (x 0) <;> simp
    refine ⟨?_, ?_, ?_⟩
    · show (s (n + 1 + 1)).oValid = true
      rw [hstep, next_oValid, hreset, hcyc, hx.ack, hs.we, hload]
      rfl
    · show (s (n + 1 + 1)).oWreg = _
      rw [hstep, next_oWreg, hx.alone _ (by omega) (Nat.le_refl _)]
      exact hs.wreg
    · show (s (n + 1 + 1)).oResult = _
      rw [hstep, next_oResult, hx.ack, hs.key, ← laneResult_eq _ _ _ hx.op]
      simp
  · intro hr n hn _ old
    have hs := hbusy hr n hn
    show addressed _ _ (stored old (s (n + 1)).oWbData (s (n + 1)).oWbSel) = _
    rw [hs.sel]
    exact reload _ _ _ _ hx.op hs.data

end Memops

/-! ## pipemem -/

namespace Pipemem

variable {AW : ℕ} {c : MemCfg} {x : ℕ → MemIn} {T : ℕ}

/-- No access is under way, and the FIFO is empty. -/
structure Idle (s : Pipemem AW) : Prop where
  cyc : s.cyc = false
  gbl : s.rWbCycGbl = false
  lcl : s.rWbCycLcl = false
  stbGbl : s.oWbStbGbl = false
  stbLcl : s.oWbStbLcl = false
  empty : s.rdaddr = s.wraddr

/-- Nothing is on the bus, and no cycle is held. -/
structure Off (s : Pipemem AW) : Prop extends Idle s where
  lockGbl : s.lockGbl = false
  lockLcl : s.lockLcl = false

/-- The access is under way, `n + 1` clocks after it was asked for. -/
structure Busy (c : MemCfg) (x : ℕ → MemIn) (s : Pipemem AW) (n : ℕ) : Prop where
  cyc : s.cyc = true
  gbl : s.rWbCycGbl = !c.isLocal (x 0)
  lcl : s.rWbCycLcl = c.isLocal (x 0)
  stbGbl : s.oWbStbGbl = (strobing x n && !c.isLocal (x 0))
  stbLcl : s.oWbStbLcl = (strobing x n && c.isLocal (x 0))
  we : s.oWbWe = (x 0).iOp.getLsbD 0
  addr : strobing x n = true → s.oWbAddr = (x 0).iAddr.extractLsb' 2 AW
  sel : strobing x n = true → s.oWbSel = laneSel (laneKey (x 0).iOp (x 0).iAddr)
  data : strobing x n = true → s.oWbData = laneData (laneKey (x 0).iOp (x 0).iAddr) (x 0).iData
  entry : s.fifoOreg s.rdaddr =
    (x 0).iOreg.extractLsb' 0 4 ++ laneKey (x 0).iOp (x 0).iAddr
  gie : s.fifoGie = (x 0).iOreg.getLsbD 4
  one : s.wraddr = s.rdaddr + 1

theorem busy_start {s : Pipemem AW} (hx : LoneAccess x T) (hs : Idle s)
    (hr : c.optAlignmentErr = false) : Busy c x (next c s (x 0)) 0 := by
  have hmis : misaligned c (x 0) = false := by
    rw [misaligned_eq, hr]
    rfl
  have hreset := hx.reset 0 (Nat.zero_le T)
  have hstb := hx.stb
  have hflush : flush c s (x 0) = false := by
    simp [flush, hs.cyc, hmis]
  have hgbl : gblStb c (x 0) = !c.isLocal (x 0) := by
    unfold gblStb lclBus MemCfg.isLocal
    rw [hmis]
    cases c.withLocalBus <;> cases lclAddr (x 0).iAddr <;> rfl
  have hlcl : lclStb c (x 0) = c.isLocal (x 0) := by
    unfold lclStb lclBus MemCfg.isLocal
    rw [hmis]
    cases c.withLocalBus <;> cases lclAddr (x 0).iAddr <;> rfl
  have hce : busCe s (x 0) = true := by
    simp [busCe, hs.cyc]
  have hzero : idleZero c (x 0) = false := by
    simp [idleZero, hstb]
  refine ⟨?_, ?_, ?_, ?_, ?_, ?_, ?_, ?_, ?_, ?_, ?_, ?_⟩
  · simp [nextCyc, hreset, hs.cyc, hstb, hmis]
  · simp [nextCycGbl, hreset, hs.cyc, hstb, hgbl]
  · simp [nextCycLcl, hreset, hs.cyc, hstb, hlcl]
  · simp [nextStbGbl, hreset, hs.cyc, hstb, hgbl, strobing]
  · simp [nextStbLcl, hreset, hs.cyc, hstb, hlcl, strobing]
  · rw [next_oWbWe, hstb, hs.cyc]
    rfl
  · intro _
    rw [next_oWbAddr, hce, hzero]
    rfl
  · intro _
    rw [next_oWbSel, hce, hzero]
    rfl
  · intro _
    rw [next_oWbData, hce, hzero]
    rfl
  · simp [hreset, hflush, hs.cyc, hs.empty]
  · rw [next_fifoGie, hstb, if_pos rfl]
  · simp [hreset, hflush, hs.cyc, hstb, hs.empty]

theorem Busy.next {s : Pipemem AW} {n : ℕ} (h : Busy c x s n) (hx : LoneAccess x T)
    (hr : c.optAlignmentErr = false) (hn : n + 1 < T) :
    Busy c x (Pipemem.next c s (x (n + 1))) (n + 1) := by
  have hmis : misaligned c (x (n + 1)) = false := by
    rw [misaligned_eq, hr]
    rfl
  have hreset := hx.reset (n + 1) (by omega)
  have hstb := hx.alone (n + 1) (by omega) (by omega)
  have hack := hx.waits (n + 1) (by omega) hn
  have herr := hx.errs (n + 1) (by omega) (by omega)
  have hflush : flush c s (x (n + 1)) = false := by
    simp [flush, herr, hmis]
  have hlast : lastAck c s (x (n + 1)) = false := by
    simp [lastAck, hack]
  have hdone : stbDone c (x (n + 1)) = !(x (n + 1)).iWbStall := by
    simp [stbDone, hstb, hmis, herr]
  -- what is on the bus stays there while the bus stalls
  have hkeep : strobing x (n + 1) = true → strobing x n = true ∧ busCe s (x (n + 1)) = false := by
    intro hs
    obtain ⟨hprev, hstall⟩ := (Bool.and_eq_true _ _).mp hs
    exact ⟨hprev, by simp [busCe, h.cyc, hstall]⟩
  have hfresh : s.rdaddr ≠ s.wraddr := by
    rw [h.one]
    intro heq
    have := congrArg BitVec.toNat heq
    rw [BitVec.toNat_add] at this
    change s.rdaddr.toNat = (s.rdaddr.toNat + 1) % 16 at this
    omega
  refine ⟨?_, ?_, ?_, ?_, ?_, ?_, ?_, ?_, ?_, ?_, ?_, ?_⟩
  · simp [nextCyc, hreset, h.cyc, hlast, herr]
  · simp [nextCycGbl, hreset, h.cyc, hlast, herr, h.gbl]
  · simp [nextCycLcl, hreset, h.cyc, hlast, herr, h.lcl]
  · rw [next_oWbStbGbl, nextStbGbl, hreset, h.cyc, hlast, herr, hdone, h.stbGbl]
    show _ = (strobing x n && (x (n + 1)).iWbStall && !c.isLocal (x 0))
    cases strobing x n <;> cases (x (n + 1)).iWbStall <;> simp
  · rw [next_oWbStbLcl, nextStbLcl, hreset, h.cyc, hlast, herr, hdone, h.stbLcl]
    show _ = (strobing x n && (x (n + 1)).iWbStall && c.isLocal (x 0))
    cases strobing x n <;> cases (x (n + 1)).iWbStall <;> simp
  · simp [h.cyc, h.we]
  · intro hs
    obtain ⟨hprev, hce⟩ := hkeep hs
    rw [next_oWbAddr, hce]
    exact h.addr hprev
  · intro hs
    obtain ⟨hprev, hce⟩ := hkeep hs
    rw [next_oWbSel, hce]
    exact h.sel hprev
  · intro hs
    obtain ⟨hprev, hce⟩ := hkeep hs
    rw [next_oWbData, hce]
    exact h.data hprev
  · rw [next_fifoOreg, next_rdaddr, hreset, hflush, hack]
    simp [hfresh, h.entry]
  · simp [hstb, h.gie]
  · simp [hreset, hflush, hack, hstb, h.one]

/-- The answer ends the access. -/
theorem Busy.idle {s : Pipemem AW} {n : ℕ} (h : Busy c x s n) (hx : LoneAccess x (n + 1))
    (hr : c.optAlignmentErr = false) : Idle (Pipemem.next c s (x (n + 1))) := by
  have hreset := hx.reset (n + 1) (Nat.le_refl _)
  have hstb := hx.alone (n + 1) (by omega) (Nat.le_refl _)
  have herr := hx.errs (n + 1) (by omega) (Nat.le_refl _)
  have hmis : misaligned c (x (n + 1)) = false := by
    rw [misaligned_eq, hr]
    rfl
  have hflush : flush c s (x (n + 1)) = false := by
    simp [flush, herr, hmis]
  have hlast : lastAck c s (x (n + 1)) = true := by
    simp [lastAck, hx.ack, nxtRdaddr, h.one, hstb]
  refine ⟨?_, ?_, ?_, ?_, ?_, ?_⟩
  · simp [nextCyc, h.cyc, hlast]
  · simp [nextCycGbl, h.cyc, hlast]
  · simp [nextCycLcl, h.cyc, hlast]
  · simp [nextStbGbl, h.cyc, hlast]
  · simp [nextStbLcl, h.cyc, hlast]
  · simp [hreset, hflush, hx.ack, h.cyc, hstb, h.one]

/-- With alignment errors on, the unit stays off the bus. -/
theorem idle_next {s : Pipemem AW} {i : MemIn} (hs : Idle s) (hreset : i.iReset = false)
    (hr : c.optAlignmentErr = true) : Idle (next c s i) := by
  have hmis : misaligned c i = i.iStb := by
    rw [misaligned_eq, hr, Bool.true_and]
  have hflush : flush c s i = i.iStb := by
    unfold flush
    rw [hs.cyc, hmis, Bool.and_false, Bool.false_or, Bool.and_self]
  have hgbl : i.iStb = true → gblStb c i = false := by
    intro h
    simp [gblStb, hmis, h]
  have hlcl : i.iStb = true → lclStb c i = false := by
    intro h
    simp [lclStb, hmis, h]
  refine ⟨?_, ?_, ?_, ?_, ?_, ?_⟩
  · simp [nextCyc, hreset, hs.cyc, hmis]
  · simpa [nextCycGbl, hreset, hs.cyc, hs.gbl] using hgbl
  · simpa [nextCycLcl, hreset, hs.cyc, hs.lcl] using hlcl
  · simpa [nextStbGbl, hreset, hs.cyc, hs.stbGbl] using hgbl
  · simpa [nextStbLcl, hreset, hs.cyc, hs.stbLcl] using hlcl
  · rw [next_rdaddr, next_wraddr, hreset, hflush, hs.cyc, hs.empty]
    cases i.iStb <;> simp

/-- A request drops the lock as well. -/
theorem off_start {s : Pipemem AW} (hx : LoneAccess x T) (hs : Idle s)
    (hr : c.optAlignmentErr = true) : Off (next c s (x 0)) := by
  have hflush : flush c s (x 0) = true := by
    simp [flush, misaligned_eq, hr, hx.stb]
  refine ⟨idle_next hs (hx.reset 0 (Nat.zero_le T)) hr, ?_, ?_⟩
  · simp [hflush]
  · simp [hflush]

theorem Off.next {s : Pipemem AW} {i : MemIn} (h : Off s) (hreset : i.iReset = false)
    (hr : c.optAlignmentErr = true) : Off (Pipemem.next c s i) := by
  refine ⟨idle_next h.toIdle hreset hr, ?_, ?_⟩
  · simp [h.gbl, h.lockGbl]
  · simp [h.lcl, h.lockLcl]

theorem busy_run {s : ℕ → Pipemem AW} (hx : LoneAccess x T) (h0 : Idle (s 0))
    (hstep : ∀ n, s (n + 1) = next c (s n) (x n)) (hr : c.optAlignmentErr = false) :
    ∀ n < T, Busy c x (s (n + 1)) n := by
  intro n
  induction n with
  | zero =>
    intro _
    rw [hstep]
    exact busy_start hx h0 hr
  | succ n ih =>
    intro hn
    rw [hstep]
    exact (ih (by omega)).next hx hr hn

theorem off_run {s : ℕ → Pipemem AW} (hx : LoneAccess x T) (h0 : Idle (s 0))
    (hstep : ∀ n, s (n + 1) = next c (s n) (x n)) (hr : c.optAlignmentErr = true) :
    ∀ n ≤ T, Off (s (n + 1)) := by
  intro n
  induction n with
  | zero =>
    intro _
    rw [hstep]
    exact off_start hx h0 hr
  | succ n ih =>
    intro hn
    rw [hstep]
    exact (ih (by omega)).next (hx.reset _ (by omega)) hr

theorem oErr_start {s : ℕ → Pipemem AW} (hx : LoneAccess x T) (h0 : Idle (s 0))
    (hstep : ∀ n, s (n + 1) = next c (s n) (x n)) :
    (out c (s 1)).oErr = c.optAlignmentErr := by
  show (s 1).oErr = _
  rw [hstep, next_oErr, hx.reset 0 (Nat.zero_le T), h0.cyc, misaligned_eq, hx.stb]
  simp

/-- **pipemem** carries an access out unless alignment errors are on and it is aligned. -/
theorem carries {s : ℕ → Pipemem AW} (hx : LoneAccess x T) (h0 : Idle (s 0))
    (hstep : ∀ n, s (n + 1) = next c (s n) (x n))
    (hok : c.optAlignmentErr = true → Misaligned (x 0).iOp (x 0).iAddr) :
    Carries c x T fun n => out c (s n) := by
  have hoff : ¬Refused c (x 0) → c.optAlignmentErr = false := by
    intro hr
    rw [Bool.eq_false_iff]
    intro hopt
    exact hr ⟨hopt, hok hopt⟩
  have hbusy : ¬Refused c (x 0) → ∀ n < T, Busy c x (s (n + 1)) n := by
    intro hr
    exact busy_run hx h0 hstep (hoff hr)
  refine ⟨?_, ?_, ?_, ?_, ?_, ?_, ?_, ?_⟩
  · rw [oErr_start hx h0 hstep]
    constructor
    · intro hopt
      exact ⟨hopt, hok hopt⟩
    · intro hr
      exact hr.1
  · intro hr n hn
    have hs := off_run hx h0 hstep hr.1 n (Nat.le_of_lt hn)
    refine ⟨?_, ?_, hs.stbGbl, hs.stbLcl⟩
    · simp [out, oWbCycGbl, hs.gbl, hs.lockGbl]
    · simp [out, oWbCycLcl, hs.lcl, hs.lockLcl]
  · intro hr n hn
    have hs := hbusy hr n hn
    exact ⟨hs.stbGbl, hs.stbLcl⟩
  · intro hr n hn hstrobe
    have hs := hbusy hr n hn
    exact ⟨hs.addr hstrobe, hs.we⟩
  · intro hr n hn hstrobe j hj
    show (s (n + 1)).oWbSel.getLsbD (j / 8) = _
    rw [(hbusy hr n hn).sel hstrobe]
    exact laneSel_bit _ _ hx.op j hj
  · intro hr n hn hstrobe
    show InLanes _ _ _ (s (n + 1)).oWbData
    rw [(hbusy hr n hn).data hstrobe]
    intro j hj hlow hhigh
    exact (lane_bit _ _ _ hx.op j hj hlow hhigh).1
  · intro hr hload
    obtain ⟨n, rfl⟩ : ∃ n, T = n + 1 := ⟨T - 1, by have := hx.pos; omega⟩
    have hs := hbusy hr n (by omega)
    have hreset := hx.reset (n + 1) (Nat.le_refl _)
    refine ⟨?_, ?_, ?_⟩
    · show (s (n + 1 + 1)).oValid = true
      rw [hstep, next_oValid, hreset, hs.cyc, hx.ack, hs.we, hload]
      rfl
    · show (s (n + 1 + 1)).oWreg = _
      rw [hstep, next_oWreg, hs.gie, wWreg, hs.entry, BitVec.extractLsb'_append_eq_left]
      exact BitVec.eq_of_getLsbD_eq (by grind)
    · show (s (n + 1 + 1)).oResult = _
      rw [hstep, next_oResult, wWreg, hs.entry, hs.cyc, hx.ack, ← laneResult_eq _ _ _ hx.op,
        BitVec.extractLsb'_append_eq_right]
      simp
  · intro hr n hn hstrobe old
    have hs := hbusy hr n hn
    show addressed _ _ (stored old (s (n + 1)).oWbData (s (n + 1)).oWbSel) = _
    rw [hs.sel hstrobe]
    refine reload _ _ _ _ hx.op ?_
    rw [hs.data hstrobe]
    intro j hj hlow hhigh
    exact (lane_bit _ _ _ hx.op j hj hlow hhigh).1

end Pipemem

/-! ## Both of them -/

section Both

variable {AW : ℕ} {c : MemCfg} {x : ℕ → MemIn} {T : ℕ} {m : ℕ → Memops AW} {p : ℕ → Pipemem AW}

/-- An access that is taken before it is answered leaves both units idle again, ready for the next
    one. -/
theorem idle_again (hx : LoneAccess x T) (htaken : strobing x T = false) (hm : Memops.Idle (m 0))
    (hp : Pipemem.Idle (p 0)) (hmstep : ∀ n, m (n + 1) = Memops.next c (m n) (x n))
    (hpstep : ∀ n, p (n + 1) = Pipemem.next c (p n) (x n))
    (hmis : c.optAlignmentErr = true → Misaligned (x 0).iOp (x 0).iAddr)
    (hheld : c.optAlignmentErr = false → Memops.held c (m 0) (x 0) = false) :
    Memops.Idle (m (T + 1)) ∧ Pipemem.Idle (p (T + 1)) := by
  cases hopt : c.optAlignmentErr with
  | true =>
    have hr : Refused c (x 0) := ⟨hopt, hmis hopt⟩
    exact ⟨(Memops.off_run hx hm hmstep hr T (Nat.le_refl T)).toIdle,
      (Pipemem.off_run hx hp hpstep hopt T (Nat.le_refl T)).toIdle⟩
  | false =>
    have hr : ¬Refused c (x 0) := by
      intro hr
      exact Bool.false_ne_true (hopt.symm.trans hr.1)
    obtain ⟨n, rfl⟩ : ∃ n, T = n + 1 := ⟨T - 1, by have := hx.pos; omega⟩
    rw [hmstep, hpstep]
    exact ⟨(Memops.busy_run hx hm hmstep hr (hheld hopt) n (by omega)).idle hx htaken,
      (Pipemem.busy_run hx hp hpstep hopt n (by omega)).idle hx hopt⟩

/-- The units agree on an access if and only if alignment errors are off or it is misaligned, and
    the lock of `memops`, when it goes to the bus, does not hold that bus already. -/
theorem agree_iff (hx : LoneAccess x T) (hm : Memops.Idle (m 0)) (hp : Pipemem.Idle (p 0))
    (hmstep : ∀ n, m (n + 1) = Memops.next c (m n) (x n))
    (hpstep : ∀ n, p (n + 1) = Pipemem.next c (p n) (x n)) :
    Agree c x T (fun n => Memops.out c (m n)) (fun n => Pipemem.out c (p n)) ↔
      (c.optAlignmentErr = true → Misaligned (x 0).iOp (x 0).iAddr) ∧
        (c.optAlignmentErr = false → Memops.held c (m 0) (x 0) = false) := by
  constructor
  · intro h
    constructor
    · intro hopt
      have hrefused := h.right.err.1 ((Pipemem.oErr_start hx hp hpstep).trans hopt)
      exact hrefused.2
    · intro hopt
      have hr : ¬Refused c (x 0) := by
        intro hr
        exact Bool.false_ne_true (hopt.symm.trans hr.1)
      obtain ⟨hgbl, hlcl⟩ := h.left.strobe hr 0 hx.pos
      change (m 1).oWbStbGbl = !c.isLocal (x 0) at hgbl
      change (m 1).oWbStbLcl = c.isLocal (x 0) at hlcl
      obtain ⟨hg, hl⟩ := Memops.stb_start hx hm hr
      rw [hmstep, hg] at hgbl
      rw [hmstep, hl] at hlcl
      cases hheld : Memops.held c (m 0) (x 0) with
      | false => rfl
      | true =>
        rw [hheld] at hgbl hlcl
        cases hloc : c.isLocal (x 0) <;> simp [hloc] at hgbl hlcl
  · rintro ⟨hmis, hheld⟩
    have hopt : ¬Refused c (x 0) → c.optAlignmentErr = false := by
      intro hr
      rw [Bool.eq_false_iff]
      intro hopt
      exact hr ⟨hopt, hmis hopt⟩
    have hleft := Memops.carries hx hm hmstep fun hr => hheld (hopt hr)
    have hright := Pipemem.carries hx hp hpstep hmis
    refine ⟨hleft, hright, ?_⟩
    intro hr n hn hstrobe
    obtain ⟨haddr, -⟩ := hleft.addr hr n hn hstrobe
    obtain ⟨haddr', -⟩ := hright.addr hr n hn hstrobe
    have hsel := hleft.sel_eq hx.op hr hn hstrobe
    have hsel' := hright.sel_eq hx.op hr hn hstrobe
    refine ⟨haddr.trans haddr'.symm, hsel.trans hsel'.symm, ?_⟩
    beta_reduce at hsel hsel' ⊢
    rw [hsel, hsel']
    exact lanes_agree _ _ _ hx.op (hleft.data hr n hn hstrobe) (hright.data hr n hn hstrobe)

/-- A request at clock 0 for an aligned word, acknowledged on the next clock. -/
def wordLoad (n : ℕ) : MemIn :=
  { iReset := false, iStb := n == 0, iLock := false, iOp := 0b010#3, iAddr := 0x1000#32, iData := 0,
    iOreg := 3#5, iWbAck := n == 1, iWbStall := false, iWbErr := false, iWbData := 0x12345678#32 }

theorem access_wordLoad : LoneAccess wordLoad 1 := by
  refine ⟨rfl, by decide, Nat.le_refl 1, ?_, ?_, ?_, ?_, rfl⟩
  · intro n h1 h2
    rw [show n = 1 by omega]
    rfl
  · intro n _
    rfl
  · intro n h1 h2
    omega
  · intro n _ _
    rfl

theorem Memops.idle_init : Memops.Idle (Memops.init AW) := ⟨rfl, rfl, rfl, rfl⟩

theorem Pipemem.idle_init : Pipemem.Idle (Pipemem.init AW) := ⟨rfl, rfl, rfl, rfl, rfl, rfl⟩

/-- With alignment errors off, from power on. -/
theorem agree_wordLoad :
    let c : MemCfg := ⟨true, true, false, true⟩
    Agree c wordLoad 1
      (fun n => Memops.out c (Clocked.run (Memops.next c) (Memops.init 30) wordLoad n))
      (fun n => Pipemem.out c (Clocked.run (Pipemem.next c) (Pipemem.init 30) wordLoad n)) :=
  (agree_iff access_wordLoad Memops.idle_init Pipemem.idle_init (Clocked.run_succ _ _ _)
    (Clocked.run_succ _ _ _)).2 ⟨by decide, by decide⟩

/-- With alignment errors on, `pipemem` raises an error for the aligned word at 0x1000, and `memops`
    loads it. -/
theorem disagree_wordLoad :
    ∃ (c : MemCfg) (x : ℕ → MemIn), c.optAlignmentErr = true ∧ LoneAccess x 1 ∧
      ¬Misaligned (x 0).iOp (x 0).iAddr ∧
      (Memops.out c (Clocked.run (Memops.next c) (Memops.init 30) x 1)).oErr = false ∧
      (Pipemem.out c (Clocked.run (Pipemem.next c) (Pipemem.init 30) x 1)).oErr = true ∧
      (Memops.out c (Clocked.run (Memops.next c) (Memops.init 30) x 2)).oResult = 0x12345678#32 ∧
      ¬Agree c x 1 (fun n => Memops.out c (Clocked.run (Memops.next c) (Memops.init 30) x n))
        (fun n => Pipemem.out c (Clocked.run (Pipemem.next c) (Pipemem.init 30) x n)) := by
  refine ⟨⟨true, true, true, true⟩, wordLoad, rfl, access_wordLoad, by decide, by decide, by decide,
    by decide, ?_⟩
  intro h
  have hrefused := h.right.err.1 (by decide)
  exact absurd hrefused.2 (by decide)

end Both

end ZipStormMX.Cpu
