/-
  What goes in at one end of the serial line comes out at the other.

  Everything is told by the number of clocks since a byte was accepted.  `line` is what the line says
  then.  The transmitter is in bit `k` of the frame for clocks `1 + k * B` to `(k + 1) * B`, the
  receiver half a bit, and the four clocks of its synchroniser and its state, behind; so it looks at
  the line in the middle of a bit, and it is idle again before the next start bit can reach it.
-/
import ZipStormMX.Peripheral.Uartlite

namespace ZipStormMX.Peripheral

/-! ## The line -/

/-- The bits of a frame: the start bit, the byte, and the stop bit. -/
def frameBit (b : BitVec 8) (k : ℕ) : Bool :=
  if k = 0 then false else if k ≤ 8 then b.getLsbD (k - 1) else true

/-- The line, `d` clocks after the byte was accepted. -/
def line (B : ℕ) (b : BitVec 8) (d : ℕ) : Bool :=
  if d = 0 then true else frameBit b ((d - 1) / B)

theorem line_bit {B r : ℕ} (b : BitVec 8) (k : ℕ) (hr : r < B) :
    line B b (1 + k * B + r) = frameBit b k := by
  unfold line
  rw [if_neg (by omega), show 1 + k * B + r - 1 = r + B * k by rw [Nat.mul_comm]; omega,
    Nat.add_mul_div_left r k (by omega), Nat.div_eq_of_lt hr, Nat.zero_add]

/-- The line is high from the stop bit on. -/
theorem line_high {B d : ℕ} (b : BitVec 8) (hB : 0 < B) (hd : 1 + 9 * B ≤ d) :
    line B b d = true := by
  have hbit : 9 ≤ (d - 1) / B := (Nat.le_div_iff_mul_le hB).2 (by omega)
  unfold line frameBit
  rw [if_neg (by omega), if_neg (by omega), if_neg (by omega)]

/-- The parameters: the baud rate divider is at least four, and fits in both timers. -/
structure BaudOk (tbTx tbRx B : ℕ) : Prop where
  four : 4 ≤ B
  tx : B < 2 ^ tbTx
  rx : B < 2 ^ tbRx

theorem countDown_eq {tb n : ℕ} (h0 : 0 < n) (hn : n < 2 ^ tb) : countDown tb n = n - 1 := by
  unfold countDown
  rw [show n + 2 ^ tb - 1 = (n - 1) + 2 ^ tb by omega, Nat.add_mod_right]
  exact Nat.mod_eq_of_lt (by omega)

/-! ## The transmitter -/

namespace Txuartlite

/-- Nothing is sent. -/
structure Idle (s : Txuartlite) : Prop where
  state : s.state = 15
  count : s.baudCounter = 0
  zero : s.zeroBaudCounter = true
  busy : s.rBusy = false
  data : s.lclData = 0xff#8
  line : s.oUartTx = true

/-- What is left of the byte after `k` shifts. -/
def left (b : BitVec 8) : ℕ → BitVec 8
  | 0 => b
  | k + 1 => 1#1 ++ (left b k).extractLsb' 1 7

/-- Clock `r` of bit `k` of the frame. -/
structure Bit (B : ℕ) (b : BitVec 8) (k r : ℕ) (s : Txuartlite) : Prop where
  state : s.state = k
  count : s.baudCounter = B - 1 - r
  zero : s.zeroBaudCounter = decide (r + 1 = B)
  busy : s.rBusy = true
  data : s.lclData = left b k
  line : s.oUartTx = frameBit b k

theorem left_bit (b : BitVec 8) (k j : ℕ) (hj : j < 8) :
    (left b k).getLsbD j = if j + k < 8 then b.getLsbD (j + k) else true := by
  induction k generalizing j with
  | zero => simp [left, hj]
  | succ k ih =>
    unfold left
    rw [BitVec.getLsbD_append, BitVec.getLsbD_extractLsb']
    by_cases h7 : j < 7
    · have hnext := ih (1 + j) (by omega)
      rw [if_pos h7, decide_eq_true h7, Bool.true_and, hnext, show 1 + j + k = j + (k + 1) by omega]
    · rw [if_neg h7, if_neg (by omega), show j - 7 = 0 by omega]
      rfl

theorem left_zero (b : BitVec 8) (k : ℕ) : (left b k).getLsbD 0 = frameBit b (k + 1) := by
  rw [left_bit b k 0 (by omega)]
  unfold frameBit
  rw [if_neg (Nat.succ_ne_zero k), Nat.zero_add]
  by_cases hk : k < 8
  · rw [if_pos hk, if_pos (by omega), Nat.add_sub_cancel]
  · rw [if_neg hk, if_neg (by omega)]

theorem left_full (b : BitVec 8) {k : ℕ} (hk : 8 ≤ k) : left b k = 0xff#8 := by
  apply BitVec.eq_of_getLsbD_eq
  intro j hj
  have hone : ∀ j < 8, (0xff#8).getLsbD j = true := by
    decide
  rw [left_bit b k j hj, if_neg (by omega), hone j hj]

section Steps

variable {tb B k r : ℕ} {b iData : BitVec 8} {s : Txuartlite} {iWr : Bool}

theorem idle_init : Idle (next tb B init iWr iData) := by
  have hacc : accepts init iWr = false := by
    simp [accepts, init]
  refine ⟨?_, ?_, ?_, ?_, ?_, ?_⟩
  · rw [next_state, hacc]
    rfl
  · rw [next_baudCounter, hacc]
    rfl
  · rw [next_zeroBaudCounter, hacc]
    rfl
  · rw [next_rBusy, hacc]
    rfl
  · rw [next_lclData, hacc]
    rfl
  · rw [next_oUartTx, hacc]
    rfl

theorem Idle.next (h : Idle s) (hacc : accepts s iWr = false) :
    Idle (next tb B s iWr iData) := by
  refine ⟨?_, ?_, ?_, ?_, ?_, ?_⟩
  · simp [h.state, h.zero, hacc]
  · simp [h.state, hacc]
  · simp [h.state, hacc]
  · simp [h.state, h.zero, hacc]
  · rw [next_lclData, hacc, h.zero, h.data]
    rfl
  · rw [next_oUartTx, hacc, h.zero, h.data]
    rfl

/-- A byte is accepted. -/
theorem Idle.start (h : Idle s) (hB : 4 ≤ B) (hacc : accepts s iWr = true) :
    Bit B iData 0 0 (Txuartlite.next tb B s iWr iData) := by
  refine ⟨?_, ?_, ?_, ?_, ?_, ?_⟩
  · simp [h.state, h.zero, hacc]
  · simp [h.state, hacc]
  · rw [next_zeroBaudCounter, h.state, hacc, if_pos rfl, decide_eq_false (by omega)]
    rfl
  · simp [h.state, h.zero, hacc]
  · rw [next_lclData, hacc]
    rfl
  · rw [next_oUartTx, hacc]
    rfl

theorem Bit.accepts (h : Bit B b k r s) : accepts s iWr = false := by
  simp [Txuartlite.accepts, h.busy]

/-- One more clock of the same bit. -/
theorem Bit.next (h : Bit B b k r s) (hk : k ≤ 9) (hr : r + 1 < B) (htb : B < 2 ^ tb) :
    Bit B b k (r + 1) (Txuartlite.next tb B s iWr iData) := by
  have hacc : Txuartlite.accepts s iWr = false := h.accepts
  have hzero : s.zeroBaudCounter = false := by
    rw [h.zero, decide_eq_false (by omega)]
  have hstate : s.state ≠ 15 := by
    rw [h.state]
    omega
  refine ⟨?_, ?_, ?_, ?_, ?_, ?_⟩
  · simp [hzero, h.state]
  · rw [next_baudCounter, if_neg hstate, hzero]
    show countDown tb s.baudCounter = _
    rw [h.count, countDown_eq (by omega) (by omega)]
    omega
  · rw [next_zeroBaudCounter, if_neg hstate, hzero]
    show decide (s.baudCounter = 1) = _
    rw [h.count]
    apply decide_eq_decide.2
    omega
  · simp [hzero]
  · simp [hacc, hzero, h.data]
  · simp [hacc, hzero, h.line]

/-- The last clock of a bit. -/
theorem Bit.last (h : Bit B b k r s) (hB : 4 ≤ B) (hk : k < 9) (hr : r + 1 = B) :
    Bit B b (k + 1) 0 (Txuartlite.next tb B s iWr iData) := by
  have hacc : Txuartlite.accepts s iWr = false := h.accepts
  have hzero : s.zeroBaudCounter = true := by
    rw [h.zero, decide_eq_true hr]
  have hstate : s.state ≠ 15 := by
    rw [h.state]
    omega
  have hend : (s.zeroBaudCounter && decide (s.state = 9)) = false := by
    rw [h.state, decide_eq_false (by omega), Bool.and_false]
  refine ⟨?_, ?_, ?_, ?_, ?_, ?_⟩
  · rw [next_state, hzero, h.state]
    simp [show ¬8 < k by omega]
  · rw [next_baudCounter, if_neg hstate, hend, hzero]
    rfl
  · rw [next_zeroBaudCounter, if_neg hstate, hend, h.count]
    show decide (B - 1 - r = 1) = _
    apply decide_eq_decide.2
    omega
  · simp [hzero, h.state, show ¬8 < k by omega]
  · rw [next_lclData, hacc, hzero, h.data]
    rfl
  · rw [next_oUartTx, hacc, hzero, h.data]
    exact left_zero b k

/-- The last clock of the frame. -/
theorem Bit.done (h : Bit B b 9 r s) (hr : r + 1 = B) :
    Idle (Txuartlite.next tb B s iWr iData) := by
  have hacc : Txuartlite.accepts s iWr = false := h.accepts
  have hzero : s.zeroBaudCounter = true := by
    rw [h.zero, decide_eq_true hr]
  refine ⟨?_, ?_, ?_, ?_, ?_, ?_⟩
  · simp [hzero, h.state, hacc]
  · simp [hzero, h.state]
  · simp [hzero, h.state]
  · simp [hzero, h.state, hacc]
  · rw [next_lclData, hacc, hzero, h.data]
    exact left_full b (k := 10) (by omega)
  · rw [next_oUartTx, hacc, hzero, h.data]
    exact left_zero b 9

end Steps

end Txuartlite

/-! ## The receiver -/

namespace Rxuartlite

/-- Nothing is received. -/
structure Quiet (s : Rxuartlite) : Prop where
  state : s.state = 15
  zero : s.zeroBaudCounter = true
  strobe : s.oWr = false

/-- A start bit has been seen for `j` clocks. -/
structure Waiting (B j : ℕ) (s : Rxuartlite) : Prop extends Quiet s where
  count : s.chgCounter = j
  half : s.halfBaudTime = decide (j + 1 = halfBaud B)

/-- Clock `r` after the middle of the start bit, or of data bit `k - 1`. -/
structure Bit (B : ℕ) (b : BitVec 8) (k r : ℕ) (s : Rxuartlite) : Prop where
  state : s.state = k
  count : s.baudCounter = B - 1 - r
  zero : s.zeroBaudCounter = decide (r + 1 = B)
  strobe : s.oWr = false
  data : ∀ j < k, s.dataReg.getLsbD (8 - k + j) = b.getLsbD j

/-- The byte is strobed. -/
structure Ending (b : BitVec 8) (s : Rxuartlite) : Prop where
  state : s.state = 9
  zero : s.zeroBaudCounter = true
  strobe : s.oWr = true
  data : s.oData = b

section Steps

variable {tb B k r j : ℕ} {b : BitVec 8} {s : Rxuartlite} {w : Bool}

theorem threshold_eq (hB : 4 ≤ B) (htb : B < 2 ^ tb) :
    (halfBaud B + 2 ^ tb - 2) % 2 ^ tb = halfBaud B - 2 := by
  unfold halfBaud
  rw [show B / 2 + 2 ^ tb - 2 = (B / 2 - 2) + 2 ^ tb by omega, Nat.add_mod_right]
  exact Nat.mod_eq_of_lt (by omega)

theorem quiet_init : Quiet (init tb) := ⟨rfl, rfl, rfl⟩

/-- The line is high. -/
theorem Quiet.next (h : Quiet s) (hck : s.ckUart = true) :
    Quiet (Rxuartlite.next tb B s w) := by
  have hstarts : starts s = false := by
    simp [starts, hck]
  refine ⟨?_, ?_, ?_⟩
  · simp [h.state, hck]
  · simp [h.state, h.zero, hstarts]
  · simp [h.state]

/-- The line falls. -/
theorem Quiet.fall (h : Quiet s) (hB : 4 ≤ B) (hck : s.ckUart = true) (hqq : s.qqUart = false) :
    Waiting B 0 (Rxuartlite.next tb B s w) := by
  refine ⟨h.next hck, ?_, ?_⟩
  · simp [hck, hqq]
  · have hhalf : 2 ≤ halfBaud B := by
      unfold halfBaud
      omega
    have hone : ¬0 + 1 = halfBaud B := by
      omega
    rw [next_halfBaudTime, hck, decide_eq_false hone]
    rfl

/-- The line stays low. -/
theorem Waiting.next (h : Waiting B j s) (hB : 4 ≤ B) (htb : B < 2 ^ tb)
    (hj : j + 1 < halfBaud B) (hck : s.ckUart = false) (hqq : s.qqUart = false) :
    Waiting B (j + 1) (Rxuartlite.next tb B s w) := by
  have hhalf : s.halfBaudTime = false := by
    rw [h.half, decide_eq_false (by omega)]
  have hstarts : starts s = false := by
    simp [starts, hhalf]
  have hroom : halfBaud B ≤ 2 ^ tb - 1 := by
    unfold halfBaud
    omega
  refine ⟨⟨?_, ?_, ?_⟩, ?_, ?_⟩
  · simp [h.state, hhalf]
  · simp [h.state, h.zero, hstarts]
  · simp [h.state]
  · rw [next_chgCounter, hck, hqq, h.count, if_neg (by decide), if_pos (by omega)]
  · rw [next_halfBaudTime, threshold_eq hB htb, hck, h.count]
    show decide (halfBaud B - 2 ≤ j) = _
    apply decide_eq_decide.2
    omega

/-- The middle of the start bit. -/
theorem Waiting.middle (h : Waiting B j s) (hB : 4 ≤ B) (hj : j + 1 = halfBaud B)
    (hck : s.ckUart = false) : Bit B b 0 0 (Rxuartlite.next tb B s w) := by
  have hhalf : s.halfBaudTime = true := by
    rw [h.half, decide_eq_true hj]
  have hstarts : starts s = true := by
    simp [starts, h.state, hck, hhalf]
  refine ⟨?_, ?_, ?_, ?_, ?_⟩
  · simp [h.state, hck, hhalf]
  · simp [hstarts]
  · have hone : ¬0 + 1 = B := by
      omega
    rw [next_zeroBaudCounter, hstarts, if_pos rfl, decide_eq_false hone]
  · simp [h.state]
  · intro j hj
    omega

theorem Bit.starts (h : Bit B b k r s) (hk : k ≤ 8) : starts s = false := by
  unfold Rxuartlite.starts
  rw [h.state, decide_eq_false (by omega)]
  rfl

theorem Bit.next (h : Bit B b k r s) (hk : k ≤ 8) (hr : r + 1 < B) (htb : B < 2 ^ tb) :
    Bit B b k (r + 1) (Rxuartlite.next tb B s w) := by
  have hzero : s.zeroBaudCounter = false := by
    rw [h.zero, decide_eq_false (by omega)]
  have hstarts : Rxuartlite.starts s = false := h.starts hk
  have hwait : s.state ≠ 9 := by
    rw [h.state]
    omega
  refine ⟨?_, ?_, ?_, ?_, ?_⟩
  · rw [next_state, hzero, h.state, if_neg (by omega), if_neg (by omega)]
    rfl
  · rw [next_baudCounter, hstarts, hzero, if_neg (by decide), if_neg hwait]
    show countDown tb s.baudCounter = _
    rw [h.count, countDown_eq (by omega) (by omega)]
    omega
  · rw [next_zeroBaudCounter, hstarts, hzero, if_neg (by decide), if_neg hwait, h.count]
    show (if B - 1 - r = 1 then true else false) = _
    by_cases hone : r + 2 = B
    · rw [if_pos (by omega), decide_eq_true (by omega)]
    · rw [if_neg (by omega), decide_eq_false (by omega)]
  · simp [hzero]
  · intro j hj
    rw [next_dataReg, hzero]
    exact h.data j hj

/-- The middle of data bit `k`. -/
theorem Bit.capture (h : Bit B b k r s) (hB : 4 ≤ B) (hk : k < 8) (hr : r + 1 = B)
    (hqq : s.qqUart = b.getLsbD k) : Bit B b (k + 1) 0 (Rxuartlite.next tb B s w) := by
  have hzero : s.zeroBaudCounter = true := by
    rw [h.zero, decide_eq_true hr]
  have hstarts : Rxuartlite.starts s = false := h.starts (by omega)
  have hwait : s.state ≠ 9 := by
    rw [h.state]
    omega
  have hrun : (s.zeroBaudCounter && decide (s.state < 8)) = true := by
    rw [hzero, h.state, decide_eq_true hk]
    rfl
  have hshift : (s.zeroBaudCounter && decide (s.state ≠ 8)) = true := by
    rw [hzero, h.state, decide_eq_true (by omega)]
    rfl
  refine ⟨?_, ?_, ?_, ?_, ?_⟩
  · rw [next_state, hzero, h.state, if_neg (by omega), if_neg (by omega), if_pos rfl,
      if_pos (by omega)]
  · rw [next_baudCounter, hstarts, if_neg (by decide), if_neg hwait, if_pos hrun]
    rfl
  · rw [next_zeroBaudCounter, hstarts, if_neg (by decide), if_neg hwait, if_pos hrun,
      decide_eq_false (by omega)]
  · rw [next_oWr, h.state, decide_eq_false (by omega), Bool.and_false]
    rfl
  · intro j hj
    rw [next_dataReg, if_pos hshift, hqq, BitVec.getLsbD_append, BitVec.getLsbD_extractLsb']
    by_cases hjk : j = k
    · rw [if_neg (by omega), hjk, show 8 - (k + 1) + k - 7 = 0 by omega]
      simp
    · rw [if_pos (by omega), decide_eq_true (by omega), Bool.true_and,
        show 1 + (8 - (k + 1) + j) = 8 - k + j by omega]
      exact h.data j (by omega)

/-- The middle of the stop bit. -/
theorem Bit.stop (h : Bit B b 8 r s) (hr : r + 1 = B) (hck : s.ckUart = true) :
    Ending b (Rxuartlite.next tb B s w) := by
  have hzero : s.zeroBaudCounter = true := by
    rw [h.zero, decide_eq_true hr]
  have hstarts : Rxuartlite.starts s = false := h.starts (Nat.le_refl 8)
  have hdata : s.dataReg = b := by
    apply BitVec.eq_of_getLsbD_eq
    intro j hj
    have := h.data j hj
    rwa [Nat.sub_self, Nat.zero_add] at this
  refine ⟨?_, ?_, ?_, ?_⟩
  · simp [h.state, hzero]
  · rw [next_zeroBaudCounter, hstarts, if_neg (by decide), h.state, if_neg (by decide), hzero, h.count]
    have hno : (true && decide (8 < 8)) = false := rfl
    rw [hno, if_neg (by decide), if_neg (by omega)]
  · simp [h.state, hzero, hck]
  · simp [h.state, hzero, hck, hdata]

theorem Ending.next (h : Ending b s) (hck : s.ckUart = true) :
    Quiet (Rxuartlite.next tb B s w) := by
  have hstarts : Rxuartlite.starts s = false := by
    simp [Rxuartlite.starts, hck]
  refine ⟨?_, ?_, ?_⟩
  · simp [h.state, hck]
  · simp [h.state, hstarts]
  · simp [h.state]

end Steps

end Rxuartlite

/-! ## Both ends -/

namespace Uartlite

/-- The transmitter, `d` clocks after it accepted `b`. -/
inductive TxAt (B : ℕ) (b : BitVec 8) (d : ℕ) (s : Txuartlite) : Prop
  | bit (k r : ℕ) (hd : d = 1 + k * B + r) (hk : k ≤ 9) (hr : r < B) (h : s.Bit B b k r)
  | idle (hd : 1 + 10 * B ≤ d) (h : s.Idle)

/-- The synchroniser of the receiver. -/
structure Sync (B : ℕ) (b : BitVec 8) (d : ℕ) (s : Rxuartlite) : Prop where
  q : s.qUart = line B b (d - 1)
  qq : s.qqUart = line B b (d - 2)
  ck : s.ckUart = line B b (d - 3)

/-- The receiver.  The byte before may be strobed when the next one has just been accepted. -/
inductive RxAt (B : ℕ) (b : BitVec 8) (d : ℕ) (s : Rxuartlite) : Prop
  | tail (hd : d ≤ 3) (h : s.Quiet ∨ d = 1 ∧ ∃ b', s.Ending b')
  | waiting (j : ℕ) (hd : d = 4 + j) (hj : j < Rxuartlite.halfBaud B) (h : s.Waiting B j)
  | bit (k r : ℕ) (hd : d = 4 + Rxuartlite.halfBaud B + k * B + r) (hk : k ≤ 8) (hr : r < B)
      (h : s.Bit B b k r)
  | ending (hd : d = 4 + Rxuartlite.halfBaud B + 9 * B) (h : s.Ending b)
  | quiet (hd : 5 + Rxuartlite.halfBaud B + 9 * B ≤ d) (h : s.Quiet)

section Steps

variable {tbTx tbRx B d : ℕ} {b : BitVec 8}

theorem TxAt.line {s : Txuartlite} (h : TxAt B b d s) (hB : 0 < B) :
    s.oUartTx = Peripheral.line B b d := by
  cases h with
  | bit k r hd hk hr h => rw [h.line, hd, line_bit b k hr]
  | idle hd h => rw [h.line, line_high b hB (by omega)]

theorem TxAt.next {s : Txuartlite} (h : TxAt B b d s) (hp : BaudOk tbTx tbRx B) {iWr : Bool}
    (iData : BitVec 8) (hacc : s.accepts iWr = false) :
    TxAt B b (d + 1) (s.next tbTx B iWr iData) := by
  cases h with
  | bit k r hd hk hr h =>
    by_cases hlast : r + 1 = B
    · by_cases hstop : k = 9
      · subst hstop
        exact .idle (by omega) (h.done hlast)
      · refine .bit (k + 1) 0 ?_ (by omega) (by omega) (h.last hp.four (by omega) hlast)
        rw [Nat.succ_mul]
        omega
    · exact .bit k (r + 1) (by omega) hk (by omega) (h.next hk (by omega) hp.tx)
  | idle hd h => exact .idle (by omega) (h.next hacc)

/-- Only an idle transmitter accepts. -/
theorem TxAt.idle_of_ready {s : Txuartlite} (h : TxAt B b d s) (hready : s.rBusy = false) :
    1 + 10 * B ≤ d ∧ s.Idle := by
  cases h with
  | bit k r hd hk hr h =>
    rw [h.busy] at hready
    cases hready
  | idle hd h => exact ⟨hd, h⟩

theorem half_lt (hp : BaudOk tbTx tbRx B) :
    2 ≤ Rxuartlite.halfBaud B ∧ 2 * Rxuartlite.halfBaud B ≤ B := by
  have := hp.four
  unfold Rxuartlite.halfBaud
  omega

theorem RxAt.next {s : Rxuartlite} (h : RxAt B b d s) (hp : BaudOk tbTx tbRx B) (hd1 : 1 ≤ d)
    (hs : Sync B b d s) (w : Bool) : RxAt B b (d + 1) (s.next tbRx B w) := by
  obtain ⟨-, hqq, hck⟩ := hs
  obtain ⟨hhalf, hhalf'⟩ := half_lt hp
  have hfour := hp.four
  cases h with
  | tail hd h =>
    have hhigh : s.ckUart = true := by
      rw [hck, show d - 3 = 0 by omega]
      rfl
    rcases h with h | ⟨rfl, b', h⟩
    · by_cases h3 : d = 3
      · subst h3
        have hfall : s.qqUart = false := by
          rw [hqq, show 3 - 2 = 1 + 0 * B + 0 by omega, line_bit b 0 (by omega)]
          rfl
        exact .waiting 0 rfl (by omega) (h.fall hfour hhigh hfall)
      · exact .tail (by omega) (.inl (h.next hhigh))
    · exact .tail (by omega) (.inl (h.next hhigh))
  | waiting j hd hj h =>
    have hlow : s.ckUart = false := by
      rw [hck, show d - 3 = 1 + 0 * B + j by omega, line_bit b 0 (by omega)]
      rfl
    have hlow' : s.qqUart = false := by
      rw [hqq, show d - 2 = 1 + 0 * B + (j + 1) by omega, line_bit b 0 (by omega)]
      rfl
    by_cases hmid : j + 1 = Rxuartlite.halfBaud B
    · exact .bit 0 0 (by omega) (by omega) (by omega) (h.middle hfour hmid hlow)
    · exact .waiting (j + 1) (by omega) (by omega) (h.next hfour hp.rx (by omega) hlow hlow')
  | bit k r hd hk hr h =>
    by_cases hlast : r + 1 = B
    · by_cases hstop : k = 8
      · subst hstop
        have hhigh : s.ckUart = true := by
          rw [hck]
          exact line_high b (by omega) (by omega)
        exact .ending (by omega) (h.stop hlast hhigh)
      · have hsample : s.qqUart = b.getLsbD k := by
          have hline := line_bit (B := B) (r := Rxuartlite.halfBaud B) b (k + 1) (by omega)
          rw [Nat.succ_mul] at hline
          rw [hqq, show d - 2 = 1 + (k * B + B) + Rxuartlite.halfBaud B by omega, hline]
          unfold frameBit
          rw [if_neg (Nat.succ_ne_zero k), if_pos (by omega), Nat.add_sub_cancel]
        refine .bit (k + 1) 0 ?_ (by omega) (by omega) (h.capture hfour (by omega) hlast hsample)
        rw [Nat.succ_mul]
        omega
    · exact .bit k (r + 1) (by omega) hk (by omega) (h.next hk (by omega) hp.rx)
  | ending hd h =>
    have hhigh : s.ckUart = true := by
      rw [hck]
      exact line_high b (by omega) (by omega)
    exact .quiet (by omega) (h.next hhigh)
  | quiet hd h =>
    have hhigh : s.ckUart = true := by
      rw [hck]
      exact line_high b (by omega) (by omega)
    exact .quiet (by omega) (h.next hhigh)

/-- The next byte is accepted: the receiver has come to the stop bit, at least. -/
theorem RxAt.again {s : Rxuartlite} (h : RxAt B b d s) (hp : BaudOk tbTx tbRx B)
    (hd : 1 + 10 * B ≤ d) (hs : Sync B b d s) (w : Bool) (b' : BitVec 8) :
    RxAt B b' 1 (s.next tbRx B w) := by
  obtain ⟨hhalf, hhalf'⟩ := half_lt hp
  have hfour := hp.four
  have hhigh : s.ckUart = true := by
    rw [hs.ck]
    exact line_high b (by omega) (by omega)
  cases h with
  | tail h3 h => omega
  | waiting j hj hjB h => omega
  | bit k r hk hk8 hr h =>
    have hstop : k = 8 := by
      by_contra hne
      have hle : k * B ≤ 7 * B := Nat.mul_le_mul_right B (by omega)
      omega
    subst hstop
    exact .tail (by omega) (.inr ⟨rfl, b, h.stop (by omega) hhigh⟩)
  | ending hd' h => exact .tail (by omega) (.inl (h.next hhigh))
  | quiet hd' h => exact .tail (by omega) (.inl (h.next hhigh))

/-- Later, the one strobe is that of the byte. -/
theorem RxAt.strobed {s : Uartlite} (h : RxAt B b d s.rx) (hd : 2 ≤ d) :
    strobed s = if d = 4 + Rxuartlite.halfBaud B + 9 * B then [b] else [] := by
  have hnone : ∀ {t : Rxuartlite}, t.Quiet → (if t.oWr then [t.oData] else []) = [] := by
    intro t ht
    rw [ht.strobe]
    rfl
  unfold Uartlite.strobed
  cases h with
  | tail h3 h =>
    rw [if_neg (c := d = _) (by omega)]
    rcases h with h | ⟨hone, -⟩
    · exact hnone h
    · omega
  | waiting j hj hjB h =>
    rw [if_neg (c := d = _) (by omega)]
    exact hnone h.toQuiet
  | bit k r hk hk8 hr h =>
    have hle : k * B ≤ 8 * B := Nat.mul_le_mul_right B hk8
    rw [if_neg (c := d = _) (by omega), h.strobe]
    rfl
  | ending hd' h => rw [if_pos hd', h.strobe, h.data, if_pos rfl]
  | quiet hd' h =>
    rw [if_neg (c := d = _) (by omega)]
    exact hnone h

theorem Sync.next {s : Uartlite} (h : Sync B b d s.rx) (htx : TxAt B b d s.tx) (hB : 0 < B) :
    Sync B b (d + 1) (s.rx.next tbRx B s.tx.oUartTx) := by
  refine ⟨?_, ?_, ?_⟩
  · rw [Rxuartlite.next_qUart, htx.line hB, Nat.add_sub_cancel]
  · rw [Rxuartlite.next_qqUart, h.q]
    congr 1
  · rw [Rxuartlite.next_ckUart, h.qq]
    congr 1

/-- The stop bit fills the synchroniser. -/
theorem Sync.again {s : Uartlite} (h : Sync B b d s.rx) (hidle : s.tx.Idle) (hB : 4 ≤ B)
    (hd : 1 + 10 * B ≤ d) (b' : BitVec 8) :
    Sync B b' 1 (s.rx.next tbRx B s.tx.oUartTx) := by
  refine ⟨?_, ?_, ?_⟩
  · rw [Rxuartlite.next_qUart, hidle.line]
    rfl
  · rw [Rxuartlite.next_qqUart, h.q, line_high b (by omega) (by omega)]
    rfl
  · rw [Rxuartlite.next_ckUart, h.qq, line_high b (by omega) (by omega)]
    rfl

end Steps

/-! ## Runs -/

/-- Nothing has been sent yet. -/
structure Unused (s : Uartlite) : Prop where
  tx : s.tx.Idle ∨ s.tx = Txuartlite.init
  rx : s.rx.Quiet
  q : s.rx.qUart = true
  qq : s.rx.qqUart = true
  ck : s.rx.ckUart = true

/-- The byte `b` was accepted last, `d` clocks ago, after those of `pre`. -/
structure Sending (B : ℕ) (pre : List (BitVec 8)) (b : BitVec 8) (d : ℕ) (s : Uartlite)
    (sent heard : List (BitVec 8)) : Prop where
  pos : 1 ≤ d
  tx : TxAt B b d s.tx
  sync : Sync B b d s.rx
  rx : RxAt B b d s.rx
  sent : sent = pre ++ [b]
  heard : heard = pre ++ if 4 + Rxuartlite.halfBaud B + 9 * B ≤ d then [b] else []

/-- What has been accepted before, and what has been strobed by now, in a state that is reached. -/
inductive Reached (B : ℕ) (s : Uartlite) (sent heard : List (BitVec 8)) : Prop
  | unused (h : Unused s) (hsent : sent = []) (hheard : heard = [])
  | sending (pre : List (BitVec 8)) (b : BitVec 8) (d : ℕ) (h : Sending B pre b d s sent heard)

section Runs

variable {tbTx tbRx B : ℕ} {s : Uartlite} {sent heard : List (BitVec 8)}

theorem accepted_of_not {i : Bool × BitVec 8} (h : s.tx.accepts i.1 = false) :
    accepted s i = [] := by
  unfold accepted
  rw [h]
  rfl

theorem Unused.next (h : Unused s) (hp : BaudOk tbTx tbRx B) (i : Bool × BitVec 8) :
    Reached B (Uartlite.next tbTx tbRx B s i) (accepted s i)
      (strobed (Uartlite.next tbTx tbRx B s i)) := by
  have hrx : (s.rx.next tbRx B s.tx.oUartTx).Quiet := h.rx.next h.ck
  have hline : s.tx.oUartTx = true := by
    rcases h.tx with htx | htx
    · exact htx.line
    · rw [htx]
      rfl
  have hheard : strobed (Uartlite.next tbTx tbRx B s i) = [] := by
    show (if (s.rx.next tbRx B s.tx.oUartTx).oWr then _ else []) = _
    rw [hrx.strobe]
    rfl
  rw [hheard]
  cases hacc : s.tx.accepts i.1 with
  | false =>
    refine .unused ⟨.inl ?_, hrx, hline, h.q, h.qq⟩ (accepted_of_not hacc) rfl
    rcases h.tx with htx | htx
    · exact htx.next hacc
    · show (s.tx.next tbTx B i.1 i.2).Idle
      rw [htx]
      exact Txuartlite.idle_init
  | true =>
    have hidle : s.tx.Idle := by
      rcases h.tx with htx | htx
      · exact htx
      · rw [htx] at hacc
        simp [Txuartlite.accepts, Txuartlite.init] at hacc
    refine .sending [] i.2 1 ⟨Nat.le_refl 1, ?_, ⟨hline, h.q, h.qq⟩, ?_, ?_, ?_⟩
    · exact .bit 0 0 (by omega) (by omega) (by have := hp.four; omega) (hidle.start hp.four hacc)
    · exact .tail (by omega) (.inl hrx)
    · unfold accepted
      rw [hacc]
      rfl
    · rw [if_neg (by omega)]
      rfl

/-- One clock, while no byte is accepted. -/
theorem Sending.next {pre : List (BitVec 8)} {b : BitVec 8} {d : ℕ}
    (h : Sending B pre b d s sent heard) (hp : BaudOk tbTx tbRx B) {i : Bool × BitVec 8}
    (hacc : s.tx.accepts i.1 = false) : Sending B pre b (d + 1) (Uartlite.next tbTx tbRx B s i) sent
      (heard ++ strobed (Uartlite.next tbTx tbRx B s i)) := by
  have hB : 0 < B := by
    have := hp.four
    omega
  have hpos := h.pos
  have hrx : RxAt B b (d + 1) (Uartlite.next tbTx tbRx B s i).rx := h.rx.next hp h.pos h.sync _
  refine ⟨by omega, h.tx.next hp i.2 hacc, h.sync.next h.tx hB, hrx, h.sent, ?_⟩
  rw [hrx.strobed (by omega), h.heard, List.append_assoc]
  congr 1
  by_cases hnow : d + 1 = 4 + Rxuartlite.halfBaud B + 9 * B
  · rw [if_pos hnow, if_neg (by omega), if_pos (by omega)]
    rfl
  · rw [if_neg hnow, List.append_nil]
    by_cases hpast : 4 + Rxuartlite.halfBaud B + 9 * B ≤ d
    · rw [if_pos hpast, if_pos (by omega)]
    · rw [if_neg hpast, if_neg (by omega)]

/-- The clock on which the next byte is accepted. -/
theorem Sending.again {pre : List (BitVec 8)} {b : BitVec 8} {d : ℕ}
    (h : Sending B pre b d s sent heard) (hp : BaudOk tbTx tbRx B) {i : Bool × BitVec 8}
    (hacc : s.tx.accepts i.1 = true) : Sending B sent i.2 1 (Uartlite.next tbTx tbRx B s i)
      (sent ++ [i.2]) (heard ++ strobed (Uartlite.next tbTx tbRx B s i)) := by
  have hready : s.tx.rBusy = false := by
    unfold Txuartlite.accepts at hacc
    rw [Bool.and_eq_true, Bool.not_eq_true'] at hacc
    exact hacc.2
  obtain ⟨hd, hidle⟩ := h.tx.idle_of_ready hready
  obtain ⟨hhalf, hhalf'⟩ := half_lt hp
  have hfour := hp.four
  -- had no byte been accepted, the receiver would be the same
  have hrx : RxAt B b (d + 1) (Uartlite.next tbTx tbRx B s i).rx := h.rx.next hp h.pos h.sync _
  refine ⟨Nat.le_refl 1, ?_, h.sync.again hidle hfour hd _, h.rx.again hp hd h.sync _ _, rfl, ?_⟩
  · exact .bit 0 0 (by omega) (by omega) (by omega) (hidle.start hfour hacc)
  · rw [hrx.strobed (by omega), h.heard, h.sent, List.append_assoc, if_neg (c := _ ≤ 1) (by omega),
      List.append_nil]
    congr 1
    by_cases hnow : d + 1 = 4 + Rxuartlite.halfBaud B + 9 * B
    · rw [if_pos hnow, if_neg (by omega)]
      rfl
    · rw [if_neg hnow, if_pos (by omega)]
      rfl

theorem Reached.next (h : Reached B s sent heard) (hp : BaudOk tbTx tbRx B)
    (i : Bool × BitVec 8) : Reached B (Uartlite.next tbTx tbRx B s i) (sent ++ accepted s i)
      (heard ++ strobed (Uartlite.next tbTx tbRx B s i)) := by
  cases h with
  | unused h hsent hheard =>
    rw [hsent, hheard]
    exact h.next hp i
  | sending pre b d h =>
    cases hacc : s.tx.accepts i.1 with
    | false =>
      rw [accepted_of_not hacc, List.append_nil]
      exact .sending pre b (d + 1) (h.next hp hacc)
    | true =>
      have hi : accepted s i = [i.2] := by
        unfold accepted
        rw [hacc]
        rfl
      rw [hi]
      exact .sending sent i.2 1 (h.again hp hacc)

/-- At most the last byte has not been heard. -/
theorem Reached.behind (h : Reached B s sent heard) : sent = heard ∨ ∃ b, sent = heard ++ [b] := by
  cases h with
  | unused h hsent hheard => exact .inl (hsent.trans hheard.symm)
  | sending pre b d h =>
    rw [h.sent, h.heard]
    split
    · exact .inl rfl
    · exact .inr ⟨b, by rw [List.append_nil]⟩

/-- An idle transmitter has been heard out. -/
theorem Reached.heard_of_idle (h : Reached B s sent heard) (hp : BaudOk tbTx tbRx B)
    (hB : 5 ≤ B) (hready : s.tx.rBusy = false) : heard = sent := by
  cases h with
  | unused h hsent hheard => exact hheard.trans hsent.symm
  | sending pre b d h =>
    obtain ⟨hd, -⟩ := h.tx.idle_of_ready hready
    obtain ⟨hhalf, hhalf'⟩ := half_lt hp
    rw [h.sent, h.heard, if_pos (by omega)]

/-- And on the next clock whatever the divider. -/
theorem Reached.heard_next (h : Reached B s sent heard) (hp : BaudOk tbTx tbRx B)
    (hready : s.tx.rBusy = false) (i : Bool × BitVec 8) :
    heard ++ strobed (Uartlite.next tbTx tbRx B s i) = sent := by
  cases h with
  | unused h hsent hheard =>
    have hrx : (s.rx.next tbRx B s.tx.oUartTx).Quiet := h.rx.next h.ck
    show heard ++ (if (s.rx.next tbRx B s.tx.oUartTx).oWr then _ else []) = _
    rw [hsent, hheard, hrx.strobe]
    rfl
  | sending pre b d h =>
    obtain ⟨hd, -⟩ := h.tx.idle_of_ready hready
    obtain ⟨hhalf, hhalf'⟩ := half_lt hp
    have hfour := hp.four
    have hrx : RxAt B b (d + 1) (Uartlite.next tbTx tbRx B s i).rx := h.rx.next hp h.pos h.sync _
    rw [hrx.strobed (by omega), h.heard, h.sent, List.append_assoc]
    congr 1
    by_cases hnow : d + 1 = 4 + Rxuartlite.halfBaud B + 9 * B
    · rw [if_pos hnow, if_neg (by omega)]
      rfl
    · rw [if_neg hnow, if_pos (by omega)]
      rfl

end Runs

/-- Both ends, at each clock. -/
def state (tbTx tbRx B : ℕ) (x : ℕ → Bool × BitVec 8) : ℕ → Uartlite :=
  Clocked.run (next tbTx tbRx B) (init tbRx) x

/-- The bytes accepted before clock `t`. -/
def sent (tbTx tbRx B : ℕ) (x : ℕ → Bool × BitVec 8) : ℕ → List (BitVec 8) :=
  Clocked.events (next tbTx tbRx B) accepted (init tbRx) x

/-- The bytes strobed up to clock `t`. -/
def heard (tbTx tbRx B : ℕ) (x : ℕ → Bool × BitVec 8) (t : ℕ) : List (BitVec 8) :=
  Clocked.events (next tbTx tbRx B) (fun s _ => strobed s) (init tbRx) x t ++
    strobed (state tbTx tbRx B x t)

theorem reached {tbTx tbRx B : ℕ} (hp : BaudOk tbTx tbRx B) (x : ℕ → Bool × BitVec 8) (t : ℕ) :
    Reached B (state tbTx tbRx B x t) (sent tbTx tbRx B x t) (heard tbTx tbRx B x t) := by
  induction t with
  | zero => exact .unused ⟨.inr rfl, Rxuartlite.quiet_init, rfl, rfl, rfl⟩ rfl rfl
  | succ t ih => exact ih.next hp (x t)

/-- **Delivery.**  The receiver has strobed the bytes that the transmitter has accepted, in order,
    but for the one that is being sent; and when the transmitter is idle, all of them, if not on
    that clock then on the next. -/
theorem delivers {tbTx tbRx B : ℕ} (hp : BaudOk tbTx tbRx B) (x : ℕ → Bool × BitVec 8) (t : ℕ) :
    (sent tbTx tbRx B x t = heard tbTx tbRx B x t ∨
      ∃ b, sent tbTx tbRx B x t = heard tbTx tbRx B x t ++ [b]) ∧
    ((state tbTx tbRx B x t).tx.oBusy = false →
      (5 ≤ B → heard tbTx tbRx B x t = sent tbTx tbRx B x t) ∧
        heard tbTx tbRx B x (t + 1) = sent tbTx tbRx B x t) := by
  have hreached := reached hp x t
  refine ⟨hreached.behind, ?_⟩
  intro hready
  exact ⟨fun hB => hreached.heard_of_idle hp hB hready, hreached.heard_next hp hready (x t)⟩

/-- One byte, on clock 1. -/
def oneByte (t : ℕ) : Bool × BitVec 8 := (t == 1, 0x5a#8)

theorem delivers_oneByte : heard 3 3 5 oneByte 52 = sent 3 3 5 oneByte 52 ∧
    sent 3 3 5 oneByte 52 = [0x5a#8] := by
  have hidle : (state 3 3 5 oneByte 52).tx.oBusy = false := by
    decide +kernel
  refine ⟨((delivers ⟨by decide, by decide, by decide⟩ oneByte 52).2 hidle).1 (by decide), ?_⟩
  decide +kernel

/-- With four clocks a bit the transmitter is idle a clock before the byte is strobed. -/
theorem idle_before_strobe : (state 3 3 4 oneByte 42).tx.oBusy = false ∧
    sent 3 3 4 oneByte 42 = [0x5a#8] ∧ heard 3 3 4 oneByte 42 = [] := by
  refine ⟨?_, ?_, ?_⟩ <;> decide +kernel

end Uartlite

end ZipStormMX.Peripheral
