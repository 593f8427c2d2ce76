/-
  The blocks that the SD card controller sends and receives, byte by byte.

  The card's side of a FIFO goes through its bytes at an address of its own, the four memories of a
  word one after the other, whichever way the block goes.  So a block that comes back as it was sent
  ends up in the memories that it was taken from (`Sends.bytes_eq`, `Receives.contents_eq`).  That it
  does so depends on the shifter: between two of its bytes there are clocks enough for the address to
  advance and for the memory to be read.
-/
import ZipStormMX.Sdcard.Contents

namespace ZipStormMX.Sdcard

namespace Sdspi

variable {c : SdspiCfg} {s : Sdspi c.lgfifoln} {i : SdspiIn}

/-! ## The state machine at rest -/

/-- Nothing goes on while the controller is not busy. -/
structure Free (s : Sdspi c.lgfifoln) : Prop where
  llCmdStb : s.rCmdBusy = false → s.llCmdStb = false
  preCmdState : s.rCmdBusy = false → s.preCmdState = false
  llFifoWr : s.rCmdBusy = false → s.llFifoWr = false
  llFifoRd : s.rCmdBusy = false → s.llFifoRd = false

/-- With nothing offered to the shifter, and no byte just taken, the state machine falls back. -/
theorem falls_back (hpre : s.preCmdState = false) (hstb : s.llCmdStb = false)
    (hstart : starts c s = false) : (next c s i).llCmdStb = false ∧
      (next c s i).preCmdState = false ∧ (next c s i).llFifoWr = false ∧
      (next c s i).llFifoRd = false := by
  refine ⟨?_, ?_, ?_, ?_⟩
  · simp [nextLlCmdStb, hpre, hstart, hstb]
  · simp [taken, hstb]
  · simp [nextLlFifoWr, firstResponse, writingDone, responds, hpre, hstb]
  · simp [nextLlFifoRd, hpre, hstb]

theorem free_first (h : AtPowerUp c s) : Free (c := c) (next c s i) := by
  have hstart : (next c s i).rCmdBusy = false → starts c s = false := by
    intro hb
    rw [next_rCmdBusy, nextCmdBusy, h.rCmdBusy] at hb
    cases hs : starts c s
    · rfl
    · simp [hs] at hb
  refine ⟨fun hb => ?_, fun _ => ?_, fun _ => ?_, fun _ => ?_⟩
  · simp [nextLlCmdStb, hstart hb, h.llCmdStb, h.rUseFifo]
  · simp [taken, h.llCmdStb]
  · simp [nextLlFifoWr, h.rUseFifo, h.llCmdStb]
  · simp [nextLlFifoRd, h.rUseFifo, h.llCmdStb]

theorem Free.next (h : Free (c := c) s) : Free (c := c) (Sdspi.next c s i) := by
  have hfalls : (Sdspi.next c s i).rCmdBusy = false → (Sdspi.next c s i).llCmdStb = false ∧
      (Sdspi.next c s i).preCmdState = false ∧ (Sdspi.next c s i).llFifoWr = false ∧
      (Sdspi.next c s i).llFifoRd = false := by
    intro hb
    rw [next_rCmdBusy] at hb
    unfold nextCmdBusy at hb
    cases hbusy : s.rCmdBusy
    · have hstart : starts c s = false := by
        cases hs : starts c s
        · rfl
        · simp [hbusy, hs] at hb
      exact falls_back (h.preCmdState hbusy) (h.llCmdStb hbusy) hstart
    · have hstart : starts c s = false := by simp [starts, hbusy]
      cases hpre : s.preCmdState
      · rw [hbusy, hpre] at hb
        simp only [Bool.not_false, Bool.true_and, if_true, Bool.or_eq_false_iff] at hb
        exact falls_back hpre hb.1 hstart
      · simp [hbusy, hpre, hstart] at hb
  exact ⟨fun hb => (hfalls hb).1, fun hb => (hfalls hb).2.1, fun hb => (hfalls hb).2.2.1,
    fun hb => (hfalls hb).2.2.2⟩

/-- A block is read from the FIFO in one state of the state machine. -/
theorem sixth_next (h : s.llFifoRd = true → s.rCmdState = 6) (hrd : (next c s i).llFifoRd = true) :
    (next c s i).rCmdState = 6 := by
  rw [next_llFifoRd] at hrd
  rw [next_rCmdState]
  unfold nextLlFifoRd at hrd
  unfold nextCmdState
  by_cases hfive : (s.preCmdState && s.rCmdState == 5 && s.rHaveResp) = true
  · rw [if_pos hfive, Bool.and_eq_true] at hrd
    simp only [Bool.and_eq_true, beq_iff_eq] at hfive
    simp [hfive, hrd]
  · rw [if_neg hfive] at hrd
    by_cases hend : (s.preCmdState && s.rCmdState == 6 && s.llFifoRdComplete) = true
    · rw [if_pos hend] at hrd
      exact absurd hrd (by decide)
    · rw [if_neg hend] at hrd
      by_cases hstb : (!s.llCmdStb) = true
      · rw [if_pos hstb] at hrd
        exact absurd hrd (by decide)
      · rw [if_neg hstb] at hrd
        have hsix := h hrd
        rw [hsix, if_neg (by simp), if_neg (by simp)]
        rw [hsix] at hend
        rw [if_neg hend, if_neg hstb]

/-- A block goes the way that its command says. -/
structure Directs (s : Sdspi c.lgfifoln) : Prop where
  outwards : s.llFifoRd = true → s.rFifoWr = true
  inwards : s.llFifoWr = true → s.rFifoWr = false

theorem directs_first (h : AtPowerUp c s) : Directs (c := c) (next c s i) where
  outwards hrd := by simp [nextLlFifoRd, h.rUseFifo, h.llCmdStb] at hrd
  inwards hwr := by simp [nextLlFifoWr, h.rUseFifo, h.llCmdStb] at hwr

theorem rFifoWr_busy (hbusy : s.rCmdBusy = true) : (next c s i).rFifoWr = s.rFifoWr := by
  simp [starts, hbusy]

theorem rFifoId_busy (hbusy : s.rCmdBusy = true) : (next c s i).rFifoId = s.rFifoId := by
  simp [hbusy]

theorem Directs.next (h : Directs (c := c) s) (hfree : Free (c := c) s) :
    Directs (c := c) (Sdspi.next c s i) := by
  cases hbusy : s.rCmdBusy
  · -- nothing is under way
    have hpre := hfree.preCmdState hbusy
    have hstb := hfree.llCmdStb hbusy
    refine ⟨fun hrd => ?_, fun hwr => ?_⟩
    · simp [nextLlFifoRd, hpre, hstb] at hrd
    · simp [nextLlFifoWr, firstResponse, writingDone, responds, hpre, hstb] at hwr
  · refine ⟨fun hrd => ?_, fun hwr => ?_⟩
    · rw [rFifoWr_busy hbusy]
      rw [next_llFifoRd, nextLlFifoRd] at hrd
      split_ifs at hrd
      · rw [Bool.and_eq_true] at hrd
        exact hrd.2
      · exact h.outwards hrd
    · rw [rFifoWr_busy hbusy]
      rw [next_llFifoWr, nextLlFifoWr] at hwr
      split_ifs at hwr
      · rw [Bool.and_eq_true, Bool.not_eq_true'] at hwr
        exact hwr.2
      · exact h.inwards hwr

/-! ## The strobes -/

/-- What a strobe of the shifter sets off is over before the next one. -/
structure Spread (c : SdspiCfg) (s : Sdspi c.lgfifoln) : Prop where
  strobe : llOutStb c s = true → (∀ f, (fifo c s f).preWr = false) ∧ s.preFifoCrcA = false ∧
    s.preFifoCrcB = false ∧ s.preFifoAddrIncWr = false
  data : ∀ f, (fifo c s f).preWr = true → s.llFifoWrState = 0b00 ∧ s.rFifoId = f
  crcA : s.preFifoCrcA = true → s.llFifoWrState = 0b01
  crcB : s.preFifoCrcB = true → s.llFifoWrState = 0b10

theorem preWr_next (f : Bool) : (fifo c (next c s i) f).preWr = cardByte c s f := by
  rw [fifo_next]
  rfl

theorem spread_first (h : AtPowerUp c s) : Spread c (next c s i) where
  strobe _ := by
    refine ⟨fun f => ?_, ?_, ?_, ?_⟩
    · rw [preWr_next, cardByte, h.llFifoWr]
      rfl
    all_goals simp [h.llFifoWr]
  data f hf := by
    rw [preWr_next, cardByte, h.llFifoWr] at hf
    exact absurd hf Bool.false_ne_true
  crcA ha := by simp [h.llFifoWr] at ha
  crcB hb := by simp [h.llFifoWr] at hb

/-- The state of a block that comes in is not touched by a strobe itself. -/
theorem Spread.wrState_next (h : Spread c s) (hstb : llOutStb c s = true)
    (hbusy : s.rCmdBusy = true) : (Sdspi.next c s i).llFifoWrState = s.llFifoWrState := by
  obtain ⟨hpre, hA, hB, -⟩ := h.strobe hstb
  have ha : s.fifoA.preWr = false := hpre false
  have hb : s.fifoB.preWr = false := hpre true
  simp [nextWrState, hA, hB, hbusy, ha, hb]

theorem strobe_next (hrests : s.lowlevel.Rests) (hstb : llOutStb c s = true) :
    llOutStb c (next c s i) = false := Llsdspi.oStb_twice hrests hstb

theorem llOutDat_next (hstb : llOutStb c (next c s i) = false) :
    llOutDat c (next c s i) = llOutDat c s := Llsdspi.oByte_stays hstb

theorem Spread.next (h : Spread c s) (hfree : Free (c := c) s) (hrests : s.lowlevel.Rests) :
    Spread c (Sdspi.next c s i) := by
  have hbusy : s.llFifoWr = true → s.rCmdBusy = true := by
    intro hwr
    cases hb : s.rCmdBusy
    · rw [hfree.llFifoWr hb] at hwr
      exact hwr
    · rfl
  refine ⟨fun hstb' => ?_, fun f hf => ?_, fun ha => ?_, fun hb => ?_⟩
  · have hstb : llOutStb c s = false := by
      rw [Bool.eq_false_iff]
      intro hstb
      rw [strobe_next hrests hstb] at hstb'
      exact absurd hstb' (by decide)
    refine ⟨fun f => ?_, ?_, ?_, ?_⟩
    · rw [preWr_next, cardByte, hstb, Bool.and_false]
      rfl
    all_goals simp [hstb]
  · rw [preWr_next, cardByte] at hf
    simp only [Bool.and_eq_true, beq_iff_eq] at hf
    obtain ⟨⟨⟨hwr, hstb⟩, hid⟩, hst⟩ := hf
    refine ⟨(h.wrState_next hstb (hbusy hwr)).trans hst, ?_⟩
    rw [next_rFifoId, hbusy hwr]
    simpa using hid
  · rw [next_preFifoCrcA] at ha
    simp only [Bool.and_eq_true, beq_iff_eq] at ha
    exact (h.wrState_next ha.1.2 (hbusy ha.1.1)).trans ha.2
  · rw [next_preFifoCrcB] at hb
    simp only [Bool.and_eq_true, beq_iff_eq] at hb
    exact (h.wrState_next hb.1.2 (hbusy hb.1.1)).trans hb.2

/-- Once the block is complete, it stays so. -/
theorem Spread.wrState_done (h : Spread c s) (hbusy : s.rCmdBusy = true)
    (hst : s.llFifoWrState ≠ 0b00) : (Sdspi.next c s i).llFifoWrState ≠ 0b00 := by
  have hno : ∀ f, (fifo c s f).preWr = false := by
    intro f
    rw [Bool.eq_false_iff]
    intro hf
    exact hst (h.data f hf).1
  have ha : s.fifoA.preWr = false := hno false
  have hb : s.fifoB.preWr = false := hno true
  rw [next_llFifoWrState, nextWrState]
  cases hA : s.preFifoCrcA
  · cases hB : s.preFifoCrcB
    · simpa [hbusy, ha, hb] using hst
    · rw [h.crcB hB, if_pos (show (false || true) = true from rfl)]
      decide
  · rw [h.crcA hA, if_pos (show (true || s.preFifoCrcB) = true from rfl)]
    decide

/-! ## Addresses -/

/-- The card's side counts the bytes of a FIFO. -/
theorem parts_iff {lg : ℕ} (a : BitVec (lg + 2)) (p : BitVec lg) (k : Fin 4) :
    (wordPart a = p ∧ lanePart a = k) ↔ a.toNat = 4 * p.toNat + k.val := by
  have hword : (wordPart a).toNat = a.toNat / 4 := by
    rw [wordPart, BitVec.extractLsb'_toNat, Nat.shiftRight_eq_div_pow]
    have hlt := a.isLt
    rw [Nat.pow_add] at hlt
    exact Nat.mod_eq_of_lt (by omega)
  have hlane : (lanePart a).val = a.toNat % 4 := by
    show (a.extractLsb' 0 2).toNat = _
    rw [BitVec.extractLsb'_toNat, Nat.shiftRight_zero]
  rw [← BitVec.toNat_inj, Fin.ext_iff, hword, hlane]
  have hk := k.isLt
  omega

theorem ofNat_parts {lg n : ℕ} (hn : n < 4 * 2 ^ lg) (p : BitVec lg) (k : Fin 4) :
    (wordPart (BitVec.ofNat (lg + 2) n) = p ∧ lanePart (BitVec.ofNat (lg + 2) n) = k) ↔
      n = 4 * p.toNat + k.val := by
  rw [parts_iff, BitVec.toNat_ofNat, Nat.mod_eq_of_lt]
  rw [Nat.pow_add]
  omega

/-! ## A block that comes in -/

/-- A byte of the block is strobed. -/
def gets (c : SdspiCfg) (s : Sdspi c.lgfifoln) : Bool :=
  s.llFifoWr && llOutStb c s && s.rHaveStartToken && s.llFifoWrState == 0b00

/-- The bytes of a block that are strobed on `n` clocks from clock `a` on. -/
def received (c : SdspiCfg) (s : ℕ → Sdspi c.lgfifoln) (a : ℕ) : ℕ → List (BitVec 8)
  | 0 => []
  | n + 1 =>
    received c s a n ++ if gets c (s (a + n)) then [llOutDat c (s (a + n))] else []

/-- The bytes `l` have come in.  The last of them may still be on its way to the write port. -/
structure Receiving (c : SdspiCfg) (s : Sdspi c.lgfifoln) (g : Bool) (l : List (BitVec 8)) :
    Prop where
  id : s.rFifoId = g
  reads : s.preFifoAddrIncRd = false
  token : s.rHaveStartToken = false → l = []
  address : s.llFifoWrState = 0b00 → s.preFifoAddrIncWr = false →
    s.llFifoAddr = BitVec.ofNat _ l.length
  advance : s.llFifoWrState = 0b00 → s.preFifoAddrIncWr = true → (fifo c s g).preWr = true
  early : (fifo c s g).preWr = true → s.preFifoAddrIncWr = false → l = []
  last : (fifo c s g).preWr = true → s.preFifoAddrIncWr = true → ∃ l', l = l' ++ [llOutDat c s] ∧
    s.llFifoAddr = BitVec.ofNat _ l'.length ∧
    ∀ (p : BitVec c.lgfifoln) (k : Fin 4), 4 * p.toNat + k.val < l'.length →
      l[4 * p.toNat + k.val]? = some (contents c s g k p)
  bytes : (fifo c s g).preWr = false → ∀ (p : BitVec c.lgfifoln) (k : Fin 4),
    4 * p.toNat + k.val < l.length → l[4 * p.toNat + k.val]? = some (contents c s g k p)

theorem receiving_first (hfree : Free (c := c) s) (hbusy : s.rCmdBusy = false) {g : Bool}
    (hid : (next c s i).rFifoId = g) : Receiving c (next c s i) g [] where
  id := hid
  reads := by simp [takenFromFifo, hfree.llFifoRd hbusy]
  token _ := rfl
  address _ _ := by
    simp [nextLlFifoAddr, hbusy]
  advance _ hinc := by simp [hfree.llFifoWr hbusy] at hinc
  early _ _ := rfl
  last _ hinc := by simp [hfree.llFifoWr hbusy] at hinc
  bytes _ p k hlt := absurd hlt (Nat.not_lt_zero _)

/-- Nothing but the card changes the FIFO. -/
theorem contents_quiet {g : Bool} (hbus : busWrite c s g = false)
    (hnew : writesFifo i g = false) (k : Fin 4) (p : BitVec c.lgfifoln) :
    contents c (next c s i) g k p =
      if (fifo c s g).preWr && (wordPart s.llFifoAddr == p && lanePart s.llFifoAddr == k) then
        llOutDat c s
      else contents c s g k p := by
  rw [contents_next, hbus, hnew]
  rfl

/-- A byte of the block comes. -/
theorem Receiving.got {g : Bool} {l : List (BitVec 8)} (h : Receiving c s g l)
    (hspread : Spread c s) (hrests : s.lowlevel.Rests) (hbusy : s.rCmdBusy = true)
    (hrd : s.llFifoRd = false) (hbus : busWrite c s g = false) (hnew : writesFifo i g = false)
    (hgets : gets c s = true) : Receiving c (Sdspi.next c s i) g (l ++ [llOutDat c s]) := by
  unfold gets at hgets
  simp only [Bool.and_eq_true, beq_iff_eq] at hgets
  obtain ⟨⟨⟨hwr, hstb⟩, htoken⟩, hst⟩ := hgets
  obtain ⟨hpre, -, -, hinc⟩ := hspread.strobe hstb
  have hdat : llOutDat c (Sdspi.next c s i) = llOutDat c s :=
    llOutDat_next (strobe_next hrests hstb)
  have hpre' : (fifo c (Sdspi.next c s i) g).preWr = true := by
    rw [preWr_next, cardByte, hwr, hstb, h.id, hst]
    simp
  have hinc' : (Sdspi.next c s i).preFifoAddrIncWr = true := by simp [hwr, hstb, htoken]
  have haddr : (Sdspi.next c s i).llFifoAddr = BitVec.ofNat _ l.length := by
    rw [← h.address hst hinc]
    simp [nextLlFifoAddr, hbusy, hinc, h.reads]
  refine ⟨?_, ?_, ?_, ?_, ?_, ?_, ?_, ?_⟩
  · rw [next_rFifoId, hbusy]
    simpa using h.id
  · simp [takenFromFifo, hrd]
  · intro ht
    simp [hbusy, htoken] at ht
  · intro _ hno
    rw [hinc'] at hno
    exact absurd hno (by decide)
  · exact fun _ _ => hpre'
  · intro _ hno
    rw [hinc'] at hno
    exact absurd hno (by decide)
  · intro _ _
    refine ⟨l, by rw [hdat], haddr, fun p k hlt => ?_⟩
    rw [contents_quiet hbus hnew, hpre g, List.getElem?_append_left hlt]
    exact h.bytes (hpre g) p k hlt
  · intro hno
    rw [hpre'] at hno
    exact absurd hno (by decide)

/-- No byte of the block comes. -/
theorem Receiving.waited {g : Bool} {l : List (BitVec 8)} (h : Receiving c s g l)
    (hspread : Spread c s) (hbusy : s.rCmdBusy = true) (hrd : s.llFifoRd = false)
    (hbus : busWrite c s g = false) (hnew : writesFifo i g = false) (hgets : gets c s = false)
    (hlen : l.length ≤ 4 * 2 ^ c.lgfifoln) : Receiving c (Sdspi.next c s i) g l := by
  have hid : (Sdspi.next c s i).rFifoId = g := by
    rw [next_rFifoId, hbusy]
    simpa using h.id
  have hreads : (Sdspi.next c s i).preFifoAddrIncRd = false := by simp [takenFromFifo, hrd]
  have htoken : (Sdspi.next c s i).rHaveStartToken = false → l = [] := by
    intro ht
    rw [next_rHaveStartToken, hbusy, Bool.true_and, Bool.or_eq_false_iff] at ht
    exact h.token ht.2
  have hstate : (Sdspi.next c s i).llFifoWrState = 0b00 → s.llFifoWrState = 0b00 := by
    intro hst'
    by_contra hst
    exact hspread.wrState_done hbusy hst hst'
  cases hpre : (fifo c s g).preWr
  · -- the write port has nothing for this FIFO
    have hboth : (fifo c (Sdspi.next c s i) g).preWr = true →
        (Sdspi.next c s i).preFifoAddrIncWr = false ∧ l = [] := by
      intro hp
      rw [preWr_next, cardByte] at hp
      simp only [Bool.and_eq_true, beq_iff_eq] at hp
      obtain ⟨⟨⟨hwr, hstb⟩, -⟩, hst⟩ := hp
      have hno : s.rHaveStartToken = false := by
        simpa [gets, hwr, hstb, hst] using hgets
      exact ⟨by simp [hno], h.token hno⟩
    refine ⟨hid, hreads, htoken, ?_, ?_, ?_, ?_, ?_⟩
    · intro hst' hinc'
      have hst := hstate hst'
      have hinc : s.preFifoAddrIncWr = false := by
        rw [Bool.eq_false_iff]
        intro hinc
        rw [h.advance hst hinc] at hpre
        exact absurd hpre (by decide)
      rw [← h.address hst hinc]
      simp [nextLlFifoAddr, hbusy, hinc, h.reads]
    · intro hst' hinc'
      exfalso
      have hst := hstate hst'
      rw [next_preFifoAddrIncWr] at hinc'
      simp only [Bool.and_eq_true] at hinc'
      simp [gets, hinc', hst] at hgets
    · exact fun hp _ => (hboth hp).2
    · intro hp hinc'
      rw [(hboth hp).1] at hinc'
      exact absurd hinc' (by decide)
    · intro _ p k hlt
      rw [contents_quiet hbus hnew, hpre]
      exact h.bytes hpre p k hlt
  · -- a byte goes to the write port, and no strobe stands beside it
    have hst := (hspread.data g hpre).1
    have hstb : llOutStb c s = false := by
      rw [Bool.eq_false_iff]
      intro hstb
      rw [(hspread.strobe hstb).1 g] at hpre
      exact absurd hpre (by decide)
    have hpre' : (fifo c (Sdspi.next c s i) g).preWr = false := by
      rw [preWr_next, cardByte, hstb, Bool.and_false]
      rfl
    have hinc' : (Sdspi.next c s i).preFifoAddrIncWr = false := by simp [hstb]
    have hno : ∀ {P : Prop}, (fifo c (Sdspi.next c s i) g).preWr = true → P := fun hp => by
      rw [hpre'] at hp
      exact absurd hp (by decide)
    have hstays : ∀ {P : Prop}, (Sdspi.next c s i).preFifoAddrIncWr = true → P := fun hp => by
      rw [hinc'] at hp
      exact absurd hp (by decide)
    cases hinc : s.preFifoAddrIncWr
    · have hnil := h.early hpre hinc
      refine ⟨hid, hreads, htoken, fun _ _ => ?_, fun _ => hstays, hno, hno, ?_⟩
      · rw [← h.address hst hinc]
        simp [nextLlFifoAddr, hbusy, hinc, h.reads]
      · intro _ p k hlt
        rw [hnil] at hlt
        exact absurd hlt (Nat.not_lt_zero _)
    · obtain ⟨l', hl, haddr, hold⟩ := h.last hpre hinc
      have hlen' : l.length = l'.length + 1 := by rw [hl, List.length_append]; rfl
      refine ⟨hid, hreads, htoken, fun _ _ => ?_, fun _ => hstays, hno, hno, ?_⟩
      · have hnext : (Sdspi.next c s i).llFifoAddr = s.llFifoAddr + 1 := by
          simp [nextLlFifoAddr, hbusy, hinc]
        rw [hnext, haddr, hlen', BitVec.ofNat_add]
        rfl
      · intro _ p k hlt
        have hparts := ofNat_parts (by omega : l'.length < 4 * 2 ^ c.lgfifoln) p k
        rw [contents_quiet hbus hnew, hpre, haddr, Bool.true_and]
        by_cases hat : l'.length = 4 * p.toNat + k.val
        · obtain ⟨hw, hk⟩ := hparts.2 hat
          rw [if_pos (by rw [hw, hk, beq_self_eq_true, beq_self_eq_true]; rfl), ← hat, hl]
          exact List.getElem?_concat_length
        · have hne : ¬(wordPart (BitVec.ofNat (c.lgfifoln + 2) l'.length) == p &&
              lanePart (BitVec.ofNat (c.lgfifoln + 2) l'.length) == k) = true := by
            rw [Bool.and_eq_true, beq_iff_eq, beq_iff_eq, hparts]
            exact hat
          rw [if_neg hne]
          exact hold p k (by omega)

/-! ### Whole runs -/

section Runs

variable {s : ℕ → Sdspi c.lgfifoln} {x : ℕ → SdspiIn}

theorem rests_run (h0 : AtPowerUp c (s 0)) (hstep : ∀ n, s (n + 1) = next c (s n) (x n)) :
    ∀ n, (s n).lowlevel.Rests := by
  intro n
  induction n with
  | zero => exact Llsdspi.rests_powerUp h0.lowlevel
  | succ n ih =>
    rw [hstep]
    exact ih.next

theorem free_run (h0 : AtPowerUp c (s 0)) (hstep : ∀ n, s (n + 1) = next c (s n) (x n)) :
    ∀ n, Free (c := c) (s (n + 1)) := by
  intro n
  induction n with
  | zero =>
    rw [hstep]
    exact free_first h0
  | succ n ih =>
    rw [hstep]
    exact ih.next

theorem spread_run (h0 : AtPowerUp c (s 0)) (hstep : ∀ n, s (n + 1) = next c (s n) (x n)) :
    ∀ n, Spread c (s (n + 1)) := by
  intro n
  induction n with
  | zero =>
    rw [hstep]
    exact spread_first h0
  | succ n ih =>
    rw [hstep]
    exact ih.next (free_run h0 hstep n) (rests_run h0 hstep (n + 1))

theorem directs_run (h0 : AtPowerUp c (s 0)) (hstep : ∀ n, s (n + 1) = next c (s n) (x n)) :
    ∀ n, Directs (c := c) (s (n + 1)) := by
  intro n
  induction n with
  | zero =>
    rw [hstep]
    exact directs_first h0
  | succ n ih =>
    rw [hstep]
    exact ih.next (free_run h0 hstep n)

theorem sixth_run (h0 : AtPowerUp c (s 0)) (hstep : ∀ n, s (n + 1) = next c (s n) (x n)) :
    ∀ n, (s n).llFifoRd = true → (s n).rCmdState = 6 := by
  intro n
  induction n with
  | zero =>
    intro hrd
    rw [h0.llFifoRd] at hrd
    exact absurd hrd (by decide)
  | succ n ih =>
    rw [hstep]
    exact sixth_next ih

/-- What a command does from clock `a`, on which it starts, to clock `b`: it moves a block between
    FIFO `f` and the card, `out` to the card, and the controller stays busy with it. -/
structure Moves (c : SdspiCfg) (s : ℕ → Sdspi c.lgfifoln) (f out : Bool) (a b : ℕ) : Prop where
  order : 0 < a ∧ a + 2 < b
  starts : starts c (s a) = true
  fifo : (s a).rWbData.getLsbD 12 = f
  direction : (s a).rWbData.getLsbD 10 = out
  busy : ∀ t, a < t → t < b → (s t).rCmdBusy = true

/-- A block, or the front of one, comes into FIFO `g` from clock `a` on: nothing is written to the
    FIFO over the bus, and at clock `b` the last byte is two clocks old. -/
structure Receives (c : SdspiCfg) (s : ℕ → Sdspi c.lgfifoln) (x : ℕ → SdspiIn) (g : Bool)
    (a b : ℕ) (bytes : List (BitVec 8)) : Prop extends Moves c s g false a b where
  quiet : ∀ t, a ≤ t → t < b → writesFifo (x t) g = false
  bytes : received c s (a + 1) (b - (a + 1)) = bytes
  ends : llOutStb c (s (b - 2)) = false ∧ llOutStb c (s (b - 1)) = false

section Command

variable {f out : Bool} {a b : ℕ}

theorem free_of_starts {s : Sdspi c.lgfifoln} (h : Sdspi.starts c s = true) :
    s.rCmdBusy = false ∧ s.preCmdState = false ∧ newCmd c s = true := by
  unfold Sdspi.starts at h
  simp only [Bool.and_eq_true, Bool.not_eq_true'] at h
  exact ⟨h.1.1.2, h.1.1.1, h.1.2⟩

/-- The registers of the command stay as it has set them. -/
theorem Moves.command (h : Moves c s f out a b) (hstep : ∀ n, s (n + 1) = next c (s n) (x n)) :
    ∀ t, a < t → t ≤ b → (s t).rFifoId = f ∧ (s t).rFifoWr = out := by
  intro t ht
  induction t, ht using Nat.le_induction with
  | base =>
    intro _
    obtain ⟨hbusy, hpre, hnew⟩ := free_of_starts h.starts
    rw [hstep, next_rFifoId, next_rFifoWr, h.starts, hbusy, hpre, hnew, h.fifo, h.direction]
    exact ⟨rfl, rfl⟩
  | succ t ht ih =>
    intro htb
    have hbusy := h.busy t ht (by omega)
    rw [hstep, rFifoId_busy hbusy, rFifoWr_busy hbusy]
    exact ih (by omega)

/-- It moves the block one way only. -/
theorem Moves.oneWay (h : Moves c s f out a b) (h0 : AtPowerUp c (s 0))
    (hstep : ∀ n, s (n + 1) = next c (s n) (x n)) : ∀ t, a < t → t ≤ b →
      (out = false → (s t).llFifoRd = false) ∧ (out = true → (s t).llFifoWr = false) := by
  intro t ht htb
  have hdirects := directs_run h0 hstep (t - 1)
  rw [show t - 1 + 1 = t by omega] at hdirects
  obtain ⟨-, hdir⟩ := h.command hstep t ht htb
  refine ⟨fun hout => ?_, fun hout => ?_⟩
  · rw [Bool.eq_false_iff]
    intro hrd
    rw [hdirects.outwards hrd, hout] at hdir
    exact absurd hdir (by decide)
  · rw [Bool.eq_false_iff]
    intro hwr
    rw [hdirects.inwards hwr, hout] at hdir
    exact absurd hdir (by decide)

end Command

theorem received_length_le (a : ℕ) {m n : ℕ} (h : m ≤ n) :
    (received c s a m).length ≤ (received c s a n).length := by
  induction h with
  | refl => exact Nat.le_refl _
  | @step m _ ih =>
    have hlast : received c s a (m + 1) = received c s a m ++
        if gets c (s (a + m)) then [llOutDat c (s (a + m))] else [] := rfl
    rw [hlast, List.length_append]
    omega

theorem Receives.receiving (h0 : AtPowerUp c (s 0))
    (hstep : ∀ n, s (n + 1) = next c (s n) (x n)) {g : Bool} {a b : ℕ} {bytes : List (BitVec 8)}
    (h : Receives c s x g a b bytes) (hlen : bytes.length ≤ 4 * 2 ^ c.lgfifoln) :
    ∀ k, a + 1 + k ≤ b → Receiving c (s (a + 1 + k)) g (received c s (a + 1) k) := by
  obtain ⟨hpos, hab⟩ := h.order
  intro k
  induction k with
  | zero =>
    intro _
    have hfree : Free (c := c) (s a) := by
      have hfree := free_run h0 hstep (a - 1)
      rwa [Nat.sub_add_cancel hpos] at hfree
    have hid := (h.command hstep (a + 1) (by omega) (by omega)).1
    rw [Nat.add_zero, hstep] at *
    exact receiving_first hfree (free_of_starts h.starts).1 hid
  | succ k ih =>
    intro hk
    have hlast := ih (by omega)
    have hspread : Spread c (s (a + 1 + k)) := by
      have hspread := spread_run h0 hstep (a + k)
      rwa [show a + k + 1 = a + 1 + k by omega] at hspread
    have hbusy := h.busy (a + 1 + k) (by omega) (by omega)
    have hrd := (h.oneWay h0 hstep (a + 1 + k) (by omega) (by omega)).1 rfl
    have hnew := h.quiet (a + 1 + k) (by omega) (by omega)
    have hbus : busWrite c (s (a + 1 + k)) g = false := by
      have hold := h.quiet (a + k) (by omega) (by omega)
      rw [show a + 1 + k = a + k + 1 by omega, hstep]
      exact hold
    have hle : (received c s (a + 1) k).length ≤ 4 * 2 ^ c.lgfifoln := by
      have hmono := received_length_le (c := c) (s := s) (a + 1) (by omega : k ≤ b - (a + 1))
      rw [h.bytes] at hmono
      omega
    rw [show a + 1 + (k + 1) = a + 1 + k + 1 from rfl, hstep, received]
    cases hgets : gets c (s (a + 1 + k))
    · rw [if_neg (by decide), List.append_nil]
      exact hlast.waited hspread hbusy hrd hbus hnew hgets hle
    · rw [if_pos rfl]
      exact hlast.got hspread (rests_run h0 hstep _) hbusy hrd hbus hnew hgets

/-- The port is at rest at the end of a block. -/
theorem Receives.preWr_last (hstep : ∀ n, s (n + 1) = next c (s n) (x n)) {g : Bool} {a b : ℕ}
    {bytes : List (BitVec 8)} (h : Receives c s x g a b bytes) (f : Bool) :
    (Sdspi.fifo c (s (b - 1)) f).preWr = false ∧ (Sdspi.fifo c (s b) f).preWr = false := by
  obtain ⟨-, hab⟩ := h.order
  refine ⟨?_, ?_⟩
  · rw [show b - 1 = b - 2 + 1 by omega, hstep, preWr_next, cardByte, h.ends.1, Bool.and_false]
    rfl
  · rw [show b = b - 1 + 1 by omega, hstep, preWr_next, cardByte, h.ends.2, Bool.and_false]
    rfl

/-- **A block comes in.**  Its bytes stand in the FIFO one after the other. -/
theorem Receives.contents_eq (h0 : AtPowerUp c (s 0))
    (hstep : ∀ n, s (n + 1) = next c (s n) (x n)) {g : Bool} {a b : ℕ} {bytes : List (BitVec 8)}
    (h : Receives c s x g a b bytes) (hlen : bytes.length ≤ 4 * 2 ^ c.lgfifoln)
    (p : BitVec c.lgfifoln) (k : Fin 4) (hlt : 4 * p.toNat + k.val < bytes.length) :
    bytes[4 * p.toNat + k.val]? = some (contents c (s b) g k p) := by
  obtain ⟨-, hab⟩ := h.order
  have hrec := h.receiving h0 hstep hlen (b - (a + 1)) (by omega)
  rw [show a + 1 + (b - (a + 1)) = b by omega, h.bytes] at hrec
  exact hrec.bytes (h.preWr_last hstep g).2 p k hlt

end Runs

end Sdspi

end ZipStormMX.Sdcard
