/-
  The local bus of the ZipSystem answers what the CPU asks.

  Every peripheral has a delay of its own between a request and its acknowledgement: none for the
  interrupt controllers, two clocks for the DMA controller, one for the rest.  All of them end in
  the one register `sys_ack`, which can only tell that somebody answers.  So the requests of a cycle
  are answered one by one and in order as long as their answers fall due in order, no two of them
  together (`Spaced`).
-/
import ZipStormMX.Clocked
import ZipStormMX.Peripheral.Zipsystem

namespace ZipStormMX.Peripheral

/-! ## The peripherals on the bus -/

/-- Those that have an address.  `noCounter` stands where the counters would be. -/
inductive Periph where
  | pic | watchdog | busWatchdog | ctrint | timerA | timerB | timerC | jiffies
  | counter (k : Counter) | noCounter | dmac
deriving DecidableEq, Repr

namespace Periph

variable (c : ZipsystemCfg)

/-- The memory map. -/
def ofAddr (counters : Bool) (a : BitVec 8) : Option Periph :=
  if a = 0x00 then some pic
  else if a = 0x01 then some watchdog
  else if a = 0x02 then some busWatchdog
  else if a = 0x03 then some ctrint
  else if a = 0x04 then some timerA
  else if a = 0x05 then some timerB
  else if a = 0x06 then some timerC
  else if a = 0x07 then some jiffies
  else if a < 0x10 then
    if !counters then some noCounter
    else if a = 0x08 then some (counter .mtc)
    else if a = 0x09 then some (counter .moc)
    else if a = 0x0a then some (counter .mpc)
    else if a = 0x0b then some (counter .mic)
    else if a = 0x0c then some (counter .utc)
    else if a = 0x0d then some (counter .uoc)
    else if a = 0x0e then some (counter .upc)
    else some (counter .uic)
  else if a < 0x20 then some dmac
  else none

/-- The clocks from a request to the acknowledgement; none if there never is one. -/
def latency : Periph → Option ℕ
  | pic => some 0
  | ctrint => if c.hasCtri then some 0 else none
  | dmac => if c.includeDmaController then some 2 else some 1
  | _ => some 1

variable {c} {PAW : ℕ} (s : Zipsystem c PAW) (i : ZipsystemIn PAW c.externalInterrupts)

/-- The acknowledgement line. -/
def ack : Periph → Bool
  | pic => Zipsystem.picAck s i
  | watchdog => s.watchdog.oWbAck
  | busWatchdog => s.wdbusAck
  | ctrint => Zipsystem.ctriAck s i
  | timerA => s.timerA.oWbAck
  | timerB => s.timerB.oWbAck
  | timerC => s.timerC.oWbAck
  | jiffies => s.jiffies.oWbAck
  | counter k => c.includeAccountingCounters && (s.counters k).oWbAck
  | noCounter => !c.includeAccountingCounters && s.rActrAck
  | dmac => s.dmacAck

/-- The data lines. -/
def data : Periph → BitVec 32
  | pic => s.pic.oWbData
  | watchdog => s.watchdog.oWbData false
  | busWatchdog => s.wdbusData
  | ctrint => s.ctriData
  | timerA => s.timerA.oWbData true
  | timerB => s.timerB.oWbData true
  | timerC => s.timerC.oWbData true
  | jiffies => s.jiffies.oWbData
  | counter k => (s.counters k).oWbData
  | noCounter => 0
  | dmac => s.dmacData

end Periph

namespace Zipsystem

variable {c : ZipsystemCfg} {PAW : ℕ}
variable (x : ℕ → ZipsystemIn PAW c.externalInterrupts)

/-! ## What is to be shown -/

/-- The state at clock `n`. -/
def stateAt (n : ℕ) : Zipsystem c PAW := Clocked.run next (init c PAW) x n

/-- The CPU asks the peripheral `p`. -/
def Asks (t : ℕ) (p : Periph) : Prop :=
  (x t).cpu.lclCyc = true ∧ (x t).cpu.lclStb = true ∧
    Periph.ofAddr c.includeAccountingCounters ((x t).cpu.addr.setWidth 8) = some p

/-- The CPU keeps its cycle up from clock `t` to clock `n`. -/
def Holds (t n : ℕ) : Prop := ∀ k, t ≤ k → k ≤ n → (x k).cpu.lclCyc = true

/-- What the CPU, the external bus and the debugger keep to.  No request leaves the addresses from 0
    to 0x1f, the CPU holds one of its buses at a time, a slave answers only within a cycle, no reset
    comes while the CPU holds the local bus, and the debugger is off it on the clock before the CPU
    takes it. -/
structure Surroundings : Prop where
  mapped : ∀ n, (x n).cpu.lclCyc = true → (x n).cpu.lclStb = true →
    (x n).cpu.addr.setWidth 8 < 0x20#8
  oneBus : ∀ n, (x n).cpu.lclCyc = true → (x n).cpu.gblCyc = false
  acksInCycle : ∀ n, (x n).iWb.ack = true → oWbCyc (stateAt x n) (x n) = true
  noReset : ∀ n, (x n).cpu.lclCyc = true →
    (x n).iReset = false ∧ (stateAt x n).cmdReset = false
  idle : ∀ n, (x n).cpu.lclCyc = false → (x (n + 1)).cpu.lclCyc = true →
    sysCyc (stateAt x n) (x n) = false ∧ sysStb (stateAt x n) (x n) = false

/-- The condition on the requests: there is a second interrupt controller if it is asked, and the
    answers within a cycle fall due in the order of the requests. -/
structure Spaced : Prop where
  present : ∀ n, Asks x n .ctrint → c.hasCtri = true
  apart : ∀ t u p q l m, t < u → Asks x t p → Asks x u q → Holds x t u →
    p.latency c = some l → q.latency c = some m → t + l < u + m

/-! ## One clock -/

section Step

variable (s : Zipsystem c PAW) (i j : ZipsystemIn PAW c.externalInterrupts)

/-- A request on the local bus, the CPU's or the debugger's. -/
def Asked (p : Periph) : Prop :=
  sysStb s i = true ∧ Periph.ofAddr c.includeAccountingCounters (sysAddr s i) = some p

/-- The decoding of the select lines. -/
def selects (counters : Bool) (a : BitVec 8) : Periph → Bool
  | .pic => a == 0x00#8
  | .watchdog => a == 0x01#8
  | .busWatchdog => a == 0x02#8
  | .ctrint => a == 0x03#8
  | .timerA => a.extractLsb' 2 6 == 0x1#6 && a.extractLsb' 0 2 == 0b00#2
  | .timerB => a.extractLsb' 2 6 == 0x1#6 && a.extractLsb' 0 2 == 0b01#2
  | .timerC => a.extractLsb' 2 6 == 0x1#6 && a.extractLsb' 0 2 == 0b10#2
  | .jiffies => a.extractLsb' 2 6 == 0x1#6 && a.extractLsb' 0 2 == 0b11#2
  | .counter k => counters && (a.extractLsb' 3 5 == 0x1#5 && a.extractLsb' 0 3 == k.addr)
  | .noCounter => !counters && a.extractLsb' 3 5 == 0x1#5
  | .dmac => a.extractLsb' 4 4 == 0x1#4

/-- The select lines decode the memory map. -/
theorem selects_iff (counters : Bool) (a : BitVec 8) (p : Periph) :
    selects counters a p = true ↔ Periph.ofAddr counters a = some p := by
  cases p with
  | counter k => cases k <;> revert counters a <;> decide +kernel
  | _ => revert counters a; decide +kernel

/-- Most peripherals answer on the clock after. -/
theorem ack_next {p : Periph} (hp : p.latency c = some 1) (hcyc : sysCyc s i = true)
    (hr : s.cmdReset = false) : p.ack (next s i) j = true ↔ Asked s i p := by
  rw [Asked, ← selects_iff]
  cases p with
  | pic => simp [Periph.latency] at hp
  | watchdog =>
    simp only [Periph.ack, next, Ziptimer.next, watchdogReq, request, selWatchdog, cpuReset, hr]
    cases sysStb s i <;> simp [selects]
  | busWatchdog =>
    simp only [Periph.ack, next, selBusWatchdog, hcyc]
    cases sysStb s i <;> simp [selects]
  | ctrint =>
    simp only [Periph.latency] at hp
    split at hp <;> simp at hp
  | timerA | timerB | timerC =>
    simp only [Periph.ack, next, Ziptimer.next, timerReq, request, selTimer, cpuReset, hr]
    cases sysStb s i <;> simp [selects]
  | jiffies =>
    simp only [Periph.ack, next, Zipjiffies.next, timerReq, request, selTimer, cpuReset, hr]
    cases sysStb s i <;> simp [selects]
  | counter k =>
    simp only [Periph.ack, next, Zipcounter.next, counterReq, request, selCounter]
    cases sysStb s i <;> simp [selects]
  | noCounter =>
    simp only [Periph.ack, next, selCounter]
    cases sysStb s i <;> simp [selects]
  | dmac =>
    have hdma : c.includeDmaController = false := by
      simpa [Periph.latency] using hp
    simp only [Periph.ack, dmacAck, hdma, next, selDmac, hcyc]
    cases sysStb s i <;> simp [selects]

end Step

/-! ## Whole runs -/

section Run

variable {x}

theorem stateAt_succ (n : ℕ) : stateAt x (n + 1) = next (stateAt x n) (x n) := rfl

theorem Asks.cyc {t : ℕ} {p : Periph} (h : Asks x t p) : (x t).cpu.lclCyc = true := h.1

theorem Asks.unique {t : ℕ} {p q : Periph} (hp : Asks x t p) (hq : Asks x t q) : p = q :=
  Option.some.inj (hp.2.2.symm.trans hq.2.2)

theorem Holds.mono {t u n m : ℕ} (h : Holds x t n) (ht : t ≤ u) (hn : m ≤ n) : Holds x u m :=
  fun k hk hk' => h k (ht.trans hk) (hk'.trans hn)

theorem Holds.succ {t n : ℕ} (h : Holds x t n) (hn : (x (n + 1)).cpu.lclCyc = true) :
    Holds x t (n + 1) := by
  intro k hk hk'
  rcases Nat.lt_or_ge n k with hlt | hle
  · rw [Nat.le_antisymm hk' hlt]
    exact hn
  · exact h k hk hle

/-- On the clock before one of the CPU's, either nobody was on the bus or the CPU was. -/
theorem Surroundings.before (hx : Surroundings x) {n : ℕ} (hn : (x (n + 1)).cpu.lclCyc = true) :
    (sysCyc (stateAt x n) (x n) = false ∧ sysStb (stateAt x n) (x n) = false) ∨
      (x n).cpu.lclCyc = true := by
  cases hcyc : (x n).cpu.lclCyc
  · exact .inl (hx.idle n hcyc hn)
  · exact .inr rfl

theorem counters_ack_iff (s : Zipsystem c PAW) (i : ZipsystemIn PAW c.externalInterrupts) :
    s.actrAck = true ↔ ∃ p : Periph, ((∃ k, p = .counter k) ∨ p = .noCounter) ∧ p.ack s i = true := by
  unfold actrAck
  cases hacc : c.includeAccountingCounters
  · simp [Periph.ack, hacc]
  · constructor
    · intro h
      simp only [if_true, countersAck, Bool.or_eq_true] at h
      rcases h with (((h | h) | h) | h) | (((h | h) | h) | h) <;>
        exact ⟨.counter _, .inl ⟨_, rfl⟩, by simpa [Periph.ack, hacc] using h⟩
    · rintro ⟨p, ⟨k, rfl⟩ | rfl, h⟩
      · simp only [Periph.ack, hacc, Bool.true_and] at h
        cases k <;> simp [countersAck, h]
      · simp [Periph.ack, hacc] at h

/-- Of the counters, the one that answers gives the word. -/
theorem actrData_eq (s : Zipsystem c PAW) (hacc : c.includeAccountingCounters = true)
    (k : Counter) (hk : (s.counters k).oWbAck = true)
    (honly : ∀ j, j ≠ k → (s.counters j).oWbAck = false) :
    actrData s = (s.counters k).oWbData := by
  have h0 := honly .mtc
  have h1 := honly .moc
  have h2 := honly .mpc
  have h3 := honly .mic
  have h4 := honly .utc
  have h5 := honly .uoc
  have h6 := honly .upc
  cases k <;> simp [actrData, hacc, hk, h0, h1, h2, h3, h4, h5, h6]

/-- The word taken up is that of the one peripheral that answers. -/
theorem nextIdata_eq (s : Zipsystem c PAW) (i : ZipsystemIn PAW c.externalInterrupts)
    (hmmus : s.rMmusAck = false) {p : Periph} (hp : p.ack s i = true)
    (honly : ∀ q : Periph, q.ack s i = true → q = p) : nextIdata s i = p.data s := by
  have hnot : ∀ q : Periph, q ≠ p → q.ack s i = false := fun q hq => by
    cases h : q.ack s i
    · rfl
    · exact absurd (honly q h) hq
  have hA : Periph.timerA ≠ p → s.timerA.oWbAck = false := hnot .timerA
  have hB : Periph.timerB ≠ p → s.timerB.oWbAck = false := hnot .timerB
  have hC : Periph.timerC ≠ p → s.timerC.oWbAck = false := hnot .timerC
  have hJ : Periph.jiffies ≠ p → s.jiffies.oWbAck = false := hnot .jiffies
  have hW : Periph.watchdog ≠ p → s.watchdog.oWbAck = false := hnot .watchdog
  have hD : Periph.dmac ≠ p → s.dmacAck = false := hnot .dmac
  have hP : Periph.pic ≠ p → s.picAck i = false := hnot .pic
  have hI : Periph.ctrint ≠ p → s.ctriAck i = false := hnot .ctrint
  have hN : (∀ k, Periph.counter k ≠ p) → Periph.noCounter ≠ p → s.actrAck = false := by
    intro hk hn
    cases h : s.actrAck
    · rfl
    · obtain ⟨q, ⟨k, rfl⟩ | rfl, hq⟩ := (counters_ack_iff s i).mp h
      · exact absurd (honly _ hq) (hk k)
      · exact absurd (honly _ hq) hn
  cases p with
  | counter k =>
    have hactr : s.actrAck = true := (counters_ack_iff s i).mpr ⟨_, .inl ⟨k, rfl⟩, hp⟩
    simp only [Periph.ack, Bool.and_eq_true] at hp
    have hdata := actrData_eq s hp.1 k hp.2 fun j hj => by
      have h := hnot (.counter j) (by simpa using hj)
      simpa [Periph.ack, hp.1] using h
    simp [nextIdata, tmrAck, hmmus, hA, hB, hC, hJ, hW, hactr, hdata, Periph.data]
  | noCounter =>
    have hactr : s.actrAck = true := (counters_ack_iff s i).mpr ⟨_, .inr rfl, hp⟩
    simp only [Periph.ack, Bool.and_eq_true, Bool.not_eq_true'] at hp
    simp [nextIdata, tmrAck, hmmus, hA, hB, hC, hJ, hW, hactr, actrData, hp.1, Periph.data]
  | _ =>
    simp only [Periph.ack] at hp
    simp [nextIdata, tmrAck, tmrData, hmmus, hp, hA, hB, hC, hJ, hW, hD, hP, hI, hN, Periph.data]

/-! ### The answers of a cycle -/

/-- What the DMA controller answers with is the register that the request named. -/
theorem dmacData_eq (hx : Surroundings x) (hdma : c.includeDmaController = true) {t : ℕ}
    (hask : Asks x t .dmac) (hn : (x (t + 1)).cpu.lclCyc = true) :
    dmacData (stateAt x (t + 2)) =
      (stateAt x (t + 1)).dmac.register ((x t).cpu.addr.extractLsb' 0 2) := by
  have haddr : (stateAt x (t + 1)).dmac.rS.addr = (x t).cpu.addr.extractLsb' 0 2 := by
    rw [stateAt_succ]
    simp only [next, Wbdmac.next, dmacReq, sysAddr, hask.cyc, if_true]
    rw [BitVec.extractLsb'_setWidth_of_le (by omega)]
  rw [stateAt_succ]
  simp [dmacData, hdma, next, Wbdmac.next, Wbdmac.nextSwbData, cpuReset, (hx.noReset _ hn).2, haddr]

/-- The clock on which the CPU sees the answer to what it asks on clock `t`. -/
def due (x : ℕ → ZipsystemIn PAW c.externalInterrupts) (t : ℕ) : ℕ :=
  let p := Periph.ofAddr c.includeAccountingCounters ((x t).cpu.addr.setWidth 8)
  t + ((p.bind (Periph.latency c)).getD 0 + 1)

end Run

/-! ## Two reads on consecutive clocks -/

section Reads

/-- One external interrupt, with the counters and the DMA controller. -/
def full : ZipsystemCfg :=
  { externalInterrupts := 1, includeAccountingCounters := true, includeDmaController := true,
    startHalted := false }

variable {a b : BitVec 30}

end Reads

end Zipsystem

end ZipStormMX.Peripheral
