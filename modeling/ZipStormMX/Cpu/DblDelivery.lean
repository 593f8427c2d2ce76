/-
  What `dblfetch` hands over: the program, until something is taken behind a failed fetch.

  `Reader` is an observer on the ports of `dblfetch`.  It keeps the address that is due, the requests
  that the bus has taken and not answered, and the answers that the CPU has not taken yet.  Every
  instruction taken has to be the oldest of these answers, at the address that is due, and the words
  under way have to fit into the two places there are for them.

  The crux is `Reading`: both places and the requests under way are one stream of addresses, from
  `o_pc` on, and `o_wb_addr` is the next of them.  It breaks in one place.  An error that comes back
  while a word waits at the output goes into the spare place, and the guard of the next bus cycle
  looks at `o_illegal` alone, which does not show it yet.  The word behind the error is then fetched,
  and handed over with the `o_illegal` that the error has left behind.
-/
import ZipStormMX.Cpu.Delivery
import ZipStormMX.Cpu.Dblfetch

namespace ZipStormMX.Cpu

variable {AW : ℕ}

/-! ## The observer -/

/-- The decoder takes what `dblfetch` shows. -/
def FetchIn.given (i : FetchIn AW) (o : FetchOut AW) : Bool := o.oValid && i.iStallN

/-- What the ports have shown so far.  An answer is the address asked for with its word, or with
    none for a bus error. -/
structure Reader (AW : ℕ) where
  due : Option (BitVec (AW + 2))
  asked : List (BitVec AW)
  fetched : List (BitVec AW × Option (BitVec 32))
  past : Bool

namespace Reader

/-- Before anything has happened. -/
def empty : Reader AW := { due := none, asked := [], fetched := [], past := false }

variable (r : Reader AW) (i : FetchIn AW) (o : FetchOut AW)

def nextDue : Option (BitVec (AW + 2)) :=
  if i.iNewPc then some i.iPc
  else if i.iReset then none
  else if i.given o then r.due.map (· + 4)
  else r.due

/-- The bus answers the requests in order, each on a later clock than it took it.  A cycle that is
    dropped takes its requests with it. -/
def nextAsked : List (BitVec AW) :=
  if !o.oWbCyc then []
  else (if i.iWbAck || i.iWbErr then r.asked.tail else r.asked)
    ++ if o.oWbStb && !i.iWbStall then [o.oWbAddr] else []

/-- The answer of this clock. -/
def answer : List (BitVec AW × Option (BitVec 32)) :=
  if o.oWbCyc && (i.iWbAck || i.iWbErr) then
    (r.asked.take 1).map fun a => (a, if i.iWbErr then none else some i.iWbData)
  else []

/-- A jump leaves behind what was fetched before it. -/
def nextFetched : List (BitVec AW × Option (BitVec 32)) :=
  if i.iNewPc || i.iReset then []
  else (if i.given o then r.fetched.tail else r.fetched) ++ answer r i o

/-- The oldest answer is a bus error. -/
def error : Bool := (r.fetched.head?.map fun e => e.2.isNone).getD false

/-- Since the last jump the CPU has taken an instruction whose fetch failed. -/
def nextPast : Bool :=
  if i.iNewPc || i.iReset then false else r.past || (i.given o && error r)

def step : Reader AW :=
  { due := nextDue r i o, asked := nextAsked r i o, fetched := nextFetched r i o,
    past := nextPast r i o }

/-- A memory on the bus: it answers requests of the present cycle only, one at a time and in order,
    each with its word or an error. -/
structure Served (mem : BitVec AW → BitVec 32) : Prop where
  ack : i.iWbAck = true → o.oWbCyc = true ∧ ∃ a l, r.asked = a :: l ∧ i.iWbData = mem a
  err : i.iWbErr = true → o.oWbCyc = true ∧ r.asked ≠ []
  one : ¬(i.iWbAck = true ∧ i.iWbErr = true)

/-- The instruction taken is the one that is due, and the oldest answer is its own: the memory's
    word, or the error that is shown as `o_illegal`. -/
def Right (mem : BitVec AW → BitVec 32) : Prop :=
  i.given o = true → r.due = some o.oPc ∧ ∃ v l, r.fetched = (wordOf o.oPc, v) :: l ∧
    (o.oIllegal = true ↔ v = none) ∧ (o.oIllegal = false → o.oInsn = mem (wordOf o.oPc))

/-- What the observer has seen before clock `n`. -/
def seen (i : ℕ → FetchIn AW) (o : ℕ → FetchOut AW) : ℕ → Reader AW
  | 0 => empty
  | n + 1 => step (seen i o n) (i n) (o n)

end Reader

/-! ## The two places and the bus -/

/-- Adding four moves the quotient and keeps the remainder, also where the sum wraps. -/
theorem div_add_four {p m : ℕ} (h : p < 4 * m) :
    4 * ((p / 4 + 1) % m) + p % 4 = (p + 4) % (4 * m) := by
  rcases (by omega : p / 4 + 1 < m ∨ p / 4 + 1 = m) with hin | hend
  · have hsum : (p + 4) % (4 * m) = p + 4 := Nat.mod_eq_of_lt (by omega)
    rw [Nat.mod_eq_of_lt hin, hsum]
    omega
  · have hsum : (p + 4) % (4 * m) = p % 4 := by
      rw [show p + 4 = p % 4 + 4 * m by omega, Nat.add_mod_right]
      exact Nat.mod_eq_of_lt (by omega)
    rw [hend, Nat.mod_self, hsum]
    omega

/-- Behind an instruction is the one four bytes on. -/
theorem byteAddr_add_four (pc : BitVec (AW + 2)) :
    byteAddr (wordOf pc + 1) (pc.extractLsb' 0 2) = pc + 4 := by
  have hpow : 2 ^ (AW + 2) = 4 * 2 ^ AW := by
    rw [Nat.pow_add, Nat.mul_comm]
  have hword : (wordOf pc + 1).toNat = (pc.toNat / 4 + 1) % 2 ^ AW := by
    rw [BitVec.toNat_add]
    simp [wordOf, BitVec.extractLsb'_toNat, Nat.shiftRight_eq_div_pow, Nat.add_mod]
  have hlow : (pc.extractLsb' 0 2).toNat = pc.toNat % 4 := by
    simp [BitVec.extractLsb'_toNat]
  have hval : (byteAddr (wordOf pc + 1) (pc.extractLsb' 0 2)).toNat =
      4 * ((pc.toNat / 4 + 1) % 2 ^ AW) + pc.toNat % 4 := by
    simp only [byteAddr, BitVec.toNat_append, hword, hlow]
    rw [Nat.shiftLeft_eq, Nat.mul_comm, ← Nat.two_pow_add_eq_or_of_lt (by omega)]
  have hsum : (pc + 4).toNat = (pc.toNat + 4) % (4 * 2 ^ AW) := by
    rw [BitVec.toNat_add, hpow]
    simp [hpow]
  apply BitVec.eq_of_toNat_eq
  rw [hval, hsum]
  exact div_add_four (hpow ▸ pc.isLt)

namespace Dblfetch

variable (s : Dblfetch AW) (r : Reader AW) (i : FetchIn AW)

/-- The word address behind all that is held. -/
def behind : BitVec AW :=
  if s.cacheValid then wordOf s.oPc + 1 + 1
  else if s.oValid then wordOf s.oPc + 1
  else wordOf s.oPc

/-- The answers that are held, as the two places show them. -/
def held : List (BitVec AW × Option (BitVec 32)) :=
  (if s.oValid then [(wordOf s.oPc, if s.oIllegal then none else some s.oInsn)] else [])
    ++ if s.cacheValid then
      [(wordOf s.oPc + 1, if s.cacheIllegal then none else some s.cacheWord)] else []

/-- As many words are under way as there are places for at most. -/
def Room : Prop :=
  (if s.oWbCyc then r.asked.length else 0) + s.held.length ≤ 2

/-- Where the bus stands: the requests under way are those behind what is held, the next one goes to
    `o_wb_addr`, and a cycle has room for what it asks.  When no cycle is open, nothing is missing
    up to `o_wb_addr` unless an error is shown. -/
inductive Phase : Prop
  | idle (cyc : s.oWbCyc = false) (stb : s.oWbStb = false)
      (addr : s.oIllegal = false → s.oWbAddr = behind s)
  | opening (cyc : s.oWbCyc = true) (stb : s.oWbStb = true) (room : s.cacheValid = false)
      (count : s.inflight = 0) (asked : r.asked = []) (addr : s.oWbAddr = behind s)
  | second (cyc : s.oWbCyc = true) (stb : s.oWbStb = true) (room : s.oValid = false)
      (room' : s.cacheValid = false) (count : s.inflight = 1) (asked : r.asked = [behind s])
      (addr : s.oWbAddr = behind s + 1)
  | last (cyc : s.oWbCyc = true) (stb : s.oWbStb = false) (room : s.cacheValid = false)
      (count : s.inflight = 1) (asked : r.asked = [behind s]) (addr : s.oWbAddr = behind s + 1)
  | both (cyc : s.oWbCyc = true) (stb : s.oWbStb = false) (room : s.oValid = false)
      (room' : s.cacheValid = false) (count : s.inflight = 2)
      (asked : r.asked = [behind s, behind s + 1]) (addr : s.oWbAddr = behind s + 1 + 1)

/-- Where the program stands between two jumps. -/
structure Reading (mem : BitVec AW → BitVec 32) : Prop where
  due : r.due = some s.oPc
  phase : Phase s r
  abandoned : s.invalidBusCycle = true → s.oWbCyc = false ∧ s.oValid = false ∧ s.oIllegal = false
  order : s.cacheValid = true → s.oValid = true
  addresses : r.fetched.map Prod.fst = s.held.map Prod.fst
  sound : s.oIllegal = false → r.fetched = s.held
  cached : s.oIllegal = false → s.cacheIllegal = true → s.cacheValid = true
  first : s.oIllegal = true → r.past = false → s.oValid = true ∧ r.error = true
  stays : r.past = true → s.oIllegal = true
  memory : ∀ a v, (a, some v) ∈ r.fetched → v = mem a

/-- Nothing goes on: before the first jump, and from a reset to the next jump. -/
structure Asleep : Prop where
  cyc : s.oWbCyc = false
  valid : s.oValid = false
  cacheValid : s.cacheValid = false
  abandoned : s.invalidBusCycle = false

/-- The cache has been cleared, and the jump comes on this clock. -/
structure Cleared : Prop where
  valid : s.oValid = false
  cacheValid : s.cacheValid = false
  asked : s.oWbCyc = true → r.asked = []
  jump : i.iNewPc = true

section Step

variable {s : Dblfetch AW} {r : Reader AW} {i : FetchIn AW} {mem : BitVec AW → BitVec 32}

/-- Whether something comes back from the bus. -/
theorem behind_next (ho : s.cacheValid = true → s.oValid = true) (hf : flush i = false)
    (hroom : s.oWbCyc = true → s.cacheValid = false) :
    behind (next s i) =
      if s.oWbCyc && (i.iWbAck || i.iWbErr) then behind s + 1 else behind s := by
  have hnew : i.iNewPc = false := by
    simp only [flush, Bool.or_eq_false_iff] at hf
    exact hf.1.2
  cases hv : s.oValid <;> cases hc : s.cacheValid <;> cases hn : i.iStallN <;>
    cases hcyc : s.oWbCyc <;> cases hb : i.iWbAck || i.iWbErr <;>
    simp_all [behind, wordOf_byteAddr]

/-- Nothing is shown as an error that was none, without an answer to say so. -/
theorem illegal_of_next (hf : flush i = false) (h : (next s i).oIllegal = false) :
    s.oIllegal = false ∧ (outCe s i = true → s.cacheValid = false →
      (s.oWbCyc && i.iWbErr) = false) := by
  rw [next_oIllegal, hf] at h
  cases hce : outCe s i <;> cases hc : s.cacheValid <;>
    cases he : s.oWbCyc && i.iWbErr <;> simp_all

/-- An error ends the cycle.  With a word waiting at the output it goes into the spare place, and all
    that was asked for has come back; else it is shown. -/
theorem phase_err (hcyc : s.oWbCyc = true) (hroom : s.cacheValid = false)
    (herr : i.iWbErr = true) (hf : flush i = false)
    (haddr : outCe s i = false → s.oWbStb = false ∧ s.oWbAddr = behind s + 1) :
    Phase (next s i) (Reader.step r i (out s)) := by
  have hnew : i.iNewPc = false := by
    simp only [flush, Bool.or_eq_false_iff] at hf
    exact hf.1.2
  refine .idle ?_ ?_ fun hill => ?_
  · simp [nextCyc, hcyc, herr]
  · simp [nextStb, hcyc, herr]
  · have hce : outCe s i = false := by
      cases hce : outCe s i
      · rfl
      · have hno := (illegal_of_next hf hill).2 hce hroom
        simp [hcyc, herr] at hno
    rw [behind_next (by simp [hroom]) hf fun _ => hroom]
    simp [hnew, hcyc, herr, haddr hce]

theorem Phase.next (h : Phase s r) (ho : s.cacheValid = true → s.oValid = true)
    (ha : s.invalidBusCycle = true → s.oWbCyc = false ∧ s.oValid = false ∧ s.oIllegal = false)
    (hs : Reader.Served r i (out s) mem) (hf : flush i = false) :
    Phase (next s i) (Reader.step r i (out s)) := by
  have hflush : i.iReset = false ∧ i.iNewPc = false ∧ i.iClearCache = false := by
    simp only [flush, Bool.or_eq_false_iff] at hf
    exact ⟨hf.1.1, hf.1.2, hf.2⟩
  obtain ⟨hr, hnew, hclr⟩ := hflush
  cases h with
  | idle hcyc hstb haddr =>
    have hbase : behind (Dblfetch.next s i) = behind s := by
      rw [behind_next ho hf (by simp [hcyc])]
      simp [hcyc]
    have hkeep : (Dblfetch.next s i).oWbAddr = s.oWbAddr := by
      simp [hnew, hstb]
    cases hst : start s i
    · refine .idle ?_ ?_ fun hill => ?_
      · simp [nextCyc, hcyc, hst]
      · simp [nextStb, hcyc, hst, hstb]
      · rw [hkeep, hbase, haddr (illegal_of_next hf hill).1]
    · have hok : s.oIllegal = false ∧ (Dblfetch.next s i).cacheValid = false := by
        simp only [start, hnew, Bool.false_or, Bool.or_eq_true, Bool.and_eq_true,
          Bool.not_eq_true'] at hst
        rcases hst with hinv | ⟨⟨-, hn⟩, hill⟩
        · refine ⟨(ha hinv).2.2, ?_⟩
          have hc : s.cacheValid = false := by
            cases hc : s.cacheValid
            · rfl
            · simp [(ha hinv).2.1] at ho
              simp [ho] at hc
          simp [hc, hcyc]
        · exact ⟨hill, by simp [hcyc, hn]⟩
      refine .opening ?_ ?_ hok.2 ?_ ?_ ?_
      · simp [nextCyc, hr, hcyc, hst]
      · simp [nextStb, hr, hcyc, hst]
      · simp [nextInflight, hcyc]
      · simp [Reader.step, Reader.nextAsked, out, hcyc]
      · rw [hkeep, hbase, haddr hok.1]
  | opening hcyc hstb hroom hcount hasked haddr =>
    have hno : i.iWbAck = false ∧ i.iWbErr = false := by
      constructor
      · by_contra hack
        obtain ⟨-, a, l, hl, -⟩ := hs.ack (by simpa using hack)
        simp [hasked] at hl
      · by_contra herr
        exact (hs.err (by simpa using herr)).2 hasked
    have hbase : behind (Dblfetch.next s i) = behind s := by
      rw [behind_next ho hf fun _ => hroom]
      simp [hno]
    have hroom' : (Dblfetch.next s i).cacheValid = false := by
      simp [hno, hroom]
    have hcyc' : (Dblfetch.next s i).oWbCyc = true := by
      simp [nextCyc, release, hr, hnew, hclr, hcyc, hno, hstb]
    cases hstall : i.iWbStall
    · have hcount' : (Dblfetch.next s i).inflight = 1 := by
        simp [nextInflight, hcyc, hstb, hstall, hno, hcount]
      have hasked' : (Reader.step r i (out s)).asked = [behind (Dblfetch.next s i)] := by
        simp [Reader.step, Reader.nextAsked, out, hcyc, hno, hstb, hstall, hasked, haddr, hbase]
      have haddr' : (Dblfetch.next s i).oWbAddr = behind (Dblfetch.next s i) + 1 := by
        simp [hnew, hstb, hstall, haddr, hbase]
      have hstb' : (Dblfetch.next s i).oWbStb = !(s.oValid && !i.iStallN) := by
        simp [nextStb, release, lastStb, hr, hnew, hclr, hcyc, hno, hstb, hstall, hcount]
      cases hv : s.oValid && !i.iStallN
      · have hroom : (Dblfetch.next s i).oValid = false := by
          cases hn : i.iStallN <;> simp_all
        exact .second hcyc' (by rw [hstb', hv]; rfl) hroom hroom' hcount' hasked' haddr'
      · exact .last hcyc' (by rw [hstb', hv]; rfl) hroom' hcount' hasked' haddr'
    · refine .opening hcyc' ?_ hroom' ?_ ?_ ?_
      · simp [nextStb, release, hr, hnew, hclr, hcyc, hno, hstb, hstall]
      · simp [nextInflight, hcyc, hstall, hno, hcount]
      · simp [Reader.step, Reader.nextAsked, out, hcyc, hno, hstall, hasked]
      · simp [hnew, hstall, haddr, hbase]
  | second hcyc hstb hroom hroom' hcount hasked haddr =>
    have hce : outCe s i = true := by
      simp [outCe, hroom]
    cases herr : i.iWbErr
    · have hbase : behind (Dblfetch.next s i) =
          if i.iWbAck then behind s + 1 else behind s := by
        rw [behind_next ho hf fun _ => hroom']
        simp [hcyc, herr]
      have hcyc' : (Dblfetch.next s i).oWbCyc = true := by
        simp [nextCyc, release, hr, hnew, hclr, hcyc, herr, hstb]
      have hspare : (Dblfetch.next s i).cacheValid = false := by
        simp [hroom, hroom']
      have hstb' : (Dblfetch.next s i).oWbStb = i.iWbStall := by
        cases hstall : i.iWbStall <;>
          simp [nextStb, release, lastStb, hr, hnew, hclr, hcyc, herr, hstb, hstall, hcount]
      have haddr' : (Dblfetch.next s i).oWbAddr =
          if i.iWbStall then behind s + 1 else behind s + 1 + 1 := by
        cases hstall : i.iWbStall <;> simp [hnew, hstb, hstall, haddr]
      have hasked' : (Reader.step r i (out s)).asked =
          (if i.iWbAck then [] else [behind s])
            ++ if i.iWbStall then [] else [behind s + 1] := by
        cases hstall : i.iWbStall <;> cases hack : i.iWbAck <;>
          simp [Reader.step, Reader.nextAsked, out, hcyc, herr, hstb, hstall, hack, hasked, haddr]
      cases hack : i.iWbAck <;> cases hstall : i.iWbStall <;>
        rw [hstall] at hstb' haddr' hasked' <;> rw [hack] at hbase hasked'
      · refine .both hcyc' hstb' ?_ hspare ?_ ?_ ?_
        · simp [hf, hcyc, hack, herr, hroom, hroom']
        · simp [nextInflight, hcyc, hstb, hstall, hack, hcount]
        · rw [hasked', hbase]; rfl
        · rw [haddr', hbase]; rfl
      · refine .second hcyc' hstb' ?_ hspare ?_ ?_ ?_
        · simp [hf, hcyc, hack, herr, hroom, hroom']
        · simp [nextInflight, hcyc, hstall, hack, hcount]
        · rw [hasked', hbase]; rfl
        · rw [haddr', hbase]; rfl
      · refine .last hcyc' hstb' hspare ?_ ?_ ?_
        · simp [nextInflight, hcyc, hstb, hstall, hack, hcount]
        · rw [hasked', hbase]; rfl
        · rw [haddr', hbase]; rfl
      · refine .opening hcyc' hstb' hspare ?_ hasked' ?_
        · simp [nextInflight, hcyc, hstall, hack, hcount]
        · rw [haddr', hbase]; rfl
    · exact phase_err hcyc hroom' herr hf (by simp [hce])
  | last hcyc hstb hroom hcount hasked haddr =>
    cases herr : i.iWbErr
    · have haddr' : (Dblfetch.next s i).oWbAddr = behind s + 1 := by
        simp [hnew, hstb, haddr]
      have hbase := behind_next ho hf fun _ => hroom
      cases hack : i.iWbAck
      · refine .last ?_ ?_ ?_ ?_ ?_ ?_
        · simp [nextCyc, release, hr, hnew, hclr, hcyc, herr, hack, hcount]
        · simp [nextStb, release, lastStb, hr, hnew, hclr, hcyc, herr, hack, hstb, hcount]
        · simp [hack, herr, hroom]
        · simp [nextInflight, hcyc, hstb, hack, hcount]
        · simp [hbase, Reader.step, Reader.nextAsked, out, hcyc, herr, hstb, hack, hasked]
        · rw [haddr', hbase]; simp [hack, herr]
      · refine .idle ?_ ?_ fun _ => ?_
        · simp [nextCyc, release, hcyc, hack, hstb, hcount]
        · simp [nextStb, release, hcyc, hack, hstb, hcount]
        · rw [haddr', hbase]; simp [hack, hcyc]
    · exact phase_err hcyc hroom herr hf fun _ => ⟨hstb, haddr⟩
  | both hcyc hstb hroom hroom' hcount hasked haddr =>
    have hce : outCe s i = true := by
      simp [outCe, hroom]
    cases herr : i.iWbErr
    · have haddr' : (Dblfetch.next s i).oWbAddr = behind s + 1 + 1 := by
        simp [hnew, hstb, haddr]
      have hbase := behind_next ho hf fun _ => hroom'
      cases hack : i.iWbAck
      · refine .both ?_ ?_ ?_ ?_ ?_ ?_ ?_
        · simp [nextCyc, release, hr, hnew, hclr, hcyc, herr, hack, hcount]
        · simp [nextStb, release, lastStb, hr, hnew, hclr, hcyc, herr, hack, hstb, hcount]
        · simp [hf, hcyc, hack, herr, hroom, hroom']
        · simp [hroom, hroom']
        · simp [nextInflight, hcyc, hstb, hack, hcount]
        · simp [hbase, Reader.step, Reader.nextAsked, out, hcyc, herr, hstb, hack, hasked]
        · rw [haddr', hbase]; simp [hack, herr]
      · refine .last ?_ ?_ ?_ ?_ ?_ ?_
        · simp [nextCyc, release, hr, hnew, hclr, hcyc, herr, hstb, hcount]
        · simp [nextStb, release, lastStb, hr, hnew, hclr, hcyc, herr, hstb, hcount]
        · simp [hroom, hroom']
        · simp [nextInflight, hcyc, hstb, hack, hcount]
        · simp [hbase, Reader.step, Reader.nextAsked, out, hcyc, herr, hstb, hack, hasked]
        · rw [haddr', hbase]; simp [hack, hcyc]
    · exact phase_err hcyc hroom' herr hf (by simp [hce])

/-- What comes back is for the address behind all that is held. -/
theorem Phase.oldest (h : Phase s r) (hcyc : s.oWbCyc = true) (hne : r.asked ≠ []) :
    ∃ l, r.asked = behind s :: l := by
  cases h with
  | idle hidle => simp [hidle] at hcyc
  | opening _ _ _ _ hasked => exact absurd hasked hne
  | second _ _ _ _ _ hasked => exact ⟨_, hasked⟩
  | last _ _ _ _ hasked => exact ⟨_, hasked⟩
  | both _ _ _ _ _ hasked => exact ⟨_, hasked⟩

theorem Phase.answer (h : Phase s r) (hs : Reader.Served r i (out s) mem) :
    Reader.answer r i (out s) = if s.oWbCyc && (i.iWbAck || i.iWbErr) then
      [(behind s, if i.iWbErr then none else some i.iWbData)] else [] := by
  unfold Reader.answer
  cases hb : s.oWbCyc && (i.iWbAck || i.iWbErr)
  · simp [out, hb]
  · have hb' : s.oWbCyc = true ∧ (i.iWbAck = true ∨ i.iWbErr = true) := by
      simpa using hb
    have hne : r.asked ≠ [] := by
      rcases hb'.2 with hack | herr
      · obtain ⟨-, a, l, hl, -⟩ := hs.ack hack
        simp [hl]
      · exact (hs.err herr).2
    obtain ⟨l, hl⟩ := h.oldest hb'.1 hne
    simp [out, hb, hl]

theorem Phase.room (h : Phase s r) : s.oWbCyc = true → s.cacheValid = false := by
  intro hcyc
  cases h with
  | idle hidle => simp [hidle] at hcyc
  | opening _ _ hroom => exact hroom
  | second _ _ _ hroom => exact hroom
  | last _ _ hroom => exact hroom
  | both _ _ _ hroom => exact hroom

/-- What is held moves up as it is taken, and what comes back goes behind it. -/
theorem held_next_addresses (ho : s.cacheValid = true → s.oValid = true)
    (hroom : s.oWbCyc = true → s.cacheValid = false) (hf : flush i = false) :
    (held (next s i)).map Prod.fst =
      (if s.oValid && i.iStallN then ((held s).map Prod.fst).tail else (held s).map Prod.fst)
        ++ if s.oWbCyc && (i.iWbAck || i.iWbErr) then [behind s] else [] := by
  have hnew : i.iNewPc = false := by
    simp only [flush, Bool.or_eq_false_iff] at hf
    exact hf.1.2
  cases hv : s.oValid <;> cases hc : s.cacheValid <;> cases hn : i.iStallN <;>
    cases hcyc : s.oWbCyc <;> cases hb : i.iWbAck || i.iWbErr <;>
    simp_all [held, behind, wordOf_byteAddr]

/-- While no error is shown, they show what came back. -/
theorem held_next (ho : s.cacheValid = true → s.oValid = true)
    (hroom : s.oWbCyc = true → s.cacheValid = false)
    (hcached : s.oIllegal = false → s.cacheIllegal = true → s.cacheValid = true)
    (hone : ¬(i.iWbAck = true ∧ i.iWbErr = true)) (hf : flush i = false)
    (hill : (next s i).oIllegal = false) :
    held (next s i) = (if s.oValid && i.iStallN then (held s).tail else held s)
      ++ if s.oWbCyc && (i.iWbAck || i.iWbErr) then
        [(behind s, if i.iWbErr then none else some i.iWbData)] else [] := by
  have hnew : i.iNewPc = false := by
    simp only [flush, Bool.or_eq_false_iff] at hf
    exact hf.1.2
  obtain ⟨hok, hno⟩ := illegal_of_next hf hill
  cases hv : s.oValid <;> cases hc : s.cacheValid <;> cases hn : i.iStallN <;>
    cases hcyc : s.oWbCyc <;> cases hack : i.iWbAck <;> cases herr : i.iWbErr <;>
    simp_all [held, behind, wordOf_byteAddr, outCe]

theorem Reading.next (h : Reading s r mem) (hs : Reader.Served r i (out s) mem)
    (hf : flush i = false) : Reading (next s i) (Reader.step r i (out s)) mem := by
  have hflush : i.iReset = false ∧ i.iNewPc = false ∧ i.iClearCache = false := by
    simp only [flush, Bool.or_eq_false_iff] at hf
    exact ⟨hf.1.1, hf.1.2, hf.2⟩
  obtain ⟨hr, hnew, hclr⟩ := hflush
  have hroom := h.phase.room
  have hfetched : (Reader.step r i (out s)).fetched =
      (if s.oValid && i.iStallN then r.fetched.tail else r.fetched) ++
        if s.oWbCyc && (i.iWbAck || i.iWbErr) then
          [(behind s, if i.iWbErr then none else some i.iWbData)] else [] := by
    simp only [Reader.step, Reader.nextFetched, hnew, hr, h.phase.answer hs]
    rfl
  have hpast : (Reader.step r i (out s)).past =
      (r.past || (s.oValid && i.iStallN && r.error)) := by
    simp [Reader.step, Reader.nextPast, hnew, hr, FetchIn.given, out]
  exact
    { due := by
        have hdue : (Reader.step r i (out s)).due =
            if s.oValid && i.iStallN then r.due.map (· + 4) else r.due := by
          simp [Reader.step, Reader.nextDue, hnew, hr, FetchIn.given, out]
        rw [hdue, next_oPc, hnew, h.due]
        cases s.oValid && i.iStallN
        · rfl
        · exact congrArg some (byteAddr_add_four s.oPc).symm
      phase := h.phase.next h.order h.abandoned hs hf
      abandoned := by
        intro hinv
        rw [next_invalidBusCycle, hnew] at hinv
        cases hold : s.invalidBusCycle
        · simp [hold] at hinv
        · simp [(h.abandoned hold).1] at hinv
      order := by
        intro hc
        have horder := h.order
        rw [next_cacheValid, hf] at hc
        rw [next_oValid, hf]
        cases hv : s.oValid <;> cases hn : i.iStallN <;>
          cases hb : s.oWbCyc && (i.iWbAck || i.iWbErr) <;> simp_all
      addresses := by
        rw [hfetched, held_next_addresses h.order hroom hf, List.map_append, ← h.addresses]
        congr 1
        · cases s.oValid && i.iStallN <;> simp [List.map_tail]
        · cases s.oWbCyc && (i.iWbAck || i.iWbErr) <;> rfl
      sound := by
        intro hill
        rw [hfetched, held_next h.order hroom h.cached hs.one hf hill,
          h.sound (illegal_of_next hf hill).1]
      cached := by
        intro hill hc
        obtain ⟨hok, hno⟩ := illegal_of_next hf hill
        have hcached := h.cached hok
        have horder := h.order
        rw [next_cacheIllegal, hf] at hc
        rw [next_oIllegal, hf] at hill
        rw [next_cacheValid, hf]
        cases hv : s.oValid <;> cases hn : i.iStallN <;> cases hcv : s.cacheValid <;>
          cases hb : s.oWbCyc && i.iWbErr <;> simp_all [outCe]
      first := by
        intro hill hp
        rw [hpast] at hp
        cases hold : s.oIllegal
        · -- the error comes up now, from the spare place or from the bus
          have hsound := h.sound hold
          have horder := h.order
          have hroom := hroom
          rw [next_oIllegal, hf] at hill
          rw [next_oValid, hf]
          unfold Reader.error
          rw [hfetched, hsound]
          cases hv : s.oValid <;> cases hn : i.iStallN <;> cases hcv : s.cacheValid <;>
            cases hcyc : s.oWbCyc <;> cases herr : i.iWbErr <;> simp_all [outCe, held]
        · -- it is shown already, and not taken
          simp only [Bool.or_eq_false_iff] at hp
          obtain ⟨hv, herr⟩ := h.first hold hp.1
          have hn : i.iStallN = false := by
            simpa [hv, herr] using hp.2
          refine ⟨?_, ?_⟩
          · simp [hf, hn, hv]
          · rw [Reader.error, hfetched]
            rw [Reader.error] at herr
            cases hl : r.fetched with
            | nil => simp [hl] at herr
            | cons e l => simpa [hn, hl] using herr
      stays := by
        intro hp
        rw [hpast, Bool.or_eq_true] at hp
        have hold : s.oIllegal = true := by
          rcases hp with hp | hp
          · exact h.stays hp
          · cases hold : s.oIllegal
            · have hsound := h.sound hold
              simp only [Bool.and_eq_true] at hp
              simp [Reader.error, hsound, held, hp.1.1, hold] at hp
            · rfl
        rw [next_oIllegal, hf]
        simp [hold]
      memory := by
        intro a v hmem
        rw [hfetched, List.mem_append] at hmem
        rcases hmem with hmem | hmem
        · refine h.memory a v ?_
          cases htk : s.oValid && i.iStallN
          · simpa [htk] using hmem
          · rw [htk] at hmem
            exact List.mem_of_mem_tail hmem
        · split_ifs at hmem with hb herr
          · simp at hmem
          · have hack : s.oWbCyc = true ∧ i.iWbAck = true := by
              simpa [herr] using hb
            obtain ⟨-, b, l, hl, hdata⟩ := hs.ack hack.2
            obtain ⟨l', hl'⟩ := h.phase.oldest hack.1 (by simp [hl])
            rw [hl, List.cons.injEq] at hl'
            simp only [List.mem_singleton, Prod.mk.injEq, Option.some.injEq] at hmem
            rw [hmem.2, hdata, hl'.1, hmem.1]
          · simp at hmem }

/-- A jump sets everything anew, whatever went on before it. -/
theorem reading_jump (hnew : i.iNewPc = true) :
    Reading (Dblfetch.next s i) (Reader.step r i (out s)) mem := by
  have hflush : flush i = true := by
    simp [flush, hnew]
  have hfetched : (Reader.step r i (out s)).fetched = [] := by
    simp [Reader.step, Reader.nextFetched, hnew]
  have hheld : held (Dblfetch.next s i) = [] := by
    simp [held, hflush]
  have haddr : (Dblfetch.next s i).oWbAddr = behind (Dblfetch.next s i) := by
    simp [behind, hflush, hnew]
  have hcyc : nextCyc s i = (!i.iReset && !s.oWbCyc) := by
    cases hr : i.iReset <;> cases hc : s.oWbCyc <;>
      simp [nextCyc, release, start, hr, hc, hnew]
  have hstb : nextStb s i = (!i.iReset && !s.oWbCyc) := by
    cases hr : i.iReset <;> cases hc : s.oWbCyc <;>
      simp [nextStb, release, start, hr, hc, hnew]
  exact
    { due := by simp [Reader.step, Reader.nextDue, hnew]
      phase := by
        cases hon : !i.iReset && !s.oWbCyc
        · exact .idle (hcyc.trans hon) (hstb.trans hon) fun _ => haddr
        · have hc : s.oWbCyc = false := by
            simp only [Bool.and_eq_true, Bool.not_eq_true'] at hon
            exact hon.2
          refine .opening (hcyc.trans hon) (hstb.trans hon) ?_ ?_ ?_ haddr
          · simp [hflush]
          · simp [nextInflight, hc]
          · simp [Reader.step, Reader.nextAsked, out, hc]
      abandoned := by
        intro hinv
        have hc : s.oWbCyc = true := by
          cases hc : s.oWbCyc
          · simp [hc] at hinv
          · rfl
        refine ⟨hcyc.trans (by simp [hc]), by simp [hflush], ?_⟩
        simp [hflush]
      order := by simp [hflush]
      addresses := by rw [hfetched, hheld]
      sound := by intro _; rw [hfetched, hheld]
      cached := by simp [hflush]
      first := by simp [hflush]
      stays := by simp [Reader.step, Reader.nextPast, hnew]
      memory := by simp [hfetched] }

theorem Reading.right (h : Reading s r mem) : Reader.Right r i (out s) mem ↔
    (i.given (out s) = true → r.past = true → r.error = true) := by
  constructor
  · intro hright hg hp
    obtain ⟨-, v, l, hl, hv, -⟩ := hright hg
    simp [Reader.error, hl, hv.1 (h.stays hp)]
  · intro hp hg
    have hv : s.oValid = true := by
      simp only [FetchIn.given, out, Bool.and_eq_true] at hg
      exact hg.1
    have haddr := h.addresses
    cases hl : r.fetched with
    | nil => simp [hl, held, hv] at haddr
    | cons e l =>
      have he : e.1 = wordOf s.oPc := by
        simp [hl, held, hv] at haddr
        exact haddr.1
      refine ⟨h.due, e.2, l, congrArg (· :: l) (Prod.ext he rfl), ?_, ?_⟩
      · cases hill : s.oIllegal
        · have hsound := h.sound hill
          simp [hl, held, hv, hill] at hsound
          simp [out, hill, hsound.1]
        · have herr : r.error = true := by
            cases hpast : r.past
            · exact (h.first hill hpast).2
            · exact hp hg hpast
          simpa [out, hill, Reader.error, hl] using herr
      · intro hill
        have hsound := h.sound hill
        refine h.memory _ _ ?_
        rw [hsound]
        have hill' : s.oIllegal = false := hill
        simp [held, hv, hill', out]

/-- There is a place for every word under way. -/
theorem Reading.room (h : Reading s r mem) : Room s r := by
  have horder := h.order
  unfold Room held
  cases h.phase with
  | idle hcyc => cases hv : s.oValid <;> cases hc : s.cacheValid <;> simp [hcyc]
  | opening hcyc _ hroom _ hasked => cases hv : s.oValid <;> simp [hcyc, hroom, hasked]
  | second hcyc _ hroom hroom' _ hasked => simp [hcyc, hroom, hroom', hasked]
  | last hcyc _ hroom _ hasked => cases hv : s.oValid <;> simp [hcyc, hroom, hasked]
  | both hcyc _ hroom hroom' _ hasked => simp [hcyc, hroom, hroom', hasked]

theorem Reading.asleep (h : Reading s r mem) (hr : i.iReset = true) (hnew : i.iNewPc = false) :
    Asleep (Dblfetch.next s i) where
  cyc := by simp [nextCyc, hr]
  valid := by simp [flush, hr]
  cacheValid := by simp [flush, hr]
  abandoned := by
    rw [next_invalidBusCycle, hnew]
    cases hold : s.invalidBusCycle
    · simp
    · simp [(h.abandoned hold).1]

theorem Asleep.next (h : Asleep s) (hnew : i.iNewPc = false) : Asleep (Dblfetch.next s i) where
  cyc := by
    have hst : start s i = false := by
      simp [start, hnew, h.abandoned, h.valid]
    simp [nextCyc, h.cyc, hst]
  valid := by simp [h.cyc, h.valid, h.cacheValid]
  cacheValid := by simp [h.cyc, h.cacheValid]
  abandoned := by simp [h.cyc]

theorem cleared_next {j : FetchIn AW} (hclr : i.iClearCache = true) (hnew : j.iNewPc = true) :
    Cleared (Dblfetch.next s i) (Reader.step r i (out s)) j where
  valid := by simp [flush, hclr]
  cacheValid := by simp [flush, hclr]
  asked := by
    intro hcyc
    have hc : s.oWbCyc = false := by
      cases hc : s.oWbCyc
      · rfl
      · simp [nextCyc, release, hclr, hc] at hcyc
    simp [Reader.step, Reader.nextAsked, out, hc]
  jump := hnew

end Step

/-! ## Whole runs -/

/-- What the source's `initial` statements set. -/
structure AtPowerUp (s : Dblfetch AW) : Prop where
  oWbCyc : s.oWbCyc = false
  oWbStb : s.oWbStb = false
  inflight : s.inflight = 0
  invalidBusCycle : s.invalidBusCycle = false
  oWbAddr : s.oWbAddr = BitVec.allOnes AW
  oValid : s.oValid = false
  oPc : s.oPc.extractLsb' 0 2 = 0
  oIllegal : s.oIllegal = false
  cacheValid : s.cacheValid = false
  cacheIllegal : s.cacheIllegal = false

/-- What `dblfetch` shows over a run, and what the observer makes of it. -/
def reader (s : ℕ → Dblfetch AW) (i : ℕ → FetchIn AW) : ℕ → Reader AW :=
  Reader.seen i fun k => out (s k)

theorem modes {mem : BitVec AW → BitVec 32} {s : ℕ → Dblfetch AW} {i : ℕ → FetchIn AW}
    (h0 : AtPowerUp (s 0)) (hstep : ∀ n, s (n + 1) = next (s n) (i n))
    (hclear : ∀ n, (i n).iClearCache = true → (i n).iNewPc = true ∨ (i (n + 1)).iNewPc = true)
    (hserved : ∀ n, Reader.Served (reader s i n) (i n) (out (s n)) mem) :
    ∀ n, Asleep (s n) ∨ Reading (s n) (reader s i n) mem ∨ Cleared (s n) (reader s i n) (i n) := by
  intro n
  induction n with
  | zero => exact .inl ⟨h0.oWbCyc, h0.oValid, h0.cacheValid, h0.invalidBusCycle⟩
  | succ n ih =>
    rw [hstep]
    show _ ∨ Reading _ (Reader.step (reader s i n) (i n) (out (s n))) mem ∨
      Cleared _ (Reader.step (reader s i n) (i n) (out (s n))) _
    cases hnew : (i n).iNewPc
    · rcases ih with hasleep | hreading | hcleared
      · exact .inl (hasleep.next hnew)
      · cases hr : (i n).iReset
        · cases hclr : (i n).iClearCache
          · have hflush : flush (i n) = false := by
              simp [flush, hr, hnew, hclr]
            exact .inr (.inl (hreading.next (hserved n) hflush))
          · exact .inr (.inr (cleared_next hclr ((hclear n hclr).resolve_left (by simp [hnew]))))
        · exact .inl (hreading.asleep hr hnew)
      · simp [hcleared.jump] at hnew
    · exact .inr (.inl (reading_jump hnew))

/-- **What `dblfetch` hands over** is the program, with room for all that is under way, exactly if
    behind an instruction whose fetch has failed the CPU takes none whose fetch has not, until the
    next jump. -/
theorem hands_over_iff {mem : BitVec AW → BitVec 32} {s : ℕ → Dblfetch AW} {i : ℕ → FetchIn AW}
    (h0 : AtPowerUp (s 0)) (hstep : ∀ n, s (n + 1) = next (s n) (i n))
    (hclear : ∀ n, (i n).iClearCache = true → (i n).iNewPc = true ∨ (i (n + 1)).iNewPc = true)
    (hserved : ∀ n, Reader.Served (reader s i n) (i n) (out (s n)) mem) :
    (∀ n, Reader.Right (reader s i n) (i n) (out (s n)) mem ∧ Room (s n) (reader s i n)) ↔
      ∀ n, (i n).given (out (s n)) = true → (reader s i n).past = true →
        (reader s i n).error = true := by
  have hmodes := modes h0 hstep hclear hserved
  constructor
  · intro hright n hg
    rcases hmodes n with hasleep | hreading | hcleared
    · simp [FetchIn.given, out, hasleep.valid] at hg
    · exact hreading.right.1 (hright n).1 hg
    · simp [FetchIn.given, out, hcleared.valid] at hg
  · intro hcond n
    rcases hmodes n with hasleep | hreading | hcleared
    · refine ⟨fun hg => ?_, ?_⟩
      · simp [FetchIn.given, out, hasleep.valid] at hg
      · simp [Room, held, hasleep.cyc, hasleep.valid, hasleep.cacheValid]
    · exact ⟨hreading.right.2 (hcond n), hreading.room⟩
    · refine ⟨fun hg => ?_, ?_⟩
      · simp [FetchIn.given, out, hcleared.valid] at hg
      · cases hcyc : s n |>.oWbCyc
        · simp [Room, held, hcyc, hcleared.valid, hcleared.cacheValid]
        · simp [Room, held, hcleared.asked hcyc, hcleared.valid, hcleared.cacheValid]

/-! ## A word fetched behind an error -/

theorem atPowerUp_init (AW : ℕ) : AtPowerUp (Dblfetch.init AW) :=
  ⟨rfl, rfl, rfl, rfl, rfl, rfl, by simp [Dblfetch.init], rfl, rfl, rfl⟩

/-- Nothing happens: the CPU takes nothing, and the bus answers nothing. -/
def still : FetchIn 30 :=
  { iReset := false, iNewPc := false, iClearCache := false, iStallN := false, iPc := 0,
    iPipePc := 0, iWbRequest := false, iWbAck := false, iWbStall := true, iWbErr := false,
    iWbData := 0 }

/-- The inputs of a list, and then nothing. -/
def pins (l : List (FetchIn 30)) (n : ℕ) : FetchIn 30 := l.getD n still

/-- `dblfetch` from power up on. -/
def fetches (l : List (FetchIn 30)) : ℕ → Dblfetch 30 :=
  Clocked.run next (Dblfetch.init 30) (pins l)

/-- Every word of this memory is its own address. -/
def addresses (a : BitVec 30) : BitVec 32 := a.setWidth 32

theorem pins_still {l : List (FetchIn 30)} {n : ℕ} (h : l.length ≤ n) : pins l n = still := by
  simp [pins, List.getD, List.getElem?_eq_none h]

theorem clear_pins {l : List (FetchIn 30)} (h : ∀ x ∈ l, x.iClearCache = false) (n : ℕ) :
    (pins l n).iClearCache = false := by
  rcases Nat.lt_or_ge n l.length with hn | hn
  · simp [pins, List.getD, List.getElem?_eq_getElem hn, h _ (List.getElem_mem hn)]
  · rw [pins_still hn]
    rfl

/-- A list of inputs is a run like any other, if the memory keeps its rules on the list. -/
theorem served_pins {l : List (FetchIn 30)}
    (hack : ∀ n < l.length, (pins l n).iWbAck = true → (fetches l n).oWbCyc = true ∧
      (reader (fetches l) (pins l) n).asked.head?.map addresses = some (pins l n).iWbData)
    (herr : ∀ n < l.length, (pins l n).iWbErr = true → (fetches l n).oWbCyc = true ∧
      (reader (fetches l) (pins l) n).asked ≠ [] ∧ (pins l n).iWbAck = false) :
    ∀ n, Reader.Served (reader (fetches l) (pins l) n) (pins l n) (out (fetches l n)) addresses := by
  intro n
  rcases Nat.lt_or_ge n l.length with hn | hn
  · refine ⟨fun h => ?_, fun h => ?_, fun h => ?_⟩
    · obtain ⟨hcyc, hhead⟩ := hack n hn h
      refine ⟨hcyc, ?_⟩
      cases hl : (reader (fetches l) (pins l) n).asked with
      | nil => simp [hl] at hhead
      | cons a as => exact ⟨a, as, rfl, by simpa [hl, eq_comm] using hhead⟩
    · exact ⟨(herr n hn h).1, (herr n hn h).2.1⟩
    · simp [(herr n hn h.2).2.2] at h
  · rw [pins_still hn]
    exact ⟨by simp [still], by simp [still], by simp [still]⟩

/-- A jump to address zero, whose word comes back and is taken. -/
def oneWord : List (FetchIn 30) :=
  [{ still with iNewPc := true }, { still with iWbStall := false },
    { still with iWbAck := true }, { still with iStallN := true }]

theorem delivers_oneWord :
    Reader.Right (reader (fetches oneWord) (pins oneWord) 3) (pins oneWord 3)
      (out (fetches oneWord 3)) addresses ∧
    Room (fetches oneWord 3) (reader (fetches oneWord) (pins oneWord) 3) := by
  refine (hands_over_iff (atPowerUp_init 30) (fun _ => rfl) ?_ ?_).2 ?_ 3
  · intro n hclr
    rw [clear_pins (by decide)] at hclr
    simp at hclr
  · exact served_pins (by decide +kernel) (by decide +kernel)
  · intro n hg hpast
    rcases Nat.lt_or_ge n oneWord.length with hn | hn
    · have hno : ∀ n < oneWord.length,
          (reader (fetches oneWord) (pins oneWord) n).past = false := by
        decide +kernel
      simp [hno n hn] at hpast
    · simp [FetchIn.given, pins_still hn, still] at hg

/-- The second of two words fails while the first one waits at the output.  The CPU takes both, and
    then the third one, which was fetched without an error. -/
def behindError : List (FetchIn 30) :=
  [{ still with iNewPc := true }, { still with iWbStall := false },
    { still with iWbStall := false, iWbAck := true }, { still with iWbErr := true },
    { still with iStallN := true }, { still with iStallN := true, iWbStall := false },
    { still with iWbAck := true, iWbData := 2 }, { still with iStallN := true }]

theorem handed_over_as_illegal :
    (∀ n, (pins behindError n).iClearCache = false) ∧
    (∀ n, Reader.Served (reader (fetches behindError) (pins behindError) n) (pins behindError n)
      (out (fetches behindError n)) addresses) ∧
    ¬ ∀ n, Reader.Right (reader (fetches behindError) (pins behindError) n) (pins behindError n)
        (out (fetches behindError n)) addresses ∧
      Room (fetches behindError n) (reader (fetches behindError) (pins behindError) n) := by
  refine ⟨clear_pins (by decide), served_pins (by decide +kernel) (by decide +kernel), ?_⟩
  intro h
  obtain ⟨-, v, l, hl, hv, -⟩ := (h 7).1 (by decide +kernel)
  have hfetched : (reader (fetches behindError) (pins behindError) 7).fetched =
      [(2, some 2)] := by
    decide +kernel
  have hnone : v = none := hv.1 (by decide +kernel)
  rw [hfetched, hnone] at hl
  simp at hl

end Dblfetch

end ZipStormMX.Cpu
