/-
  What `FLASHDRVR::write` leaves in the flash.

  From the commands up: what an erase and a page program do to the contents, what the page loop does
  to a sector, what the comparison knows, and what the sector loop does to the range.  It is all as it
  should be where the values that were never set happen to be right (`Lucky`).
-/
import ZipStormMX.Flash.Flashdrvr

namespace ZipStormMX.Flash

open Nor

/-! ## Loops -/

/-- **The loop rule.**  `I` holds whenever the body is entered, and `F` when it does not return
    `true`. -/
theorem loop_rule {body : ℕ → State → State × Outcome} {step : ℕ → ℕ} {hstep : ∀ p, p < step p}
    {stop : ℕ} {I : ℕ → State → Prop} {F : State × Outcome → Prop}
    (hbody : ∀ p st, p < stop → I p st → ((body p st).2 = .returned true → I (step p) (body p st).1) ∧
      ((body p st).2 ≠ .returned true → F (body p st)))
    (p : ℕ) (st : State) (h : I p st) :
    ((loop body step hstep stop p st).2 = .returned true →
      ∃ q, stop ≤ q ∧ I q (loop body step hstep stop p st).1) ∧
    ((loop body step hstep stop p st).2 ≠ .returned true → F (loop body step hstep stop p st)) := by
  induction p, st using loop.induct body step hstep stop with
  | case1 p st hp r hr ih =>
    rw [loop, if_pos hp]
    show ((if r.2 = .returned true then _ else _ : State × Outcome).2 = _ → _) ∧ _
    rw [if_pos hr]
    exact ih ((hbody p st hp h).1 hr)
  | case2 p st hp r hr =>
    rw [loop, if_pos hp]
    show ((if r.2 = .returned true then _ else _ : State × Outcome).2 = _ → _) ∧ _
    rw [if_neg hr]
    exact ⟨fun hok => absurd hok hr, fun _ => (hbody p st hp h).2 hr⟩
  | case3 p st hp =>
    rw [loop, if_neg hp]
    exact ⟨fun _ => ⟨p, Nat.le_of_not_lt hp, h⟩, fun hno => absurd rfl hno⟩

/-! ## Commands -/

/-- The chip is not selected. -/
def Idle (f : Chip) : Prop := f.command = []

theorem bytes_append (as bs : List (BitVec 8)) : bytes (as ++ bs) = bytes as ++ bytes bs :=
  List.map_append

theorem addrBytes_eq (a : ℕ) : addrBytes a =
    bytes [BitVec.ofNat 8 (a / 65536), BitVec.ofNat 8 (a / 256), BitVec.ofNat 8 a] := by
  have hbyte : ∀ n, BitVec.ofNat 32 (n % 256) = (BitVec.ofNat 8 n).setWidth 32 := by
    intro n
    apply BitVec.eq_of_toNat_eq
    simp only [BitVec.toNat_ofNat, BitVec.toNat_setWidth]
  unfold addrBytes
  rw [hbyte, hbyte, hbyte]
  rfl

/-- The address of a command is the place in the flash. -/
theorem address_eq {a : ℕ} (h0 : rFlash ≤ a) (h1 : a < rFlash + flashLen) :
    address flashLen (BitVec.ofNat 8 (a % 2 ^ 24 / 65536)) (BitVec.ofNat 8 (a % 2 ^ 24 / 256))
      (BitVec.ofNat 8 (a % 2 ^ 24)) = a - rFlash := by
  unfold rFlash flashLen at h1
  unfold rFlash at h0
  unfold address flashLen rFlash
  simp only [BitVec.toNat_append, BitVec.toNat_ofNat]
  rw [← Nat.shiftLeft_add_eq_or_of_lt (by omega), ← Nat.shiftLeft_add_eq_or_of_lt (by omega)]
  simp only [Nat.shiftLeft_eq]
  omega

theorem enable {f : Chip} (h : Idle f) :
    writeio f [fEnd, fWren, fEnd] = { f with writeEnable := true, command := [] } := by
  obtain ⟨mem, en, command⟩ := f
  change command = [] at h
  subst h
  rfl

theorem fEnd_idle {f : Chip} (h : Idle f) : writeio f [fEnd] = f := by
  obtain ⟨mem, en, command⟩ := f
  change command = [] at h
  subst h
  rfl

/-- The last word of every exchange ends a command. -/
theorem fEnd_last (f : Chip) (vs : List (BitVec 32)) : Idle (writeio f (vs ++ [fEnd])) := by
  unfold writeio
  rw [sends_append]
  exact execute_command (sends flashLen f vs)

/-- Polling changes nothing. -/
theorem flwait_eq (u : Unset) {f : Chip} (h : Idle f) : flwait u f = f := by
  have hpoll : [fEnd, fRdsr1] ++ List.replicate (u.polls + 1) fEmpty ++ [fEnd] =
      [fEnd] ++ (bytes (0x05#8 :: List.replicate (u.polls + 1) 0#8) ++ [0x100#32]) := by
    unfold bytes
    rw [List.map_cons, List.map_replicate]
    rfl
  unfold flwait
  rw [hpoll]
  show sends flashLen f _ = f
  rw [sends_append, show sends flashLen f [fEnd] = f from fEnd_idle h, sends_cmd h]
  obtain ⟨mem, en, command⟩ := f
  change command = [] at h
  subst h
  rw [List.replicate_succ]
  unfold execute
  split
  · rename_i heq
    cases u.polls <;> simp at heq
  · rename_i heq
    obtain ⟨rfl, -⟩ := List.cons.inj heq
    rw [if_neg (by rintro ⟨h, -⟩; exact absurd h (by decide)),
      if_neg (by rintro ⟨h, -⟩; exact absurd h (by decide))]
  · rfl

/-- A sector is erased. -/
theorem eraseSector_chip (u : Unset) {f : Chip} (h : Idle f) {s : ℕ} (verify : Bool)
    (h0 : rFlash ≤ s) (h1 : s < rFlash + flashLen) : (eraseSector u f s verify).1 =
      { mem := erase f.mem (s - rFlash), writeEnable := false, command := [] } := by
  have hcmd : [fSe] ++ addrBytes (s % 2 ^ 24) ++ [fEnd] =
      bytes [0xd8#8, BitVec.ofNat 8 (s % 2 ^ 24 / 65536), BitVec.ofNat 8 (s % 2 ^ 24 / 256),
        BitVec.ofNat 8 (s % 2 ^ 24)] ++ [0x100#32] := by
    rw [addrBytes_eq]
    rfl
  have hsent : writeio f ([fEnd, fWren, fEnd] ++ ([fSe] ++ addrBytes (s % 2 ^ 24) ++ [fEnd])) =
      { mem := erase f.mem (s - rFlash), writeEnable := false, command := [] } := by
    show sends flashLen f _ = _
    rw [sends_append, show sends flashLen f [fEnd, fWren, fEnd] = _ from enable h, hcmd,
      sends_cmd rfl, ← address_eq h0 h1]
    rfl
  show flwait u (writeio f _) = _
  rw [hsent]
  exact flwait_eq u rfl

/-! ## Pages -/

/-- Bits are cleared where `data` has them clear, from address `a` up to address `b`. -/
def cleared (mem : Mem) (a b : ℕ) (data : ℕ → BitVec 8) : Mem := fun o =>
  if a ≤ o + rFlash ∧ o + rFlash < b then mem o &&& data (o + rFlash - a) else mem o

theorem toNat_append_byte {n : ℕ} (a : BitVec n) (b : BitVec 8) :
    (a ++ b).toNat = a.toNat * 256 + b.toNat := by
  rw [BitVec.toNat_append, ← Nat.shiftLeft_add_eq_or_of_lt b.isLt, Nat.shiftLeft_eq]

theorem append_ones {a b c d : BitVec 8} (h : a ++ b ++ c ++ d = 0xffffffff#32) :
    a = 0xff#8 ∧ b = 0xff#8 ∧ c = 0xff#8 ∧ d = 0xff#8 := by
  have ha := a.isLt
  have hb := b.isLt
  have hc := c.isLt
  have hd := d.isLt
  have hnat : ((a.toNat * 256 + b.toNat) * 256 + c.toNat) * 256 + d.toNat = 4294967295 := by
    rw [← toNat_append_byte, ← toNat_append_byte, ← toNat_append_byte, h]
    decide
  refine ⟨?_, ?_, ?_, ?_⟩ <;> apply BitVec.eq_of_toNat_eq
  · show a.toNat = 255
    omega
  · show b.toNat = 255
    omega
  · show c.toNat = 255
    omega
  · show d.toNat = 255
    omega

/-- An empty page has nothing to clear. -/
theorem words_empty {data : ℕ → BitVec 8} {len : ℕ}
    (h : (words data len).all (· == 0xffffffff#32) = true) : ∀ i < len, data i = 0xff#8 := by
  intro i hi
  have hword : buildword (fun j => data (4 * (i / 4) + j)) = 0xffffffff#32 := by
    have hmem : buildword (fun j => data (4 * (i / 4) + j)) ∈ words data len := by
      apply List.mem_map.2
      exact ⟨i / 4, List.mem_range.2 (by omega), rfl⟩
    exact eq_of_beq (List.all_eq_true.1 h _ hmem)
  obtain ⟨h0, h1, h2, h3⟩ := append_ones hword
  have hcase : i = 4 * (i / 4) ∨ i = 4 * (i / 4) + 1 ∨ i = 4 * (i / 4) + 2 ∨ i = 4 * (i / 4) + 3 := by
    omega
  rcases hcase with hr | hr | hr | hr <;> rw [hr]
  · exact h0
  · exact h1
  · exact h2
  · exact h3

/-- The assertions say that the data stays in its page. -/
theorem pageOk_iff {p len : ℕ} (hp : p + 256 < 2 ^ 32) :
    pageOk p len ↔ 0 < len ∧ p + len ≤ nextPage p := by
  unfold pageOk nextPage pageOf szPageB
  omega

theorem nextPage_eq (p : ℕ) : nextPage p = p - p % 256 + 256 := by
  unfold nextPage pageOf szPageB
  omega

theorem pageProgram_calls (u : Unset) (s : State) (addr len : ℕ) (data : ℕ → BitVec 8)
    (verify : Bool) : (pageProgram u s addr len data verify).1.calls = s.calls ++ [(addr, len)] := by
  unfold pageProgram
  split_ifs <;> rfl

theorem pageProgram_idle (u : Unset) {s : State} (addr len : ℕ) (data : ℕ → BitVec 8)
    (verify : Bool) (hs : Idle s.chip) : Idle (pageProgram u s addr len data verify).1.chip := by
  unfold pageProgram
  split
  · exact hs
  · show Idle (if _ then _ else _ : Chip)
    split_ifs
    · exact hs
    · exact fEnd_last _ _

/-- A page program outside the assertions changes nothing. -/
theorem pageProgram_aborted (u : Unset) (s : State) {addr len : ℕ} (data : ℕ → BitVec 8)
    (verify : Bool) (h : ¬pageOk addr len) : (pageProgram u s addr len data verify).1.chip = s.chip ∧
      (pageProgram u s addr len data verify).2 = .aborted := by
  unfold pageProgram
  rw [if_pos h]
  exact ⟨rfl, rfl⟩

/-- What is programmed. -/
theorem pageProgram_chip (u : Unset) {s : State} {addr len : ℕ} (data : ℕ → BitVec 8)
    (verify : Bool) (hs : Idle s.chip) (h : pageOk addr len) (h0 : rFlash ≤ addr)
    (h1 : addr < rFlash + flashLen) :
    (pageProgram u s addr len data verify).1.chip.mem = cleared s.chip.mem addr (addr + len) data := by
  have hok : 0 < len ∧ addr + len ≤ addr - addr % 256 + 256 := by
    have hbig : addr + 256 < 2 ^ 32 := by
      unfold rFlash flashLen at h1
      omega
    rw [← nextPage_eq]
    exact (pageOk_iff hbig).1 h
  have hin : ∀ o, (addr - rFlash ≤ o ∧ o < addr - rFlash + len) ↔
      (addr ≤ o + rFlash ∧ o + rFlash < addr + len) := by
    intro o
    omega
  unfold pageProgram
  rw [if_neg (not_not.2 h)]
  by_cases hempty : (words data len).all (· == 0xffffffff#32) = true
  · -- all ones: nothing is sent, and nothing has to be
    show (if _ then _ else _ : Chip).mem = _
    rw [if_pos hempty]
    funext o
    unfold cleared
    split_ifs with ho
    · rw [words_empty hempty _ (by omega)]
      exact BitVec.and_allOnes.symm
    · rfl
  · have hcmd : [fPp] ++ addrBytes (addr % 2 ^ 24) ++ bytes (dataBytes data len) ++ [fEnd] =
        bytes (0x02#8 :: BitVec.ofNat 8 (addr % 2 ^ 24 / 65536) ::
          BitVec.ofNat 8 (addr % 2 ^ 24 / 256) :: BitVec.ofNat 8 (addr % 2 ^ 24) ::
          dataBytes data len) ++ [0x100#32] := by
      rw [addrBytes_eq]
      rfl
    have hsent : writeio s.chip ([fEnd, fWren, fEnd] ++ ([fEnd] ++
        ([fPp] ++ addrBytes (addr % 2 ^ 24) ++ bytes (dataBytes data len) ++ [fEnd]))) =
        { mem := program s.chip.mem (addr - rFlash) (dataBytes data len), writeEnable := false,
          command := [] } := by
      show sends flashLen s.chip _ = _
      rw [sends_append, show sends flashLen s.chip [fEnd, fWren, fEnd] = _ from enable hs,
        sends_append, show sends flashLen { s.chip with writeEnable := true, command := [] } [fEnd] =
          _ from fEnd_idle (by exact rfl), hcmd, sends_cmd rfl, ← address_eq h0 h1]
      rfl
    show (if _ then _ else _ : Chip).mem = _
    rw [if_neg hempty, hsent, flwait_eq u (by exact rfl)]
    funext o
    have hpage : (addr - rFlash) % 256 + (dataBytes data len).length ≤ 256 := by
      unfold dataBytes rFlash at *
      rw [List.length_map, List.length_range]
      omega
    have hget : ∀ k < len, ((List.range len).map data).getD k 0 = data k := by
      intro k hk
      rw [List.getD_eq_getElem?_getD, List.getElem?_map, List.getElem?_range hk]
      rfl
    show program s.chip.mem (addr - rFlash) (dataBytes data len) o = _
    rw [program_mem hpage]
    unfold cleared dataBytes
    rw [List.length_map, List.length_range]
    by_cases ho : addr - rFlash ≤ o ∧ o < addr - rFlash + len
    · rw [if_pos ho, if_pos ((hin o).1 ho)]
      rw [hget _ (by omega), show o - (addr - rFlash) = o + rFlash - addr by omega]
    · rw [if_neg ho, if_neg (fun h => ho ((hin o).2 h))]

/-! ## The page loop -/

/-- A call of `page_program` as it should be, for a write of `len` bytes at `addr`. -/
def Good (addr len : ℕ) (c : ℕ × ℕ) : Prop := pageOk c.1 c.2 ∧ addr ≤ c.1 ∧ c.1 + c.2 ≤ addr + len

def GoodCalls (addr len : ℕ) (st : State) : Prop := ∀ c ∈ st.calls, Good addr len c

theorem Good.of {addr len p l : ℕ} (h : pageOk p l) (h0 : addr ≤ p) (h1 : p + l ≤ addr + len) :
    Good addr len (p, l) := ⟨h, h0, h1⟩

theorem Good.ok {addr len p l : ℕ} (h : Good addr len (p, l)) : pageOk p l := h.1

theorem Good.inRange {addr len p l : ℕ} (h : Good addr len (p, l)) : addr ≤ p ∧ p + l ≤ addr + len :=
  h.2

/-- Where the page loop calls, from `p0` on. -/
def Visited (p0 q : ℕ) : Prop := q = p0 ∨ p0 < q ∧ q % 256 = 0

theorem Visited.next {p0 q : ℕ} (h : Visited p0 q) : Visited p0 (nextPage q) := by
  unfold Visited at *
  rw [nextPage_eq]
  omega

/-- The call before address `a`. -/
def startOf (p0 a : ℕ) : ℕ := max p0 (pageOf a)

theorem startOf_eq {p0 q a : ℕ} (h : Visited p0 q) (h0 : q ≤ a) (h1 : a < nextPage q) :
    startOf p0 a = q := by
  rw [nextPage_eq] at h1
  unfold startOf pageOf
  unfold Visited at h
  omega

theorem startOf_visited {p0 a : ℕ} (h : p0 ≤ a) : Visited p0 (startOf p0 a) ∧ startOf p0 a ≤ a ∧
    a < nextPage (startOf p0 a) := by
  rw [nextPage_eq]
  unfold startOf pageOf Visited
  omega

/-- The page loop has gone from `p0` to `p`. -/
def programmed (u : Unset) (addr p0 p : ℕ) (data : ℕ → BitVec 8) (mem : Mem) : Mem := fun o =>
  if p0 ≤ o + rFlash ∧ o + rFlash < p ∧
      o + rFlash < startOf p0 (o + rFlash) + pageLen u addr (startOf p0 (o + rFlash)) then
    mem o &&& data (o + rFlash - addr)
  else mem o

/-- One page more. -/
theorem cleared_programmed {u : Unset} {addr p0 p : ℕ} {data : ℕ → BitVec 8} {mem : Mem}
    (hp : Visited p0 p) (ha : addr ≤ p) (hlen : p + pageLen u addr p ≤ nextPage p) :
    cleared (programmed u addr p0 p data mem) p (p + pageLen u addr p) (fun i => data (p - addr + i)) =
      programmed u addr p0 (nextPage p) data mem := by
  have hp0 : p0 ≤ p := by
    unfold Visited at hp
    omega
  have hnext := lt_nextPage p
  funext o
  unfold cleared
  by_cases hin : p ≤ o + rFlash ∧ o + rFlash < nextPage p
  · have hstart := startOf_eq hp hin.1 hin.2
    have hsame : programmed u addr p0 p data mem o = mem o := by
      unfold programmed
      rw [if_neg (by omega)]
    rw [hsame]
    unfold programmed
    rw [hstart]
    by_cases hlt : o + rFlash < p + pageLen u addr p
    · rw [if_pos ⟨hin.1, hlt⟩, if_pos ⟨by omega, hin.2, hlt⟩]
      show mem o &&& data (p - addr + (o + rFlash - p)) = _
      rw [show p - addr + (o + rFlash - p) = o + rFlash - addr by omega]
    · rw [if_neg (fun h => hlt h.2), if_neg (fun h => hlt h.2.2)]
  · rw [if_neg (by omega)]
    unfold programmed
    by_cases hlt : o + rFlash < p
    · have hiff : o + rFlash < nextPage p ↔ o + rFlash < p := by
        omega
      simp only [hiff]
    · rw [if_neg (fun h => hlt h.2.1), if_neg (fun h => hin ⟨by omega, h.2.1⟩)]

/-- What the page loop has done from `st` on, when it comes to `p`. -/
structure Paged (u : Unset) (addr len : ℕ) (data : ℕ → BitVec 8) (p0 stop : ℕ) (st : State) (p : ℕ)
    (st' : State) : Prop where
  visited : Visited p0 p
  kept : ∀ c ∈ st.calls, c ∈ st'.calls
  made : ∀ q, Visited p0 q → q < p → q < stop ∧ (q, pageLen u addr q) ∈ st'.calls
  only : ∀ c ∈ st'.calls,
    c ∈ st.calls ∨ ∃ q, Visited p0 q ∧ q < stop ∧ c = (q, pageLen u addr q)
  idle : Idle st'.chip
  mem : GoodCalls addr len st' → st'.chip.mem = programmed u addr p0 p data st.chip.mem

/-- The body of the page loop. -/
def page (u : Unset) (addr : ℕ) (data : ℕ → BitVec 8) (verify : Bool) (p : ℕ) (st : State) :
    State × Outcome :=
  pageProgram u st p (pageLen u addr p) (fun i => data (p - addr + i)) verify

theorem Paged.refl {u : Unset} {addr len : ℕ} {data : ℕ → BitVec 8} {p0 stop : ℕ} {st : State}
    (h : Idle st.chip) : Paged u addr len data p0 stop st p0 st where
  visited := Or.inl rfl
  kept := fun c hc => hc
  made := by
    intro q hq hlt
    unfold Visited at hq
    omega
  only := fun c hc => Or.inl hc
  idle := h
  mem := by
    intro _
    funext o
    unfold programmed
    rw [if_neg (by omega)]

/-- **One page.** -/
theorem Paged.page {u : Unset} {addr len : ℕ} {data : ℕ → BitVec 8} {p0 stop : ℕ} {st st' : State}
    {p : ℕ} (verify : Bool) (h : Paged u addr len data p0 stop st p st') (hlt : p < stop)
    (ha : addr ≤ p0) (h0 : rFlash ≤ p0) (h1 : stop ≤ rFlash + flashLen) :
    Paged u addr len data p0 stop st (nextPage p) (page u addr data verify p st').1 := by
  have hp0 : p0 ≤ p := by
    have hv := h.visited
    unfold Visited at hv
    omega
  have hcalls : (Flash.page u addr data verify p st').1.calls =
      st'.calls ++ [(p, pageLen u addr p)] := by
    unfold Flash.page
    exact pageProgram_calls _ _ _ _ _ _
  constructor
  · exact h.visited.next
  · intro c hc
    rw [hcalls]
    exact List.mem_append_left _ (h.kept c hc)
  · intro q hq hqn
    rw [hcalls]
    by_cases hqp : q < p
    · exact ⟨(h.made q hq hqp).1, List.mem_append_left _ (h.made q hq hqp).2⟩
    · have heq : q = p := by
        have hv := h.visited
        rw [nextPage_eq] at hqn
        unfold Visited at hq hv
        omega
      rw [heq]
      exact ⟨hlt, List.mem_append_right _ (List.mem_singleton.2 rfl)⟩
  · intro c hc
    rw [hcalls] at hc
    rcases List.mem_append.1 hc with hc | hc
    · exact h.only c hc
    · exact Or.inr ⟨p, h.visited, hlt, List.mem_singleton.1 hc⟩
  · unfold Flash.page
    exact pageProgram_idle u _ _ _ verify h.idle
  · intro hgood
    have hbefore : GoodCalls addr len st' := by
      intro c hc
      apply hgood
      rw [hcalls]
      exact List.mem_append_left _ hc
    have hcall : Good addr len (p, pageLen u addr p) := by
      apply hgood
      rw [hcalls]
      exact List.mem_append_right _ (List.mem_singleton.2 rfl)
    have hmem := pageProgram_chip u (fun i => data (p - addr + i)) verify h.idle hcall.ok
      (by omega) (by omega)
    have hfit : p + pageLen u addr p ≤ nextPage p := by
      have hbig : p + 256 < 2 ^ 32 := by
        unfold rFlash flashLen at h1
        omega
      exact ((pageOk_iff hbig).1 hcall.ok).2
    unfold Flash.page
    rw [← cleared_programmed h.visited (by omega) hfit, ← h.mem hbefore]
    exact hmem

/-- **The page loop.**  It comes to the end, or the last page does not return `true`. -/
theorem pages_run (u : Unset) {addr len : ℕ} (data : ℕ → BitVec 8) (verify : Bool) (s : ℕ)
    {p0 : ℕ} (st : State) (h : Idle st.chip) (ha : addr ≤ p0) (h0 : rFlash ≤ p0)
    (h1 : addr + len ≤ rFlash + flashLen) :
    (∃ p, Paged u addr len data p0 (min (s + sectorSzB) (addr + len)) st p
      (pages u addr len data verify s p0 st).1 ∧
      ((pages u addr len data verify s p0 st).2 = .returned true →
        min (s + sectorSzB) (addr + len) ≤ p)) ∧
    ((pages u addr len data verify s p0 st).2 ≠ .returned true → ∃ p st', Visited p0 p ∧
      p < min (s + sectorSzB) (addr + len) ∧
      pages u addr len data verify s p0 st = page u addr data verify p st') := by
  set stop := min (s + sectorSzB) (addr + len) with hstop
  have hrule := @loop_rule (page u addr data verify) nextPage lt_nextPage stop
    (Paged u addr len data p0 stop st)
    (fun r => (∃ p, Paged u addr len data p0 stop st p r.1) ∧ ∃ p st', Visited p0 p ∧
      p < stop ∧ r = page u addr data verify p st')
    (by
      intro p st' hp hpaged
      have hnext := hpaged.page verify hp ha h0 (by omega)
      exact ⟨fun _ => hnext, fun _ => ⟨⟨_, hnext⟩, p, st', hpaged.visited, hp, rfl⟩⟩)
    p0 st (Paged.refl h)
  rw [← show pages u addr len data verify s p0 st =
    loop (page u addr data verify) nextPage lt_nextPage stop p0 st from rfl] at hrule
  by_cases hr : (pages u addr len data verify s p0 st).2 = .returned true
  · obtain ⟨p, hp, hpaged⟩ := hrule.1 hr
    exact ⟨⟨p, hpaged, fun _ => hp⟩, fun hno => absurd hr hno⟩
  · obtain ⟨⟨p, hpaged⟩, hlast⟩ := hrule.2 hr
    exact ⟨⟨p, hpaged, fun hyes => absurd hyes hr⟩, fun _ => hlast⟩

/-! ## What the page loop leaves -/

/-- The flash has the data from address `a` up to address `b`. -/
def Holds (mem : Mem) (addr : ℕ) (data : ℕ → BitVec 8) (a b : ℕ) : Prop :=
  ∀ x, a ≤ x → x < b → mem (x - rFlash) = data (x - addr)

/-- The page loop from `p0` to `stop` leaves the data: its calls are good, no bit has to be set, and
    what a page program does not reach is there already. -/
structure PagesOk (u : Unset) (addr len : ℕ) (data : ℕ → BitVec 8) (mem : Mem) (p0 stop : ℕ) :
    Prop where
  good : ∀ q, Visited p0 q → q < stop → Good addr len (q, pageLen u addr q)
  clears : ∀ x, p0 ≤ x → x < stop → mem (x - rFlash) &&& data (x - addr) = data (x - addr)
  rest : ∀ x, p0 ≤ x → x < stop → startOf p0 x + pageLen u addr (startOf p0 x) ≤ x →
    mem (x - rFlash) = data (x - addr)

theorem programmed_holds {u : Unset} {addr len p0 p stop : ℕ} {data : ℕ → BitVec 8} {mem : Mem}
    (h0 : rFlash ≤ p0) (hp : stop ≤ p)
    (hgood : ∀ q, Visited p0 q → q < stop → Good addr len (q, pageLen u addr q)) :
    PagesOk u addr len data mem p0 stop ↔
      Holds (programmed u addr p0 p data mem) addr data p0 stop := by
  have hval : ∀ x, p0 ≤ x → x < stop → programmed u addr p0 p data mem (x - rFlash) =
      if x < startOf p0 x + pageLen u addr (startOf p0 x) then mem (x - rFlash) &&& data (x - addr)
      else mem (x - rFlash) := by
    intro x hx0 hx1
    unfold programmed
    rw [Nat.sub_add_cancel (by omega : rFlash ≤ x)]
    by_cases hlt : x < startOf p0 x + pageLen u addr (startOf p0 x)
    · rw [if_pos hlt, if_pos ⟨hx0, by omega, hlt⟩]
    · rw [if_neg hlt, if_neg (fun h => hlt h.2.2)]
  constructor
  · intro h x hx0 hx1
    rw [hval x hx0 hx1]
    split_ifs with hlt
    · exact h.clears x hx0 hx1
    · exact h.rest x hx0 hx1 (Nat.le_of_not_lt hlt)
  · intro h
    refine ⟨hgood, ?_, ?_⟩
    · intro x hx0 hx1
      have hx := h x hx0 hx1
      rw [hval x hx0 hx1] at hx
      split_ifs at hx with hlt
      · exact hx
      · rw [hx, BitVec.and_self]
    · intro x hx0 hx1 hle
      have hx := h x hx0 hx1
      rwa [hval x hx0 hx1, if_neg (Nat.not_lt.2 hle)] at hx

/-- Good calls stay in the range, and in the sector. -/
theorem programmed_frame {u : Unset} {addr len s p0 p : ℕ} {data : ℕ → BitVec 8} {mem : Mem}
    (hs : s % 65536 = 0) (h1 : addr + len ≤ rFlash + flashLen)
    (hmade : ∀ q, Visited p0 q → q < p → q < min (s + sectorSzB) (addr + len))
    (hgood : ∀ q, Visited p0 q → q < p → Good addr len (q, pageLen u addr q))
    {o : ℕ} (ho : ¬(p0 ≤ o + rFlash ∧ o + rFlash < min (s + sectorSzB) (addr + len))) :
    programmed u addr p0 p data mem o = mem o := by
  unfold programmed
  rw [if_neg]
  rintro ⟨hx0, hx1, hlt⟩
  obtain ⟨hvis, hle, -⟩ := startOf_visited hx0
  have hq := hmade _ hvis (by omega)
  have hcall := hgood _ hvis (by omega)
  have hin := hcall.inRange.2
  have hpage : startOf p0 (o + rFlash) + pageLen u addr (startOf p0 (o + rFlash)) ≤
      nextPage (startOf p0 (o + rFlash)) := by
    have hbig : startOf p0 (o + rFlash) + 256 < 2 ^ 32 := by
      unfold rFlash flashLen at *
      omega
    exact ((pageOk_iff hbig).1 hcall.ok).2
  rw [nextPage_eq] at hpage
  unfold sectorSzB nPages szPageB at *
  omega

end ZipStormMX.Flash
