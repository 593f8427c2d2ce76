/-
  The host and the device, and the characters between them.

  The link carries what the host writes to `hbdechex`, and the response words of `hbexec` to the
  host, encoded as `hbdeword` and `hbgenhex` encode them.  None is lost and none overtakes another.
  Between the words there may be white space, from `hbnewline`, and the one letter words that
  `hbints` and `hbidle` put in.

  A clock without an error, on which no command reaches `hbexec` inside a bus cycle, keeps three
  accounts: the requests there will have been (`promised`), the address they leave (`bound`), and
  the responses there are to be (`awaited`), of which what arrives is a part.
-/
import Mathlib.Data.List.Forall2
import Mathlib.Logic.Relation
import ZipStormMX.Hexbus.Executive
import ZipStormMX.Hexbus.RoundTrip

namespace ZipStormMX.Hexbus

open Hbconsole (BusEvent)

/-! ## What arrives at the host -/

/-- Characters that stand between the response words. -/
inductive Filler where
  | carriageReturn
  | lineFeed
  | interrupt
  | idle
deriving DecidableEq

def Filler.char : Filler → BitVec 8
  | .carriageReturn => 0x0d#8
  | .lineFeed => 0x0a#8
  | .interrupt => hexbInt
  | .idle => hexbIdle

/-- The single characters are those of the words of `hbints` and `hbidle`. -/
theorem Filler.char_word : Filler.interrupt.char = hostChar (gxChar (letterCode intWord)) ∧
    Filler.idle.char = hostChar (gxChar (letterCode idleWord)) := ⟨rfl, rfl⟩

/-- A character between the words, or a response word of `hbexec`. -/
inductive Item where
  | filler (f : Filler)
  | word (w : BitVec 34)
deriving DecidableEq

namespace Item

def chars : Item → List (BitVec 8)
  | .filler f => [f.char]
  | .word w => (encode w).map hostChar

def words : Item → List (BitVec 34)
  | .filler _ => []
  | .word w => [w]

end Item

/-! ## Both ends -/

/-- The members of `HEXBUS`, the characters on their way to the device, the device, the characters
    on their way to the host, and the requests that the slave has taken. -/
structure Link where
  bus : HexBus
  down : List (BitVec 8)
  dev : Device
  up : List (BitVec 8)
  taken : List BusEvent
deriving DecidableEq

/-- One clock around the device: whether the next character is received, what the slave answers,
    and what the link puts in front of the next word. -/
structure LinkIn where
  deliver : Bool
  wb : WbReply
  filler : List Filler

namespace Link

/-- The byte on the line: the top bit marks the debugging bus. -/
def debugByte (ch : BitVec 8) : BitVec 8 := 0x80#8 ||| ch

/-- The host writes. -/
@[simps]
def write (l : Link) (text : List (BitVec 8)) : Link :=
  { l with down := l.down ++ text.map debugByte }

variable (l : Link) (i : LinkIn)

/-- The byte received on a clock. -/
def rx : Option (BitVec 8) := if i.deliver then l.down.head? else none

def devNext : Device := l.dev.next (rx l i).isSome ((rx l i).getD 0) i.wb

/-- What is put on the way to the host on a clock. -/
def sends : List Item :=
  i.filler.map Item.filler ++ (devNext l i).wbexec.spoken.map Item.word

/-- One clock. -/
@[simps]
def clock : Link where
  bus := l.bus
  down := if i.deliver then l.down.tail else l.down
  dev := devNext l i
  up := l.up ++ (sends l i).flatMap Item.chars
  taken := l.taken ++ l.dev.wbexec.takes i.wb

/-- The slave answers what it is asked, once, and a read with what `D` allows at the address it was
    asked for last. -/
structure Legal (D : BitVec 30 → BitVec 32 → Prop) : Prop where
  opn : l.dev.wbexec.Open i.wb
  data : i.wb.iWbAck = true → l.dev.wbexec.oWbWe = false →
    ∀ b, (l.clock i).taken.getLast? = some (.read b) → D b i.wb.iWbData

/-- No command reaches `hbexec` inside a bus cycle. -/
def Unhurried : Prop := l.dev.wbexec.oWbCyc = true → l.dev.packxi.issued = none

/-- Clocks that pass, each as `E` allows. -/
def Runs (E : Link → LinkIn → Prop) : Link → Link → Prop :=
  Relation.ReflTransGen fun l l' => ∃ i, E l i ∧ l' = l.clock i

/-! ## The accounts -/

/-- The commands that have not reached `hbexec` yet, and the one being assembled after them. -/
def ahead : List BusCmd × Option BusCmd := l.dev.ahead l.down

/-- The requests there will have been when all commands have been carried out. -/
def promised : List BusEvent :=
  l.taken ++ l.dev.wbexec.onPins ++ Cursor.along Cursor.issues l.dev.wbexec.cursor l.ahead.1

/-- The address that all commands together leave. -/
def bound : Cursor := l.dev.wbexec.cursor.afterAll l.ahead.1

/-- The responses there are to be. -/
def awaited : List Expect :=
  l.dev.wbexec.owed ++ Cursor.along Cursor.answers l.dev.wbexec.cursor l.ahead.1

/-- What holds in every run in which the host sends no reset. -/
structure Sound : Prop where
  exec : l.dev.wbexec.Sound
  noReset : l.dev.dechxi.oReset = false
  plain : ∀ ch ∈ l.down, ch.extractLsb' 0 7 ≠ 0x54#7
  last : l.dev.wbexec.oWbCyc = true → l.dev.wbexec.oWbStb = false → l.dev.wbexec.oWbWe = false →
    l.taken.getLast? = some (.read l.dev.wbexec.outstanding)

/-- From one state to a later one the accounts have been kept, and `items` have been sent; the
    fillers among them are such as `F` allows. -/
structure Kept (D : BitVec 30 → BitVec 32 → Prop) (F : Filler → Prop) (l l' : Link)
    (items : List Item) : Prop where
  bus : l'.bus = l.bus
  promised : l'.promised = l.promised
  bound : l'.bound = l.bound
  pending : l'.ahead.2 = l.ahead.2
  up : l'.up = l.up ++ items.flatMap Item.chars
  awaited : ∃ said, l.awaited = said ++ l'.awaited ∧
    List.Forall₂ (Hbexec.Answered D) said (items.flatMap Item.words)
  fillers : ∀ f, Item.filler f ∈ items → F f

variable {l l' l'' : Link} {i : LinkIn} {D : BitVec 30 → BitVec 32 → Prop} {F : Filler → Prop}

theorem Kept.refl (l : Link) : Kept D F l l [] where
  bus := rfl
  promised := rfl
  bound := rfl
  pending := rfl
  up := (List.append_nil _).symm
  awaited := ⟨[], rfl, .nil⟩
  fillers := fun _ hf => (List.not_mem_nil hf).elim

theorem Kept.trans {a b : List Item} (h : Kept D F l l' a) (h' : Kept D F l' l'' b) :
    Kept D F l l'' (a ++ b) := by
  obtain ⟨said, hsaid, hmatch⟩ := h.awaited
  obtain ⟨said', hsaid', hmatch'⟩ := h'.awaited
  refine ⟨h'.bus.trans h.bus, h'.promised.trans h.promised, h'.bound.trans h.bound,
    h'.pending.trans h.pending, ?_, ⟨said ++ said', ?_, ?_⟩, ?_⟩
  · rw [h'.up, h.up, List.flatMap_append, List.append_assoc]
  · rw [hsaid, hsaid', List.append_assoc]
  · rw [List.flatMap_append]
    exact List.rel_append hmatch hmatch'
  · intro f hf
    rcases List.mem_append.1 hf with hf | hf
    · exact h.fillers f hf
    · exact h'.fillers f hf

/-! ## One clock -/

/-- The characters on their way, before and after a clock. -/
theorem down_eq (l : Link) (i : LinkIn) : l.down = (rx l i).toList ++ (l.clock i).down := by
  unfold rx
  cases hd : i.deliver
  · simp [hd]
  · cases hl : l.down <;> simp [hd, hl]

/-- The command that `hbpack` hands over is the first of those ahead. -/
theorem ahead_clock (h : l.Sound) (i : LinkIn) :
    l.ahead = (l.dev.packxi.issued.toList ++ (l.clock i).ahead.1, (l.clock i).ahead.2) := by
  rw [ahead, down_eq l i, Device.ahead_next h.noReset]
  rfl

theorem words_sends (l : Link) (i : LinkIn) :
    (sends l i).flatMap Item.words = (devNext l i).wbexec.spoken := by
  have hf : ∀ f : List Filler, (f.map Item.filler).flatMap Item.words = [] := by
    intro f
    induction f with
    | nil => rfl
    | cons a f ih => exact ih
  have hw : ∀ w : List (BitVec 34), (w.map Item.word).flatMap Item.words = w := by
    intro w
    induction w with
    | nil => rfl
    | cons a w ih =>
      show a :: (w.map Item.word).flatMap Item.words = _
      rw [ih]
  rw [sends, List.flatMap_append, hf, hw, List.nil_append]

/-- A read is answered with what may be read at the address that is open. -/
theorem answer_data (h : l.Sound) (hl : l.Legal i D) (ha : i.wb.iWbAck = true)
    (hwe : l.dev.wbexec.oWbWe = false) : D l.dev.wbexec.outstanding i.wb.iWbData := by
  apply hl.data ha hwe
  cases hs : l.dev.wbexec.oWbStb
  · have hlast := h.last (hl.opn.cyc (Or.inl ha)) hs hwe
    simpa [Hbexec.takes, Hbexec.onPins, hs] using hlast
  · simp [Hbexec.takes, Hbexec.onPins, hs, hl.opn.taken ha hs, hwe, Hbexec.outstanding]

theorem sound_clock (h : l.Sound) (i : LinkIn) : (l.clock i).Sound := by
  have hexec : (l.clock i).dev.wbexec =
      Hbexec.next l.dev.wbexec false l.dev.packxi.oPckStb l.dev.packxi.oPckWord i.wb := by
    rw [clock_dev, devNext, Device.next_wbexec, h.noReset]
  refine ⟨?_, ?_, ?_, ?_⟩
  · rw [hexec]
    exact Hbexec.sound_next h.exec
  · simp only [clock_dev, devNext, Device.next_dechxi, Hbdechex.next_oReset]
    cases hrx : rx l i with
    | none => rfl
    | some ch =>
      have hmem : ch ∈ l.down := by
        rw [down_eq l i, hrx]
        exact List.mem_cons_self ..
      simpa using h.plain ch hmem
  · intro ch hch
    apply h.plain ch
    rw [down_eq l i]
    exact List.mem_append_right _ hch
  · rw [hexec]
    intro hcyc hstb hwe
    cases hc : l.dev.wbexec.oWbCyc
    · -- a bus cycle begins with a strobe
      have hs : l.dev.wbexec.oWbStb = false := by
        by_contra hs
        rw [h.exec.cyc (by simpa using hs)] at hc
        cases hc
      simp [Hbexec.nextCyc, Hbexec.nextStb, hc, hs] at hcyc hstb
      rw [hcyc] at hstb
      cases hstb
    · simp only [Hbexec.next_oWbWe, hc, Bool.not_true, Bool.false_eq_true, if_false] at hwe
      have herr : i.wb.iWbErr = false := by
        by_contra he
        simp [Hbexec.nextCyc, hc, he] at hcyc
      have hset : l.dev.wbexec.setAddr l.dev.packxi.oPckStb l.dev.packxi.oPckWord = false := by
        simp [Hbexec.setAddr, Hbexec.oCmdBusy, hc]
      cases hs : l.dev.wbexec.oWbStb
      · have hlast := h.last hc hs hwe
        simpa [Hbexec.takes, Hbexec.onPins, Hbexec.outstanding, Hbexec.nextStb, Hbexec.nextAddr, hs,
          hset, herr, hc] using hlast
      · have hst : i.wb.iWbStall = false := by
          by_contra hst
          simp [Hbexec.nextStb, hs, herr, hst] at hstb
        simp [Hbexec.takes, Hbexec.onPins, Hbexec.outstanding, Hbexec.nextStb, Hbexec.nextAddr, hs,
          hset, herr, hst, hwe, stride, BitVec.add_sub_cancel]

/-- **One clock keeps the accounts.** -/
theorem kept_clock (h : l.Sound) (hl : l.Legal i D) (hF : ∀ f ∈ i.filler, F f)
    (herr : i.wb.iWbErr = false) (hfree : l.Unhurried) : Kept D F l (l.clock i) (sends l i) := by
  have hcmd : Hbexec.command l.dev.packxi.oPckStb l.dev.packxi.oPckWord = l.dev.packxi.issued := rfl
  have hadv : Hbexec.Advances l.dev.wbexec
      (Hbexec.next l.dev.wbexec false l.dev.packxi.oPckStb l.dev.packxi.oPckWord i.wb)
      (Hbexec.command l.dev.packxi.oPckStb l.dev.packxi.oPckWord).toList i.wb :=
    Hbexec.advances h.exec hl.opn herr hfree
  rw [hcmd] at hadv
  have hexec : (l.clock i).dev.wbexec =
      Hbexec.next l.dev.wbexec false l.dev.packxi.oPckStb l.dev.packxi.oPckWord i.wb := by
    rw [clock_dev, devNext, Device.next_wbexec, h.noReset]
  rw [← hexec] at hadv
  have hahead := ahead_clock h i
  have hfirst : l.ahead.1 = l.dev.packxi.issued.toList ++ (l.clock i).ahead.1 :=
    congrArg Prod.fst hahead
  obtain ⟨hcur, hpins, said, hsaid, hans⟩ := hadv
  refine ⟨rfl, ?_, ?_, ?_, rfl, ⟨said, ?_, ?_⟩, ?_⟩
  · rw [promised, promised, hfirst, Cursor.along_append, ← hcur, clock_taken]
    simp only [List.append_assoc]
    rw [← List.append_assoc (l.dev.wbexec.onPins), hpins, List.append_assoc]
  · rw [bound, bound, hfirst, Cursor.afterAll_append, ← hcur]
  · exact (congrArg Prod.snd hahead).symm
  · rw [awaited, awaited, hfirst, Cursor.along_append, ← hcur, ← List.append_assoc, hsaid,
      List.append_assoc]
  · rw [words_sends]
    exact hans D (answer_data h hl)
  · intro f hf
    apply hF f
    simpa [sends] using hf

/-! ## Runs, and what the host writes -/

/-- Clocks that pass keep the accounts. -/
theorem kept_runs {E : Link → LinkIn → Prop}
    (hE : ∀ l i, E l i →
      l.Legal i D ∧ (∀ f ∈ i.filler, F f) ∧ i.wb.iWbErr = false ∧ l.Unhurried)
    (h : l.Sound) (hr : Runs E l l') : l'.Sound ∧ ∃ items, Kept D F l l' items := by
  induction hr with
  | refl => exact ⟨h, [], .refl l⟩
  | tail _ hstep ih =>
    obtain ⟨hs, items, hk⟩ := ih
    obtain ⟨i, hi, rfl⟩ := hstep
    obtain ⟨hl, hF, herr, hfree⟩ := hE _ i hi
    exact ⟨sound_clock hs i, _, hk.trans (kept_clock hs hl hF herr hfree)⟩

/-- The codes of a text. -/
def codes (text : List (BitVec 8)) : List (BitVec 5) := text.flatMap codeOf

theorem codeOf_debugByte : ∀ ch : BitVec 8, codeOf (debugByte ch) = codeOf ch := by
  decide +kernel

/-- No character of the text is a reset. -/
def Plain (text : List (BitVec 8)) : Prop := ∀ ch ∈ text, ch.extractLsb' 0 7 ≠ 0x54#7

theorem sound_write (h : l.Sound) {text : List (BitVec 8)} (ht : Plain text) :
    (l.write text).Sound := by
  refine ⟨h.exec, h.noReset, ?_, h.last⟩
  intro ch hch
  rw [write_down, List.mem_append] at hch
  rcases hch with hch | hch
  · exact h.plain ch hch
  · obtain ⟨c, hc, rfl⟩ := List.mem_map.1 hch
    have hlow : ∀ c : BitVec 8, (debugByte c).extractLsb' 0 7 = c.extractLsb' 0 7 := by
      decide +kernel
    rw [hlow c]
    exact ht c hc

/-- The commands of a text follow those ahead. -/
theorem ahead_write (l : Link) (text : List (BitVec 8)) :
    (l.write text).ahead =
      (l.ahead.1 ++ (assembleAll l.ahead.2 (codes text)).1,
        (assembleAll l.ahead.2 (codes text)).2) := by
  have hcodes : (text.map debugByte).flatMap codeOf = codes text := by
    rw [List.flatMap_map]
    exact List.flatMap_congr fun ch _ => codeOf_debugByte ch
  rw [ahead, write_down, write_dev, Device.ahead_append, hcodes]
  rfl

section

variable {text : List (BitVec 8)} {cmds : List BusCmd} {p : Option BusCmd}
  (h : assembleAll l.ahead.2 (codes text) = (cmds, p))
include h

theorem promised_write :
    (l.write text).promised = l.promised ++ Cursor.along Cursor.issues l.bound cmds := by
  rw [promised, ahead_write, h, Cursor.along_append, ← List.append_assoc]
  rfl

theorem bound_write : (l.write text).bound = l.bound.afterAll cmds := by
  rw [bound, ahead_write, h, Cursor.afterAll_append]
  rfl

theorem awaited_write :
    (l.write text).awaited = l.awaited ++ Cursor.along Cursor.answers l.bound cmds := by
  rw [awaited, ahead_write, h, Cursor.along_append, ← List.append_assoc]
  rfl

theorem pending_write : (l.write text).ahead.2 = p := by
  rw [ahead_write, h]

end

end Link

end ZipStormMX.Hexbus
