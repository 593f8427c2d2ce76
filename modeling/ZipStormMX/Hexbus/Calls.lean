/-
  The calls of class `HEXBUS` (`hexbus.cpp`): what the host writes, and when it reads.

  `readv` asks for one word, waits for it in `readword`, and only then asks for the next.  `writev`
  is one write ahead of its acknowledgements: it writes a word when all but the last of those
  before it have been acknowledged, and meanwhile reads whatever happens to have arrived, in
  `readidle`.  How the clocks of the device fall between the steps of the host is left open.
-/
import ZipStormMX.Hexbus.Listening

namespace ZipStormMX.Hexbus

/-! ## Texts -/

/-- A digit of `sprintf`. -/
def hexDigit (d : BitVec 4) : BitVec 8 :=
  if d < 10#4 then 0x30#8 + d.setWidth 8 else 0x61#8 + (d.setWidth 8 - 10#8)

/-- The four bits of each of the low `n` digits of a word, the highest first. -/
def nibbles (n : ℕ) (w : BitVec 32) : List (BitVec 4) :=
  (List.range n).reverse.map fun k => (w >>> (4 * k)).setWidth 4

/-- `sprintf("%08x")` -/
def fmt08x (w : BitVec 32) : List (BitVec 8) := (nibbles 8 w).map hexDigit

/-- `sprintf("%x")` -/
def fmtx (w : BitVec 32) : List (BitVec 8) :=
  if w = 0 then [hexDigit 0] else ((nibbles 8 w).dropWhile (· == 0)).map hexDigit

/-- The address that goes into an address command: its lowest bit says that it stays. -/
def addrArg (a : BitVec 32) (inc : Bool) : BitVec 32 := a ||| if inc then 0#32 else 1#32

/-- `encode_address`: an address command, unless the address is set already. -/
def encodeAddress (s : HexBus) (a : BitVec 32) : List (BitVec 8) :=
  if s.mAddrSet && a == s.mLastaddr && s.mInc == !a.getLsbD 0 then []
  else hexbAddr :: fmt08x a

/-- The request for a word. -/
def readText : List (BitVec 8) := [hexbRead, 0x0a#8]

/-- The request to write a word, which has no digits if it is zero. -/
def writeText (v : BitVec 32) : List (BitVec 8) :=
  0x57#8 :: (if v = 0 then [] else fmtx v) ++ [0x0a#8]

/-! ## readv -/

/-- One word asked for and read: the host writes, clocks pass, and `readword` comes back. -/
def Exchange (E : Link → LinkIn → Prop) (l : Link) (text : List (BitVec 8)) (l' : Link)
    (r : Except Thrown (BitVec 32)) : Prop :=
  ∃ l1 s rest, Link.Runs E (l.write text) l1 ∧ readword l1.bus 0 3 l1.up = some (s, r, rest) ∧
    l' = { l1 with bus := s, up := rest }

/-- The loop of `readv`, with what is in the buffer in front of the next request: the words it
    returns, and what ends it early. -/
inductive ReadLoop (E : Link → LinkIn → Prop) :
    Link → List (BitVec 8) → ℕ → Link → List (BitVec 32) → Option Thrown → Prop where
  | done (l : Link) (ptr : List (BitVec 8)) : ReadLoop E l ptr 0 l [] none
  | word {l l1 l' : Link} {ptr : List (BitVec 8)} {n : ℕ} {w : BitVec 32} {buf : List (BitVec 32)}
      {t : Option Thrown} (hx : Exchange E l (ptr ++ readText) l1 (.ok w))
      (hr : ReadLoop E l1 [] n l' buf t) : ReadLoop E l ptr (n + 1) l' (w :: buf) t
  | throw {l l' : Link} {ptr : List (BitVec 8)} {n : ℕ} {e : Thrown}
      (hx : Exchange E l (ptr ++ readText) l' (.error e)) : ReadLoop E l ptr (n + 1) l' [] (some e)

/-- How a call ends.  What `readv` throws on is `BUSERR` again, for the address it was at. -/
inductive Ending where
  | returned
  | threw (e : Thrown)
  | exited
deriving DecidableEq

/-- The host notes where it is about to read. -/
@[simps]
def HexBus.readFrom (s : HexBus) (a : BitVec 32) (inc : Bool) : HexBus :=
  { s with mLastaddr := a, mAddrSet := true, mInc := inc }

/-- The address after `len` words. -/
def addrAfter (a : BitVec 32) (inc : Bool) (len : ℕ) : BitVec 32 :=
  a + if inc then BitVec.ofNat 32 (4 * len) else 0

/-- `readv`, with the words it leaves in the buffer.  It checks in the end that the address is the
    one it expects, and exits if not. -/
inductive Readv (E : Link → LinkIn → Prop) (l : Link) (a : BitVec 32) (inc : Bool) :
    ℤ → Link → List (BitVec 32) → Ending → Prop where
  | none (len : ℤ) (hlen : len ≤ 0) : Readv E l a inc len l [] .returned
  | returned {n : ℕ} {l' : Link} {buf : List (BitVec 32)} (hn : 0 < n)
      (hr : ReadLoop E { l with bus := l.bus.readFrom a inc } (encodeAddress l.bus (addrArg a inc))
        n l' buf none)
      (hlast : l'.bus.mLastaddr = addrAfter a inc n) : Readv E l a inc n l' buf .returned
  | exited {n : ℕ} {l' : Link} {buf : List (BitVec 32)} (hn : 0 < n)
      (hr : ReadLoop E { l with bus := l.bus.readFrom a inc } (encodeAddress l.bus (addrArg a inc))
        n l' buf none)
      (hlast : l'.bus.mLastaddr ≠ addrAfter a inc n) : Readv E l a inc n l' buf .exited
  | threw {n : ℕ} {l' : Link} {buf : List (BitVec 32)} {e : Thrown}
      (hr : ReadLoop E { l with bus := l.bus.readFrom a inc } (encodeAddress l.bus (addrArg a inc))
        n l' buf (some e)) : Readv E l a inc n l' buf (.threw e)

/-! ## writev -/

/-- Clocks pass, and `readidle` reads what has arrived. -/
def Poll (E : Link → LinkIn → Prop) (l l' : Link) (t : Option Thrown) : Prop :=
  ∃ l1 k s rest, Link.Runs E l l1 ∧ readidle l1.bus 0 (l1.up.take k) = (s, t, rest) ∧
    l' = { l1 with bus := s, up := rest ++ l1.up.drop k }

/-- `readidle` until there are `n` acknowledgements. -/
inductive PollUntil (E : Link → LinkIn → Prop) (n : ℕ) : Link → Link → Option Thrown → Prop where
  | enough {l : Link} (hn : n ≤ l.bus.mNacks.toNat) : PollUntil E n l l none
  | again {l l1 l' : Link} {t : Option Thrown} (hn : l.bus.mNacks.toNat < n)
      (hp : Poll E l l1 none) (hr : PollUntil E n l1 l' t) : PollUntil E n l l' t
  | throw {l l' : Link} {e : Thrown} (hn : l.bus.mNacks.toNat < n)
      (hp : Poll E l l' (some e)) : PollUntil E n l l' (some e)

/-- The loop of `writev` from word `nw` on. -/
inductive WriteLoop (E : Link → LinkIn → Prop) :
    Link → List (BitVec 8) → ℕ → List (BitVec 32) → Link → Option Thrown → Prop where
  | done {l l' : Link} {ptr : List (BitVec 8)} {nw : ℕ} {t : Option Thrown}
      (hp : PollUntil E nw l l' t) : WriteLoop E l ptr nw [] l' t
  | word {l l1 l' : Link} {ptr : List (BitVec 8)} {nw : ℕ} {v : BitVec 32} {vs : List (BitVec 32)}
      {t : Option Thrown} (hp : PollUntil E nw (l.write (ptr ++ writeText v)) l1 none)
      (hr : WriteLoop E l1 [] (nw + 1) vs l' t) : WriteLoop E l ptr nw (v :: vs) l' t
  | throw {l l' : Link} {ptr : List (BitVec 8)} {nw : ℕ} {v : BitVec 32} {vs : List (BitVec 32)}
      {e : Thrown} (hp : PollUntil E nw (l.write (ptr ++ writeText v)) l' (some e)) :
      WriteLoop E l ptr nw (v :: vs) l' (some e)

/-- The host notes where it is about to write.  It leaves `m_inc` to the response. -/
@[simps]
def HexBus.writeFrom (s : HexBus) (a : BitVec 32) : HexBus :=
  { s with mLastaddr := a, mAddrSet := true, mNacks := 0 }

/-- The host moves its address on, by all of the words. -/
def Link.moveOn (l : Link) (len : ℕ) : Link :=
  { l with bus := { l.bus with mLastaddr := l.bus.mLastaddr + BitVec.ofNat 32 (4 * len) } }

/-- `writev` -/
inductive Writev (E : Link → LinkIn → Prop) (l : Link) (a : BitVec 32) (inc : Bool)
    (buf : List (BitVec 32)) : Link → Ending → Prop where
  | returned {l' : Link}
      (hr : WriteLoop E { l with bus := l.bus.writeFrom a } (encodeAddress l.bus (addrArg a inc)) 0
        buf l' none) :
      Writev E l a inc buf (if inc then l'.moveOn buf.length else l') .returned
  | threw {l' : Link} {e : Thrown}
      (hr : WriteLoop E { l with bus := l.bus.writeFrom a } (encodeAddress l.bus (addrArg a inc)) 0
        buf l' (some e)) : Writev E l a inc buf l' (.threw e)

/-! ## The commands of a text -/

/-- A digit of the host is a digit to `hbdechex`. -/
theorem codeOf_hexDigit : ∀ d : BitVec 4, codeOf (hexDigit d) = [0#1 ++ d] := by decide

theorem assemble_digit (c : BusCmd) (d : BitVec 4) :
    assemble (some c) (0#1 ++ d) = some (c.push d) ∧ completed (some c) (0#1 ++ d) = none := by
  have hbit : (0#1 ++ d).getLsbD 4 = false := by
    rw [BitVec.getLsbD_append]
    rfl
  have hlow : (0#1 ++ d).extractLsb' 0 4 = d := BitVec.extractLsb'_append_eq_right
  rw [assemble, completed, hbit, hlow]
  exact ⟨rfl, rfl⟩

/-- Digits go into the command being assembled. -/
theorem assembleAll_digits (c : BusCmd) (ds : List (BitVec 4)) :
    assembleAll (some c) (Link.codes (ds.map hexDigit)) =
      ([], some (ds.foldl (fun c d => c.push d) c)) := by
  induction ds generalizing c with
  | nil => rfl
  | cons d ds ih =>
    have hcodes : Link.codes ((d :: ds).map hexDigit) =
        (0#1 ++ d) :: Link.codes (ds.map hexDigit) := by
      rw [List.map_cons, Link.codes, List.flatMap_cons, codeOf_hexDigit]
      rfl
    obtain ⟨ha, hc⟩ := assemble_digit c d
    rw [hcodes, assembleAll, ha, hc, ih]
    rfl

/-- The word with one more digit, as `hbpack` has it. -/
def pushWord (w : BitVec 32) (d : BitVec 4) : BitVec 32 := w.extractLsb' 0 28 ++ d

theorem toNat_pushWord (w : BitVec 32) (d : BitVec 4) :
    (pushWord w d).toNat = (16 * w.toNat + d.toNat) % 2 ^ 32 := by
  have hd := d.isLt
  have hlow : (w.extractLsb' 0 28).toNat = w.toNat % 2 ^ 28 := by
    simp [BitVec.extractLsb'_toNat]
  have happ : (w.extractLsb' 0 28 ++ d).toNat = (w.extractLsb' 0 28).toNat * 2 ^ 4 + d.toNat := by
    rw [BitVec.toNat_append, Nat.shiftLeft_eq, Nat.mul_comm, ← Nat.two_pow_add_eq_or_of_lt hd]
  rw [pushWord, happ, hlow]
  omega

/-- The low `n` digits of `w`, read behind what is in `acc`. -/
theorem foldl_nibbles (n : ℕ) (acc w : BitVec 32) :
    ((nibbles n w).foldl pushWord acc).toNat =
      (16 ^ n * acc.toNat + w.toNat % 16 ^ n) % 2 ^ 32 := by
  induction n generalizing acc with
  | zero =>
    have hlt := acc.isLt
    show acc.toNat = _
    omega
  | succ n ih =>
    have hcons : nibbles (n + 1) w = (w >>> (4 * n)).setWidth 4 :: nibbles n w := by
      simp [nibbles, List.range_succ]
    have hnib : ((w >>> (4 * n)).setWidth 4).toNat = w.toNat / 16 ^ n % 16 := by
      simp [Nat.shiftRight_eq_div_pow, Nat.pow_mul]
    have hmod : w.toNat % 16 ^ (n + 1) = w.toNat % 16 ^ n + 16 ^ n * (w.toNat / 16 ^ n % 16) :=
      Nat.mod_pow_succ
    have hpow : 16 ^ (n + 1) = 16 ^ n * 16 := rfl
    have hwrap : ∀ x r : ℕ, (16 ^ n * (x % 2 ^ 32) + r) % 2 ^ 32 = (16 ^ n * x + r) % 2 ^ 32 := by
      intro x r
      rw [Nat.add_mod, Nat.mul_mod, Nat.mod_mod, ← Nat.mul_mod, ← Nat.add_mod]
    rw [hcons, List.foldl_cons, ih, toNat_pushWord, hnib, hwrap, hmod, hpow, Nat.mul_add,
      Nat.mul_assoc, Nat.add_assoc, Nat.add_comm (w.toNat % 16 ^ n)]

/-- All eight digits of a word are the word. -/
theorem foldl_nibbles_eight (w : BitVec 32) : (nibbles 8 w).foldl pushWord 0 = w := by
  have hw := w.isLt
  apply BitVec.eq_of_toNat_eq
  rw [foldl_nibbles]
  show (16 ^ 8 * 0 + w.toNat % 16 ^ 8) % 2 ^ 32 = w.toNat
  omega

/-- Leading zeros do not matter. -/
theorem foldl_dropWhile (ds : List (BitVec 4)) :
    (ds.dropWhile (· == 0)).foldl pushWord 0 = ds.foldl pushWord 0 := by
  induction ds with
  | nil => rfl
  | cons d ds ih =>
    by_cases hd : d = 0
    · rw [hd, List.dropWhile_cons_of_pos (by rfl), ih]
      rfl
    · rw [List.dropWhile_cons_of_neg (by simpa using hd)]

theorem foldl_push_addr (ds : List (BitVec 4)) (w : BitVec 32) :
    ds.foldl (fun c d => c.push d) (BusCmd.addr w) = .addr (ds.foldl pushWord w) := by
  induction ds generalizing w with
  | nil => rfl
  | cons d ds ih => exact ih (pushWord w d)

theorem foldl_push_write (ds : List (BitVec 4)) (w : BitVec 32) :
    ds.foldl (fun c d => c.push d) (BusCmd.write w) = .write (ds.foldl pushWord w) := by
  induction ds generalizing w with
  | nil => rfl
  | cons d ds ih => exact ih (pushWord w d)

theorem codes_append (l l' : List (BitVec 8)) :
    Link.codes (l ++ l') = Link.codes l ++ Link.codes l' := List.flatMap_append

/-- An address command, up to the command behind it. -/
theorem assembleAll_addr (a : BitVec 32) :
    assembleAll none (Link.codes (hexbAddr :: fmt08x a)) = ([], some (.addr a)) := by
  show assembleAll (some (.addr 0)) (Link.codes (fmt08x a)) = _
  rw [fmt08x, assembleAll_digits, foldl_push_addr, foldl_nibbles_eight]

/-- A request for a word completes what is in front of it, and itself. -/
theorem assembleAll_readText (p : Option BusCmd) :
    assembleAll p (Link.codes readText) = (p.toList ++ [.read], none) := rfl

/-- The digits of a word to write. -/
theorem writeText_digits (v : BitVec 32) : ∃ ds : List (BitVec 4),
    writeText v = 0x57#8 :: ds.map hexDigit ++ [0x0a#8] ∧ ds.foldl pushWord 0 = v := by
  by_cases hv : v = 0
  · exact ⟨[], by rw [writeText, if_pos hv]; rfl, hv.symm⟩
  · refine ⟨(nibbles 8 v).dropWhile (· == 0), ?_, ?_⟩
    · rw [writeText, if_neg hv, fmtx, if_neg hv]
    · rw [foldl_dropWhile, foldl_nibbles_eight]

/-- A request to write a word completes what is in front of it, and itself. -/
theorem assembleAll_writeText (p : Option BusCmd) (v : BitVec 32) :
    assembleAll p (Link.codes (writeText v)) = (p.toList ++ [.write v], none) := by
  obtain ⟨ds, htext, hds⟩ := writeText_digits v
  have hw : assembleAll (some (.write 0)) (Link.codes (ds.map hexDigit ++ [0x0a#8])) =
      ([.write v], none) := by
    rw [codes_append, assembleAll_append, assembleAll_digits, foldl_push_write, hds]
    rfl
  have hcons : Link.codes (writeText v) = 0x11#5 :: Link.codes (ds.map hexDigit ++ [0x0a#8]) := by
    rw [htext]
    rfl
  rw [hcons, assembleAll]
  show ((completed p 0x11#5).toList ++ (assembleAll (some (.write 0)) _).1,
    (assembleAll (some (.write 0)) _).2) = _
  rw [hw]
  rfl

/-- Neither request holds a reset, and neither does an address command. -/
theorem plain_texts : (∀ ds : List (BitVec 4), Link.Plain (ds.map hexDigit)) ∧
    Link.Plain readText ∧ (∀ v, Link.Plain (writeText v)) ∧
    ∀ s a, Link.Plain (encodeAddress s a) := by
  have hdigit : ∀ d : BitVec 4, (hexDigit d).extractLsb' 0 7 ≠ 0x54#7 := by decide
  have hdigits : ∀ ds : List (BitVec 4), Link.Plain (ds.map hexDigit) := by
    intro ds ch hch
    obtain ⟨d, -, rfl⟩ := List.mem_map.1 hch
    exact hdigit d
  refine ⟨hdigits, ?_, ?_, ?_⟩
  · intro ch hch
    rcases List.mem_pair.1 hch with rfl | rfl <;> decide
  · intro v ch hch
    simp only [writeText, List.cons_append, List.mem_cons, List.mem_append,
      List.not_mem_nil, or_false] at hch
    rcases hch with rfl | hch | rfl
    · decide
    · by_cases hv : v = 0
      · rw [if_pos hv] at hch
        cases hch
      · rw [if_neg hv, fmtx, if_neg hv] at hch
        exact hdigits _ ch hch
    · decide
  · intro s a ch hch
    rw [encodeAddress] at hch
    split_ifs at hch
    · cases hch
    · rcases List.mem_cons.1 hch with rfl | hch
      · decide
      · exact hdigits _ ch hch

end ZipStormMX.Hexbus
