/-
  Bus errors in the response stream.

  An `E` is to be raised once, whichever of the two parsers reads it, and to leave the responses
  behind it alone.  `readword` takes the character that ends the response before it throws;
  `readidle` throws first, and then the next call still finds the error pending: it throws again,
  and the letter that it read is lost.  `damages` collects every step that goes wrong this way, and
  the ones that are like it: the end of a wait that swallows a letter, an address cut in two by the
  end of a call, a stray digit that revives a response which is over.
-/
import ZipStormMX.Clocked
import ZipStormMX.Hexbus.Responses

namespace ZipStormMX.Hexbus

/-! ## Runs of a host -/

/-- A host that has read nothing, in a state of the class. -/
def Host.start (bus : HexBus) : Host := { bus := bus, call := none }

/-- The host after the first `n` events. -/
def hostAt (bus : HexBus) (x : ℕ → Event) (n : ℕ) : Host :=
  Clocked.run Host.step (.start bus) x n

/-- The characters read within the first `n` events. -/
def receivedBy (bus : HexBus) (x : ℕ → Event) (n : ℕ) : List (BitVec 8) :=
  Clocked.events Host.step Host.received (.start bus) x n

/-- The exceptions raised within the first `n` events. -/
def raisedBy (bus : HexBus) (x : ℕ → Event) (n : ℕ) : List Thrown :=
  Clocked.events Host.step Host.raised (.start bus) x n

/-- An exception for an error response. -/
def Thrown.isErr : Thrown → Bool
  | err _ => true
  | abort => false

/-- The responses whose effect an error may not take away. -/
def heard (cmd : BitVec 8) : Bool := cmd == hexbAck || cmd == hexbAddr || cmd == hexbInt

/-- Every error is raised at most once, and every write acknowledgement, address and interrupt
    that follows an error response has its effect when it ends. -/
structure ReportedOnce (bus : HexBus) (x : ℕ → Event) : Prop where
  once : ∀ n, (raisedBy bus x n).countP Thrown.isErr ≤ (receivedBy bus x n).count hexbErr
  effect : ∀ n ch cmd word, x n = .char ch → (hostAt bus x n).call ≠ none → digit ch = false →
    hexbErr ∈ receivedBy bus x n → responding (receivedBy bus x n) = some (cmd, word) →
    heard cmd = true →
    (hostAt bus x (n + 1)).bus.shadow = (hostAt bus x n).bus.shadow.respond cmd word

/-! ## The steps that do damage -/

/-- What goes wrong on an event, in a host that has read the characters `l`. -/
def damages (h : Host) (l : List (BitVec 8)) : Event → Bool
  | .call _ =>
    -- an address is cut: the digits read by the last call are forgotten
    match h.call, responding l with
    | none, some (cmd, word) => cmd == hexbAddr && word != 0 && decide (hexbErr ∈ l)
    | _, _ => false
  | .char ch =>
    match h.call with
    | none => false
    | some { method := .readidle, .. } =>
      -- an error response ends, and not with the next error
      !digit ch && h.bus.mCmd == hexbErr && !h.bus.mIsspace && ch != hexbErr
    | some { method := .readword, abortCountdown := n, .. } =>
      -- a digit behind the white space that has ended an error response, or a letter on which the
      -- wait is given up
      (digit ch && h.bus.mCmd == hexbErr && h.bus.mIsspace) ||
        (!digit ch && h.bus.mCmd == hexbIdle && !h.bus.mIsspace && n - 1 == 0 && heard ch &&
          decide (hexbErr ∈ l))
  | .empty => false

/-- No step of the run does damage. -/
def Undamaged (bus : HexBus) (x : ℕ → Event) : Prop :=
  ∀ n, damages (hostAt bus x n) (receivedBy bus x n) (x n) = false

/-! ## What the host knows of the stream -/

/-- An error response has begun and is not over. -/
def HexBus.errPending (s : HexBus) : Bool := s.mCmd == hexbErr && !s.mIsspace

/-- The host against the characters `l` it has read, with `k` errors raised: an error pending is
    one of those read that has not been raised, and the response in progress, once there has been
    an error, is the one that the host believes in. -/
structure Follows (h : Host) (l : List (BitVec 8)) (k : ℕ) : Prop where
  errors : k + h.bus.errPending.toNat ≤ l.count hexbErr
  letter : ∀ cmd word, responding l = some (cmd, word) → heard cmd = true → hexbErr ∈ l →
    h.bus.mCmd = cmd ∧ h.bus.mIsspace = false
  digits : ∀ word c, responding l = some (hexbAddr, word) → hexbErr ∈ l → h.call = some c →
    c.word = word

theorem common_of_heard {cmd : BitVec 8} (h : heard cmd = true) : common cmd = true := by
  simp only [heard, common, Bool.or_eq_true, beq_iff_eq] at h ⊢
  rcases h with (h | h) | h
  · exact Or.inl (Or.inl (Or.inl h))
  · exact Or.inl (Or.inr h)
  · exact Or.inr h

/-- None of the responses heard is an error, and none is read data or idle. -/
theorem heard_ne {cmd : BitVec 8} (h : heard cmd = true) :
    cmd ≠ hexbErr ∧ cmd ≠ hexbRead ∧ cmd ≠ hexbIdle := by
  simp only [heard, Bool.or_eq_true, beq_iff_eq] at h
  rcases h with (rfl | rfl) | rfl <;> decide

/-- Only an address makes use of the digits. -/
theorem respond_heard (v : Shadow) {cmd : BitVec 8} (word word' : BitVec 32)
    (h : cmd = hexbAddr → word = word') : v.respond cmd word = v.respond cmd word' := by
  by_cases ha : cmd = hexbAddr
  · rw [h ha]
  · unfold Shadow.respond
    rw [if_neg ha, if_neg ha]

/-! ## One character -/

section char

variable {h t : Host} {l : List (BitVec 8)} {k : ℕ} {ch : BitVec 8} {c : Call}

/-- A digit: neither parser's idea of the response in progress changes, and the open call takes
    the digit. -/
theorem Follows.digit (hf : Follows h l k) (hd : digit ch = true) (hc : h.call = some c)
    (hcmd : t.bus.mCmd = h.bus.mCmd) (hspace : h.bus.mIsspace = false → t.bus.mIsspace = false)
    (herr : t.bus.errPending = h.bus.errPending)
    (hw : ∀ c', t.call = some c' → c'.word = pushDigit c.word ch) : Follows t (l ++ [ch]) k := by
  have hne : ch ≠ hexbErr := by
    rintro rfl
    exact absurd hd (by decide)
  have hcount : (l ++ [ch]).count hexbErr = l.count hexbErr := by
    rw [List.count_append, List.count_singleton]
    simp [hne]
  have hmem : hexbErr ∈ l ++ [ch] → hexbErr ∈ l := by
    intro hm
    rcases List.mem_append.1 hm with hm | hm
    · exact hm
    · exact absurd (List.mem_singleton.1 hm).symm hne
  refine ⟨?_, ?_, ?_⟩
  · rw [hcount, herr]
    exact hf.errors
  · intro cmd word hr hh hm
    rw [responding_append_one] at hr
    obtain ⟨w, hp, -⟩ := respondingNext_digit hd hr
    obtain ⟨h1, h2⟩ := hf.letter cmd w hp hh (hmem hm)
    exact ⟨hcmd.trans h1, hspace h2⟩
  · intro word c' hr hm hc'
    rw [responding_append_one] at hr
    obtain ⟨w, hp, rfl⟩ := respondingNext_digit hd hr
    rw [hw c' hc', hf.digits w c hp (hmem hm) hc]

/-- Any other character that the parser takes: it is the letter of the response in progress, or
    there is none. -/
theorem Follows.taken (hf : Follows h l k) (hd : Hexbus.digit ch = false) {u : HexBus}
    (hbus : t.bus = u.startCmd ch) (hw : ∀ c', t.call = some c' → c'.word = 0) {k' : ℕ}
    (hk : k' ≤ k + h.bus.errPending.toNat) : Follows t (l ++ [ch]) k' := by
  have hpend : t.bus.errPending.toNat ≤ [ch].count hexbErr := by
    rw [hbus, List.count_singleton]
    simp only [HexBus.errPending, HexBus.startCmd]
    cases hs : isspace ch
    · simp only [Bool.false_eq_true, if_false, Bool.not_false, Bool.and_true]
      cases ch == hexbErr <;> decide
    · simp
  refine ⟨?_, ?_, ?_⟩
  · rw [List.count_append]
    have := hf.errors
    omega
  · intro cmd word hr _ _
    rw [responding_append_one] at hr
    obtain ⟨hs, rfl, rfl⟩ := respondingNext_letter hd hr
    rw [hbus]
    simp only [HexBus.startCmd, hs, Bool.false_eq_true, if_false, and_self]
  · intro word c' hr _ hc'
    rw [responding_append_one] at hr
    obtain ⟨-, -, rfl⟩ := respondingNext_letter hd hr
    exact hw c' hc'

/-- `readidle` reads a character and no damage is done. -/
theorem Follows.readidle (hf : Follows h l k) (hc : h.call = some c) (hm : c.method = .readidle)
    (hok : damages h l (.char ch) = false) :
    Follows (h.step (.char ch)) (l ++ [ch])
      (k + (h.raised (.char ch)).countP Thrown.isErr) := by
  obtain ⟨m, w, n⟩ := c
  obtain rfl : m = .readidle := hm
  simp only [damages, hc] at hok
  simp only [Host.step, Host.raised, hc, Host.readChar, readidleChar]
  by_cases hd : Hexbus.digit ch = true
  · rw [if_pos hd]
    exact hf.digit hd hc rfl id rfl (fun c' hc' => by cases hc'; rfl)
  rw [if_neg hd]
  simp only [Bool.not_eq_true] at hd
  by_cases hsp : (isspace ch && h.bus.mIsspace) = true
  · -- more white space
    rw [if_pos hsp]
    simp only [Bool.and_eq_true] at hsp
    have hne : ch ≠ hexbErr := by
      rintro rfl
      exact absurd hsp.1 (by decide)
    refine ⟨?_, ?_, ?_⟩
    · rw [List.count_append, List.count_singleton]
      simp only [Host.settle, List.countP_nil, beq_iff_eq, hne, if_false, Nat.add_zero]
      exact hf.errors
    · intro cmd word hr
      rw [responding_append_one] at hr
      exact absurd hsp.1 (by rw [(respondingNext_letter hd hr).1]; exact Bool.false_ne_true)
    · intro word c' hr
      rw [responding_append_one] at hr
      exact absurd hsp.1 (by rw [(respondingNext_letter hd hr).1]; exact Bool.false_ne_true)
  rw [if_neg hsp]
  by_cases he : (!h.bus.mIsspace && h.bus.mCmd == hexbErr) = true
  · -- an error response ends with the next one, which takes its place
    rw [if_pos he]
    simp only [Bool.and_eq_true, Bool.not_eq_true', beq_iff_eq] at he
    have hch : ch = hexbErr := by
      simpa [hd, he.1, he.2] using hok
    subst hch
    have hpend : h.bus.errPending = true := by
      simp only [HexBus.errPending, he.1, he.2, beq_self_eq_true, Bool.not_false, Bool.and_self]
    refine hf.taken hd (u := { h.bus with mBusErr := true }) ?_ ?_ ?_
    · show ({ h.bus with mBusErr := true } : HexBus) = _
      simp only [HexBus.startCmd, he.1, he.2, show isspace hexbErr = false from rfl,
        Bool.false_eq_true, if_false]
    · intro c' hc'
      cases hc'
    · rw [hpend]
      exact Nat.le_refl _
  · rw [if_neg he]
    refine hf.taken hd rfl ?_ ?_
    · intro c' hc'
      cases hc'
      rfl
    · exact Nat.le_add_right ..

/-- `readword` reads a character and no damage is done. -/
theorem Follows.readword (hf : Follows h l k) (hc : h.call = some c) (hm : c.method = .readword)
    (hok : damages h l (.char ch) = false) :
    Follows (h.step (.char ch)) (l ++ [ch])
      (k + (h.raised (.char ch)).countP Thrown.isErr) := by
  obtain ⟨m, w, n⟩ := c
  obtain rfl : m = .readword := hm
  simp only [damages, hc] at hok
  simp only [Host.step, Host.raised, hc, Host.readChar, readwordChar]
  by_cases hd : Hexbus.digit ch = true
  · rw [if_pos hd]
    refine hf.digit hd hc rfl (fun _ => rfl) ?_ (fun c' hc' => by cases hc'; rfl)
    -- no error response is revived
    show (h.bus.mCmd == hexbErr && !false) = (h.bus.mCmd == hexbErr && !h.bus.mIsspace)
    cases hcmd : h.bus.mCmd == hexbErr
    · rfl
    · simp only [hd, hcmd, Bool.not_true, Bool.false_and, Bool.and_self, Bool.true_and,
        Bool.or_false] at hok
      rw [hok]
  rw [if_neg hd]
  simp only [Bool.not_eq_true] at hd
  by_cases he : (!h.bus.mIsspace && h.bus.mCmd == hexbErr) = true
  · rw [if_pos he]
    have hpend : h.bus.errPending = true := by
      rw [HexBus.errPending, Bool.and_comm]
      exact he
    refine hf.taken hd rfl ?_ ?_
    · intro c' hc'
      cases hc'
    · rw [hpend]
      exact Nat.le_refl _
  rw [if_neg he]
  by_cases ha : (!h.bus.mIsspace && h.bus.mCmd == hexbIdle && n - 1 == 0) = true
  · -- the wait is given up; the character is not one that matters
    rw [if_pos ha]
    have hno : heard ch = true → hexbErr ∉ l := by
      intro hh hmem
      simp only [Bool.and_eq_true, Bool.not_eq_true'] at ha
      simp [hd, ha.1.1, ha.1.2, ha.2, hh, hmem] at hok
    have hquiet : h.bus.errPending = false := by
      rw [HexBus.errPending, Bool.and_comm]
      simpa using he
    refine ⟨?_, ?_, ?_⟩
    · rw [List.count_append]
      have := hf.errors
      rw [hquiet] at this
      show k + _ + h.bus.errPending.toNat ≤ _
      rw [hquiet]
      simp only [List.countP_cons, List.countP_nil, Thrown.isErr, Bool.toNat_false] at this ⊢
      simp only [Bool.false_eq_true, if_false]
      omega
    · intro cmd word hr hh hmem
      rw [responding_append_one] at hr
      obtain ⟨-, rfl, -⟩ := respondingNext_letter hd hr
      refine absurd ?_ (hno hh)
      rcases List.mem_append.1 hmem with hmem | hmem
      · exact hmem
      · exact absurd (List.mem_singleton.1 hmem).symm (heard_ne hh).1
    · intro word c' _ _ hc'
      cases hc'
  rw [if_neg ha]
  by_cases hr : (!h.bus.mIsspace && h.bus.mCmd == hexbRead) = true
  · rw [if_pos hr]
    refine hf.taken hd rfl ?_ ?_
    · intro c' hc'
      cases hc'
    · exact Nat.le_add_right ..
  · rw [if_neg hr]
    refine hf.taken hd rfl ?_ ?_
    · intro c' hc'
      cases hc'
      rfl
    · exact Nat.le_add_right ..

/-- A response that matters ends: the parser that reads the character does what it is to. -/
theorem Follows.effect (hf : Follows h l k) (hc : h.call = some c) (hd : Hexbus.digit ch = false)
    {cmd : BitVec 8} {word : BitVec 32} (hr : responding l = some (cmd, word))
    (hh : heard cmd = true) (hm : hexbErr ∈ l) :
    (h.step (.char ch)).bus.shadow = h.bus.shadow.respond cmd word := by
  obtain ⟨hcmd, hspace⟩ := hf.letter cmd word hr hh hm
  obtain ⟨hE, hR, hZ⟩ := heard_ne hh
  have hword : h.bus.shadow.respond cmd c.word = h.bus.shadow.respond cmd word := by
    apply respond_heard
    rintro rfl
    exact hf.digits word c hr hm hc
  have hcommon : common h.bus.mCmd = true := by
    rw [hcmd]
    exact common_of_heard hh
  rw [← hword]
  obtain ⟨m, w, n⟩ := c
  cases m with
  | readidle =>
    simp only [Host.step, hc, Host.readChar, readidleChar, hd, hspace, hcmd, hE, beq_iff_eq,
      Bool.false_eq_true, if_false, Bool.and_false, Bool.not_false, Bool.true_and]
    show (readidleEnd h.bus w).shadow = _
    rw [shadow_readidleEnd w hspace hcommon, hcmd]
  | readword =>
    have hnE : (cmd == hexbErr) = false := by simpa using hE
    have hnR : (cmd == hexbRead) = false := by simpa using hR
    have hnZ : (cmd == hexbIdle) = false := by simpa using hZ
    simp only [Host.step, hc, Host.readChar, readwordChar, hd, hspace, hcmd, hnE, hnR, hnZ,
      Bool.false_eq_true, if_false, Bool.and_false, Bool.false_and, Bool.not_false]
    show (readwordEnd h.bus w).shadow = _
    rw [shadow_readwordEnd w hspace hcommon, hcmd]

end char

/-! ## Runs -/

/-- An event that reads no character. -/
theorem Follows.call {h : Host} {l : List (BitVec 8)} {k : ℕ} (hf : Follows h l k) (m : Method)
    (hok : damages h l (.call m) = false) : Follows (h.step (.call m)) l k := by
  cases hc : h.call with
  | some c =>
    have hsame : h.step (.call m) = h := by simp [Host.step, hc]
    rw [hsame]
    exact hf
  | none =>
    have hnew : h.step (.call m) = { h with call := some (.begin m) } := by simp [Host.step, hc]
    rw [hnew]
    refine ⟨hf.errors, hf.letter, ?_⟩
    intro word c' hr hmem hc'
    obtain rfl : Call.begin m = c' := by simpa using hc'
    -- a call that begins has read no digits, and none are lost
    simp only [damages, hc, hr, beq_self_eq_true, Bool.true_and, hmem, decide_true,
      Bool.and_true, bne_eq_false_iff_eq] at hok
    exact hok.symm

theorem Follows.empty {h : Host} {l : List (BitVec 8)} {k : ℕ} (hf : Follows h l k) :
    Follows (h.step .empty) l k := by
  have hcases : h.step .empty = h ∨ h.step .empty = { h with call := none } := by
    unfold Host.step
    split
    · rename_i heq
      cases heq
    · rename_i heq
      cases heq
    · split
      · exact Or.inr rfl
      · exact Or.inl rfl
  rcases hcases with hs | hs
  · rw [hs]
    exact hf
  · rw [hs]
    refine ⟨hf.errors, hf.letter, ?_⟩
    intro word c _ _ hc
    cases hc

/-- Every event that does no damage keeps the host up with the stream. -/
theorem Follows.step {h : Host} {l : List (BitVec 8)} {k : ℕ} (hf : Follows h l k) (e : Event)
    (hok : damages h l e = false) :
    Follows (h.step e) (l ++ h.received e) (k + (h.raised e).countP Thrown.isErr) := by
  cases e with
  | call m =>
    simp only [Host.received, Host.raised, List.append_nil, List.countP_nil, Nat.add_zero]
    exact hf.call m hok
  | empty =>
    simp only [Host.received, Host.raised, List.append_nil, List.countP_nil, Nat.add_zero]
    exact hf.empty
  | char ch =>
    cases hc : h.call with
    | none =>
      simp only [Host.step, Host.received, Host.raised, hc, if_true, List.append_nil,
        List.countP_nil, Nat.add_zero]
      exact hf
    | some c =>
      have hrecv : h.received (.char ch) = [ch] := by simp [Host.received, hc]
      rw [hrecv]
      cases hm : c.method with
      | readidle => exact hf.readidle hc hm hok
      | readword => exact hf.readword hc hm hok

/-- A host whose run does no damage keeps up with the stream. -/
theorem follows_at {bus : HexBus} {x : ℕ → Event} (hcmd : bus.errPending = false)
    (h : Undamaged bus x) :
    ∀ n, Follows (hostAt bus x n) (receivedBy bus x n)
      ((raisedBy bus x n).countP Thrown.isErr) := by
  intro n
  induction n with
  | zero =>
    refine ⟨?_, ?_, ?_⟩
    · show 0 + bus.errPending.toNat ≤ 0
      rw [hcmd]
      exact Nat.le_refl _
    · intro cmd word hr
      cases hr
    · intro word c hr
      cases hr
  | succ n ih =>
    have hstep := ih.step (x n) (h n)
    rw [← List.countP_append] at hstep
    exact hstep

/-- **In a run that does no damage every error is raised once at most, and every response behind it
    has its effect.** -/
theorem reportedOnce (isspace inc : Bool) (lastaddr : BitVec 32) (x : ℕ → Event)
    (h : Undamaged (.init isspace inc lastaddr) x) :
    ReportedOnce (.init isspace inc lastaddr) x := by
  have hquiet : (HexBus.init isspace inc lastaddr).errPending = false := rfl
  have hf := follows_at hquiet h
  refine ⟨?_, ?_⟩
  · intro n
    exact Nat.le_trans (Nat.le_add_right ..) (hf n).errors
  · intro n ch cmd word hx hcall hd hm hr hh
    obtain ⟨c, hc⟩ := Option.ne_none_iff_exists'.1 hcall
    have heff := (hf n).effect hc hd hr hh hm
    rw [← hx] at heff
    exact heff

/-! ## Two streams -/

/-- The events of a list, and then nothing to read. -/
def events (l : List Event) (n : ℕ) : Event := l.getD n .empty

/-- `E` and a line feed, then `K` and a line feed, in successive calls of `readidle`. -/
def errorThenAck : List Event :=
  [.call .readidle, .char 0x45#8, .char 0x0a#8, .call .readidle, .char 0x4b#8, .call .readidle,
    .char 0x0a#8]

/-- The one error is raised three times, and the acknowledgement is lost. -/
theorem error_raised_again :
    ∃ x, ¬ ReportedOnce (.init true false 0) x := by
  refine ⟨events errorThenAck, fun h => ?_⟩
  have h7 := h.once 7
  revert h7
  decide +kernel

/-- A list of events does no damage if none of them does. -/
theorem undamaged_events {bus : HexBus} {l : List Event}
    (h : ∀ n < l.length, damages (hostAt bus (events l) n) (receivedBy bus (events l) n)
      (events l n) = false) : Undamaged bus (events l) := by
  intro n
  by_cases hn : n < l.length
  · exact h n hn
  · have hempty : events l n = .empty := by
      rw [events, List.getD_eq_getElem?_getD, List.getElem?_eq_none (by omega), Option.getD_none]
    rw [hempty]
    rfl

/-- The same stream with the error read by `readword`, and an address behind it. -/
theorem reportedOnce_readword :
    ReportedOnce (.init true false 0) (events [.call .readword, .char 0x45#8, .char 0x0a#8,
      .call .readidle, .char 0x4b#8, .char 0x0a#8, .char 0x41#8, .char 0x38#8, .char 0x0a#8]) :=
  reportedOnce true false 0 _ (undamaged_events (by decide +kernel))

end ZipStormMX.Hexbus
