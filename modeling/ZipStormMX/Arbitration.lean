/-
  Two masters on one bus.

  An arbiter lets one of two masters, its owner, onto a pipelined bus with a cycle line, a strobe, a
  stall line and two answers, acknowledge and error.  `Lines` are the wires around it during one
  clock, whatever the arbiter is, and `R` is what a request says.

  * `Wired`      what an arbiter does within one clock: the owner is connected to the bus, and the
    other master is stalled and hears nothing;
  * `Separated`  what it is for, over a whole run: no master sees anything of the other one;
  * `separated`  an arbiter that is wired so, and changes hands only when its owner is off the bus,
    separates its masters.
-/
import Mathlib.Data.Nat.Init
import Mathlib.Tactic.Common

namespace ZipStormMX.Arbitration

variable {R : Type*}

/-- The wires around an arbiter during one clock.  The masters are told apart by a bit. -/
structure Lines (R : Type*) where
  reset : Bool
  owner : Bool
  cyc : Bool → Bool
  req : Bool → Option R
  oCyc : Bool
  oReq : Option R
  iStall : Bool
  iAck : Bool
  iErr : Bool
  stall : Bool → Bool
  ack : Bool → Bool
  err : Bool → Bool

namespace Lines

variable (l : Lines R)

/-- The request of a master that is accepted. -/
def accepted (m : Bool) : Option R := if l.stall m then none else l.req m

/-- The request that is accepted on the bus, and the owner. -/
def issued : Option (Bool × R) := if l.iStall then none else l.oReq.map (l.owner, ·)

end Lines

/-! ## The masters -/

/-- The masters keep to the protocol: they strobe within a cycle, and a reset ends every cycle. -/
structure Obeys (r : ℕ → Lines R) : Prop where
  strobe : ∀ n m, (r n).req m ≠ none → (r n).cyc m = true
  reset : ∀ n, (r n).reset = true → ∀ m, (r (n + 1)).cyc m = false

/-! ## One clock -/

/-- The owner is connected to the bus, and the other master is not. -/
structure Wired (l : Lines R) : Prop where
  cyc : l.oCyc = l.cyc l.owner
  req : l.oReq = l.req l.owner
  stall : l.oCyc = true → l.stall l.owner = l.iStall
  ack : l.oCyc = true → l.ack l.owner = l.iAck
  err : l.oCyc = true → l.err l.owner = l.iErr
  other : ∀ m, m ≠ l.owner → l.stall m = true ∧ l.ack m = false ∧ l.err m = false

/-- What a master gets accepted is what the bus accepts while it is the owner. -/
theorem accepted_eq {l : Lines R} (h : Wired l) (hs : ∀ m, l.req m ≠ none → l.cyc m = true)
    (m : Bool) : (l.accepted m).toList = (l.issued.toList.filter (·.1 = m)).map (·.2) := by
  unfold Lines.accepted Lines.issued
  by_cases hm : m = l.owner
  · subst hm
    rw [h.req]
    cases hreq : l.req l.owner with
    | none => simp
    | some q =>
      have hcyc : l.oCyc = true := by
        rw [h.cyc]
        exact hs l.owner (by simp [hreq])
      rw [h.stall hcyc]
      cases l.iStall <;> simp
  · obtain ⟨hstall, -, -⟩ := h.other m hm
    have howner : ¬l.owner = m := fun h => hm h.symm
    rw [hstall]
    cases l.iStall <;> cases l.oReq <;> simp [howner]

/-! ## Runs -/

/-- The request strobed on the bus on clock `k` may be answered on clock `n`: the cycle it belongs
    to has not ended before. -/
structure Open (r : ℕ → Lines R) (k n : ℕ) : Prop where
  le : k ≤ n
  req : (r k).oReq ≠ none
  cyc : ∀ j, k ≤ j → j < n → (r j).oCyc = true
  reset : ∀ j, k ≤ j → j < n → (r j).reset = false

/-- No master sees anything of the other one. -/
structure Separated (r : ℕ → Lines R) : Prop where
  handover : ∀ n, (r (n + 1)).owner ≠ (r n).owner →
    (r n).cyc (r n).owner = false ∨ (r n).reset = true
  gap : ∀ n, (r (n + 1)).owner ≠ (r n).owner → (r n).oCyc = false ∨ (r (n + 1)).oCyc = false
  accepted : ∀ m n, (List.range n).flatMap (fun k => ((r k).accepted m).toList) =
    (((List.range n).flatMap fun k => (r k).issued.toList).filter (·.1 = m)).map (·.2)
  answered : ∀ k n, Open r k n → (r n).oCyc = true →
    (r n).ack (r k).owner = (r n).iAck ∧ (r n).err (r k).owner = (r n).iErr
  unheard : ∀ k n, Open r k n → ∀ m, m ≠ (r k).owner →
    (r n).ack m = false ∧ (r n).err m = false

section

variable {r : ℕ → Lines R} (hwired : ∀ n, Wired (r n))
  (hturn : ∀ n, (r (n + 1)).owner ≠ (r n).owner →
    (r n).cyc (r n).owner = false ∨ (r n).reset = true)
include hwired hturn

/-- The owner stays while a cycle lasts. -/
theorem owner_of_open {k n : ℕ} (h : Open r k n) : (r n).owner = (r k).owner := by
  obtain ⟨hle, -, hcyc, hreset⟩ := h
  induction n, hle using Nat.le_induction with
  | base => rfl
  | succ n hkn ih =>
    rw [← ih (fun j hj hjn => hcyc j hj (by omega)) (fun j hj hjn => hreset j hj (by omega))]
    by_contra hne
    rcases hturn n hne with hoff | hoff
    · have hon := hcyc n hkn (Nat.lt_succ_self n)
      rw [(hwired n).cyc, hoff] at hon
      exact Bool.false_ne_true hon
    · rw [hreset n hkn (Nat.lt_succ_self n)] at hoff
      exact Bool.false_ne_true hoff

/-- **Separation.** -/
theorem separated (hobeys : Obeys r) : Separated r := by
  refine ⟨hturn, ?_, ?_, ?_, ?_⟩
  · intro n hne
    rcases hturn n hne with hoff | hreset
    · left
      rw [(hwired n).cyc]
      exact hoff
    · right
      rw [(hwired (n + 1)).cyc]
      exact hobeys.reset n hreset _
  · intro m n
    induction n with
    | zero => rfl
    | succ n ih =>
      rw [List.range_succ, List.flatMap_append, List.flatMap_append, List.filter_append,
        List.map_append, ih, List.flatMap_singleton, List.flatMap_singleton,
        accepted_eq (hwired n) (hobeys.strobe n)]
  · intro k n hopen hcyc
    rw [← owner_of_open hwired hturn hopen]
    exact ⟨(hwired n).ack hcyc, (hwired n).err hcyc⟩
  · intro k n hopen m hm
    rw [← owner_of_open hwired hturn hopen] at hm
    exact ((hwired n).other m hm).2

end

end ZipStormMX.Arbitration
