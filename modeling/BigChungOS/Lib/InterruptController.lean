import BigChungOS.Lib.Bits
import Mathlib.Data.Nat.Find
import Mathlib.Logic.Function.Basic

/-!
# Two cascaded interrupt controllers (8259A)

A chip has eight lines with fixed priorities, line 0 first.  It keeps which of them are masked, which request an
interrupt and which are in service; a line in service holds back itself and the lines after it until its end of
interrupt is written to the command port (`Chip.Offers`).  The initialization words and the mask go to the data port.
The slave is on line 2 of the master, and an interrupt of its line `k` is line `8 + k` of the pair.

When nothing is in service, a request on a line that is not masked makes the pair interrupt, for this line or one
before it (`Pair.acknowledge_isSome`).  Rotating priorities, polling and the special mask mode are left out, and so are
requests that are withdrawn before they are acknowledged, for which a chip would interrupt on its line 7.
-/

namespace InterruptController

open Bits

/-- What the data port takes next. -/
inductive Phase
  | icw2
  | icw3
  | icw4
  | ready
  deriving DecidableEq

structure Chip where
  phase : Phase
  icw1 : UInt8
  /-- The vector of line 0. -/
  base : UInt8
  /-- The lines with a slave; for a slave, its line. -/
  cascade : UInt8
  autoEoi : Bool
  masked : Nat → Bool
  requested : Nat → Bool
  inService : Nat → Bool

namespace Chip

/-- The lines in service that an end of interrupt leaves. -/
def endOfInterrupt (c : Chip) (n : Nat) : Chip := { c with inService := Function.update c.inService n false }

/-- A byte for the command port. -/
def command (c : Chip) (b : UInt8) : Chip :=
  if bit b 4 then
    { c with
      phase := .icw2, icw1 := b, autoEoi := false
      masked := fun _ => false, requested := fun _ => false, inService := fun _ => false }
  else if bit b 3 then c
  else if b >>> 5 = 1 then ((List.range 8).find? c.inService).elim c c.endOfInterrupt
  else if b >>> 5 = 3 then c.endOfInterrupt (b &&& 7).toNat
  else c

/-- The words behind ICW2 and ICW3 that ICW1 asks for. -/
def phaseAfter (icw1 : UInt8) : Phase → Phase
  | .icw2 => if bit icw1 1 then (if bit icw1 0 then .icw4 else .ready) else .icw3
  | .icw3 => if bit icw1 0 then .icw4 else .ready
  | .icw4 | .ready => .ready

/-- A byte for the data port. -/
def data (c : Chip) (b : UInt8) : Chip :=
  match c.phase with
  | .icw2 => { c with base := b &&& 0xF8, phase := phaseAfter c.icw1 .icw2 }
  | .icw3 => { c with cascade := b, phase := phaseAfter c.icw1 .icw3 }
  | .icw4 => { c with autoEoi := bit b 1, phase := .ready }
  | .ready => { c with masked := bit b }

/-- The chip interrupts for line `n`, where `requests` are the requests on its lines. -/
def Offers (c : Chip) (requests : Nat → Bool) (n : Nat) : Prop :=
  c.phase = .ready ∧ n < 8 ∧ (requests n = true ∧ c.masked n = false) ∧
    (∀ m < n, ¬(requests m = true ∧ c.masked m = false)) ∧ ∀ m < n + 1, c.inService m = false

instance (c : Chip) (requests : Nat → Bool) (n : Nat) : Decidable (c.Offers requests n) := by
  unfold Offers
  infer_instance

/-- The line it interrupts for. -/
def next (c : Chip) (requests : Nat → Bool) : Option Nat := (List.range 8).find? fun n => decide (c.Offers requests n)

/-- The interrupt of line `n` is acknowledged. -/
def serve (c : Chip) (n : Nat) : Chip :=
  { c with
    requested := Function.update c.requested n false
    inService := if c.autoEoi then c.inService else Function.update c.inService n true }

/-- No line is in service. -/
def Idle (c : Chip) : Prop := c.inService = fun _ => false

variable {c : Chip} {requests : Nat → Bool} {n : Nat}

theorem Offers.of_next (h : c.next requests = some n) : c.Offers requests n := by
  have hfound : decide (c.Offers requests n) = true := List.find?_some (p := fun n => decide (c.Offers requests n)) h
  exact of_decide_eq_true hfound

/-- When nothing is in service, the first line that requests an interrupt and is not masked gets it. -/
theorem next_of_idle (hphase : c.phase = .ready) (hidle : c.Idle) (hn : n < 8) (hrequest : requests n = true)
    (hmask : c.masked n = false) : ∃ m ≤ n, c.next requests = some m := by
  classical
  have hexists : ∃ m, requests m = true ∧ c.masked m = false := ⟨n, hrequest, hmask⟩
  have hle : Nat.find hexists ≤ n := Nat.find_min' hexists ⟨hrequest, hmask⟩
  have hoffers : c.Offers requests (Nat.find hexists) :=
    ⟨hphase, by omega, Nat.find_spec hexists, fun m hm => Nat.find_min hexists hm, fun m _ => congrFun hidle m⟩
  obtain ⟨m, hm⟩ : ∃ m, c.next requests = some m := by
    rw [← Option.isSome_iff_exists, next, List.find?_isSome]
    exact ⟨_, List.mem_range.2 (by omega), decide_eq_true hoffers⟩
  refine ⟨m, ?_, hm⟩
  by_contra hlt
  exact (Offers.of_next hm).2.2.2.1 n (by omega) ⟨hrequest, hmask⟩

/-- After the initialization, the data port takes the mask. -/
theorem data_of_ready (h : c.phase = .ready) (b : UInt8) : c.data b = { c with masked := bit b } := by
  obtain ⟨_, _, _, _, _, _, _, _⟩ := c
  cases h
  rfl

/-- The specific end of interrupt for line `n`. -/
theorem command_eoi (c : Chip) (hn : n < 8) : c.command (0x60 ||| UInt8.ofNat n) = c.endOfInterrupt n := by
  have hbyte : ∀ n : Fin 8, bit (0x60 ||| UInt8.ofNat n) 4 = false ∧ bit (0x60 ||| UInt8.ofNat n) 3 = false ∧
      ((0x60 ||| UInt8.ofNat n) >>> 5 : UInt8) = 3 ∧ ((0x60 ||| UInt8.ofNat n) &&& 7 : UInt8).toNat = n := by decide
  obtain ⟨hreset, hocw3, hkind, hline⟩ := hbyte ⟨n, hn⟩
  rw [command, hreset, hocw3, hkind, hline]
  rfl

theorem Idle.serve_eoi (hidle : c.Idle) (hauto : c.autoEoi = false) : ((c.serve n).endOfInterrupt n).Idle := by
  unfold Idle at hidle ⊢
  simp [endOfInterrupt, serve, hauto, hidle]

end Chip

/-- The line of the master that the slave is on. -/
def slaveLine : Nat := 2

structure Pair where
  master : Chip
  slave : Chip

namespace Pair

/-- The requests on the lines of the master. -/
def requests (p : Pair) : Nat → Bool :=
  Function.update p.master.requested slaveLine (p.slave.next p.slave.requested).isSome

/-- Both chips know of the line. -/
def Cascaded (p : Pair) : Prop := bit p.master.cascade slaveLine = true ∧ (p.slave.cascade &&& 7).toNat = slaveLine

instance (p : Pair) : Decidable p.Cascaded := by
  unfold Cascaded
  infer_instance

/-- The acknowledge cycle: the line, its vector, and the pair after it. -/
def acknowledge (p : Pair) : Option (Nat × UInt8 × Pair) :=
  (p.master.next p.requests).bind fun n =>
    if n = slaveLine ∧ p.Cascaded then
      (p.slave.next p.slave.requested).map fun k =>
        (8 + k, p.slave.base + UInt8.ofNat k, ⟨p.master.serve n, p.slave.serve k⟩)
    else some (n, p.master.base + UInt8.ofNat n, { p with master := p.master.serve n })

/-- A device requests an interrupt on a line. -/
def raise (p : Pair) (n : Nat) : Pair :=
  if n < 8 then { p with master := { p.master with requested := Function.update p.master.requested n true } }
  else { p with slave := { p.slave with requested := Function.update p.slave.requested (n - 8) true } }

/-- The request on a line of the pair. -/
def requested (p : Pair) (n : Nat) : Bool := if n < 8 then p.master.requested n else p.slave.requested (n - 8)

def masked (p : Pair) (n : Nat) : Bool := if n < 8 then p.master.masked n else p.slave.masked (n - 8)

structure Idle (p : Pair) : Prop where
  master : p.master.Idle
  slave : p.slave.Idle

/-- The chips are initialized, and cascaded. -/
structure Ready (p : Pair) : Prop where
  master : p.master.phase = .ready
  slave : p.slave.phase = .ready
  cascaded : p.Cascaded

variable {p q : Pair} {n : Nat} {v : UInt8}

/-- An acknowledged interrupt of the master or of the slave. -/
inductive Acknowledged (p : Pair) : Nat → UInt8 → Pair → Prop
  | master {n : Nat} (hline : n ≠ slaveLine) (hoffers : p.master.Offers p.requests n) :
      Acknowledged p n (p.master.base + UInt8.ofNat n) { p with master := p.master.serve n }
  | slave {k : Nat} (hoffers : p.slave.Offers p.slave.requested k) (hmaster : p.master.Offers p.requests slaveLine) :
      Acknowledged p (8 + k) (p.slave.base + UInt8.ofNat k) ⟨p.master.serve slaveLine, p.slave.serve k⟩

theorem acknowledged (hcascaded : p.Cascaded) (h : p.acknowledge = some (n, v, q)) : Acknowledged p n v q := by
  obtain ⟨m, hm, h⟩ := Option.bind_eq_some_iff.1 h
  by_cases hline : m = slaveLine
  · rw [if_pos ⟨hline, hcascaded⟩] at h
    obtain ⟨k, hk, h⟩ := Option.map_eq_some_iff.1 h
    cases h
    subst hline
    exact .slave (Chip.Offers.of_next hk) (Chip.Offers.of_next hm)
  · rw [if_neg fun hc => hline hc.1] at h
    cases h
    exact .master hline (Chip.Offers.of_next hm)

/-- A line that requests an interrupt, and is not masked, interrupts when nothing is in service, if no line before it
does. -/
theorem acknowledge_isSome (hready : p.Ready) (hidle : p.Idle) (hn : n < 16) (hline : n ≠ slaveLine)
    (hrequest : p.requested n = true) (hmask : p.masked n = false) (hslave : p.master.masked slaveLine = false) :
    ∃ m v q, p.acknowledge = some (m, v, q) := by
  have hmaster : ∃ m, p.master.next p.requests = some m := by
    unfold requested at hrequest
    unfold masked at hmask
    by_cases hlow : n < 8
    · rw [if_pos hlow] at hrequest hmask
      have hrequests : p.requests n = true := (Function.update_of_ne hline _ _).trans hrequest
      obtain ⟨m, -, hm⟩ := Chip.next_of_idle hready.master hidle.master hlow hrequests hmask
      exact ⟨m, hm⟩
    · rw [if_neg hlow] at hrequest hmask
      obtain ⟨k, -, hk⟩ := Chip.next_of_idle hready.slave hidle.slave (by omega) hrequest hmask
      have hrequests : p.requests slaveLine = true := by
        rw [requests, Function.update_self, hk, Option.isSome_some]
      obtain ⟨m, -, hm⟩ := Chip.next_of_idle hready.master hidle.master (by decide) hrequests hslave
      exact ⟨m, hm⟩
  obtain ⟨m, hm⟩ := hmaster
  by_cases hm2 : m = slaveLine
  · have hrequests := (Chip.Offers.of_next hm).2.2.1.1
    rw [hm2, requests, Function.update_self, Option.isSome_iff_exists] at hrequests
    obtain ⟨k, hk⟩ := hrequests
    refine ⟨8 + k, p.slave.base + UInt8.ofNat k, ⟨p.master.serve m, p.slave.serve k⟩, ?_⟩
    rw [acknowledge, hm, Option.bind_some, if_pos ⟨hm2, hready.cascaded⟩, hk]
    rfl
  · refine ⟨m, p.master.base + UInt8.ofNat m, { p with master := p.master.serve m }, ?_⟩
    rw [acknowledge, hm, Option.bind_some, if_neg fun hc => hm2 hc.1]

theorem Acknowledged.was_requested (h : Acknowledged p n v q) : p.requested n = true := by
  cases h with
  | master hline hoffers =>
    obtain ⟨-, hn, ⟨hrequest, -⟩, -⟩ := hoffers
    rw [requests, Function.update_of_ne hline] at hrequest
    rw [Pair.requested, if_pos hn, hrequest]
  | slave hoffers hmaster =>
    obtain ⟨-, hk, ⟨hrequest, -⟩, -⟩ := hoffers
    rw [Pair.requested, if_neg (by omega), Nat.add_sub_cancel_left, hrequest]

/-- An acknowledged line has no request any more, and the others keep theirs. -/
theorem Acknowledged.requested (h : Acknowledged p n v q) (m : Nat) (hm : m ≠ slaveLine) :
    q.requested m = if m = n then false else p.requested m := by
  cases h with
  | master hline hoffers =>
    have hlt := hoffers.2.1
    by_cases hlow : m < 8
    · simp [Pair.requested, hlow, Chip.serve, Function.update_apply]
    · simp [Pair.requested, hlow, show m ≠ n by omega]
  | slave hoffers hmaster =>
    rename_i k
    have hlt := hoffers.2.1
    by_cases hlow : m < 8
    · simp [Pair.requested, hlow, Chip.serve, hm, show m ≠ 8 + k by omega]
    · by_cases hmk : m = 8 + k
      · rw [if_pos hmk, Pair.requested, if_neg hlow, hmk, Nat.add_sub_cancel_left]
        exact Function.update_self _ _ _
      · simp [Pair.requested, hlow, Chip.serve, hmk, show m - 8 ≠ k by omega]

end Pair

end InterruptController
