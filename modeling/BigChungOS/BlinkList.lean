import BigChungOS.Lib.LinkedList
import BigChungOS.Lib.Runs
import BigChungOS.Lib.X86
import Mathlib.Data.List.Basic
import Mathlib.Data.Nat.Bitwise

/-!
# The blinking characters of fish (blink.S, fish.c)

`fish` keeps a linked list of blinking characters in `blink_array`, an array of 2000 structures that are allocated by
`mp1_malloc` and released by `mp1_free`.  `mp1_ioctl` adds, removes, finds and synchronises blinks, and
`mp1_rtc_tasklet` counts all of them down.  What the list is for is said by `Blinks`: a sequence of blinks without any
pointers.  The functions on the array follow it in every run (`blinks_refine`), so that no loop along the pointers runs
on and no slot is lost, as long as no blink is added at location 0.

A slot is free when its location is 0.  A blink that is added at location 0 is on the list and still free, so that the
next one gets its slot and then points to itself: every blink added before is off the list, and the next tick never
ends (`blink_at_zero_hangs`).
-/

namespace BigChungOS

open Linked Loops

/-! ### blink.h -/

/-- `mp1_blink_struct`, but for its pointer. -/
structure Blink where
  location : UInt16
  onChar : UInt8
  offChar : UInt8
  onLength : UInt16
  offLength : UInt16
  countdown : UInt16
  status : UInt16
deriving DecidableEq

/-- `mp1_blink_struct`; `next` is the index in `blink_array` of what it points to. -/
structure Mp1BlinkStruct extends Blink where
  next : Option Nat
deriving DecidableEq

/-- What `ece391_memset` with zero leaves. -/
def Mp1BlinkStruct.zero : Mp1BlinkStruct := ⟨⟨0, 0, 0, 0, 0, 0, 0⟩, none⟩

/-- The globals of fish.c and blink.S; `video` is the memory from `vmem_base_addr` on. -/
structure Fish where
  blinkArray : Nat → Mp1BlinkStruct
  mp1ListHead : Option Nat
  video : Nat → UInt8

namespace Fish

/-- Store through a pointer to a structure. -/
def store (s : Fish) (i : Nat) (b : Mp1BlinkStruct) : Fish := { s with blinkArray := Function.update s.blinkArray i b }

/-- `NEXT` of a structure. -/
def next (s : Fish) (i : Nat) : Option Nat := (s.blinkArray i).next

/-! ### fish.c -/

/-- `mp1_malloc`: the first structure with location 0. -/
def mp1Malloc (s : Fish) : Option Nat := (List.range 2000).find? fun i => (s.blinkArray i).location = 0

/-- `mp1_free`. -/
def mp1Free (s : Fish) (i : Nat) : Fish := s.store i .zero

/-! ### blink.S -/

/-- `mp1_poke`. -/
def mp1Poke (s : Fish) (cl : UInt8) (eax : Nat) : Fish := { s with video := Function.update s.video eax cl }

/-- The part of `tasklet_loop` for one structure.  The countdown is compared as a signed word. -/
def taskletNode (s : Fish) (ebx : Nat) : Fish :=
  let b := s.blinkArray ebx
  let b := { b with countdown := b.countdown - 1 }
  if b.countdown.toInt16 > 0 then s.store ebx b
  else
    let eax := 2 * b.location.toNat
    if b.status &&& 1 = 0 then
      (s.mp1Poke b.onChar eax).store ebx { b with countdown := b.onLength, status := b.status ^^^ 1 }
    else
      (s.mp1Poke b.offChar eax).store ebx { b with countdown := b.offLength, status := b.status ^^^ 1 }

/-- `mp1_rtc_tasklet`, with at most `n` rounds of its loop. -/
def mp1RtcTasklet (n : Nat) (s : Fish) : Option Fish :=
  loop (walkRound next (fun s ebx => .inl (taskletNode s ebx)) id) n (s, s.mp1ListHead)

/-- `mp1_find_helper`, with at most `n` rounds. -/
def mp1FindHelper (n : Nat) (s : Fish) (ax : UInt16) : Option (Option Nat) :=
  loop (walkRound (fun _ => s.next)
    (fun _ ebx => if (s.blinkArray ebx).location = ax then .inr (some ebx) else .inl ()) fun _ => none) n
    ((), s.mp1ListHead)

/-- `mp1_ioctl_add`: the structure the user passes, and the result. -/
def mp1IoctlAdd (s : Fish) (user : Mp1BlinkStruct) : Fish × Int :=
  if user.location ≥ 80 * 25 then (s, -1)
  else
    let b := { user with status := 1, countdown := user.onLength }
    match s.mp1Malloc with
    | none => (s, -1)
    | some edx =>
      let s := { s.store edx { b with next := s.mp1ListHead } with mp1ListHead := some edx }
      (s.mp1Poke b.onChar (2 * b.location.toNat), 0)

/-- The pointer that `edx` of `remove_find_prev` points to: `mp1_list_head`, or `NEXT` of a structure. -/
def pointerAt (s : Fish) : Option Nat → Option Nat
  | none => s.mp1ListHead
  | some b => s.next b

/-- A round of `remove_find_prev`.  Behind the null pointer it would read address 12, which is not mapped. -/
def findPrevRound (s : Fish) (eax : Nat) (edx : Option Nat) : Option Nat ⊕ Option (Option Nat) :=
  match s.pointerAt edx with
  | none => .inr none
  | some b => if b = eax then .inr (some edx) else .inl (some b)

/-- `movl %ecx, (%edx)`. -/
def setPointer (s : Fish) (ecx : Option Nat) : Option Nat → Fish
  | none => { s with mp1ListHead := ecx }
  | some b => s.store b { s.blinkArray b with next := ecx }

/-- `mp1_ioctl_remove`, with at most `n` rounds in each loop; `none` also for a page fault. -/
def mp1IoctlRemove (n : Nat) (s : Fish) (arg : UInt32) : Option (Fish × Int) :=
  match mp1FindHelper n s arg.toUInt16 with
  | none => none
  | some none => some (s, -1)
  | some (some eax) =>
    match loop (s.findPrevRound eax) n none with
    | none => none
    | some none => none
    | some (some edx) => some ((s.setPointer (s.next eax) edx).mp1Free eax, 0)

/-- `mp1_ioctl_find`: the result, and the structure copied to the user. -/
def mp1IoctlFind (n : Nat) (s : Fish) (user : Mp1BlinkStruct) : Option (Int × Option Mp1BlinkStruct) :=
  match mp1FindHelper n s user.location with
  | none => none
  | some none => some (-1, none)
  | some (some eax) => some (0, some (s.blinkArray eax))

/-- The flags after `testb $1, v`. -/
def testb (v : UInt8) : X86.Flags := ⟨(v &&& 1).toBitVec.msb, v &&& 1 == 0, false⟩

/-- `sync_copy_loop`: the structure at `edi` gets the times of the one at `esi`, and one of its characters is shown.
`cmovl` moves when the flags say "less". -/
def syncCopy (s : Fish) (esi edi : Nat) : Fish :=
  let a := s.blinkArray esi
  let b := { s.blinkArray edi with
    onLength := a.onLength, offLength := a.offLength, countdown := a.countdown, status := a.status }
  let cl := if (testb b.status.toUInt8).less then b.onChar else b.offChar
  (s.store edi b).mp1Poke cl (2 * b.location.toNat)

/-- `mp1_ioctl_sync`. -/
def mp1IoctlSync (n : Nat) (s : Fish) (arg : UInt32) : Option (Fish × Int) :=
  match mp1FindHelper n s (arg >>> 16).toUInt16 with
  | none => none
  | some none => some (s, -1)
  | some (some esi) =>
    match mp1FindHelper n s (arg &&& 0xFFFF).toUInt16 with
    | none => none
    | some none => some (s, -1)
    | some (some edi) => some (s.syncCopy esi edi, 0)

end Fish

/-- The calls `fish` can make: the four commands of `mp1_ioctl`, and the tasklet. -/
inductive BlinkCall
  | add (user : Mp1BlinkStruct)
  | remove (arg : UInt32)
  | find (user : Mp1BlinkStruct)
  | sync (arg : UInt32)
  | tick

/-- What a call returns, and the structure it copies to the user. -/
structure BlinkResult where
  eax : Int
  copied : Option Blink
deriving DecidableEq

namespace Fish

/-- A call, with at most `n` rounds in each loop. -/
def call (n : Nat) (s : Fish) : BlinkCall → Option (Fish × BlinkResult)
  | .add user => some ((mp1IoctlAdd s user).1, ⟨(mp1IoctlAdd s user).2, none⟩)
  | .remove arg => (mp1IoctlRemove n s arg).map fun r => (r.1, ⟨r.2, none⟩)
  | .find user => (mp1IoctlFind n s user).map fun r => (s, ⟨r.1, r.2.map Mp1BlinkStruct.toBlink⟩)
  | .sync arg => (mp1IoctlSync n s arg).map fun r => (r.1, ⟨r.2, none⟩)
  | .tick => (mp1RtcTasklet n s).map fun s => (s, ⟨0, none⟩)

/-- Calls, one after the other, and their results. -/
def calls (n : Nat) : Fish → List BlinkCall → Option (Fish × List BlinkResult)
  | s, [] => some (s, [])
  | s, c :: cs =>
    match call n s c with
    | none => none
    | some (s, r) => (calls n s cs).map fun t => (t.1, r :: t.2)

/-- The state in which `main` has cleared the array. -/
def start (video : Nat → UInt8) : Fish := { blinkArray := fun _ => .zero, mp1ListHead := none, video := video }

end Fish

/-! ### What the list is for -/

namespace Blink

/-- The blink that `mp1_ioctl_add` makes of what the user passes: on, for all of `on_length`. -/
def added (b : Blink) : Blink := { b with status := 1, countdown := b.onLength }

/-- The times of another blink. -/
def synced (a b : Blink) : Blink :=
  { b with onLength := a.onLength, offLength := a.offLength, countdown := a.countdown, status := a.status }

/-- A tick on which the blink changes between on and off. -/
def Expires (b : Blink) : Prop := ¬(b.countdown - 1).toInt16 > 0

instance (b : Blink) : Decidable b.Expires := inferInstanceAs (Decidable (¬_))

/-- The blink is on. -/
def isOn (b : Blink) : Bool := b.status &&& 1 ≠ 0

def tick (b : Blink) : Blink :=
  if b.Expires then
    { b with countdown := if b.isOn then b.offLength else b.onLength, status := b.status ^^^ 1 }
  else { b with countdown := b.countdown - 1 }

/-- The character that belongs to a status. -/
def char (b : Blink) : UInt8 := if b.isOn then b.onChar else b.offChar

/-- A character stored in the cell of the blink. -/
def draw (b : Blink) (c : UInt8) (video : Nat → UInt8) : Nat → UInt8 :=
  Function.update video (2 * b.location.toNat) c

end Blink

/-- The blinks, the last one added first, and the memory they are drawn in. -/
structure Blinks where
  list : List Blink
  video : Nat → UInt8

namespace Blinks

def add (s : Blinks) (b : Blink) : Blinks × BlinkResult :=
  if b.location < 2000 ∧ s.list.length < 2000 then (⟨b.added :: s.list, b.draw b.onChar s.video⟩, ⟨0, none⟩)
  else (s, ⟨-1, none⟩)

def find (s : Blinks) (location : UInt16) : Option Blink := s.list.find? fun b => b.location = location

def remove (s : Blinks) (location : UInt16) : Blinks × BlinkResult :=
  match s.find location with
  | none => (s, ⟨-1, none⟩)
  | some _ => (⟨s.list.eraseP fun b => b.location = location, s.video⟩, ⟨0, none⟩)

/-- The blink at `dest` gets the times of the one at `source`, and is drawn as if it were off. -/
def sync (s : Blinks) (source dest : UInt16) : Blinks × BlinkResult :=
  match s.find source, s.find dest with
  | some a, some b =>
    (⟨s.list.replaceF fun c => if c.location = dest then some (a.synced c) else none, b.draw b.offChar s.video⟩,
      ⟨0, none⟩)
  | _, _ => (s, ⟨-1, none⟩)

/-- The blinks that change are drawn, in the order of the list. -/
def tick (s : Blinks) : Blinks :=
  ⟨s.list.map Blink.tick, s.list.foldl (fun v b => if b.Expires then b.draw b.tick.char v else v) s.video⟩

def call (s : Blinks) : BlinkCall → Blinks × BlinkResult
  | .add user => s.add user.toBlink
  | .remove arg => s.remove arg.toUInt16
  | .find user => (s, ⟨if (s.find user.location).isSome then 0 else -1, s.find user.location⟩)
  | .sync arg => s.sync (arg >>> 16).toUInt16 (arg &&& 0xFFFF).toUInt16
  | .tick => (s.tick, ⟨0, none⟩)

def calls : Blinks → List BlinkCall → Blinks × List BlinkResult
  | s, [] => (s, [])
  | s, c :: cs => ((calls (s.call c).1 cs).1, (s.call c).2 :: (calls (s.call c).1 cs).2)

end Blinks

/-! ### The pointers -/

/-- The nodes of the list, from its head on: the slots in use, each once. -/
structure Path (s : Fish) (path : List Nat) : Prop where
  chain : Chain s.next s.mp1ListHead path
  used : ∀ i, i ∈ path ↔ i < 2000 ∧ (s.blinkArray i).location ≠ 0

/-- The blinks at the nodes of a path. -/
def blinksAt (s : Fish) (path : List Nat) : Blinks := ⟨path.map fun i => (s.blinkArray i).toBlink, s.video⟩

/-- The array holds the blinks `t`. -/
def Represents (s : Fish) (t : Blinks) : Prop := ∃ path, Path s path ∧ blinksAt s path = t

section Path

variable {s : Fish} {path : List Nat} {i : Nat}

theorem Path.nodup (h : Path s path) : path.Nodup := h.chain.nodup

theorem Path.length_le (h : Path s path) : path.length ≤ 2000 := by
  have hsubset : path ⊆ List.range 2000 := fun i hi => List.mem_range.2 ((h.used i).1 hi).1
  have hle := h.nodup.length_le_of_subset hsubset
  rwa [List.length_range] at hle

/-- A slot that `mp1_malloc` finds is not on the list. -/
theorem Path.malloc_some (h : Path s path) (hi : s.mp1Malloc = some i) : i < 2000 ∧ i ∉ path ∧ path.length < 2000 := by
  unfold Fish.mp1Malloc at hi
  have hlt : i < 2000 := List.mem_range.1 (List.mem_of_find?_eq_some hi)
  have hfree : (s.blinkArray i).location = 0 := by simpa using List.find?_some hi
  have hnot : i ∉ path := fun hmem => ((h.used i).1 hmem).2 hfree
  refine ⟨hlt, hnot, ?_⟩
  have hsubset : i :: path ⊆ List.range 2000 := by
    intro j hj
    rcases List.mem_cons.1 hj with rfl | hj
    · exact List.mem_range.2 hlt
    · exact List.mem_range.2 ((h.used j).1 hj).1
  have hle := (List.nodup_cons.2 ⟨hnot, h.nodup⟩).length_le_of_subset hsubset
  rw [List.length_range, List.length_cons] at hle
  omega

/-- `mp1_malloc` finds none only if all slots are on the list. -/
private theorem Path.malloc_none (h : Path s path) (hnone : s.mp1Malloc = none) : path.length = 2000 := by
  have hsubset : List.range 2000 ⊆ path := by
    intro i hi
    have hused : (s.blinkArray i).location ≠ 0 := by simpa using List.find?_eq_none.1 hnone i hi
    exact (h.used i).2 ⟨List.mem_range.1 hi, hused⟩
  have hle := List.nodup_range.length_le_of_subset hsubset
  rw [List.length_range] at hle
  exact Nat.le_antisymm h.length_le hle

/-- `mp1_find_helper` returns the first node with the location. -/
private theorem Path.findHelper (h : Path s path) {n : Nat} (hn : 2000 < n) (ax : UInt16) :
    s.mp1FindHelper n ax = some (path.find? fun i => (s.blinkArray i).location = ax) := by
  have hwalk := walk_chain (fun _ : Unit => s.next)
    (fun _ ebx => if (s.blinkArray ebx).location = ax then .inr (some ebx) else .inl ()) (fun _ => none)
    (fun _ _ _ _ => rfl) (s := ()) h.chain (Nat.lt_of_le_of_lt h.length_le hn)
  rw [Fish.mp1FindHelper, hwalk]
  have hfind := visits_find (fun i => decide ((s.blinkArray i).location = ax)) () path
  simp only [decide_eq_true_eq] at hfind
  rw [hfind]

/-- The first blink with a location is the one at the first such node. -/
private theorem find_blinksAt (s : Fish) (path : List Nat) (location : UInt16) :
    (blinksAt s path).find location =
      (path.find? fun i => (s.blinkArray i).location = location).map fun i => (s.blinkArray i).toBlink := by
  rw [Blinks.find, blinksAt, List.find?_map]
  rfl

/-! #### What a store changes -/

@[simp] theorem store_head (s : Fish) (i : Nat) (b : Mp1BlinkStruct) : (s.store i b).mp1ListHead = s.mp1ListHead := rfl

@[simp] theorem store_video (s : Fish) (i : Nat) (b : Mp1BlinkStruct) : (s.store i b).video = s.video := rfl

private theorem store_next (s : Fish) (i : Nat) (b : Mp1BlinkStruct) :
    (s.store i b).next = Function.update s.next i b.next := by
  funext j
  by_cases hj : j = i
  · subst hj
    simp [Fish.next, Fish.store]
  · simp [Fish.next, Fish.store, Function.update_of_ne hj]

/-- A store that keeps the pointer of the structure. -/
private theorem store_next_self {s : Fish} {i : Nat} {b : Mp1BlinkStruct} (hb : b.next = s.next i) :
    (s.store i b).next = s.next := by
  rw [store_next, hb, Function.update_eq_self]

private theorem store_of_ne {s : Fish} {i j : Nat} (b : Mp1BlinkStruct) (h : j ≠ i) :
    (s.store i b).blinkArray j = s.blinkArray j := Function.update_of_ne h _ _

private theorem store_self (s : Fish) (i : Nat) (b : Mp1BlinkStruct) : (s.store i b).blinkArray i = b :=
  Function.update_self _ _ _

/-- The blinks of nodes where nothing is stored. -/
private theorem map_store {s : Fish} {path : List Nat} {i : Nat} (b : Mp1BlinkStruct) (hi : i ∉ path) :
    path.map (fun j => ((s.store i b).blinkArray j).toBlink) = path.map fun j => (s.blinkArray j).toBlink :=
  List.map_congr_left fun j hj => by rw [store_of_ne b (ne_of_mem_of_not_mem hj hi)]

/-! #### Adding -/

theorem Path.add (h : Path s path) {user : Mp1BlinkStruct} (hzero : user.location ≠ 0) :
    Represents (s.mp1IoctlAdd user).1 ((blinksAt s path).add user.toBlink).1 ∧
      ((blinksAt s path).add user.toBlink).2 = ⟨(s.mp1IoctlAdd user).2, none⟩ := by
  have hlength : (blinksAt s path).list.length = path.length := List.length_map _
  unfold Fish.mp1IoctlAdd
  by_cases hbig : user.location ≥ 80 * 25
  · have hnot : ¬(user.location < 2000 ∧ (blinksAt s path).list.length < 2000) := by
      rintro ⟨hsmall, -⟩
      exact absurd hsmall (UInt16.not_lt.2 hbig)
    rw [if_pos hbig, Blinks.add, if_neg hnot]
    exact ⟨⟨path, h, rfl⟩, rfl⟩
  · have hsmall : user.location < 2000 := UInt16.not_le.1 hbig
    rw [if_neg hbig]
    cases hmalloc : s.mp1Malloc with
    | none =>
      have hfull := h.malloc_none hmalloc
      have hnot : ¬(user.location < 2000 ∧ (blinksAt s path).list.length < 2000) := by omega
      rw [Blinks.add, if_neg hnot]
      exact ⟨⟨path, h, rfl⟩, rfl⟩
    | some i =>
      obtain ⟨hlt, hnew, hroom⟩ := h.malloc_some hmalloc
      have hyes : user.location < 2000 ∧ (blinksAt s path).list.length < 2000 := ⟨hsmall, by omega⟩
      rw [Blinks.add, if_pos hyes]
      refine ⟨⟨i :: path, ⟨?_, ?_⟩, ?_⟩, rfl⟩
      · have hcons := h.chain.cons hnew
        refine hcons.congr fun j _ => ?_
        exact congrFun (store_next s i _) j
      · intro j
        by_cases hj : j = i
        · subst hj
          have hlocation := congrArg (fun b : Mp1BlinkStruct => b.location)
            (store_self s j { user with status := 1, countdown := user.onLength, next := s.mp1ListHead })
          refine ⟨fun _ => ⟨hlt, fun heq => hzero (hlocation.symm.trans heq)⟩, fun _ => List.mem_cons_self⟩
        · have hsame := store_of_ne (s := s)
            { user with status := 1, countdown := user.onLength, next := s.mp1ListHead } hj
          show j ∈ i :: path ↔ j < 2000 ∧ ((s.store i _).blinkArray j).location ≠ 0
          rw [hsame, List.mem_cons, ← h.used j]
          simp [hj]
      · have hrest := map_store (s := s)
          { user with status := 1, countdown := user.onLength, next := s.mp1ListHead } hnew
        simp only [blinksAt, Fish.mp1Poke, List.map_cons, hrest, Blinks.mk.injEq, List.cons.injEq, and_true]
        refine ⟨?_, rfl⟩
        rw [store_self]
        rfl

/-! #### Removing -/

/-- `remove_find_prev` finds the pointer to a node: the one in the node before, or the head. -/
private theorem findPrev_spec {l₁ l₂ : List Nat} {a n : Nat} {edx : Option Nat}
    (h : Chain s.next (s.pointerAt edx) (l₁ ++ a :: l₂)) (ha : a ∉ l₁) (hn : l₁.length < n) :
    loop (s.findPrevRound a) n edx = some (some (l₁.getLast?.or edx)) := by
  induction l₁ generalizing edx n with
  | nil =>
    obtain ⟨n, rfl⟩ : ∃ k, n = k + 1 := ⟨n - 1, by omega⟩
    have hround : s.findPrevRound a edx = .inr (some edx) := by simp [Fish.findPrevRound, h.1]
    rw [loop_inr hround]
    rfl
  | cons b l₁ ih =>
    obtain ⟨n, rfl⟩ : ∃ k, n = k + 1 := ⟨n - 1, by omega⟩
    rw [List.length_cons] at hn
    rw [List.mem_cons, not_or] at ha
    have hround : s.findPrevRound a edx = .inl (some b) := by simp [Fish.findPrevRound, h.1, Ne.symm ha.1]
    have hnext : Chain s.next (s.pointerAt (some b)) (l₁ ++ a :: l₂) := h.2
    rw [loop_inl hround, ih hnext ha.2 (by omega)]
    cases l₁ with
    | nil => rfl
    | cons c l₁ => simp [List.getLast?_cons]

/-- After the store of `found_prev` the chain goes past the node. -/
private theorem setPointer_chain {l₁ l₂ : List Nat} {a : Nat} (h : Chain s.next s.mp1ListHead (l₁ ++ a :: l₂)) :
    Chain (s.setPointer (s.next a) l₁.getLast?).next (s.setPointer (s.next a) l₁.getLast?).mp1ListHead (l₁ ++ l₂) := by
  rcases List.eq_nil_or_concat l₁ with rfl | ⟨l₀, b, rfl⟩
  · exact h.2
  · simp only [List.concat_eq_append, List.getLast?_append, List.getLast?_singleton, Option.some_or]
    show Chain (s.store b { s.blinkArray b with next := s.next a }).next s.mp1ListHead _
    rw [store_next]
    simp only [List.concat_eq_append, List.append_assoc, List.cons_append, List.nil_append] at h ⊢
    exact h.remove

/-- The structures of `setPointer` differ in their pointers only. -/
private theorem setPointer_toBlink (s : Fish) (ecx edx : Option Nat) (i : Nat) :
    ((s.setPointer ecx edx).blinkArray i).toBlink = (s.blinkArray i).toBlink := by
  cases edx with
  | none => rfl
  | some b =>
    by_cases hi : i = b
    · subst hi
      rw [Fish.setPointer, store_self]
    · rw [Fish.setPointer, store_of_ne _ hi]

theorem Path.remove (h : Path s path) {n : Nat} (hn : 2000 < n) (arg : UInt32) :
    ∃ s' r, s.mp1IoctlRemove n arg = some (s', r) ∧ Represents s' ((blinksAt s path).remove arg.toUInt16).1 ∧
      ((blinksAt s path).remove arg.toUInt16).2 = ⟨r, none⟩ := by
  unfold Fish.mp1IoctlRemove Blinks.remove
  rw [find_blinksAt, h.findHelper hn]
  cases hfind : path.find? fun i => (s.blinkArray i).location = arg.toUInt16 with
  | none => exact ⟨s, -1, rfl, ⟨path, h, rfl⟩, rfl⟩
  | some a =>
    obtain ⟨hlocation, l₁, l₂, rfl, hbefore⟩ := List.find?_eq_some_iff_append.1 hfind
    simp only [decide_eq_true_eq, Bool.not_eq_true', decide_eq_false_iff_not] at hlocation hbefore
    have hnodup := h.nodup
    have ha₁ : a ∉ l₁ := fun hmem => hbefore a hmem hlocation
    have ha₂ : a ∉ l₂ := by
      rw [List.nodup_append] at hnodup
      exact (List.nodup_cons.1 hnodup.2.1).1
    have ha : a ∉ l₁ ++ l₂ := by simp [ha₁, ha₂]
    have hlength := h.length_le
    rw [List.length_append, List.length_cons] at hlength
    have hhead : Chain s.next (s.pointerAt none) (l₁ ++ a :: l₂) := h.chain
    have hprev := findPrev_spec hhead ha₁ (n := n) (by omega)
    rw [Option.or_none] at hprev
    simp only [hprev, Option.map_some]
    generalize hs₁ : s.setPointer (s.next a) l₁.getLast? = s₁
    have hblinks : ∀ i, (s₁.blinkArray i).toBlink = (s.blinkArray i).toBlink := hs₁ ▸ setPointer_toBlink s _ _
    have hlocations : ∀ i, (s₁.blinkArray i).location = (s.blinkArray i).location :=
      fun i => congrArg Blink.location (hblinks i)
    have hchain : Chain s₁.next s₁.mp1ListHead (l₁ ++ l₂) := hs₁ ▸ setPointer_chain h.chain
    have hvideo : s₁.video = s.video := by
      rw [← hs₁]
      cases l₁.getLast? <;> rfl
    refine ⟨_, _, rfl, ⟨l₁ ++ l₂, ⟨?_, fun i => ?_⟩, ?_⟩, rfl⟩
    · refine hchain.congr fun i hi => ?_
      rw [Fish.mp1Free, store_next, Function.update_of_ne (ne_of_mem_of_not_mem hi ha)]
    · by_cases hi : i = a
      · subst hi
        rw [Fish.mp1Free, store_self]
        simp [ha, Mp1BlinkStruct.zero]
      · rw [Fish.mp1Free, store_of_ne _ hi, hlocations, ← h.used i]
        simp [hi]
    · have hmap := map_store (s := s₁) .zero ha
      simp only [blinksAt, Fish.mp1Free, hmap, hblinks, store_video, hvideo, Blinks.mk.injEq, and_true]
      rw [List.eraseP_map, List.eraseP_append_right]
      · simp [Function.comp_def, hlocation]
      · intro i hi
        simpa using hbefore i hi

/-! #### The tick -/

private theorem status_xor_one (v : UInt16) : (v ^^^ 1) &&& 1 = 0 ↔ v &&& 1 ≠ 0 := by
  rw [Ne, ← UInt16.toNat_inj, ← UInt16.toNat_inj, UInt16.toNat_and, UInt16.toNat_xor, UInt16.toNat_and]
  show (v.toNat ^^^ 1) &&& 1 = 0 ↔ ¬v.toNat &&& 1 = 0
  rw [Nat.and_one_is_mod, Nat.and_one_is_mod, Nat.xor_mod_two_eq]
  omega

/-- A blink that expires changes its status. -/
theorem isOn_tick {b : Blink} (h : b.Expires) : b.tick.isOn = !b.isOn := by
  rw [Blink.tick, if_pos h]
  by_cases hv : b.status &&& 1 = 0
  · have hon := (not_congr (status_xor_one b.status)).2 (not_not.2 hv)
    simp [Blink.isOn, hv, hon]
  · have hoff := (status_xor_one b.status).2 hv
    simp [Blink.isOn, hv, hoff]

theorem tick_location (b : Blink) : b.tick.location = b.location := by
  unfold Blink.tick
  split <;> rfl

/-- The loop of the tasklet does at a structure what a tick does to the blink. -/
private theorem taskletNode_eq (s : Fish) (i : Nat) :
    s.taskletNode i =
      { s.store i ⟨(s.blinkArray i).toBlink.tick, s.next i⟩ with
        video := if (s.blinkArray i).toBlink.Expires
          then (s.blinkArray i).toBlink.draw (s.blinkArray i).toBlink.tick.char s.video else s.video } := by
  unfold Fish.taskletNode
  dsimp only
  by_cases hexp : ((s.blinkArray i).countdown - 1).toInt16 > 0
  · have hnot : ¬(s.blinkArray i).toBlink.Expires := not_not.2 hexp
    rw [if_pos hexp, if_neg hnot, Blink.tick, if_neg hnot]
    rfl
  · have hyes : (s.blinkArray i).toBlink.Expires := hexp
    have hflip := isOn_tick hyes
    rw [if_neg hexp, if_pos hyes, Blink.char, hflip]
    by_cases hv : (s.blinkArray i).status &&& 1 = 0
    · have hon : (s.blinkArray i).toBlink.isOn = false := by simp [Blink.isOn, hv]
      rw [if_pos hv, hon, Blink.tick, if_pos hyes, hon]
      rfl
    · have hon : (s.blinkArray i).toBlink.isOn = true := by simp [Blink.isOn, hv]
      rw [if_neg hv, hon, Blink.tick, if_pos hyes, hon]
      rfl

private theorem taskletNode_next (s : Fish) (i : Nat) : (s.taskletNode i).next = s.next := by
  rw [taskletNode_eq]
  exact store_next_self rfl

private theorem taskletNode_of_ne {s : Fish} {i j : Nat} (h : j ≠ i) :
    (s.taskletNode i).blinkArray j = s.blinkArray j := by
  rw [taskletNode_eq]
  exact store_of_ne _ h

private theorem taskletNode_self (s : Fish) (i : Nat) :
    (s.taskletNode i).blinkArray i = ⟨(s.blinkArray i).toBlink.tick, s.next i⟩ := by
  rw [taskletNode_eq]
  exact store_self s i _

/-- The nodes of a list, one after the other. -/
private theorem foldl_taskletNode {path : List Nat} (hnodup : path.Nodup) (s : Fish) :
    (path.foldl Fish.taskletNode s).next = s.next ∧
      (path.foldl Fish.taskletNode s).mp1ListHead = s.mp1ListHead ∧
      (∀ i ∉ path, (path.foldl Fish.taskletNode s).blinkArray i = s.blinkArray i) ∧
      blinksAt (path.foldl Fish.taskletNode s) path = (blinksAt s path).tick := by
  induction path generalizing s with
  | nil => exact ⟨rfl, rfl, fun _ _ => rfl, rfl⟩
  | cons a path ih =>
    obtain ⟨ha, hrest⟩ := List.nodup_cons.1 hnodup
    obtain ⟨hnext, hhead, hothers, hblinks⟩ := ih hrest (s.taskletNode a)
    have hsame : (path.map fun i => ((s.taskletNode a).blinkArray i).toBlink) =
        path.map fun i => (s.blinkArray i).toBlink :=
      List.map_congr_left fun i hi => by rw [taskletNode_of_ne (ne_of_mem_of_not_mem hi ha)]
    refine ⟨hnext.trans (taskletNode_next s a), ?_, ?_, ?_⟩
    · rw [List.foldl_cons, hhead, taskletNode_eq]
      rfl
    · intro i hi
      rw [List.mem_cons, not_or] at hi
      rw [List.foldl_cons, hothers i hi.2, taskletNode_of_ne hi.1]
    · simp only [blinksAt, Blinks.tick, hsame, Blinks.mk.injEq] at hblinks
      simp only [blinksAt, Blinks.tick, List.foldl_cons, List.map_cons, hothers a ha, taskletNode_self, Blinks.mk.injEq,
        hblinks.1, hblinks.2, true_and]
      rw [taskletNode_eq]

theorem Path.tick (h : Path s path) {n : Nat} (hn : 2000 < n) :
    ∃ s', s.mp1RtcTasklet n = some s' ∧ Represents s' (blinksAt s path).tick := by
  have hwalk := walk_chain Fish.next (fun s ebx => .inl (Fish.taskletNode s ebx)) id
    (fun s a s' hs' => by rw [← Sum.inl.inj hs', taskletNode_next]) h.chain (Nat.lt_of_le_of_lt h.length_le hn)
  rw [visits_inl] at hwalk
  obtain ⟨hnext, hhead, hothers, hblinks⟩ := foldl_taskletNode h.nodup s
  refine ⟨_, hwalk, path, ⟨?_, fun i => ?_⟩, hblinks⟩
  · rw [id, hnext, hhead]
    exact h.chain
  · by_cases hi : i ∈ path
    · have hlist := congrArg Blinks.list hblinks
      simp only [blinksAt, Blinks.tick, List.map_map] at hlist
      have hticked : ((path.foldl Fish.taskletNode s).blinkArray i).toBlink = (s.blinkArray i).toBlink.tick :=
        List.map_inj_left.1 hlist i hi
      have hlocation : ((path.foldl Fish.taskletNode s).blinkArray i).location = (s.blinkArray i).location := by
        rw [hticked, tick_location]
      rw [id, hlocation]
      exact h.used i
    · rw [id, hothers i hi]
      exact h.used i

/-! #### Synchronising -/

/-- After `testb $1` the condition of `cmovl` never holds: the sign of the result is clear, and there is no overflow. -/
private theorem testb_less (v : UInt8) : (Fish.testb v).less = false := by
  simp [X86.Flags.less, Fish.testb]

/-- `sync_copy_loop` changes the times of the blink, and always shows its `off_char`. -/
private theorem syncCopy_eq (s : Fish) (esi edi : Nat) :
    s.syncCopy esi edi =
      { s.store edi ⟨(s.blinkArray esi).toBlink.synced (s.blinkArray edi).toBlink, s.next edi⟩ with
        video := (s.blinkArray edi).toBlink.draw (s.blinkArray edi).offChar s.video } := by
  unfold Fish.syncCopy
  dsimp only
  rw [testb_less]
  rfl

private theorem syncCopy_next (s : Fish) (esi edi : Nat) : (s.syncCopy esi edi).next = s.next := by
  rw [syncCopy_eq]
  exact store_next_self rfl

private theorem syncCopy_self (s : Fish) (esi edi : Nat) :
    (s.syncCopy esi edi).blinkArray edi =
      ⟨(s.blinkArray esi).toBlink.synced (s.blinkArray edi).toBlink, s.next edi⟩ := by
  rw [syncCopy_eq]
  exact store_self s edi _

private theorem syncCopy_of_ne {s : Fish} {esi edi i : Nat} (h : i ≠ edi) :
    (s.syncCopy esi edi).blinkArray i = s.blinkArray i := by
  rw [syncCopy_eq]
  exact store_of_ne _ h

/-- A change at the first node with a property. -/
private theorem map_replaceF {l : List Nat} {f g : Nat → Blink} {q : Blink → Prop} [DecidablePred q] {h : Blink → Blink}
    {a : Nat} (hnodup : l.Nodup) (hfind : (l.find? fun i => q (f i)) = some a) (ha : g a = h (f a))
    (hothers : ∀ i ≠ a, g i = f i) : l.map g = (l.map f).replaceF fun b => if q b then some (h b) else none := by
  induction l with
  | nil => cases hfind
  | cons b l ih =>
    obtain ⟨hb, hrest⟩ := List.nodup_cons.1 hnodup
    by_cases hq : q (f b)
    · obtain rfl : b = a := by simpa [List.find?_cons, hq] using hfind
      have hsame : l.map g = l.map f :=
        List.map_congr_left fun i hi => hothers i (ne_of_mem_of_not_mem hi hb)
      simp [hq, ha, hsame]
    · have hfind' : (l.find? fun i => q (f i)) = some a := by simpa [List.find?_cons, hq] using hfind
      have hne : a ≠ b := ne_of_mem_of_not_mem (List.mem_of_find?_eq_some hfind') hb
      simp [hq, hothers b hne.symm, ih hrest hfind']

theorem Path.sync (h : Path s path) {n : Nat} (hn : 2000 < n) (arg : UInt32) :
    ∃ s' r, s.mp1IoctlSync n arg = some (s', r) ∧
      Represents s' ((blinksAt s path).sync (arg >>> 16).toUInt16 (arg &&& 0xFFFF).toUInt16).1 ∧
      ((blinksAt s path).sync (arg >>> 16).toUInt16 (arg &&& 0xFFFF).toUInt16).2 = ⟨r, none⟩ := by
  generalize hsource : (arg >>> 16).toUInt16 = source
  generalize hdest : (arg &&& 0xFFFF).toUInt16 = dest
  unfold Fish.mp1IoctlSync Blinks.sync
  rw [hsource, hdest, find_blinksAt, find_blinksAt, h.findHelper hn, h.findHelper hn]
  cases hesi : path.find? fun i => (s.blinkArray i).location = source with
  | none => exact ⟨s, -1, rfl, ⟨path, h, rfl⟩, rfl⟩
  | some esi =>
  cases hedi : path.find? fun i => (s.blinkArray i).location = dest with
  | none => exact ⟨s, -1, rfl, ⟨path, h, rfl⟩, rfl⟩
  | some edi =>
    refine ⟨_, _, rfl, ⟨path, ⟨?_, fun i => ?_⟩, ?_⟩, rfl⟩
    · rw [syncCopy_next, syncCopy_eq]
      exact h.chain
    · rw [h.used i]
      by_cases hi : i = edi
      · rw [hi, syncCopy_self, Blink.synced]
      · rw [syncCopy_of_ne hi]
    · have hlist := map_replaceF (f := fun i => (s.blinkArray i).toBlink)
        (g := fun i => ((s.syncCopy esi edi).blinkArray i).toBlink) (q := fun b => b.location = dest)
        (h := (s.blinkArray esi).toBlink.synced) h.nodup hedi (by rw [syncCopy_self])
        (fun i hi => by rw [syncCopy_of_ne hi])
      simp only [blinksAt, Option.map_some, hlist, Blinks.mk.injEq, true_and]
      rw [syncCopy_eq]

theorem Path.find (h : Path s path) {n : Nat} (hn : 2000 < n) (user : Mp1BlinkStruct) :
    ∃ r, s.mp1IoctlFind n user = some r ∧
      (r.1, r.2.map Mp1BlinkStruct.toBlink) =
        (if ((blinksAt s path).find user.location).isSome then 0 else -1, (blinksAt s path).find user.location) := by
  unfold Fish.mp1IoctlFind
  rw [find_blinksAt, h.findHelper hn]
  cases path.find? fun i => (s.blinkArray i).location = user.location with
  | none => exact ⟨_, rfl, rfl⟩
  | some i => exact ⟨_, rfl, rfl⟩

end Path

/-! ### Runs -/

/-- A call that adds no blink at location 0. -/
def BlinkCall.AwayFromZero : BlinkCall → Prop
  | .add user => user.location ≠ 0
  | _ => True

/-- One call, followed by the sequence. -/
theorem call_represents {s : Fish} {t : Blinks} {c : BlinkCall} {n : Nat} (h : Represents s t) (hc : c.AwayFromZero)
    (hn : 2000 < n) : ∃ s', s.call n c = some (s', (t.call c).2) ∧ Represents s' (t.call c).1 := by
  obtain ⟨path, h, rfl⟩ := h
  cases c with
  | add user =>
    obtain ⟨hnext, hresult⟩ := h.add hc
    refine ⟨_, ?_, hnext⟩
    simp only [Fish.call, Blinks.call, hresult]
  | remove arg =>
    obtain ⟨s', r, hcall, hnext, hresult⟩ := h.remove hn arg
    refine ⟨s', ?_, hnext⟩
    simp only [Fish.call, Blinks.call, hcall, hresult, Option.map_some]
  | find user =>
    obtain ⟨r, hcall, hresult⟩ := h.find hn user
    refine ⟨s, ?_, path, h, rfl⟩
    simp only [Prod.mk.injEq] at hresult
    simp only [Fish.call, Blinks.call, hcall, Option.map_some, hresult.1, hresult.2]
  | sync arg =>
    obtain ⟨s', r, hcall, hnext, hresult⟩ := h.sync hn arg
    refine ⟨s', ?_, hnext⟩
    simp only [Fish.call, Blinks.call, hcall, hresult, Option.map_some]
  | tick =>
    obtain ⟨s', hcall, hnext⟩ := h.tick hn
    refine ⟨s', ?_, hnext⟩
    simp only [Fish.call, Blinks.call, hcall, Option.map_some]

/-- Any calls. -/
theorem calls_represents {s : Fish} {t : Blinks} {cs : List BlinkCall} {n : Nat} (h : Represents s t)
    (hcs : ∀ c ∈ cs, c.AwayFromZero) (hn : 2000 < n) :
    ∃ s', s.calls n cs = some (s', (t.calls cs).2) ∧ Represents s' (t.calls cs).1 := by
  induction cs generalizing s t with
  | nil => exact ⟨s, rfl, h⟩
  | cons c cs ih =>
    rw [List.forall_mem_cons] at hcs
    obtain ⟨s₁, hcall, h₁⟩ := call_represents h hcs.1 hn
    obtain ⟨s', hcalls, h'⟩ := ih h₁ hcs.2
    refine ⟨s', ?_, h'⟩
    simp only [Fish.calls, Blinks.calls, hcall, hcalls, Option.map_some]

/-- The cleared array holds no blinks. -/
theorem start_represents (video : Nat → UInt8) : Represents (Fish.start video) ⟨[], video⟩ := by
  refine ⟨[], ⟨rfl, fun i => ?_⟩, rfl⟩
  simp [Fish.start, Mp1BlinkStruct.zero]

/-- Whatever is added away from location 0, removed, found, synchronised and counted down, in any order: every loop
along the pointers ends within 2001 rounds, the results are those of the sequence, and afterwards the array holds its
blinks, linked in its order, and the video memory is the one they are drawn in. -/
theorem blinks_refine (video : Nat → UInt8) {cs : List BlinkCall} (hcs : ∀ c ∈ cs, c.AwayFromZero) {n : Nat}
    (hn : 2000 < n) :
    ∃ s, (Fish.start video).calls n cs = some (s, ((⟨[], video⟩ : Blinks).calls cs).2) ∧
      Represents s ((⟨[], video⟩ : Blinks).calls cs).1 :=
  calls_represents (start_represents video) hcs hn

/-- The blink that `main` adds, and one elsewhere. -/
def fishBlink : Mp1BlinkStruct :=
  { Mp1BlinkStruct.zero with location := 540, onChar := 73, offChar := 77, onLength := 7, offLength := 6 }
def otherBlink : Mp1BlinkStruct := { fishBlink with location := 40 }

/-- A few of the calls that `main` makes. -/
theorem fish_calls_refine :
    let cs : List BlinkCall := [.add otherBlink, .tick, .add fishBlink, .sync 0x28021C, .tick, .remove 540]
    ∃ s, (Fish.start fun _ => 0).calls 2001 cs = some (s, ((⟨[], fun _ => 0⟩ : Blinks).calls cs).2) ∧
      Represents s ((⟨[], fun _ => 0⟩ : Blinks).calls cs).1 := by
  refine blinks_refine _ ?_ (by decide)
  simp [BlinkCall.AwayFromZero, otherBlink, fishBlink]

/-! ### A blink at location 0 -/

private theorem mp1Malloc_eq_some_iff {s : Fish} {i : Nat} :
    s.mp1Malloc = some i ↔
      (s.blinkArray i).location = 0 ∧ i < 2000 ∧ ∀ j < i, (s.blinkArray j).location ≠ 0 := by
  unfold Fish.mp1Malloc
  rw [List.find?_range_eq_some]
  simp

/-- An addition that finds a slot. -/
private theorem mp1IoctlAdd_of_malloc {s : Fish} {user : Mp1BlinkStruct} {i : Nat} (hvalid : user.location < 2000)
    (hi : s.mp1Malloc = some i) :
    s.mp1IoctlAdd user =
      ({ s.store i { user with status := 1, countdown := user.onLength, next := s.mp1ListHead } with
          mp1ListHead := some i
          video := user.toBlink.draw user.onChar s.video }, 0) := by
  have hnot : ¬user.location ≥ 80 * 25 := UInt16.not_le.2 hvalid
  unfold Fish.mp1IoctlAdd
  rw [if_neg hnot, hi]
  rfl

/-- It puts the slot in front of the list. -/
private theorem added_pointers {s : Fish} {user : Mp1BlinkStruct} {i : Nat} (hvalid : user.location < 2000)
    (hi : s.mp1Malloc = some i) :
    (s.mp1IoctlAdd user).2 = 0 ∧ (s.mp1IoctlAdd user).1.mp1ListHead = some i ∧
      (s.mp1IoctlAdd user).1.next i = s.mp1ListHead := by
  rw [mp1IoctlAdd_of_malloc hvalid hi]
  exact ⟨rfl, rfl, congrArg Mp1BlinkStruct.next (store_self s i _)⟩

/-- The slot of a blink at location 0 is given out again. -/
private theorem malloc_after_zero {s : Fish} {user : Mp1BlinkStruct} {i : Nat} (hzero : user.location = 0)
    (hi : s.mp1Malloc = some i) : (s.mp1IoctlAdd user).1.mp1Malloc = some i := by
  have hvalid : user.location < 2000 := by rw [hzero]; decide
  rw [mp1IoctlAdd_of_malloc hvalid hi]
  obtain ⟨-, hlt, hbefore⟩ := mp1Malloc_eq_some_iff.1 hi
  refine mp1Malloc_eq_some_iff.2 ⟨?_, hlt, fun j hj => ?_⟩
  · exact (congrArg (fun b : Mp1BlinkStruct => b.location) (store_self s i _)).trans hzero
  · have hsame := store_of_ne (s := s)
      { user with status := 1, countdown := user.onLength, next := s.mp1ListHead } (Nat.ne_of_lt hj)
    exact fun heq => hbefore j hj ((congrArg (fun b : Mp1BlinkStruct => b.location) hsame).symm.trans heq)

/-- A list whose head points to itself is walked for ever. -/
private theorem tick_of_self {s : Fish} {i : Nat} (hhead : s.mp1ListHead = some i) (hself : s.next i = some i)
    (n : Nat) : s.mp1RtcTasklet n = none := by
  rw [Fish.mp1RtcTasklet, hhead]
  refine walk_self (I := fun s => s.next i = some i) (fun s hs => ⟨s.taskletNode i, rfl, ?_, ?_⟩) hself n
  · rw [taskletNode_next]
    exact hs
  · rw [taskletNode_next]
    exact hs

/-- From any state that calls away from location 0 lead to: if a blink is added at location 0 and then any other one,
both calls succeed and get the same slot, which none of the blinks on the list had.  The slot is then the head of the
list and points to itself, so that the list has no end and nothing else is on it, and the next tick does not end. -/
theorem blink_at_zero_hangs {video : Nat → UInt8} {cs : List BlinkCall} {n : Nat} {s : Fish}
    {results : List BlinkResult} {zero other : Mp1BlinkStruct} (hcs : ∀ c ∈ cs, c.AwayFromZero) (hn : 2000 < n)
    (hcalls : (Fish.start video).calls n cs = some (s, results))
    (hroom : ((⟨[], video⟩ : Blinks).calls cs).1.list.length < 2000) (hzero : zero.location = 0)
    (hother : other.location < 2000) :
    ∃ i s₁ s₂, s.mp1IoctlAdd zero = (s₁, 0) ∧ s₁.mp1IoctlAdd other = (s₂, 0) ∧
      (∀ path, Chain s.next s.mp1ListHead path → i ∉ path) ∧ s₁.mp1ListHead = some i ∧ s₂.mp1ListHead = some i ∧
        s₂.next i = some i ∧ (∀ path, ¬Chain s₂.next s₂.mp1ListHead path) ∧ ∀ m, s₂.mp1RtcTasklet m = none := by
  obtain ⟨s', hrun, path, hpath, hblinks⟩ := calls_represents (start_represents video) hcs hn
  obtain rfl : s = s' := (Prod.mk.inj (Option.some.inj (hcalls.symm.trans hrun))).1
  have hlength : path.length < 2000 := by
    rw [← hblinks] at hroom
    simpa [blinksAt] using hroom
  obtain ⟨i, hi⟩ : ∃ i, s.mp1Malloc = some i := by
    cases hmalloc : s.mp1Malloc with
    | none => exact absurd (hpath.malloc_none hmalloc) (Nat.ne_of_lt hlength)
    | some i => exact ⟨i, rfl⟩
  have hfree : i ∉ path := fun hmem => ((hpath.used i).1 hmem).2 (mp1Malloc_eq_some_iff.1 hi).1
  have hvalid : zero.location < 2000 := by rw [hzero]; decide
  have hagain := malloc_after_zero hzero hi
  obtain ⟨hfirst, hhead₁, -⟩ := added_pointers hvalid hi
  obtain ⟨hsecond, hhead₂, hnext₂⟩ := added_pointers hother hagain
  rw [hhead₁] at hnext₂
  refine ⟨i, _, _, Prod.ext rfl hfirst, Prod.ext rfl hsecond, fun path' hpath' => ?_, hhead₁, hhead₂, hnext₂,
    fun path' => ?_, tick_of_self hhead₂ hnext₂⟩
  · rw [hpath'.unique hpath.chain]
    exact hfree
  · rw [hhead₂]
    exact Chain.not_self hnext₂

/-- After another blink has been added and drawn. -/
theorem two_blinks_hang :
    let cs : List BlinkCall := [.add otherBlink, .tick]
    ∃ s, (Fish.start fun _ => 0).calls 2001 cs = some (s, ((⟨[], fun _ => 0⟩ : Blinks).calls cs).2) ∧
      ∃ i s₁ s₂, s.mp1IoctlAdd .zero = (s₁, 0) ∧ s₁.mp1IoctlAdd fishBlink = (s₂, 0) ∧
        (∀ path, Chain s.next s.mp1ListHead path → i ∉ path) ∧ s₁.mp1ListHead = some i ∧ s₂.mp1ListHead = some i ∧
          s₂.next i = some i ∧ (∀ path, ¬Chain s₂.next s₂.mp1ListHead path) ∧ ∀ m, s₂.mp1RtcTasklet m = none := by
  intro cs
  have hcs : ∀ c ∈ cs, c.AwayFromZero := by simp [cs, BlinkCall.AwayFromZero, otherBlink]
  obtain ⟨s, hcalls, -⟩ := calls_represents (start_represents fun _ => 0) hcs (by decide : 2000 < 2001)
  exact ⟨s, hcalls, blink_at_zero_hangs hcs (by decide) hcalls (by decide) rfl (by decide)⟩

end BigChungOS
