import BigChungOS.BlinkList

/-!
# What fish shows

A blink that is alone at its location comes on when it is added and then changes with the ticks: it shows `on_char` for
as many ticks as `on_length` says and `off_char` for as many as `off_length` says, over and over, whatever is done to
other locations in between, as long as nothing is added at location 0 (`blink_shows`).  The lengths are compared as
signed words, so that a length of 0 and one above 0x8000 count as a single tick.

What is on the screen is the character that belongs to the status of each blink, except that `mp1_ioctl_sync` always
draws `off_char`: a call keeps that, with the blinks at locations of their own, exactly if it does not add a blink where
one is and does not synchronise with a blink that is on (`all_drawn_iff`).
-/

namespace BigChungOS

open Transition

/-! ### How long a character is shown -/

/-- The ticks until a countdown from `len` expires. -/
def ticksOf (len : UInt16) : Nat := if len = 0 ∨ 0x8000 < len then 1 else len.toNat

private theorem ticksOf_eq (len : UInt16) :
    ticksOf len = if len.toNat = 0 ∨ 32768 < len.toNat then 1 else len.toNat := by
  have hzero : len = 0 ↔ len.toNat = 0 := UInt16.toNat_inj.symm
  have hbig : 0x8000 < len ↔ 32768 < len.toNat := UInt16.lt_iff_toNat_lt
  rw [ticksOf]
  simp only [hzero, hbig]

private theorem ticksOf_pos (len : UInt16) : 0 < ticksOf len := by
  rw [ticksOf_eq]
  split_ifs <;> omega

private theorem toInt16_pos_iff (x : UInt16) : x.toInt16 > 0 ↔ 0 < x.toNat ∧ x.toNat < 32768 := by
  rw [gt_iff_lt, Int16.lt_iff_toInt_lt]
  show 0 < x.toBitVec.toInt ↔ _
  have hx := x.toNat_lt
  have hnat : x.toBitVec.toNat = x.toNat := rfl
  rw [BitVec.toInt_eq_toNat_cond, hnat]
  split <;> omega

/-- A countdown that has gone down by `r` expires with the next tick only at the end. -/
private theorem countdown_expires_iff {len : UInt16} {r : Nat} (hr : r < ticksOf len) :
    ¬(len - UInt16.ofNat r - 1).toInt16 > 0 ↔ r + 1 = ticksOf len := by
  have hlen := len.toNat_lt
  have hvalue : (len - UInt16.ofNat r - 1).toNat = (len.toNat + 131072 - r % 65536 - 1) % 65536 := by
    have hofNat : (UInt16.ofNat r).toNat = r % 65536 := UInt16.toNat_ofNat'
    have hone : (1 : UInt16).toNat = 1 := rfl
    rw [UInt16.toNat_sub, UInt16.toNat_sub, hofNat, hone]
    omega
  rw [toInt16_pos_iff, hvalue]
  rw [ticksOf_eq] at *
  split_ifs at * <;> omega

namespace Blink

def onTicks (b : Blink) : Nat := ticksOf b.onLength

def offTicks (b : Blink) : Nat := ticksOf b.offLength

/-- The ticks after which a blink starts again. -/
def period (b : Blink) : Nat := b.onTicks + b.offTicks

/-- The blink came on `r` ticks ago. -/
structure AtPhase (b : Blink) (r : Nat) : Prop where
  on : r < b.onTicks → b.isOn = true ∧ b.countdown = b.onLength - UInt16.ofNat r
  off : b.onTicks ≤ r → b.isOn = false ∧ b.countdown = b.offLength - UInt16.ofNat (r - b.onTicks)

/-- What a tick does not change. -/
structure SameKind (b c : Blink) : Prop where
  location : c.location = b.location
  onChar : c.onChar = b.onChar
  offChar : c.offChar = b.offChar
  onLength : c.onLength = b.onLength
  offLength : c.offLength = b.offLength

variable {b c : Blink}

private theorem sameKind_tick (b : Blink) : SameKind b b.tick := by
  unfold tick
  split <;> exact ⟨rfl, rfl, rfl, rfl, rfl⟩

theorem SameKind.trans {d : Blink} (h : SameKind b c) (h' : SameKind c d) : SameKind b d :=
  ⟨h'.location.trans h.location, h'.onChar.trans h.onChar, h'.offChar.trans h.offChar, h'.onLength.trans h.onLength,
    h'.offLength.trans h.offLength⟩

private theorem SameKind.period (h : SameKind b c) : c.period = b.period := by
  simp only [Blink.period, onTicks, offTicks, h.onLength, h.offLength]

private theorem tick_countdown (b : Blink) :
    b.tick.countdown =
      if b.Expires then (if b.isOn then b.offLength else b.onLength) else b.countdown - 1 := by
  unfold Blink.tick
  split <;> rfl

private theorem tick_isOn (b : Blink) : b.tick.isOn = if b.Expires then !b.isOn else b.isOn := by
  by_cases h : b.Expires
  · rw [if_pos h, isOn_tick h]
  · rw [if_neg h, Blink.tick, if_neg h]
    rfl

/-- A blink that is added comes on. -/
private theorem added_atPhase (b : Blink) : b.added.AtPhase 0 := by
  refine ⟨fun _ => ⟨by simp [isOn, added], ?_⟩, fun hle => ?_⟩
  · show b.onLength = b.onLength - 0
    simp
  · exact absurd (ticksOf_pos b.onLength) (Nat.not_lt.2 hle)

private theorem sub_ofNat_succ (len : UInt16) (r : Nat) : len - UInt16.ofNat r - 1 = len - UInt16.ofNat (r + 1) := by
  rw [UInt16.ofNat_add]
  grind

private theorem sub_ofNat_zero (len : UInt16) : len - UInt16.ofNat 0 = len := by
  show len - 0 = len
  simp

/-- One tick. -/
theorem AtPhase.tick {r : Nat} (h : b.AtPhase r) (hr : r < b.period) : b.tick.AtPhase ((r + 1) % b.period) := by
  have hkind := sameKind_tick b
  have hticks : b.tick.onTicks = b.onTicks := by simp only [onTicks, hkind.onLength]
  have hon : 0 < b.onTicks := ticksOf_pos b.onLength
  have hoff : 0 < b.offTicks := ticksOf_pos b.offLength
  unfold period at *
  by_cases hfirst : r < b.onTicks
  · obtain ⟨hstatus, hcountdown⟩ := h.on hfirst
    have hexp : b.Expires ↔ r + 1 = b.onTicks := by
      have hiff := countdown_expires_iff hfirst
      rwa [← hcountdown] at hiff
    rw [Nat.mod_eq_of_lt (by omega)]
    by_cases hlast : r + 1 = b.onTicks
    · -- it goes off
      refine ⟨fun hlt => by omega, fun _ => ?_⟩
      rw [tick_isOn, tick_countdown, if_pos (hexp.2 hlast), if_pos (hexp.2 hlast), hstatus, hticks, hkind.offLength,
        hlast, Nat.sub_self, sub_ofNat_zero]
      exact ⟨rfl, rfl⟩
    · have hnot : ¬b.Expires := fun hyes => hlast (hexp.1 hyes)
      refine ⟨fun _ => ?_, fun hle => by omega⟩
      rw [tick_isOn, tick_countdown, if_neg hnot, if_neg hnot, hkind.onLength, hcountdown, sub_ofNat_succ]
      exact ⟨hstatus, rfl⟩
  · obtain ⟨hstatus, hcountdown⟩ := h.off (Nat.not_lt.1 hfirst)
    have hexp : b.Expires ↔ r - b.onTicks + 1 = b.offTicks := by
      have hless : r - b.onTicks < ticksOf b.offLength := by
        unfold offTicks at hr
        omega
      have hiff := countdown_expires_iff hless
      rwa [← hcountdown] at hiff
    by_cases hlast : r + 1 = b.onTicks + b.offTicks
    · -- it comes on again
      have hyes : b.Expires := hexp.2 (by omega)
      rw [hlast, Nat.mod_self]
      refine ⟨fun _ => ?_, fun hle => by omega⟩
      rw [tick_isOn, tick_countdown, if_pos hyes, if_pos hyes, hstatus, hkind.onLength, sub_ofNat_zero]
      exact ⟨rfl, rfl⟩
    · have hnot : ¬b.Expires := fun hyes => hlast (by have := hexp.1 hyes; omega)
      rw [Nat.mod_eq_of_lt (by omega)]
      refine ⟨fun hlt => by omega, fun _ => ?_⟩
      rw [tick_isOn, tick_countdown, if_neg hnot, if_neg hnot, hkind.offLength, hcountdown, sub_ofNat_succ, hticks,
        show r - b.onTicks + 1 = r + 1 - b.onTicks by omega]
      exact ⟨hstatus, rfl⟩

/-- The character of a phase. -/
theorem AtPhase.char {r : Nat} (h : b.AtPhase r) : b.char = if r < b.onTicks then b.onChar else b.offChar := by
  by_cases hr : r < b.onTicks
  · simp [Blink.char, (h.on hr).1, hr]
  · simp [Blink.char, (h.off (Nat.not_lt.1 hr)).1, hr]

end Blink

/-! ### One blink, whatever happens elsewhere -/

/-- A call that adds, removes and draws no blink at a location. -/
def BlinkCall.Spares (location : UInt16) : BlinkCall → Prop
  | .add user => user.location ≠ location
  | .remove arg => arg.toUInt16 ≠ location
  | .sync arg => (arg &&& 0xFFFF).toUInt16 ≠ location
  | .find _ | .tick => True

def BlinkCall.isTick : BlinkCall → Bool
  | .tick => true
  | _ => false

/-- The blinks at a location. -/
def Blinks.at (t : Blinks) (location : UInt16) : List Blink := t.list.filter fun b => b.location = location

/-- The character in the cell of a location. -/
def Blinks.shown (t : Blinks) (location : UInt16) : UInt8 := t.video (2 * location.toNat)

section Elsewhere

variable {t : Blinks} {location : UInt16} {b : Blink}

private theorem filter_eraseP {l : List Blink} {p q : Blink → Bool} (h : ∀ b, p b = true → q b = false) :
    (l.eraseP p).filter q = l.filter q := by
  induction l with
  | nil => rfl
  | cons b l ih =>
    cases hp : p b
    · rw [List.eraseP_cons_of_neg (by simp [hp]), List.filter_cons, List.filter_cons, ih]
    · rw [List.eraseP_cons_of_pos hp, List.filter_cons, h b hp]
      rfl

private theorem filter_replaceF {l : List Blink} {g : Blink → Option Blink} {q : Blink → Bool}
    (h : ∀ b c, g b = some c → q b = false ∧ q c = false) : (l.replaceF g).filter q = l.filter q := by
  induction l with
  | nil => rfl
  | cons b l ih =>
    cases hg : g b with
    | none => rw [List.replaceF_cons_of_none _ hg, List.filter_cons, List.filter_cons, ih]
    | some c =>
      obtain ⟨hb, hc⟩ := h b c hg
      rw [List.replaceF_cons_of_some _ hg, List.filter_cons, List.filter_cons, hb, hc]
      rfl

private theorem draw_elsewhere {c : UInt8} {video : Nat → UInt8} (h : b.location ≠ location) :
    b.draw c video (2 * location.toNat) = video (2 * location.toNat) := by
  refine Function.update_of_ne (fun heq => h ?_) _ _
  exact UInt16.toNat_inj.1 (by omega)

private theorem draw_here (b : Blink) (c : UInt8) (video : Nat → UInt8) : b.draw c video (2 * b.location.toNat) = c :=
  Function.update_self _ _ _

/-- What a tick draws at a location is drawn by the blinks there. -/
private theorem tick_video (location : UInt16) (l : List Blink) (video : Nat → UInt8) :
    l.foldl (fun v b => if b.Expires then b.draw b.tick.char v else v) video (2 * location.toNat) =
      (l.filter fun b => b.location = location).foldl (fun c b => if b.Expires then b.tick.char else c)
        (video (2 * location.toNat)) := by
  induction l generalizing video with
  | nil => rfl
  | cons b l ih =>
    rw [List.foldl_cons, ih, List.filter_cons]
    by_cases hb : b.location = location
    · subst hb
      by_cases hexp : b.Expires
      · simp [hexp, draw_here]
      · simp [hexp]
    · by_cases hexp : b.Expires
      · simp [hexp, hb, draw_elsewhere hb]
      · simp [hexp, hb]

private theorem tick_at (t : Blinks) : t.tick.at location = (t.at location).map Blink.tick := by
  simp only [Blinks.at, Blinks.tick, List.filter_map]
  congr 1
  refine List.filter_congr fun b _ => ?_
  simp only [Function.comp_apply, tick_location]

/-- A call that spares a location changes neither the blinks there nor their cell, unless it is a tick. -/
private theorem call_spares {c : BlinkCall} (h : c.Spares location) (hc : c.isTick = false) :
    (t.call c).1.at location = t.at location ∧ (t.call c).1.shown location = t.shown location := by
  cases c with
  | add user =>
    have hne : user.toBlink.added.location ≠ location := h
    simp only [Blinks.call, Blinks.add]
    split
    · refine ⟨?_, draw_elsewhere h⟩
      simp only [Blinks.at, List.filter_cons, decide_eq_false hne]
      rfl
    · exact ⟨rfl, rfl⟩
  | remove arg =>
    simp only [Blinks.call, Blinks.remove]
    cases t.find arg.toUInt16 with
    | none => exact ⟨rfl, rfl⟩
    | some _ =>
      refine ⟨filter_eraseP fun b hb => ?_, rfl⟩
      rw [decide_eq_true_eq] at hb
      rw [hb]
      exact decide_eq_false h
  | find user => exact ⟨rfl, rfl⟩
  | sync arg =>
    simp only [Blinks.call, Blinks.sync]
    generalize (arg >>> 16).toUInt16 = source
    have hne : (arg &&& 0xFFFF).toUInt16 ≠ location := h
    generalize (arg &&& 0xFFFF).toUInt16 = dest at hne
    cases t.find source with
    | none => exact ⟨rfl, rfl⟩
    | some a =>
    cases hdest : t.find dest with
    | none => exact ⟨rfl, rfl⟩
    | some b =>
      have hb : b.location = dest := by simpa using List.find?_some hdest
      refine ⟨filter_replaceF fun c d hd => ?_, draw_elsewhere (hb ▸ hne)⟩
      split at hd
      · next hc =>
        cases hd
        exact ⟨decide_eq_false (hc ▸ hne), decide_eq_false (hc ▸ hne)⟩
      · cases hd
  | tick => cases hc

/-- The blink is alone at its location, it came on `k` ticks ago, and it is what is shown there. -/
def ShowsBlink (t : Blinks) (b : Blink) (k : Nat) : Prop :=
  ∃ c, t.at b.location = [c] ∧ b.SameKind c ∧ c.AtPhase (k % b.period) ∧ t.shown b.location = c.char

theorem ShowsBlink.call {k : Nat} {c : BlinkCall} (h : ShowsBlink t b k) (hc : c.Spares b.location) :
    ShowsBlink (t.call c).1 b (if c.isTick then k + 1 else k) := by
  cases htick : c.isTick with
  | false =>
    obtain ⟨hat, hshown⟩ := call_spares (t := t) hc htick
    rw [ShowsBlink, hat, hshown]
    exact h
  | true =>
    obtain rfl : c = .tick := by
      cases c <;> first | rfl | cases htick
    obtain ⟨d, hat, hkind, hphase, hshown⟩ := h
    have hperiod := hkind.period
    have hlt : k % b.period < d.period := by
      rw [hperiod]
      exact Nat.mod_lt _ (Nat.add_pos_left (ticksOf_pos _) _)
    have hnext := hphase.tick hlt
    rw [hperiod, Nat.mod_add_mod] at hnext
    refine ⟨d.tick, ?_, hkind.trans (Blink.sameKind_tick d), hnext, ?_⟩
    · show t.tick.at b.location = [d.tick]
      rw [tick_at, hat]
      rfl
    · show t.tick.video (2 * b.location.toNat) = d.tick.char
      have hvideo := tick_video b.location t.list t.video
      have hlist : (t.list.filter fun b' => b'.location = b.location) = [d] := hat
      rw [hlist] at hvideo
      have hold : t.video (2 * b.location.toNat) = d.char := hshown
      by_cases hexp : d.Expires
      · simpa [Blinks.tick, hexp] using hvideo
      · have hsame : d.tick.char = d.char := by
          rw [Blink.tick, if_neg hexp]
          rfl
        simpa [Blinks.tick, hexp, hold, hsame] using hvideo

theorem ShowsBlink.calls {k : Nat} {cs : List BlinkCall} (h : ShowsBlink t b k) (hcs : ∀ c ∈ cs, c.Spares b.location) :
    ShowsBlink (t.calls cs).1 b (k + cs.countP BlinkCall.isTick) := by
  induction cs generalizing t k with
  | nil => exact h
  | cons c cs ih =>
    rw [List.forall_mem_cons] at hcs
    have hrest := ih (h.call hcs.1) hcs.2
    rw [List.countP_cons]
    split at hrest
    · next htick =>
      rw [if_pos htick, Nat.add_comm _ 1, ← Nat.add_assoc]
      exact hrest
    · next htick =>
      rw [if_neg htick]
      exact hrest

/-- A blink that is added where there is none. -/
private theorem add_shows {user : Blink} (hvalid : user.location < 2000) (hroom : t.list.length < 2000)
    (halone : t.at user.location = []) : ShowsBlink (t.add user).1 user 0 := by
  refine ⟨user.added, ?_, ⟨rfl, rfl, rfl, rfl, rfl⟩, ?_, ?_⟩
  · rw [Blinks.add, if_pos ⟨hvalid, hroom⟩]
    have hnone : (t.list.filter fun b => b.location = user.location) = [] := halone
    simp only [Blinks.at, List.filter_cons, hnone]
    simp [Blink.added]
  · rw [Nat.zero_mod]
    exact Blink.added_atPhase user
  · rw [Blinks.add, if_pos ⟨hvalid, hroom⟩]
    have hon : user.added.char = user.onChar := by simp [Blink.char, Blink.isOn, Blink.added]
    rw [hon]
    exact draw_here user _ _

end Elsewhere

/-- A free slot. -/
theorem Path.room {s : Fish} {path : List Nat} (h : Path s path) (hroom : ∃ i < 2000, (s.blinkArray i).location = 0) :
    path.length < 2000 := by
  cases hmalloc : s.mp1Malloc with
  | some i => exact (h.malloc_some hmalloc).2.2
  | none =>
    obtain ⟨i, hi, hfree⟩ := hroom
    unfold Fish.mp1Malloc at hmalloc
    have hused : (s.blinkArray i).location ≠ 0 := by
      simpa using List.find?_eq_none.1 hmalloc i (List.mem_range.2 hi)
    exact absurd hfree hused

/-- Any calls away from location 0, and then a blink is added at a location where there is none.  Whatever is done to
other locations from there on, with no blink added at location 0, after `k` ticks the cell of the blink shows `on_char`
if `k` is in the first part of its period, else `off_char`. -/
theorem blink_shows {video : Nat → UInt8} {before after : List BlinkCall} {n : Nat} {s : Fish} {rs : List BlinkResult}
    {user : Mp1BlinkStruct} (hbefore : ∀ c ∈ before, c.AwayFromZero) (hn : 2000 < n)
    (hrun : (Fish.start video).calls n before = some (s, rs)) (hzero : user.location ≠ 0)
    (hvalid : user.location < 2000) (halone : ∀ i < 2000, (s.blinkArray i).location ≠ user.location)
    (hroom : ∃ i < 2000, (s.blinkArray i).location = 0)
    (hafter : ∀ c ∈ after, c.AwayFromZero ∧ c.Spares user.location) :
    ∃ s' rs', s.calls n (.add user :: after) = some (s', rs') ∧
      s'.video (2 * user.location.toNat) =
        if after.countP BlinkCall.isTick % user.period < user.onTicks then user.onChar else user.offChar := by
  obtain ⟨s₀, hcalls, path, hpath, hblinks⟩ := calls_represents (start_represents video) hbefore hn
  obtain rfl : s = s₀ := (Prod.mk.inj (Option.some.inj (hrun.symm.trans hcalls))).1
  have hlength : (blinksAt s path).list.length < 2000 := by
    rw [blinksAt, List.length_map]
    exact hpath.room hroom
  have hnone : (blinksAt s path).at user.location = [] := by
    refine List.filter_eq_nil_iff.2 fun b hb => ?_
    obtain ⟨i, hi, rfl⟩ := List.mem_map.1 hb
    simpa using halone i ((hpath.used i).1 hi).1
  have hadd := add_shows hvalid hlength hnone
  have hshows := hadd.calls fun c hc => (hafter c hc).2
  rw [Nat.zero_add] at hshows
  have haway : ∀ c ∈ BlinkCall.add user :: after, c.AwayFromZero :=
    List.forall_mem_cons.2 ⟨hzero, fun c hc => (hafter c hc).1⟩
  obtain ⟨s', hrun', path', -, hblinks'⟩ := calls_represents ⟨path, hpath, rfl⟩ haway hn
  obtain ⟨c, -, hkind, hphase, hshown⟩ := hshows
  refine ⟨s', _, hrun', ?_⟩
  have hvideo : s'.video = (((blinksAt s path).add user.toBlink).1.calls after).1.video :=
    congrArg Blinks.video hblinks'
  rw [hvideo]
  refine hshown.trans (hphase.char.trans ?_)
  have hon : c.onTicks = user.onTicks := by simp only [Blink.onTicks, hkind.onLength]
  rw [hon, hkind.onChar, hkind.offChar]

/-- The blink of `main`, after ticks and other blinks. -/
theorem fishBlink_shows :
    ∃ s' rs', (Fish.start fun _ => 0).calls 2001
        (.add fishBlink :: [.tick, .add otherBlink, .tick, .tick, .remove 40, .tick, .tick, .tick, .tick]) =
          some (s', rs') ∧
      s'.video 1080 = 77 :=
  @blink_shows (fun _ => 0) [] _ 2001 (Fish.start fun _ => 0) [] fishBlink (by simp) (by decide) rfl (by decide)
    (by decide)
    (fun i _ => show (0 : UInt16) ≠ 540 by decide) ⟨0, by decide, rfl⟩
    (by simp [BlinkCall.AwayFromZero, BlinkCall.Spares, fishBlink, otherBlink])

/-! ### All blinks -/

/-- A slot of the array that a blink is in. -/
def Fish.InUse (s : Fish) (i : Nat) : Prop := i < 2000 ∧ (s.blinkArray i).location ≠ 0

/-- No two blinks have one location, and each is shown as its status says. -/
structure AllDrawn (s : Fish) : Prop where
  apart : ∀ i j, s.InUse i → s.InUse j → (s.blinkArray i).location = (s.blinkArray j).location → i = j
  drawn : ∀ i, s.InUse i → s.video (2 * (s.blinkArray i).location.toNat) = (s.blinkArray i).toBlink.char

/-- A blink is not added where there is one, and one that is on is not synchronised with (unless the other one's
characters are the same). -/
def DrawsRight (s : Fish) : BlinkCall → Prop
  | .add user =>
    user.location < 2000 → (∃ i < 2000, (s.blinkArray i).location = 0) →
      ∀ i, s.InUse i → (s.blinkArray i).location ≠ user.location
  | .sync arg =>
    ∀ i j, s.InUse i → s.InUse j → (s.blinkArray i).location = (arg >>> 16).toUInt16 →
      (s.blinkArray j).location = (arg &&& 0xFFFF).toUInt16 →
        (s.blinkArray i).toBlink.isOn = false ∨ (s.blinkArray j).onChar = (s.blinkArray j).offChar
  | _ => True

namespace Blinks

/-- The same of the sequence. -/
structure AllDrawn (t : Blinks) : Prop where
  apart : (t.list.map Blink.location).Nodup
  drawn : ∀ b ∈ t.list, t.shown b.location = b.char

def DrawsRight (t : Blinks) : BlinkCall → Prop
  | .add user => user.location < 2000 → t.list.length < 2000 → ∀ b ∈ t.list, b.location ≠ user.location
  | .sync arg =>
    ∀ a ∈ t.list, ∀ b ∈ t.list, a.location = (arg >>> 16).toUInt16 → b.location = (arg &&& 0xFFFF).toUInt16 →
      a.isOn = false ∨ b.onChar = b.offChar
  | _ => True

variable {t : Blinks}

theorem AllDrawn.unique (h : t.AllDrawn) {a b : Blink} (ha : a ∈ t.list) (hb : b ∈ t.list)
    (hab : a.location = b.location) : a = b := List.inj_on_of_nodup_map h.apart ha hb hab

/-- A blink is the only one at its location. -/
private theorem AllDrawn.at_eq (h : t.AllDrawn) {b : Blink} (hb : b ∈ t.list) : t.at b.location = [b] := by
  have hnodup : t.list.Nodup := h.apart.of_map
  have hsame : t.at b.location = t.list.filter fun a => a = b := by
    refine List.filter_congr fun a ha => decide_eq_decide.2 ⟨fun hab => h.unique ha hb hab, fun hab => hab ▸ rfl⟩
  rw [hsame, List.filter_eq, List.count_eq_one_of_mem hnodup hb]
  rfl

private theorem allDrawn_add_iff (h : t.AllDrawn) (user : Mp1BlinkStruct) :
    (t.call (.add user)).1.AllDrawn ↔ t.DrawsRight (.add user) := by
  by_cases hroom : user.location < 2000 ∧ t.list.length < 2000
  · have hcall : (t.call (.add user)).1 = ⟨user.added :: t.list, user.draw user.onChar t.video⟩ := by
      simp only [call, add, hroom, and_self, if_true]
    rw [hcall]
    constructor
    · intro hall _ _ b hb heq
      have hnodup := hall.apart
      rw [List.map_cons, List.nodup_cons] at hnodup
      exact hnodup.1 (List.mem_map.2 ⟨b, hb, heq⟩)
    · intro hright
      have hfresh := hright hroom.1 hroom.2
      refine ⟨List.nodup_cons.2 ⟨fun hmem => ?_, h.apart⟩, ?_⟩
      · obtain ⟨b, hb, heq⟩ := List.mem_map.1 hmem
        exact hfresh b hb heq
      · rintro b (_ | ⟨_, hb⟩)
        · have hon : user.added.char = user.onChar := by simp [Blink.char, Blink.isOn, Blink.added]
          rw [hon]
          exact draw_here _ _ _
        · refine Eq.trans ?_ (h.drawn b hb)
          exact draw_elsewhere (Ne.symm (hfresh b hb))
  · have hcall : (t.call (.add user)).1 = t := by simp only [call, add, hroom, if_false]
    rw [hcall]
    exact ⟨fun _ hvalid hlength => absurd ⟨hvalid, hlength⟩ hroom, fun _ => h⟩

private theorem allDrawn_remove (h : t.AllDrawn) (location : UInt16) : (t.remove location).1.AllDrawn := by
  unfold remove
  cases t.find location with
  | none => exact h
  | some _ =>
    have hsub := List.eraseP_sublist (p := fun b : Blink => decide (b.location = location)) (l := t.list)
    exact ⟨h.apart.sublist (hsub.map _), fun b hb => h.drawn b (hsub.mem hb)⟩

private theorem allDrawn_tick (h : t.AllDrawn) : t.tick.AllDrawn := by
  refine ⟨?_, fun c hc => ?_⟩
  · have hsame : t.tick.list.map Blink.location = t.list.map Blink.location := by
      rw [tick, List.map_map]
      exact List.map_congr_left fun b _ => tick_location b
    rw [hsame]
    exact h.apart
  · obtain ⟨b, hb, rfl⟩ := List.mem_map.1 hc
    have hvideo := tick_video b.location t.list t.video
    have hlist : (t.list.filter fun b' => b'.location = b.location) = [b] := h.at_eq hb
    have hold : t.video (2 * b.location.toNat) = b.char := h.drawn b hb
    rw [hlist, hold] at hvideo
    rw [tick_location]
    refine hvideo.trans ?_
    by_cases hexp : b.Expires
    · simp [hexp]
    · have hsame : b.tick.char = b.char := by
        rw [Blink.tick, if_neg hexp]
        rfl
      simp [hexp, hsame]

/-- With the locations apart, the first blink with a location is the only one. -/
private theorem replaceF_eq_map {l : List Blink} {dest : UInt16} {f : Blink → Blink}
    (h : (l.map Blink.location).Nodup) : (l.replaceF fun c => if c.location = dest then some (f c) else none) =
      l.map fun c => if c.location = dest then f c else c := by
  induction l with
  | nil => rfl
  | cons b l ih =>
    rw [List.map_cons, List.nodup_cons] at h
    by_cases hb : b.location = dest
    · have hrest : l.map (fun c => if c.location = dest then f c else c) = l := by
        refine (List.map_congr_left fun c hc => ?_).trans (List.map_id l)
        exact if_neg fun heq => h.1 (List.mem_map.2 ⟨c, hc, heq.trans hb.symm⟩)
      simp [hb, hrest]
    · simp [hb, ih h.2]

private theorem allDrawn_sync_iff (h : t.AllDrawn) (arg : UInt32) :
    (t.call (.sync arg)).1.AllDrawn ↔ t.DrawsRight (.sync arg) := by
  simp only [call, sync, DrawsRight]
  generalize (arg >>> 16).toUInt16 = source
  generalize (arg &&& 0xFFFF).toUInt16 = dest
  -- a location that is not found
  have hmissing : ∀ location, t.find location = none → ∀ b ∈ t.list, b.location ≠ location := by
    intro location hnone b hb
    simpa using List.find?_eq_none.1 hnone b hb
  cases hsource : t.find source with
  | none =>
    refine ⟨fun _ a ha _ _ hloc _ => absurd hloc (hmissing _ hsource a ha), fun _ => h⟩
  | some a =>
  cases hdest : t.find dest with
  | none =>
    refine ⟨fun _ _ _ b hb _ hloc => absurd hloc (hmissing _ hdest b hb), fun _ => h⟩
  | some b =>
    have ha : a ∈ t.list := List.mem_of_find?_eq_some hsource
    have hb : b ∈ t.list := List.mem_of_find?_eq_some hdest
    have hasource : a.location = source := by simpa using List.find?_some hsource
    have hbdest : b.location = dest := by simpa using List.find?_some hdest
    have hcond : (∀ a' ∈ t.list, ∀ b' ∈ t.list, a'.location = source → b'.location = dest →
        a'.isOn = false ∨ b'.onChar = b'.offChar) ↔ (a.synced b).char = b.offChar := by
      have hchar : (a.synced b).char = b.offChar ↔ a.isOn = false ∨ b.onChar = b.offChar := by
        show (if a.isOn then b.onChar else b.offChar) = b.offChar ↔ _
        cases a.isOn <;> simp
      rw [hchar]
      constructor
      · exact fun hall => hall a ha b hb hasource hbdest
      · intro hright a' ha' b' hb' hloc hloc'
        rw [h.unique ha' ha (hloc.trans hasource.symm), h.unique hb' hb (hloc'.trans hbdest.symm)]
        exact hright
    rw [hcond]
    dsimp only
    rw [replaceF_eq_map h.apart]
    constructor
    · intro hall
      have hsynced : a.synced b ∈ t.list.map fun c => if c.location = dest then a.synced c else c :=
        List.mem_map.2 ⟨b, hb, if_pos hbdest⟩
      have hdrawn := hall.drawn _ hsynced
      exact hdrawn.symm.trans (draw_here b _ _)
    · intro hchar
      refine ⟨?_, fun c hc => ?_⟩
      · have hsame : (t.list.map fun c => if c.location = dest then a.synced c else c).map Blink.location =
            t.list.map Blink.location := by
          rw [List.map_map]
          refine List.map_congr_left fun c _ => ?_
          rw [Function.comp_apply]
          split <;> rfl
        rw [hsame]
        exact h.apart
      · obtain ⟨d, hd, rfl⟩ := List.mem_map.1 hc
        by_cases hloc : d.location = dest
        · obtain rfl := h.unique hd hb (hloc.trans hbdest.symm)
          rw [if_pos hloc, hchar]
          exact draw_here d _ _
        · rw [if_neg hloc]
          refine Eq.trans ?_ (h.drawn d hd)
          exact draw_elsewhere fun heq => hloc (heq.symm.trans hbdest)

/-- One call keeps what is shown right exactly if it draws right. -/
private theorem allDrawn_call_iff (h : t.AllDrawn) (c : BlinkCall) : (t.call c).1.AllDrawn ↔ t.DrawsRight c := by
  cases c with
  | add user => exact allDrawn_add_iff h user
  | remove arg => exact ⟨fun _ => trivial, fun _ => allDrawn_remove h _⟩
  | find user => exact ⟨fun _ => trivial, fun _ => h⟩
  | sync arg => exact allDrawn_sync_iff h arg
  | tick => exact ⟨fun _ => trivial, fun _ => allDrawn_tick h⟩

end Blinks

section Array

variable {s : Fish} {path : List Nat}

private theorem Path.allDrawn_blinksAt_iff (h : Path s path) : (blinksAt s path).AllDrawn ↔ AllDrawn s := by
  have hmap : (path.map fun i => (s.blinkArray i).toBlink).map Blink.location =
      path.map fun i => (s.blinkArray i).location := List.map_map ..
  constructor
  · rintro ⟨hapart, hdrawn⟩
    refine ⟨fun i j hi hj hij => ?_, fun i hi => ?_⟩
    · rw [blinksAt, hmap] at hapart
      exact List.inj_on_of_nodup_map hapart ((h.used i).2 hi) ((h.used j).2 hj) hij
    · exact hdrawn _ (List.mem_map.2 ⟨i, (h.used i).2 hi, rfl⟩)
  · rintro ⟨hapart, hdrawn⟩
    refine ⟨?_, fun b hb => ?_⟩
    · rw [blinksAt, hmap]
      exact h.nodup.map_on fun i hi j hj hij => hapart i j ((h.used i).1 hi) ((h.used j).1 hj) hij
    · obtain ⟨i, hi, rfl⟩ := List.mem_map.1 hb
      exact hdrawn i ((h.used i).1 hi)

/-- There is a free slot exactly if the list is shorter than the array. -/
private theorem Path.room_iff (h : Path s path) : (∃ i < 2000, (s.blinkArray i).location = 0) ↔ path.length < 2000 := by
  refine ⟨h.room, fun hlt => ?_⟩
  by_contra hnone
  have hsubset : List.range 2000 ⊆ path := fun i hi =>
    (h.used i).2 ⟨List.mem_range.1 hi, fun hzero => hnone ⟨i, List.mem_range.1 hi, hzero⟩⟩
  have hle := List.nodup_range.length_le_of_subset hsubset
  rw [List.length_range] at hle
  omega

private theorem Path.drawsRight_iff (h : Path s path) (c : BlinkCall) :
    (blinksAt s path).DrawsRight c ↔ DrawsRight s c := by
  have hall : ∀ P : Blink → Prop,
      (∀ b ∈ (blinksAt s path).list, P b) ↔ ∀ i, s.InUse i → P (s.blinkArray i).toBlink := by
    intro P
    have hused : ∀ i, i ∈ path ↔ s.InUse i := h.used
    simp only [blinksAt, List.mem_map, ← hused]
    constructor
    · intro hP i hi
      exact hP _ ⟨i, hi, rfl⟩
    · rintro hP _ ⟨i, hi, rfl⟩
      exact hP i hi
  cases c with
  | add user =>
    have hlength : (blinksAt s path).list.length = path.length := List.length_map _
    simp only [Blinks.DrawsRight, DrawsRight, h.room_iff, hlength]
    exact imp_congr_right fun _ => imp_congr_right fun _ => hall fun b => b.location ≠ user.location
  | sync arg =>
    simp only [Blinks.DrawsRight, DrawsRight, hall]
    exact ⟨fun hP i j hi hj => hP i hi j hj, fun hP i hi j hj => hP i j hi hj⟩
  | remove arg | find user | tick => exact Iff.rfl

end Array

/-- A call away from location 0. -/
def BlinkStep (s : Fish) (c : BlinkCall) (s' : Fish) : Prop :=
  c.AwayFromZero ∧ ∃ r, s.call 2001 c = some (s', r)

/-- What is shown over runs.  Calls that draw right keep every blink shown as its status says, and whatever they lead
to, the next call keeps that exactly if it draws right: in particular a synchronisation with a blink that is on leaves
the wrong character on the screen. -/
theorem all_drawn_iff {video : Nat → UInt8} {cs : List BlinkCall} {s : Fish}
    (h : Run (Guarded DrawsRight BlinkStep) (Fish.start video) cs s) :
    AllDrawn s ∧ ∀ c s', BlinkStep s c s' → (AllDrawn s' ↔ DrawsRight s c) := by
  have hstart : AllDrawn (Fish.start video) := by
    have hnone : ∀ i, ¬(Fish.start video).InUse i := fun i hi => hi.2 rfl
    exact ⟨fun i _ hi => absurd hi (hnone i), fun i hi => absurd hi (hnone i)⟩
  refine Run.guarded_exact (I := fun s => ∃ t, Represents s t) ?_ ?_ h ⟨_, start_represents video⟩ hstart
  · rintro s c s' ⟨t, ht⟩ - - ⟨haway, r, hcall⟩
    obtain ⟨s₁, hcall₁, hnext⟩ := call_represents ht haway (n := 2001) (by decide)
    obtain rfl : s' = s₁ := (Prod.mk.inj (Option.some.inj (hcall.symm.trans hcall₁))).1
    exact ⟨_, hnext⟩
  · rintro s c s' ⟨t, path, hpath, rfl⟩ hall ⟨haway, r, hcall⟩
    obtain ⟨s₁, hcall₁, path', hpath', hblinks'⟩ := call_represents ⟨path, hpath, rfl⟩ haway (n := 2001) (by decide)
    obtain rfl : s' = s₁ := (Prod.mk.inj (Option.some.inj (hcall.symm.trans hcall₁))).1
    rw [← hpath'.allDrawn_blinksAt_iff, hblinks', Blinks.allDrawn_call_iff (hpath.allDrawn_blinksAt_iff.2 hall),
      hpath.drawsRight_iff]

/-- One blink, on the screen. -/
theorem all_drawn_one_blink :
    let s := ((Fish.start fun _ => 0).mp1IoctlAdd fishBlink).1
    AllDrawn s ∧ ∀ c s', BlinkStep s c s' → (AllDrawn s' ↔ DrawsRight s c) := by
  have haway : (BlinkCall.add fishBlink).AwayFromZero := show (540 : UInt16) ≠ 0 by decide
  refine @all_drawn_iff (fun _ => 0) [.add fishBlink] _ (Run.single ⟨?_, haway, _, rfl⟩)
  intro _ _ i hi
  exact absurd rfl hi.2

end BigChungOS
