import BigChungOS.Lib.Runs
import Mathlib.Logic.Function.Basic

/-!
# Banks of registers

One set of registers is shared by several owners.  The owner in charge uses the registers themselves (`live`), and every
other one finds its values in its own save area (`saved`).  A switch saves the registers for the owner in charge and
loads those of the next one, so that nobody's values change, in one switch (`Bank.get_switch`) or in many
(`Bank.run_switch`).

A switch that saves under the wrong owner keeps all values only by luck: when what it overwrites is equal to what it
stores, and the save area of the owner in charge was up to date already (`Bank.get_save_load_iff`).  So does a switch of
the registers without a change of the owner in charge (`Bank.get_save_fetch_iff`).  A save under another owner next to
the right one gives that owner the registers (`Bank.get_save_save_load`).
-/

namespace Banking

open Transition

variable {ι σ : Type*}

/-- The shared registers, the save areas, and the owner in charge. -/
@[ext] structure Bank (ι σ : Type*) where
  live : σ
  saved : ι → σ
  selected : ι

namespace Bank

/-- Put `j` in charge and load its values. -/
def load (b : Bank ι σ) (j : ι) : Bank ι σ := { b with live := b.saved j, selected := j }

/-- Load the values of `j` without putting it in charge. -/
def fetch (b : Bank ι σ) (j : ι) : Bank ι σ := { b with live := b.saved j }

/-- Change the registers. -/
def set (b : Bank ι σ) (v : σ) : Bank ι σ := { b with live := v }

@[simp] theorem load_live (b : Bank ι σ) (j : ι) : (b.load j).live = b.saved j := rfl
@[simp] theorem load_selected (b : Bank ι σ) (j : ι) : (b.load j).selected = j := rfl
@[simp] theorem load_saved (b : Bank ι σ) (j : ι) : (b.load j).saved = b.saved := rfl

variable [DecidableEq ι]

/-- The values of owner `i`. -/
def get (b : Bank ι σ) (i : ι) : σ := if i = b.selected then b.live else b.saved i

/-- Save the registers in the area of `i`. -/
def save (b : Bank ι σ) (i : ι) : Bank ι σ := { b with saved := Function.update b.saved i b.live }

/-- A switch from the owner in charge to `j`. -/
def switch (b : Bank ι σ) (j : ι) : Bank ι σ := (b.save b.selected).load j

@[simp] theorem save_live (b : Bank ι σ) (i : ι) : (b.save i).live = b.live := rfl
@[simp] theorem save_selected (b : Bank ι σ) (i : ι) : (b.save i).selected = b.selected := rfl
@[simp] theorem save_saved (b : Bank ι σ) (i : ι) : (b.save i).saved = Function.update b.saved i b.live := rfl
@[simp] theorem get_selected (b : Bank ι σ) : b.get b.selected = b.live := if_pos rfl

theorem get_of_ne (b : Bank ι σ) {i : ι} (h : i ≠ b.selected) : b.get i = b.saved i := if_neg h

/-- After a load everybody's values are in the save areas. -/
theorem get_load (b : Bank ι σ) (j : ι) : (b.load j).get = b.saved := by
  funext i
  by_cases h : i = j
  · subst h
    exact get_selected (b.load i)
  · exact get_of_ne (b.load j) h

/-- A save for the owner in charge brings the save areas up to date. -/
theorem saved_save_selected (b : Bank ι σ) : (b.save b.selected).saved = b.get := by
  funext i
  by_cases h : i = b.selected
  · rw [h, save_saved, Function.update_self, get_selected]
  · rw [save_saved, Function.update_of_ne h, get_of_ne b h]

theorem get_save_selected (b : Bank ι σ) : (b.save b.selected).get = b.get := by
  funext i
  by_cases h : i = b.selected
  · rw [h, get_selected]
    exact get_selected (b.save b.selected)
  · rw [get_of_ne (b.save b.selected) h, saved_save_selected]

theorem get_set (b : Bank ι σ) (v : σ) : (b.set v).get = Function.update b.get b.selected v := by
  funext i
  by_cases h : i = b.selected
  · rw [h, Function.update_self]
    exact get_selected (b.set v)
  · rw [Function.update_of_ne h, get_of_ne b h]
    exact get_of_ne (b.set v) h

theorem get_switch (b : Bank ι σ) (j : ι) : (b.switch j).get = b.get := by
  rw [switch, get_load, saved_save_selected]

/-- A switch that saves for `i` instead. -/
theorem get_save_load_iff (b : Bank ι σ) (i j : ι) :
    ((b.save i).load j).get = b.get ↔ i = b.selected ∨ (b.saved i = b.live ∧ b.saved b.selected = b.live) := by
  rw [get_load]
  by_cases h : i = b.selected
  · subst h
    exact iff_of_true b.saved_save_selected (.inl rfl)
  constructor
  · intro hall
    have hi := congrFun hall i
    have hselected := congrFun hall b.selected
    rw [save_saved, Function.update_self, get_of_ne b h] at hi
    rw [save_saved, Function.update_of_ne (Ne.symm h), get_selected] at hselected
    exact .inr ⟨hi.symm, hselected⟩
  · rintro (heq | ⟨hi, hselected⟩)
    · exact absurd heq h
    funext u
    by_cases hu : u = i
    · rw [hu, save_saved, Function.update_self, get_of_ne b h, hi]
    · rw [save_saved, Function.update_of_ne hu]
      by_cases heq : u = b.selected
      · rw [heq, get_selected, hselected]
      · rw [get_of_ne b heq]

/-- A save for `i` too gives `i` the registers of the owner in charge. -/
theorem get_save_save_load (b : Bank ι σ) (i j : ι) :
    (((b.save b.selected).save i).load j).get = Function.update b.get i b.live := by
  rw [get_load, save_saved, saved_save_selected, save_live]

/-- A save for `i`, and a load for `j` that leaves the owner in charge. -/
theorem get_save_fetch_iff (b : Bank ι σ) (i j : ι) :
    ((b.save i).fetch j).get = b.get ↔
      (j = i ∨ b.saved j = b.live) ∧ (i = b.selected ∨ b.saved i = b.live) := by
  have hlive : ((b.save i).fetch j).get b.selected = b.live ↔ j = i ∨ b.saved j = b.live := by
    have hselected : ((b.save i).fetch j).get b.selected = (b.save i).saved j := get_selected ((b.save i).fetch j)
    rw [hselected, save_saved]
    by_cases hj : j = i
    · rw [hj, Function.update_self]
      exact iff_of_true rfl (.inl rfl)
    · rw [Function.update_of_ne hj]
      exact ⟨.inr, fun h => h.resolve_left hj⟩
  have hother : ∀ u ≠ b.selected, ((b.save i).fetch j).get u = Function.update b.saved i b.live u :=
    fun u hu => get_of_ne ((b.save i).fetch j) hu
  constructor
  · intro hall
    refine ⟨hlive.1 (by rw [hall, get_selected]), or_iff_not_imp_left.2 fun hi => ?_⟩
    have hsaved := hother i hi
    rw [hall, get_of_ne b hi, Function.update_self] at hsaved
    exact hsaved
  · rintro ⟨hj, hi⟩
    funext u
    by_cases hu : u = b.selected
    · rw [hu, hlive.2 hj, get_selected]
    rw [hother u hu, get_of_ne b hu]
    by_cases hui : u = i
    · subst hui
      rw [Function.update_self, hi.resolve_left hu]
    · rw [Function.update_of_ne hui]

/-- Any number of switches: nobody's values change, and those of the last owner are in the registers. -/
theorem run_switch {b b' : Bank ι σ} {js : List ι} (h : Run (fun b j b' => b.switch j = b') b js b') :
    b'.get = b.get ∧ b'.selected = js.getLastD b.selected ∧ b'.live = b.get b'.selected := by
  have hget : b'.get = b.get := by
    refine Run.invariant (P := fun b' => b'.get = b.get) ?_ h rfl
    rintro b j _ hb rfl
    rw [get_switch, hb]
  refine ⟨hget, ?_, by rw [← hget, get_selected]⟩
  cases h with
  | nil => rfl
  | snoc _ hlast => rw [← hlast, List.getLastD_concat]; rfl

end Bank

end Banking
