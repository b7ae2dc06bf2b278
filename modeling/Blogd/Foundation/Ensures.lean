import Blogd.Foundation.Fault

/-! # Postconditions of stateless programs

A program that carries its state in its arguments and results either returns or faults. The
rules say what it returns, and which faults it may end with, from what its parts do.
-/

namespace Blogd

variable {α β : Type} {allowed : Fault → Prop} {post : α → Prop} {next : α → Except Fault β}

/-- The program returns a value with the postcondition, or ends with an allowed fault. -/
def Ensures (allowed : Fault → Prop) (post : α → Prop) : Except Fault α → Prop
  | .ok a => post a
  | .error e => allowed e

/-- No fault at all. -/
def noFault : Fault → Prop := fun _ => False

theorem bind_eq_ok {program : Except Fault α} {b : β} :
    (program >>= next) = .ok b ↔ ∃ a, program = .ok a ∧ next a = .ok b := by
  cases program with
  | ok a => exact ⟨fun h => ⟨a, rfl, h⟩, fun ⟨_, ha, h⟩ => by cases ha; exact h⟩
  | error e => exact ⟨nofun, fun ⟨_, ha, _⟩ => nomatch ha⟩

namespace Ensures

theorem ok {a : α} (ha : post a) : Ensures allowed post (.ok a) := ha

theorem bind {program : Except Fault α} {after : β → Prop}
    (hprogram : Ensures allowed post program)
    (hnext : ∀ a, post a → Ensures allowed after (next a)) :
    Ensures allowed after (program >>= next) := by
  cases program with
  | ok a => exact hnext a hprogram
  | error e => exact hprogram

theorem mono {program : Except Fault α} {weaker : α → Prop}
    (hprogram : Ensures allowed post program) (h : ∀ a, post a → weaker a) :
    Ensures allowed weaker program := by
  cases program with
  | ok a => exact h a hprogram
  | error e => exact hprogram

theorem ite {c : Prop} [Decidable c] {first second : Except Fault α}
    (hfirst : c → Ensures allowed post first) (hsecond : ¬ c → Ensures allowed post second) :
    Ensures allowed post (if c then first else second) := by
  split
  next hc => exact hfirst hc
  next hc => exact hsecond hc

/-- What is known of every value that is returned. -/
theorem and_of_ok {program : Except Fault α} {other : α → Prop}
    (hprogram : Ensures allowed post program) (hother : ∀ a, program = .ok a → other a) :
    Ensures allowed (fun a => post a ∧ other a) program := by
  cases program with
  | ok a => exact ⟨hprogram, hother a rfl⟩
  | error e => exact hprogram

theorem of_ok {program : Except Fault α} {a : α} (hprogram : Ensures allowed post program)
    (hrun : program = .ok a) : post a := by
  subst hrun
  exact hprogram

theorem exists_ok {program : Except Fault α} (h : Ensures noFault post program) :
    ∃ a, program = .ok a ∧ post a := by
  cases program with
  | ok a => exact ⟨a, rfl, h⟩
  | error e => exact h.elim

end Ensures

/-- A program that was evaluated has returned. -/
theorem exists_ok_of_map {α β : Type} {program : Except Fault α} {f : α → β} {b : β}
    (h : program.toOption.map f = some b) : ∃ a, program = .ok a ∧ f a = b := by
  cases program with
  | error e => cases h
  | ok a => exact ⟨a, rfl, Option.some.inj h⟩

end Blogd
