import Blogd.Foundation.Bytes

/-! # Programs that can fault

A program either returns or stops in the state it had reached. It stops when it leaves the
defined behaviour of C, when an assertion fails, when it calls `exit`, or when it can never
return. The state at that point stays observable.
-/

namespace Blogd

inductive Fault
  | nullPointer
  | outOfBounds
  | overflow
  | wildPointer
  | freed
  | assertion
  | division
  | exit
  | endless
deriving DecidableEq, Repr

section Stateless

variable {α β : Type}

@[simp] theorem ok_bind (a : α) (next : α → Except Fault β) : (Except.ok a >>= next) = next a :=
  rfl

@[simp] theorem error_bind (e : Fault) (next : α → Except Fault β) :
    (Except.error e >>= next) = .error e := rfl

@[simp] theorem pure_eq_ok (a : α) : (pure a : Except Fault α) = .ok a := rfl

end Stateless

section Stateful

variable {σ α β : Type}

@[simp] theorem bind_apply (program : EStateM Fault σ α) (next : α → EStateM Fault σ β) (s : σ) :
    (program >>= next) s =
      match program s with
      | .ok a s => next a s
      | .error e s => .error e s := by
  change EStateM.bind program next s = _
  unfold EStateM.bind
  cases program s <;> rfl

@[simp] theorem map_apply (f : α → β) (program : EStateM Fault σ α) (s : σ) :
    (f <$> program) s =
      match program s with
      | .ok a s => .ok (f a) s
      | .error e s => .error e s := by
  change EStateM.map f program s = _
  unfold EStateM.map
  cases program s <;> rfl

@[simp] theorem pure_apply (a : α) (s : σ) : (pure a : EStateM Fault σ α) s = .ok a s := rfl

@[simp] theorem get_apply (s : σ) : (get : EStateM Fault σ σ) s = .ok s s := rfl

@[simp] theorem set_apply (s t : σ) : (set t : EStateM Fault σ PUnit) s = .ok ⟨⟩ t := rfl

@[simp] theorem modify_apply (f : σ → σ) (s : σ) :
    (modify f : EStateM Fault σ PUnit) s = .ok ⟨⟩ (f s) := rfl

@[simp] theorem throw_apply (e : Fault) (s : σ) :
    (throw e : EStateM Fault σ α) s = .error e s := rfl

/-- A stateless computation run in the current state. -/
def lift : Except Fault α → EStateM Fault σ α
  | .ok a => pure a
  | .error e => throw e

@[simp] theorem lift_ok (a : α) (s : σ) : (lift (.ok a) : EStateM Fault σ α) s = .ok a s := rfl

@[simp] theorem lift_error (e : Fault) (s : σ) :
    (lift (.error e) : EStateM Fault σ α) s = .error e s := rfl

/-- The state in which a program stopped, whether it returned or not. -/
def stateOf : EStateM.Result Fault σ α → σ
  | .ok _ s => s
  | .error _ s => s

/-- A list of steps, each run from the state the previous one returned in. The first fault
ends the run. -/
def runAll {ι : Type} (step : ι → EStateM Fault σ PUnit) : List ι → EStateM Fault σ PUnit
  | [] => pure ⟨⟩
  | i :: rest => do
      step i
      runAll step rest

variable {ι : Type} {step : ι → EStateM Fault σ PUnit}

/-- What every step that returns keeps holds after a run that returns, and what a step that
faults leaves from there holds where a run faults. -/
theorem runAll_induction {Inv AtFault : σ → Prop}
    (hok : ∀ i s t, Inv s → step i s = .ok ⟨⟩ t → Inv t)
    (herror : ∀ i s e t, Inv s → step i s = .error e t → AtFault t) (inputs : List ι) (s : σ)
    (hs : Inv s) :
    (∃ t, runAll step inputs s = .ok ⟨⟩ t ∧ Inv t) ∨
      ∃ e t, runAll step inputs s = .error e t ∧ AtFault t := by
  induction inputs generalizing s with
  | nil => exact .inl ⟨s, rfl, hs⟩
  | cons i rest ih =>
      simp only [runAll, bind_apply]
      cases hresult : step i s with
      | ok a t => exact ih t (hok i s t hs hresult)
      | error e t => exact .inr ⟨e, t, rfl, herror i s e t hs hresult⟩

theorem runAll_cons_ok (step : ι → EStateM Fault σ PUnit) {i : ι} {s t : σ}
    (hstep : step i s = .ok ⟨⟩ t) (rest : List ι) :
    runAll step (i :: rest) s = runAll step rest t := by
  rw [runAll, bind_apply, hstep]

theorem runAll_cons_error (step : ι → EStateM Fault σ PUnit) {i : ι} {s t : σ} {e : Fault}
    (hstep : step i s = .error e t) (rest : List ι) :
    runAll step (i :: rest) s = .error e t := by
  rw [runAll, bind_apply, hstep]

/-- A fault of a run is the fault of one of its steps, from a state that the steps before it led
to. -/
theorem exists_of_runAll_error {Inv : σ → Prop}
    (hok : ∀ i s t, Inv s → step i s = .ok ⟨⟩ t → Inv t) {inputs : List ι} {s t : σ} {e : Fault}
    (hs : Inv s) (hrun : runAll step inputs s = .error e t) :
    ∃ i ∈ inputs, ∃ s', Inv s' ∧ step i s' = .error e t := by
  induction inputs generalizing s with
  | nil => cases hrun
  | cons i rest ih =>
      cases hstep : step i s with
      | error e' t' =>
          rw [runAll_cons_error step hstep] at hrun
          cases hrun
          exact ⟨i, List.mem_cons_self, s, hs, hstep⟩
      | ok a t' =>
          rw [runAll_cons_ok step hstep] at hrun
          obtain ⟨j, hj, s', hs', hfault⟩ := ih (hok i s t' hs hstep) hrun
          exact ⟨j, List.mem_cons_of_mem i hj, s', hs', hfault⟩

end Stateful

/-! ## What a program maintains -/

section Maintains

variable {σ α β π : Type} {Inv : σ → Prop} {part : σ → π}

/-- What holds when the program begins holds when it stops, whether it returned or not. -/
def Maintains (Inv : σ → Prop) (program : EStateM Fault σ α) : Prop :=
  ∀ s, Inv s → Inv (stateOf (program s))

/-- A part of the state is the same when the program stops. -/
def Preserves (part : σ → π) (program : EStateM Fault σ α) : Prop :=
  ∀ s, part (stateOf (program s)) = part s

namespace Maintains

theorem pure (a : α) : Maintains Inv (pure a : EStateM Fault σ α) := fun _ hs => hs

theorem throw (e : Fault) : Maintains Inv (throw e : EStateM Fault σ α) := fun _ hs => hs

theorem get : Maintains Inv (get : EStateM Fault σ σ) := fun _ hs => hs

theorem modify {f : σ → σ} (hf : ∀ s, Inv s → Inv (f s)) :
    Maintains Inv (modify f : EStateM Fault σ PUnit) := hf

theorem lift (x : Except Fault α) : Maintains Inv (lift x : EStateM Fault σ α) := by
  intro s hs
  cases x <;> exact hs

theorem bind {program : EStateM Fault σ α} {next : α → EStateM Fault σ β}
    (hprogram : Maintains Inv program) (hnext : ∀ a, Maintains Inv (next a)) :
    Maintains Inv (program >>= next) := by
  intro s hs
  have ht := hprogram s hs
  rw [bind_apply]
  cases hrun : program s with
  | error e t => rwa [hrun] at ht
  | ok a t =>
      rw [hrun] at ht
      exact hnext a t ht

theorem ite {c : Prop} [Decidable c] {first second : EStateM Fault σ α}
    (hfirst : Maintains Inv first) (hsecond : Maintains Inv second) :
    Maintains Inv (if c then first else second) := by
  split
  next => exact hfirst
  next => exact hsecond

/-- A program that depends on the state it begins in. -/
theorem of_get {next : σ → EStateM Fault σ β} (hnext : ∀ s, Inv s → Inv (stateOf (next s s))) :
    Maintains Inv (MonadState.get >>= next) := hnext

theorem of_ok {program : EStateM Fault σ α} (hprogram : Maintains Inv program) {s t : σ} {a : α}
    (hrun : program s = .ok a t) (hs : Inv s) : Inv t := by
  have ht := hprogram s hs
  rwa [hrun] at ht

theorem runAll {ι : Type} {step : ι → EStateM Fault σ PUnit}
    (hstep : ∀ i, Maintains Inv (step i)) (inputs : List ι) :
    Maintains Inv (runAll step inputs) := by
  induction inputs with
  | nil => exact .pure _
  | cons i rest ih => exact .bind (hstep i) fun _ => ih

end Maintains

theorem Preserves.maintains {program : EStateM Fault σ α} (hprogram : Preserves part program)
    (holds : π → Prop) : Maintains (fun s => holds (part s)) program := by
  intro s hs
  rw [hprogram s]
  exact hs

end Maintains

/-! ## The faults of a program -/

section Raises

variable {σ α β : Type} {allowed : Fault → Prop}

/-- A program stops with no fault but the allowed ones. -/
def Raises (allowed : Fault → Prop) (program : EStateM Fault σ α) : Prop :=
  ∀ s e t, program s = .error e t → allowed e

namespace Raises

theorem pure (a : α) : Raises allowed (pure a : EStateM Fault σ α) :=
  fun _ _ _ herror => by cases herror

theorem modify (f : σ → σ) : Raises allowed (modify f : EStateM Fault σ PUnit) :=
  fun _ _ _ herror => by cases herror

theorem lift {x : Except Fault α} (hx : ∀ e, x = .error e → allowed e) :
    Raises allowed (lift x : EStateM Fault σ α) := by
  intro s e t herror
  cases x with
  | ok a => cases herror
  | error e' =>
      cases herror
      exact hx e rfl

theorem bind {program : EStateM Fault σ α} {next : α → EStateM Fault σ β}
    (hprogram : Raises allowed program) (hnext : ∀ a, Raises allowed (next a)) :
    Raises allowed (program >>= next) := by
  intro s e t herror
  rw [bind_apply] at herror
  cases hrun : program s with
  | error e' t' =>
      rw [hrun] at herror
      cases herror
      exact hprogram s e t hrun
  | ok a t' =>
      rw [hrun] at herror
      exact hnext a t' e t herror

end Raises

end Raises

end Blogd
