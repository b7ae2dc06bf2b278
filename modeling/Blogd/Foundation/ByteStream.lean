import Blogd.Foundation.Bytes
import Blogd.Foundation.Ensures

/-! # Programs over byte streams

A text moves a stream on: to the stream with the text written, or to the stream with the text
read. A program over a stream gives up, or returns a value and the stream that some text moves it
to. The rules say which text, from the texts of the parts of the program.
-/

namespace Blogd

/-- A stream, and what a text moves it to, if there is room for the text, or if it comes next. -/
class ByteStream (σ : Type) where
  behind : σ → Bytes → Option σ
  behind_nil : ∀ s, behind s [] = some s
  behind_append : ∀ s x y, behind s (x ++ y) = (behind s x).bind fun t => behind t y

export ByteStream (behind behind_nil behind_append)

/-- A program over a stream. It gives up where it returns nothing. -/
def StreamM (σ α : Type) : Type := σ → Except Fault (Option (α × σ))

namespace StreamM

variable {σ α β : Type}

instance : Monad (StreamM σ) where
  pure a s := .ok (some (a, s))
  bind m f s := m s >>= fun r => r.elim (.ok none) fun p => f p.1 p.2

def giveUp : StreamM σ α := fun _ => .ok none

def fault (e : Fault) : StreamM σ α := fun _ => .error e

/-- A program that does not touch the stream. -/
def aside (program : Except Fault α) : StreamM σ α :=
  fun s => program >>= fun a => .ok (some (a, s))

/-- The stream as it is. -/
def look : StreamM σ σ := fun s => .ok (some (s, s))

theorem bind_apply (m : StreamM σ α) (f : α → StreamM σ β) (s : σ) :
    (m >>= f) s = m s >>= fun r => r.elim (.ok none) fun p => f p.1 p.2 := rfl

theorem bind_apply_of_eq_some {m : StreamM σ α} {f : α → StreamM σ β} {s t : σ} {a : α}
    (h : m s = .ok (some (a, t))) : (m >>= f) s = f a t := by
  rw [bind_apply, h]
  rfl

/-- A program that comes to an end has parts that do. -/
theorem bind_eq_some {m : StreamM σ α} {f : α → StreamM σ β} {s u : σ} {b : β} :
    (m >>= f) s = .ok (some (b, u)) ↔
      ∃ a t, m s = .ok (some (a, t)) ∧ f a t = .ok (some (b, u)) := by
  rw [bind_apply, bind_eq_ok]
  constructor
  · rintro ⟨_ | ⟨a, t⟩, hm, hf⟩
    · cases hf
    · exact ⟨a, t, hm, hf⟩
  · rintro ⟨a, t, hm, hf⟩
    exact ⟨_, hm, hf⟩

variable [ByteStream σ]

/-! ## Writing -/

/-- The program writes some text of the postcondition, unless there is no room for it. -/
def Emits (m : StreamM σ α) (post : α → Bytes → Prop) : Prop :=
  ∀ s, ∃ a text, post a text ∧ m s = .ok ((behind s text).map fun t => (a, t))

variable {m : StreamM σ α} {f : α → StreamM σ β} {post : α → Bytes → Prop}
  {after : β → Bytes → Prop}

theorem Emits.pure {a : α} (h : post a []) : Emits (pure a : StreamM σ α) post := by
  intro s
  refine ⟨a, [], h, ?_⟩
  rw [behind_nil]
  rfl

theorem Emits.bind (hm : Emits m post)
    (hf : ∀ a x, post a x → Emits (f a) fun b y => after b (x ++ y)) :
    Emits (m >>= f) after := by
  intro s
  obtain ⟨a, x, hx, hrun⟩ := hm s
  cases hs : behind s x with
  | none =>
      obtain ⟨b, y, hy, -⟩ := hf a x hx s
      refine ⟨b, x ++ y, hy, ?_⟩
      rw [bind_apply, hrun, behind_append, hs]
      rfl
  | some t =>
      obtain ⟨b, y, hy, hnext⟩ := hf a x hx t
      refine ⟨b, x ++ y, hy, ?_⟩
      rw [behind_append, hs, Option.bind_some, ← hnext]
      apply bind_apply_of_eq_some
      rw [hrun, hs]
      rfl

theorem Emits.mono {weaker : α → Bytes → Prop} (hm : Emits m post)
    (h : ∀ a x, post a x → weaker a x) : Emits m weaker := by
  intro s
  obtain ⟨a, x, hx, hrun⟩ := hm s
  exact ⟨a, x, h a x hx, hrun⟩

theorem Emits.aside_bind {program : Except Fault α} {g : α → Prop}
    (hprogram : Ensures noFault g program) (hf : ∀ a, g a → Emits (f a) after) :
    Emits (aside program >>= f) after := by
  obtain ⟨a, hrun, ha⟩ := hprogram.exists_ok
  rw [hrun]
  exact hf a ha

theorem Emits.look_bind {f : σ → StreamM σ β} (hf : ∀ s, Emits (f s) after) :
    Emits (look >>= f) after :=
  fun s => hf s s

/-! ## Reading -/

/-- The program reads the text as the value, whatever comes behind it. -/
def Reads (m : StreamM σ α) (text : Bytes) (a : α) : Prop :=
  ∀ s t, behind s text = some t → m s = .ok (some (a, t))

theorem Reads.pure (a : α) : Reads (pure a : StreamM σ α) [] a := by
  intro s t h
  rw [behind_nil] at h
  cases h
  rfl

theorem Reads.bind {x y : Bytes} {a : α} {b : β} (hm : Reads m x a) (hf : Reads (f a) y b) :
    Reads (m >>= f) (x ++ y) b := by
  intro s u h
  rw [behind_append] at h
  obtain ⟨t, hx, hy⟩ := Option.bind_eq_some_iff.mp h
  rw [bind_apply_of_eq_some (hm s t hx)]
  exact hf t u hy

/-- The rest of the program does not touch the stream. -/
theorem Reads.bind_nil {x : Bytes} {a : α} {b : β} (hm : Reads m x a) (hf : Reads (f a) [] b) :
    Reads (m >>= f) x b := by
  have h := hm.bind hf
  rwa [List.append_nil] at h

/-! ## Programs that only use the stream through given ones -/

/-- Built from the primitives, without any other look at the stream. -/
inductive Sequential (primitive : ∀ α : Type, StreamM σ α → Prop) :
    ∀ {α : Type}, StreamM σ α → Prop
  | single {α : Type} {m : StreamM σ α} (hm : primitive α m) : Sequential primitive m
  | pure {α : Type} (a : α) : Sequential primitive (Pure.pure a)
  | giveUp {α : Type} : Sequential primitive (giveUp : StreamM σ α)
  | fault {α : Type} (e : Fault) : Sequential primitive (fault e : StreamM σ α)
  | aside {α : Type} (program : Except Fault α) : Sequential primitive (aside program)
  | bind {α β : Type} {m : StreamM σ α} {f : α → StreamM σ β} (hm : Sequential primitive m)
      (hf : ∀ a, Sequential primitive (f a)) : Sequential primitive (m >>= f)

omit [ByteStream σ] in
theorem Sequential.ite {primitive : ∀ α : Type, StreamM σ α → Prop} {c : Prop} [Decidable c]
    {first second : StreamM σ α} (hfirst : Sequential primitive first)
    (hsecond : Sequential primitive second) :
    Sequential primitive (if c then first else second) := by
  split
  · exact hfirst
  · exact hsecond

/-- Where the program comes to an end, it has read some text. -/
def Consumes (m : StreamM σ α) : Prop :=
  ∀ s a t, m s = .ok (some (a, t)) → ∃ text, behind s text = some t

theorem Sequential.consumes {primitive : ∀ α : Type, StreamM σ α → Prop}
    (hprimitive : ∀ {α : Type} {m : StreamM σ α}, primitive α m → Consumes m)
    (hm : Sequential primitive m) : Consumes m := by
  induction hm with
  | single h => exact hprimitive h
  | pure a =>
      intro s b t h
      cases h
      exact ⟨[], behind_nil s⟩
  | giveUp =>
      intro s b t h
      cases h
  | fault e =>
      intro s b t h
      cases h
  | aside program =>
      intro s b t h
      obtain ⟨a, -, h⟩ := bind_eq_ok.mp h
      cases h
      exact ⟨[], behind_nil s⟩
  | bind _ _ ihm ihf =>
      intro s b u h
      obtain ⟨a, t, hrun, hnext⟩ := bind_eq_some.mp h
      obtain ⟨x, hx⟩ := ihm s a t hrun
      obtain ⟨y, hy⟩ := ihf a t b u hnext
      refine ⟨x ++ y, ?_⟩
      rw [behind_append, hx, Option.bind_some, hy]

/-- Unless it gives up, the program does on a stream that is extended what it does without. -/
def Steady (extend : σ → σ) (m : StreamM σ α) : Prop :=
  ∀ s, m s = .ok none ∨ m (extend s) = (m s).map (Option.map fun p => (p.1, extend p.2))

omit [ByteStream σ] in
theorem Sequential.steady {primitive : ∀ α : Type, StreamM σ α → Prop} {extend : σ → σ}
    (hprimitive : ∀ {α : Type} {m : StreamM σ α}, primitive α m → Steady extend m)
    (hm : Sequential primitive m) : Steady extend m := by
  induction hm with
  | single h => exact hprimitive h
  | pure a => exact fun s => .inr rfl
  | giveUp => exact fun s => .inl rfl
  | fault e => exact fun s => .inr rfl
  | aside program =>
      intro s
      cases program with
      | error e => exact .inr rfl
      | ok a => exact .inr rfl
  | @bind α β m f _ _ ihm ihf =>
      intro s
      rcases ihm s with hnone | hm
      · left
        rw [bind_apply, hnone]
        rfl
      · rw [bind_apply, bind_apply, hm]
        cases m s with
        | error e => exact .inr rfl
        | ok r =>
            cases r with
            | none => exact .inl rfl
            | some p => exact ihf p.1 p.2

end StreamM

end Blogd
