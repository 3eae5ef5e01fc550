import Mathlib.Logic.Function.Basic
import TokenProxy.Lib.Run

/-!
# Interleaved programs

Parties run sequential programs over one shared state. A program is a finite tree of atomic
operations; the operations of different parties interleave freely, a party may stop at any point,
and the environment decides what an operation answers where the shared state does not. The
computation between two operations belongs to the first of them, so a call that returns is delivered
in the step of its last operation.

Reasoning is rely-guarantee. A `Protocol` says what a step of each party guarantees (`Guar`) and
what every state meets (`Inv`). Between two of its own operations a party knows an assertion that is
`Stable`: no step of another party, nor its stopping, can falsify it.

* `wp`: what a program needs now so that all its steps are within the protocol;
* `wp_bind`, `wp_mono`: the rules for sequencing and consequence;
* `Sound.run_safe`: if every program meets its `wp`, the protocol holds in every interleaving.
-/

namespace TokenProxy.Lib

/-- A sequential program over the atomic operations `ω`; the operation
`o` is answered by an `ans o`. -/
inductive Prog (ω : Type) (ans : ω → Type) (α : Type) where
  | ret (a : α)
  | call (o : ω) (k : ans o → Prog ω ans α)

variable {ω : Type} {ans : ω → Type} {ε α β : Type}

def Prog.bind : Prog ω ans α → (α → Prog ω ans β) → Prog ω ans β
  | .ret a, f => f a
  | .call o k, f => .call o fun r => (k r).bind f

def Fallible (ω : Type) (ans : ω → Type) (ε α : Type) := Prog ω ans (Except ε α)

namespace Fallible

/-- What follows a call: the rest after a value, nothing after an error. -/
def andThen (f : α → Fallible ω ans ε β) : Except ε α → Prog ω ans (Except ε β)
  | .ok a => f a
  | .error e => .ret (.error e)

instance : Monad (Fallible ω ans ε) where
  pure a := Prog.ret (.ok a)
  bind x f := Prog.bind x (andThen f)

def perform (o : ω) : Fallible ω ans ε (ans o) := Prog.call o fun r => .ret (.ok r)

def throw (e : ε) : Fallible ω ans ε α := Prog.ret (.error e)

def ofExcept (r : Except ε α) : Fallible ω ans ε α := Prog.ret r

/-- Run `x` and hand over how it ended. -/
def attempt (x : Fallible ω ans ε α) : Fallible ω ans ε (Except ε α) := Prog.bind x fun r => .ret (.ok r)

/-- `try x finally cleanup`. -/
def withFinally (x : Fallible ω ans ε α) (cleanup : Fallible ω ans ε Unit) : Fallible ω ans ε α := do
  let r ← attempt x
  cleanup
  ofExcept r

end Fallible

/-- Parties `π` that run the calls `κ` over a shared state `σ`; `η` is
what the environment decides. -/
structure Machine (π κ ω η σ : Type) (ans : ω → Type) (α : Type) where
  /-- the program of a call, made in the state the call starts from -/
  code : π → κ → σ → Prog ω ans α
  exec : π → (o : ω) → η → σ → ans o × σ
  /-- what a call that returned leaves in the state -/
  deliver : π → κ → α → σ → σ
  stop : π → σ → σ
  stopped : σ → π → Bool

variable {π κ η σ : Type}

structure World (π κ ω σ : Type) (ans : ω → Type) (α : Type) where
  shared : σ
  running : π → Option (κ × Prog ω ans α)

inductive Event (π κ η : Type) where
  | start (p : π) (c : κ)
  | step (p : π) (e : η)
  | crash (p : π)

namespace Machine

variable [DecidableEq π] (m : Machine π κ ω η σ ans α)

/-- The world after `p` computed up to its next operation, or to the end of its call. -/
def advance (w : World π κ ω σ ans α) (p : π) (c : κ) : Prog ω ans α → σ → World π κ ω σ ans α
  | .ret a, s => { shared := m.deliver p c a s, running := Function.update w.running p none }
  | .call o k, s => { shared := s, running := Function.update w.running p (some (c, .call o k)) }

def launch (w : World π κ ω σ ans α) (p : π) (c : κ) : World π κ ω σ ans α :=
  match m.stopped w.shared p, w.running p with
  | false, none => m.advance w p c (m.code p c w.shared) w.shared
  | _, _ => w

def perform (w : World π κ ω σ ans α) (p : π) (e : η) : World π κ ω σ ans α :=
  match w.running p with
  | some (c, .call o k) => m.advance w p c (k (m.exec p o e w.shared).1) (m.exec p o e w.shared).2
  | _ => w

def next (w : World π κ ω σ ans α) : Event π κ η → World π κ ω σ ans α
  | .start p c => m.launch w p c
  | .step p e => m.perform w p e
  | .crash p => { shared := m.stop p w.shared, running := Function.update w.running p none }

end Machine

/-- What the parties of a machine may assume and what they promise. -/
structure Protocol (m : Machine π κ ω η σ ans α) where
  /-- what the environment may answer -/
  Honest : π → (o : ω) → η → σ → Prop
  Inv : σ → Prop
  Guar : π → σ → σ → Prop

namespace Protocol

variable {m : Machine π κ ω η σ ans α} (P : Protocol m)

/-- What may happen to the state between two operations of `p`. -/
def Interferes (p : π) (s s' : σ) : Prop :=
  ∃ q, q ≠ p ∧ (P.Guar q s s' ∨ s' = m.stop q s)

/-- Nothing that happens between two operations of `p` falsifies `A`. -/
def Stable (p : π) (A : σ → Prop) : Prop :=
  ∀ s s', P.Inv s → P.Inv s' → m.stopped s p = false → P.Interferes p s s' → A s → A s'

/-- Started in `s`, in the middle of a step that began in `s₀`, the program keeps to the protocol
and ends with `Q` of its result, of the state its last step began in and of the state it ends in. -/
def wp (p : π) : Prog ω ans β → (β → σ → σ → Prop) → σ → σ → Prop
  | .ret a, Q, s₀, s => Q a s₀ s
  | .call o k, Q, s₀, s =>
    (P.Inv s ∧ P.Guar p s₀ s) ∧ ∃ A, P.Stable p A ∧ A s ∧
      ∀ s₁ e, P.Inv s₁ → m.stopped s₁ p = false → P.Honest p o e s₁ → A s₁ →
        wp p (k (m.exec p o e s₁).1) Q s₁ (m.exec p o e s₁).2

variable {P} {p : π} {s₀ s : σ}

theorem Stable.and {A B : σ → Prop} (hA : P.Stable p A)
    (hB : P.Stable p B) : P.Stable p fun s => A s ∧ B s :=
  fun s s' hi hi' hs hr h => ⟨hA s s' hi hi' hs hr h.1, hB s s' hi hi' hs hr h.2⟩

theorem wp_mono {x : Prog ω ans β} {Q Q' : β → σ → σ → Prop} (hQ : ∀ a s₀ s, Q a s₀ s → Q' a s₀ s)
    (h : P.wp p x Q s₀ s) : P.wp p x Q' s₀ s := by
  induction x generalizing s₀ s with
  | ret a => exact hQ a s₀ s h
  | call o k ih =>
    obtain ⟨hstep, A, hstable, hA, hk⟩ := h
    exact ⟨hstep, A, hstable, hA, fun s₁ e hi hs he hA₁ => ih _ (hk s₁ e hi hs he hA₁)⟩

theorem wp_bind {γ : Type} (x : Prog ω ans β) (f : β → Prog ω ans γ) (Q : γ → σ → σ → Prop) :
    P.wp p (x.bind f) Q s₀ s ↔ P.wp p x (fun a => P.wp p (f a) Q) s₀ s := by
  induction x generalizing s₀ s with
  | ret a => rfl
  | call o k ih =>
    constructor
    · rintro ⟨hstep, A, hstable, hA, hk⟩
      exact ⟨hstep, A, hstable, hA, fun s₁ e hi hs he hA₁ => (ih _).mp (hk s₁ e hi hs he hA₁)⟩
    · rintro ⟨hstep, A, hstable, hA, hk⟩
      exact ⟨hstep, A, hstable, hA, fun s₁ e hi hs he hA₁ => (ih _).mpr (hk s₁ e hi hs he hA₁)⟩

theorem wp_ite {b : Prop} [Decidable b] {x y : Prog ω ans β} {Q : β → σ → σ → Prop}
    (hx : b → P.wp p x Q s₀ s)
    (hy : ¬ b → P.wp p y Q s₀ s) : P.wp p (if b then x else y) Q s₀ s := by
  by_cases hb : b
  · rw [if_pos hb]
    exact hx hb
  · rw [if_neg hb]
    exact hy hb

/-- **Sequencing**, for programs that may throw. -/
theorem wp_seq {γ : Type} {x : Fallible ω ans ε β} {f : β → Fallible ω ans ε γ}
    {Q : Except ε γ → σ → σ → Prop}
    (h : P.wp p x (fun r s₀ s => P.wp p (Fallible.andThen f r) Q s₀ s) s₀ s) :
    P.wp p (x >>= f : Fallible ω ans ε γ) Q s₀ s :=
  (wp_bind x _ Q).mpr h

theorem wp_attempt {x : Fallible ω ans ε β} {Q : Except ε (Except ε β) → σ → σ → Prop}
    (h : P.wp p x (fun r => Q (.ok r)) s₀ s) : P.wp p (Fallible.attempt x) Q s₀ s :=
  (wp_bind x _ Q).mpr h

/-- **One operation**: name what is known while it waits, and use it when it runs. -/
theorem wp_perform {o : ω} {Q : Except ε (ans o) → σ → σ → Prop} (A : σ → Prop) (hinv : P.Inv s)
    (hguar : P.Guar p s₀ s) (hstable : P.Stable p A) (hA : A s)
    (h : ∀ s₁ e, P.Inv s₁ → m.stopped s₁ p = false → P.Honest p o e s₁ → A s₁ →
      Q (.ok (m.exec p o e s₁).1) s₁ (m.exec p o e s₁).2) :
    P.wp p (Fallible.perform (ε := ε) o) Q s₀ s :=
  ⟨⟨hinv, hguar⟩, A, hstable, hA, h⟩

/-! ### From calls to interleavings -/

section sound

variable (P)

def Post (p : π) (c : κ) (a : α) (s₀ s : σ) : Prop :=
  P.Inv (m.deliver p c a s) ∧ P.Guar p s₀ (m.deliver p c a s)

structure Sound : Prop where
  code : ∀ p c s, P.Inv s → m.stopped s p = false → P.wp p (m.code p c s) (P.Post p c) s s
  stop : ∀ p s, P.Inv s → P.Inv (m.stop p s)
  stopped_stop : ∀ p q s, m.stopped (m.stop p s) q = false ↔ q ≠ p ∧ m.stopped s q = false
  stopped_guar : ∀ p q s s', P.Guar p s s' → m.stopped s' q = m.stopped s q

/-- The rest of a call in progress, between two of its operations. -/
def Waits (p : π) (c : κ) (s : σ) : Prog ω ans α → Prop
  | .ret _ => False
  | .call o k => ∃ A, P.Stable p A ∧ A s ∧ ∀ s₁ e, P.Inv s₁ → m.stopped s₁ p = false → P.Honest p o e s₁ → A s₁ →
      P.wp p (k (m.exec p o e s₁).1) (P.Post p c) s₁ (m.exec p o e s₁).2

structure Safe (w : World π κ ω σ ans α) : Prop where
  inv : P.Inv w.shared
  waits : ∀ p c x, w.running p = some (c, x) → m.stopped w.shared p = false ∧ P.Waits p c w.shared x

def Admissible (w : World π κ ω σ ans α) : Event π κ η → Prop
  | .step p e => ∀ c o k, w.running p = some (c, .call o k) → P.Honest p o e w.shared
  | _ => True

variable {P} {w : World π κ ω σ ans α}

theorem Waits.interferes {c : κ} {s s' : σ} {x : Prog ω ans α} (h : P.Waits p c s x) (hi : P.Inv s)
    (hi' : P.Inv s')
    (hs : m.stopped s p = false) (hr : P.Interferes p s s') : P.Waits p c s' x := by
  cases x with
  | ret a => exact h
  | call o k =>
    obtain ⟨A, hstable, hA, hk⟩ := h
    exact ⟨A, hstable, hstable s s' hi hi' hs hr hA, hk⟩

variable [DecidableEq π]

theorem Safe.advance (hsound : P.Sound) (h : P.Safe w) {c : κ} {x : Prog ω ans α}
    (hp : m.stopped w.shared p = false) (hx : P.wp p x (P.Post p c) w.shared s) :
    P.Safe (m.advance w p c x s) ∧ P.Guar p w.shared (m.advance w p c x s).shared := by
  have hothers : ∀ s', P.Inv s' → P.Guar p w.shared s' → ∀ q c' y, q ≠ p → w.running q = some (c', y) →
      m.stopped s' q = false ∧ P.Waits q c' s' y := by
    intro s' hi' hg q c' y hq hy
    obtain ⟨hrun, hwaits⟩ := h.waits q c' y hy
    exact ⟨(hsound.stopped_guar p q _ _ hg).trans hrun,
      hwaits.interferes h.inv hi' hrun ⟨p, Ne.symm hq, Or.inl hg⟩⟩
  cases x with
  | ret a =>
    obtain ⟨hi', hg⟩ := hx
    refine ⟨⟨hi', fun q c' y hy => ?_⟩, hg⟩
    by_cases hq : q = p
    · subst hq
      simp [Machine.advance] at hy
    · simp only [Machine.advance, Function.update_of_ne hq] at hy
      exact hothers _ hi' hg q c' y hq hy
  | call o k =>
    obtain ⟨⟨hi', hg⟩, hwait⟩ := hx
    refine ⟨⟨hi', fun q c' y hy => ?_⟩, hg⟩
    by_cases hq : q = p
    · subst hq
      simp only [Machine.advance, Function.update_self, Option.some.injEq, Prod.mk.injEq] at hy
      obtain ⟨rfl, rfl⟩ := hy
      exact ⟨(hsound.stopped_guar q q _ _ hg).trans hp, hwait⟩
    · simp only [Machine.advance, Function.update_of_ne hq] at hy
      exact hothers _ hi' hg q c' y hq hy

theorem Safe.next (hsound : P.Sound) (h : P.Safe w) (ev : Event π κ η) (hev : P.Admissible w ev) :
    P.Safe (m.next w ev) := by
  cases ev with
  | start p c =>
    change P.Safe (m.launch w p c)
    unfold Machine.launch
    split
    · rename_i hp _
      exact (h.advance hsound hp (hsound.code p c _ h.inv hp)).1
    · exact h
  | step p e =>
    change P.Safe (m.perform w p e)
    unfold Machine.perform
    split
    · rename_i c o k hrun
      obtain ⟨hp, A, -, hA, hk⟩ := h.waits p c _ hrun
      exact (h.advance hsound hp (hk _ e h.inv hp (hev c o k hrun) hA)).1
    · exact h
  | crash p =>
    have hi' := hsound.stop p _ h.inv
    refine ⟨hi', fun q c y hy => ?_⟩
    by_cases hq : q = p
    · subst hq
      simp [Machine.next] at hy
    · simp only [Machine.next, Function.update_of_ne hq] at hy
      obtain ⟨hrun, hwaits⟩ := h.waits q c y hy
      exact ⟨(hsound.stopped_stop p q _).mpr ⟨hq, hrun⟩, hwaits.interferes h.inv hi' hrun ⟨p, Ne.symm hq, Or.inr rfl⟩⟩

/-- **Each step of a party is one that it guarantees.** -/
theorem Safe.step_guar (hsound : P.Sound) (h : P.Safe w) {e : η}
    (hev : P.Admissible w (.step p e)) :
    m.next w (.step p e) = w ∨ P.Guar p w.shared (m.next w (.step p e)).shared := by
  change m.perform w p e = w ∨ P.Guar p w.shared (m.perform w p e).shared
  unfold Machine.perform
  split
  · rename_i c o k hrun
    obtain ⟨hp, A, -, hA, hk⟩ := h.waits p c _ hrun
    exact Or.inr (h.advance hsound hp (hk _ e h.inv hp (hev c o k hrun) hA)).2
  · exact Or.inl rfl

/-- **Soundness**: the protocol holds throughout every interleaving in
which the environment is honest. -/
theorem Sound.run_safe (hsound : P.Sound) {events : List (Event π κ η)} (h : P.Safe w)
    (hev : Meets m.next P.Admissible w events) : P.Safe (run m.next w events) :=
  run_inv_of_meets (fun _ ev ha hs => hs.next hsound ev ha) hev h

end sound

end Protocol

end TokenProxy.Lib
