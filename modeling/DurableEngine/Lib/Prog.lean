/-
  DurableEngine.Lib.Prog

  Client programs that talk to a shared store one atomic call at a time, and
  a rely/guarantee logic for them.

  A program is either finished or waits for the reply of one call (`call op k`).
  Between two calls of a program the other clients may change the store in
  any way the `rely` relation of a `World` allows, and every call of the
  program itself stays within `rely` too.  `Safe` says that each call the
  program makes is acceptable (`ok`) in the state in which it is executed;
  its rules follow the structure of programs, and `Safe.mono` carries it over
  the steps of the other clients.
-/

import DurableEngine.Lib.Tx

namespace DurableEngine.Lib

universe u

/-- A program over the calls `Op`: `Op β` is a call whose reply has type `β`. -/
inductive Prog (Op : Type → Type u) (α : Type) : Type (max 1 u) where
  | done (a : α) : Prog Op α
  | call {β : Type} (op : Op β) (k : β → Prog Op α) : Prog Op α

namespace Prog

variable {Op : Type → Type u} {α β γ : Type}

/-- Run `p`, then `f` on its result. -/
def bind : Prog Op α → (α → Prog Op β) → Prog Op β
  | .done a, f => f a
  | .call op k, f => .call op (fun b => (k b).bind f)

instance : Monad (Prog Op) where
  pure := .done
  bind := bind

theorem bind_done (p : Prog Op α) : (p >>= .done) = p := by
  induction p with
  | done a => rfl
  | call op k ih => exact congrArg (Prog.call op) (funext ih)

/-- The program that makes one call and returns its reply. -/
def ofCall (op : Op β) : Prog Op β := .call op .done

/-- Run the program to its end without interference; `exec n` executes the `n`-th call. -/
def eval {σ : Type} (exec : Nat → ∀ {β : Type}, Op β → σ → β × σ) :
    Prog Op α → Nat → σ → α × Nat × σ
  | .done a, n, s => (a, n, s)
  | .call op k, n, s => (k (exec n op s).1).eval exec (n + 1) (exec n op s).2

/-- Some replies lead the program to a call that satisfies `P`. -/
def Calls (P : ∀ {β : Type}, Op β → Prop) : Prog Op α → Prop
  | .done _ => False
  | .call op k => P op ∨ ∃ b, (k b).Calls P

theorem Calls.of_bind {P : ∀ {β : Type}, Op β → Prop} {p : Prog Op α} {f : α → Prog Op β}
    (h : (p >>= f).Calls P) : p.Calls P ∨ ∃ a, (f a).Calls P := by
  induction p with
  | done a => exact .inr ⟨a, h⟩
  | call op k ih =>
      rcases h with hop | ⟨b, hb⟩
      · exact .inl (.inl hop)
      · rcases ih b hb with hk | hf
        · exact .inl (.inr ⟨b, hk⟩)
        · exact .inr hf

-- ============================================================================
-- Rely/guarantee safety
-- ============================================================================

/-- The setting of a program: what its calls do, what anybody may do between
    two calls, and which calls are acceptable in which state. -/
structure World (Op : Type → Type u) (σ : Type) where
  exec : ∀ {β : Type}, Op β → σ → β → σ → Prop
  rely : σ → σ → Prop
  ok : ∀ {β : Type}, Op β → σ → Prop
  refl : ∀ s, rely s s
  trans : ∀ {a b c}, rely a b → rely b c → rely a c
  rely_of_exec : ∀ {β : Type} {op : Op β} {s s' : σ} {b : β}, exec op s b s' → rely s s'

variable {σ : Type}

/-- From the state `s` on, every call of the program is `ok` where it is
    executed, and its result satisfies `Q`, whatever the other clients do
    within `rely`. -/
def Safe (W : World Op σ) : Prog Op α → σ → (α → σ → Prop) → Prop
  | .done a, s, Q => ∀ s', W.rely s s' → Q a s'
  | .call op k, s, Q => ∀ s', W.rely s s' →
      W.ok op s' ∧ ∀ b s'', W.exec op s' b s'' → Safe W (k b) s'' Q

variable {W : World Op σ}

/-- A step of the environment keeps a program safe. -/
theorem Safe.mono {p : Prog Op α} {s s' : σ} {Q : α → σ → Prop} (h : Safe W p s Q)
    (hr : W.rely s s') : Safe W p s' Q := by
  cases p with
  | done a => exact fun t ht => h t (W.trans hr ht)
  | call op k => exact fun t ht => h t (W.trans hr ht)

/-- The state in which a program ends is one that its start relies on. -/
theorem Safe.later {p : Prog Op α} {s₀ s : σ} {Q : α → σ → Prop} (h : Safe W p s Q)
    (hr : W.rely s₀ s) : Safe W p s (fun a s' => W.rely s₀ s' ∧ Q a s') := by
  induction p generalizing s with
  | done a => exact fun s' hs' => ⟨W.trans hr hs', h s' hs'⟩
  | call op k ih =>
      intro s' hs'
      obtain ⟨hok, hk⟩ := h s' hs'
      exact ⟨hok, fun b s'' hb =>
        ih b (hk b s'' hb) (W.trans (W.trans hr hs') (W.rely_of_exec hb))⟩

/-- A weaker postcondition. -/
theorem Safe.weaken {p : Prog Op α} {s : σ} {Q R : α → σ → Prop} (hp : Safe W p s Q)
    (h : ∀ a s', Q a s' → R a s') : Safe W p s R := by
  induction p generalizing s with
  | done a => exact fun s' hs' => h a s' (hp s' hs')
  | call op k ih =>
      intro s' hs'
      obtain ⟨hok, hk⟩ := hp s' hs'
      exact ⟨hok, fun b s'' hb => ih b (hk b s'' hb)⟩

/-- Sequencing: `f` may rely on what `p` establishes. -/
theorem Safe.bind {p : Prog Op α} {f : α → Prog Op β} {s : σ} {Q : α → σ → Prop}
    {R : β → σ → Prop} (hp : Safe W p s Q)
    (hf : ∀ a s', W.rely s s' → Q a s' → Safe W (f a) s' R) : Safe W (p >>= f) s R := by
  have hseq : ∀ {p : Prog Op α} {t : σ}, Safe W p t (fun a s' => W.rely s s' ∧ Q a s') →
      Safe W (p >>= f) t R := by
    intro p
    induction p with
    | done a =>
        intro t ht
        obtain ⟨hr, hq⟩ := ht t (W.refl t)
        exact hf a t hr hq
    | call op k ih =>
        intro t ht t' ht'
        obtain ⟨hok, hk⟩ := ht t' ht'
        exact ⟨hok, fun b s'' hb => ih b (hk b s'' hb)⟩
  exact hseq (hp.later (W.refl s))

theorem Safe.map {p : Prog Op α} (f : α → β) {s : σ} {Q : α → σ → Prop} (hp : Safe W p s Q) :
    Safe W (f <$> p) s (fun b s' => ∃ a, b = f a ∧ Q a s') := by
  induction p generalizing s with
  | done a => exact fun s' hs' => ⟨a, rfl, hp s' hs'⟩
  | call op k ih =>
      intro s' hs'
      obtain ⟨hok, hk⟩ := hp s' hs'
      exact ⟨hok, fun b s'' hb => ih b (hk b s'' hb)⟩

/-- One call. -/
theorem Safe.ofCall {op : Op β} {s : σ} {Q : β → σ → Prop}
    (hok : ∀ s', W.rely s s' → W.ok op s')
    (hq : ∀ s' b s'' t, W.rely s s' → W.exec op s' b s'' → W.rely s'' t → Q b t) :
    Safe W (Prog.ofCall op) s Q := by
  intro s' hs'
  exact ⟨hok s' hs', fun b s'' hb t ht => hq s' b s'' t hs' hb ht⟩

-- ============================================================================
-- Outcomes
-- ============================================================================

/-- The program, started in `s`, can end with `r` in `s'`, while the other
    clients do what `rely` allows. -/
def Ends (W : World Op σ) : Prog Op α → σ → α → σ → Prop
  | .done a, s, r, s' => r = a ∧ W.rely s s'
  | .call op k, s, r, s' => ∃ t b t', W.rely s t ∧ W.exec op t b t' ∧ Ends W (k b) t' r s'

/-- The other clients may act before the program starts. -/
theorem Ends.mono {p : Prog Op α} {s s₀ s' : σ} {r : α} (hr : W.rely s s₀) (h : Ends W p s₀ r s') :
    Ends W p s r s' := by
  cases p with
  | done a => exact ⟨h.1, W.trans hr h.2⟩
  | call op k =>
      obtain ⟨t, b, t', ht, hrest⟩ := h
      exact ⟨t, b, t', W.trans hr ht, hrest⟩

theorem Ends.rely {p : Prog Op α} {s s' : σ} {r : α} (h : Ends W p s r s') : W.rely s s' := by
  induction p generalizing s with
  | done a => exact h.2
  | call op k ih =>
      obtain ⟨t, b, t', ht, hexec, hrest⟩ := h
      exact W.trans ht (W.trans (W.rely_of_exec hexec) (ih b hrest))

/-- The outcomes of a sequence are those of its second part after the first. -/
theorem ends_bind_iff {p : Prog Op α} {f : α → Prog Op β} {s s' : σ} {r : β} :
    Ends W (p >>= f) s r s' ↔ ∃ a t, Ends W p s a t ∧ Ends W (f a) t r s' := by
  induction p generalizing s with
  | done a =>
      constructor
      · exact fun h => ⟨a, s, ⟨rfl, W.refl s⟩, h⟩
      · rintro ⟨_, t, ⟨rfl, ht⟩, hf⟩
        exact hf.mono ht
  | call op k ih =>
      constructor
      · rintro ⟨t, b, t', ht, hexec, hrest⟩
        obtain ⟨a, u, hk, hf⟩ := (ih b).mp hrest
        exact ⟨a, u, ⟨t, b, t', ht, hexec, hk⟩, hf⟩
      · rintro ⟨a, u, ⟨t, b, t', ht, hexec, hk⟩, hf⟩
        exact ⟨t, b, t', ht, hexec, (ih b).mpr ⟨a, u, hk, hf⟩⟩

/-- A program ends if its calls are answered. -/
theorem exists_ends (h : ∀ {β : Type} (op : Op β) (s : σ), ∃ b s', W.exec op s b s')
    (p : Prog Op α) (s : σ) : ∃ r s', Ends W p s r s' := by
  induction p generalizing s with
  | done a => exact ⟨a, s, rfl, W.refl s⟩
  | call op k ih =>
      obtain ⟨b, t, hexec⟩ := h op s
      obtain ⟨r, s', hk⟩ := ih b t
      exact ⟨r, s', s, b, t, W.refl s, hexec, hk⟩

/-- A safe program ends as its postcondition says. -/
theorem Safe.ends {p : Prog Op α} {s s' : σ} {Q : α → σ → Prop} {r : α} (h : Safe W p s Q)
    (hends : Ends W p s r s') : Q r s' := by
  induction p generalizing s with
  | done a =>
      obtain ⟨rfl, hr⟩ := hends
      exact h s' hr
  | call op k ih =>
      obtain ⟨t, b, t', ht, hexec, hrest⟩ := hends
      exact ih b ((h t ht).2 b t' hexec) hrest

end Prog

-- ============================================================================
-- Programs that stop at an error
-- ============================================================================

/-- Safety of a program that may stop with an error; the postcondition is
    about its proper results. -/
def SafeM {Op : Type → Type u} {ε α σ : Type} (W : Prog.World Op σ) (p : ExceptT ε (Prog Op) α)
    (s : σ) (Q : α → σ → Prop) : Prop :=
  Prog.Safe W p.run s (fun r s' => ∀ a, r = .ok a → Q a s')

namespace SafeM

variable {Op : Type → Type u} {ε α β σ : Type} {W : Prog.World Op σ}

theorem pure {a : α} {s : σ} {Q : α → σ → Prop} (h : ∀ s', W.rely s s' → Q a s') :
    SafeM W (Pure.pure a : ExceptT ε (Prog Op) α) s Q := by
  intro s' hs' a' ha'
  cases ha'
  exact h s' hs'

theorem throw {e : ε} {s : σ} {Q : α → σ → Prop} :
    SafeM W (MonadExcept.throw e : ExceptT ε (Prog Op) α) s Q := by
  intro s' _ a ha
  cases ha

theorem bind {p : ExceptT ε (Prog Op) α} {f : α → ExceptT ε (Prog Op) β} {s : σ}
    {Q : α → σ → Prop} {R : β → σ → Prop} (hp : SafeM W p s Q)
    (hf : ∀ a s', W.rely s s' → Q a s' → SafeM W (f a) s' R) : SafeM W (p >>= f) s R := by
  refine Prog.Safe.bind hp (fun r s' hr hq => ?_)
  cases r with
  | error e => exact fun t _ b hb => nomatch hb
  | ok a => exact hf a s' hr (hq a rfl)

theorem lift {p : Prog Op α} {s : σ} {Q : α → σ → Prop} (h : Prog.Safe W p s Q) :
    SafeM W (ExceptT.lift p : ExceptT ε (Prog Op) α) s Q := by
  refine (Prog.Safe.map Except.ok h).weaken ?_
  rintro r s' ⟨a, rfl, hq⟩ b hb
  cases hb
  exact hq

/-- The outcomes of a sequence: the error of its first part, or the outcomes of
    the second. -/
theorem ends_bind_iff {p : ExceptT ε (Prog Op) α} {f : α → ExceptT ε (Prog Op) β} {s s' : σ}
    {r : Except ε β} :
    Prog.Ends W (p >>= f).run s r s' ↔
      (∃ e, Prog.Ends W p.run s (.error e) s' ∧ r = .error e) ∨
        ∃ a t, Prog.Ends W p.run s (.ok a) t ∧ Prog.Ends W (f a).run t r s' := by
  have hseq : Prog.Ends W (p >>= f).run s r s' ↔
      ∃ x t, Prog.Ends W p.run s x t ∧ Prog.Ends W (ExceptT.bindCont f x) t r s' :=
    Prog.ends_bind_iff
  rw [hseq]
  constructor
  · rintro ⟨x, t, hp, hf⟩
    cases x with
    | error e =>
        obtain ⟨rfl, hr⟩ := hf
        refine .inl ⟨e, ?_, rfl⟩
        have hlast : Prog.Ends W (p.run >>= Prog.done) s (.error e) s' :=
          Prog.ends_bind_iff.mpr ⟨_, t, hp, rfl, hr⟩
        rwa [Prog.bind_done] at hlast
    | ok a => exact .inr ⟨a, t, hp, hf⟩
  · rintro (⟨e, hp, rfl⟩ | ⟨a, t, hp, hf⟩)
    · exact ⟨_, s', hp, rfl, W.refl s'⟩
    · exact ⟨_, t, hp, hf⟩

end SafeM

end DurableEngine.Lib
