/-
  DurableEngine.Lib.Alone

  What a program does while nobody else acts, up to any moment at which it may
  be stopped.

  `Yields` gives the result with the state, or the state alone when the program
  is stopped there.  Two programs in two worlds are `Alike` when they go through
  the same states and end in the same ways, apart from the wording of an error.
-/

import DurableEngine.Lib.Prog

namespace DurableEngine.Lib

universe u

namespace Prog

variable {Op : Type → Type u} {α β σ : Type} {W : World Op σ} {s s' : σ}

/-- Left alone from the state `s`, the program gives `r` in `s'`; no result is there if it is
    stopped in `s'` before its end. -/
def Yields (W : World Op σ) : Prog Op α → σ → Option α → σ → Prop
  | .done a, s, r, s' => (r = none ∨ r = some a) ∧ s' = s
  | .call op k, s, r, s' => (r = none ∧ s' = s) ∨ ∃ b t, W.exec op s b t ∧ Yields W (k b) t r s'

/-- The program can be stopped before its first call. -/
theorem yields_here (p : Prog Op α) (s : σ) : Yields W p s none s := by
  cases p with
  | done a => exact ⟨.inl rfl, rfl⟩
  | call op k => exact .inl ⟨rfl, rfl⟩

/-- A program that has ended could have been stopped there. -/
theorem Yields.stop {p : Prog Op α} {r : Option α} (h : Yields W p s r s') : Yields W p s none s' := by
  induction p generalizing s with
  | done a => exact ⟨.inl rfl, h.2⟩
  | call op k ih =>
      rcases h with ⟨-, rfl⟩ | ⟨b, t, hexec, hrest⟩
      · exact .inl ⟨rfl, rfl⟩
      · exact .inr ⟨b, t, hexec, ih b hrest⟩

theorem Yields.rely {p : Prog Op α} {r : Option α} (h : Yields W p s r s') : W.rely s s' := by
  induction p generalizing s with
  | done a =>
      obtain ⟨-, rfl⟩ := h
      exact W.refl s'
  | call op k ih =>
      rcases h with ⟨-, rfl⟩ | ⟨b, t, hexec, hrest⟩
      · exact W.refl s'
      · exact W.trans (W.rely_of_exec hexec) (ih b hrest)

/-- What the program does when its calls are executed by a function. -/
theorem yields_eval {exec : Nat → ∀ {β : Type}, Op β → σ → β × σ}
    (hexec : ∀ n {β : Type} (op : Op β) s, W.exec op s (exec n op s).1 (exec n op s).2) (p : Prog Op α)
    (n : Nat) (s : σ) :
    Yields W p s (some (p.eval exec n s).1) (p.eval exec n s).2.2 := by
  induction p generalizing n s with
  | done a => exact ⟨.inr rfl, rfl⟩
  | call op k ih => exact .inr ⟨_, _, hexec n op s, ih (exec n op s).1 (n + 1) (exec n op s).2⟩

/-- A sequence is stopped in its first part, or goes on with the second after the first. -/
theorem yields_bind_iff {p : Prog Op α} {f : α → Prog Op β} {r : Option β} :
    Yields W (p >>= f) s r s' ↔ (r = none ∧ Yields W p s none s') ∨
      ∃ a t, Yields W p s (some a) t ∧ Yields W (f a) t r s' := by
  induction p generalizing s with
  | done a =>
      constructor
      · exact fun h => .inr ⟨a, s, ⟨.inr rfl, rfl⟩, h⟩
      · rintro (⟨rfl, -, rfl⟩ | ⟨_, _, ⟨hr, rfl⟩, hf⟩)
        · exact yields_here _ s'
        · obtain hr | hr := hr
          · cases hr
          · cases hr
            exact hf
  | call op k ih =>
      constructor
      · rintro (⟨rfl, rfl⟩ | ⟨b, t, hexec, hrest⟩)
        · exact .inl ⟨rfl, yields_here _ s'⟩
        · rcases (ih b).mp hrest with ⟨rfl, hk⟩ | ⟨a, t', hk, hf⟩
          · exact .inl ⟨rfl, .inr ⟨b, t, hexec, hk⟩⟩
          · exact .inr ⟨a, t', .inr ⟨b, t, hexec, hk⟩, hf⟩
      · rintro (⟨rfl, hp⟩ | ⟨a, t', hp, hf⟩)
        · rcases hp with ⟨-, rfl⟩ | ⟨b, t, hexec, hk⟩
          · exact yields_here _ s'
          · exact .inr ⟨b, t, hexec, (ih b).mpr (.inl ⟨rfl, hk⟩)⟩
        · rcases hp with ⟨hr, -⟩ | ⟨b, t, hexec, hk⟩
          · cases hr
          · exact .inr ⟨b, t, hexec, (ih b).mpr (.inr ⟨a, t', hk, hf⟩)⟩

end Prog

-- ============================================================================
-- Replies
-- ============================================================================

/-- The same reply, or an error in both cases. -/
inductive SameReply {ε α : Type} : Except ε α → Except ε α → Prop where
  | failed (e e' : ε) : SameReply (.error e) (.error e')
  | replied (a : α) : SameReply (.ok a) (.ok a)

namespace SameReply

variable {ε α β : Type} {x x' : Except ε α}

theorem refl (x : Except ε α) : SameReply x x := by
  cases x with
  | error e => exact .failed e e
  | ok a => exact .replied a

theorem symm (h : SameReply x x') : SameReply x' x := by
  cases h with
  | failed e e' => exact .failed e' e
  | replied a => exact .replied a

theorem bind {f f' : α → Except ε β} (h : SameReply x x') (hf : ∀ a, SameReply (f a) (f' a)) :
    SameReply (x >>= f) (x' >>= f') := by
  cases h with
  | failed e e' => exact .failed e e'
  | replied a => exact hf a

end SameReply

-- ============================================================================
-- Programs that go through the same states
-- ============================================================================

section Alike

variable {Op : Type → Type u} {ε α β σ : Type}

/-- All that the first program does the second does as well. -/
def Retraces (W W' : Prog.World Op σ) (p p' : ExceptT ε (Prog Op) α) (s : σ) : Prop :=
  ∀ r s', Prog.Yields W p.run s r s' → ∃ r', Option.Rel SameReply r r' ∧ Prog.Yields W' p'.run s r' s'

structure Alike (W W' : Prog.World Op σ) (p p' : ExceptT ε (Prog Op) α) (s : σ) : Prop where
  forth : Retraces W W' p p' s
  back : Retraces W' W p' p s

variable {W W' : Prog.World Op σ} {s s' : σ}

/-- A sequence is stopped in its first part, fails there, or goes on with the second. -/
theorem yieldsM_bind_iff {p : ExceptT ε (Prog Op) α} {f : α → ExceptT ε (Prog Op) β}
    {r : Option (Except ε β)} :
    Prog.Yields W (p >>= f).run s r s' ↔ (r = none ∧ Prog.Yields W p.run s none s') ∨
      (∃ e, r = some (.error e) ∧ Prog.Yields W p.run s (some (.error e)) s') ∨
        ∃ a t, Prog.Yields W p.run s (some (.ok a)) t ∧ Prog.Yields W (f a).run t r s' := by
  have hseq : Prog.Yields W (p >>= f).run s r s' ↔ (r = none ∧ Prog.Yields W p.run s none s') ∨
      ∃ x t, Prog.Yields W p.run s (some x) t ∧ Prog.Yields W (ExceptT.bindCont f x) t r s' :=
    Prog.yields_bind_iff
  rw [hseq]
  constructor
  · rintro (hstop | ⟨x, t, hp, hf⟩)
    · exact .inl hstop
    · cases x with
      | error e =>
          obtain ⟨rfl | rfl, rfl⟩ := hf
          · exact .inl ⟨rfl, hp.stop⟩
          · exact .inr (.inl ⟨e, rfl, hp⟩)
      | ok a => exact .inr (.inr ⟨a, t, hp, hf⟩)
  · rintro (hstop | ⟨e, rfl, hp⟩ | ⟨a, t, hp, hf⟩)
    · exact .inl hstop
    · exact .inr ⟨_, s', hp, .inr rfl, rfl⟩
    · exact .inr ⟨_, t, hp, hf⟩

theorem yields_lift_iff {p : Prog Op α} {r : Option (Except ε α)} :
    Prog.Yields W (ExceptT.lift p : ExceptT ε (Prog Op) α).run s r s' ↔
      ∃ x, Prog.Yields W p s x s' ∧ r = x.map .ok := by
  have hmap : Prog.Yields W (ExceptT.lift p : ExceptT ε (Prog Op) α).run s r s' ↔
      (r = none ∧ Prog.Yields W p s none s') ∨
        ∃ a t, Prog.Yields W p s (some a) t ∧ Prog.Yields W (.done (.ok a)) t r s' := Prog.yields_bind_iff
  rw [hmap]
  constructor
  · rintro (⟨rfl, hp⟩ | ⟨a, t, hp, rfl | rfl, rfl⟩)
    · exact ⟨none, hp, rfl⟩
    · exact ⟨none, hp.stop, rfl⟩
    · exact ⟨some a, hp, rfl⟩
  · rintro ⟨x, hp, rfl⟩
    cases x with
    | none => exact .inl ⟨rfl, hp⟩
    | some a => exact .inr ⟨a, s', hp, .inr rfl, rfl⟩

/-- In one world and from one state, the programs have the same outcomes. -/
def Same (W : Prog.World Op σ) (p q : ExceptT ε (Prog Op) α) (s : σ) : Prop :=
  ∀ r t, Prog.Yields W p.run s r t ↔ Prog.Yields W q.run s r t

namespace Same

variable {p q : ExceptT ε (Prog Op) α}

theorem refl (p : ExceptT ε (Prog Op) α) : Same W p p s := fun _ _ => Iff.rfl

theorem symm (h : Same W p q s) : Same W q p s := fun r t => (h r t).symm

theorem trans {p' : ExceptT ε (Prog Op) α} (h : Same W p q s) (h' : Same W q p' s) : Same W p p' s :=
  fun r t => (h r t).trans (h' r t)

theorem bind {f g : α → ExceptT ε (Prog Op) β} (h : Same W p q s)
    (hf : ∀ a t, Prog.Yields W q.run s (some (.ok a)) t → Same W (f a) (g a) t) :
    Same W (p >>= f) (q >>= g) s := by
  intro r t
  rw [yieldsM_bind_iff, yieldsM_bind_iff]
  refine or_congr (and_congr_right fun _ => h none t) (or_congr (exists_congr fun e => and_congr_right fun _ =>
    h _ t) (exists_congr fun a => exists_congr fun t' => ?_))
  rw [h (some (.ok a)) t']
  exact and_congr_right fun hq => hf a t' hq r t

end Same

/-- Every state that the program goes through satisfies `P`. -/
def Through (W : Prog.World Op σ) (p : ExceptT ε (Prog Op) α) (s : σ) (P : σ → Prop) : Prop :=
  ∀ t, Prog.Yields W p.run s none t → P t

namespace Through

variable {p q : ExceptT ε (Prog Op) α} {P : σ → Prop}

theorem here (h : Through W p s P) : P s := h s (Prog.yields_here p.run s)

theorem congr (h : Through W p s P) (hpq : Same W q p s) : Through W q s P := fun t ht => h t ((hpq none t).mp ht)

/-- The second part of a sequence goes through states of the whole. -/
theorem rest {f : α → ExceptT ε (Prog Op) β} {a : α} {t : σ} (h : Through W (p >>= f) s P)
    (hp : Prog.Yields W p.run s (some (.ok a)) t) : Through W (f a) t P :=
  fun t' ht => h t' (yieldsM_bind_iff.mpr (.inr (.inr ⟨a, t, hp, ht⟩)))

theorem first {f : α → ExceptT ε (Prog Op) β} (h : Through W (p >>= f) s P) : Through W p s P :=
  fun t ht => h t (yieldsM_bind_iff.mpr (.inl ⟨rfl, ht⟩))

theorem lift {f : Except ε α → ExceptT ε (Prog Op) β} (h : Through W (ExceptT.lift p.run >>= f) s P) :
    Through W p s P :=
  fun t ht => h.first t (yields_lift_iff.mpr ⟨none, ht, rfl⟩)

end Through

namespace Retraces

variable {p p' : ExceptT ε (Prog Op) α}

theorem bind {f f' : α → ExceptT ε (Prog Op) β} (hp : Retraces W W' p p' s)
    (hf : ∀ a t, Prog.Yields W p.run s (some (.ok a)) t → Retraces W W' (f a) (f' a) t) :
    Retraces W W' (p >>= f) (p' >>= f') s := by
  intro r s' h
  rcases yieldsM_bind_iff.mp h with ⟨rfl, hstop⟩ | ⟨e, rfl, herr⟩ | ⟨a, t, hp', hrest⟩
  · obtain ⟨r', hrel, h'⟩ := hp _ _ hstop
    cases hrel
    exact ⟨none, .none, yieldsM_bind_iff.mpr (.inl ⟨rfl, h'⟩)⟩
  · obtain ⟨r', hrel, h'⟩ := hp _ _ herr
    cases hrel with
    | some hreply =>
        cases hreply with
        | failed _ e' => exact ⟨_, .some (.failed e e'), yieldsM_bind_iff.mpr (.inr (.inl ⟨e', rfl, h'⟩))⟩
  · obtain ⟨r', hrel, h'⟩ := hp _ _ hp'
    cases hrel with
    | some hreply =>
        cases hreply with
        | replied _ =>
            obtain ⟨r'', hrel', hrest'⟩ := hf a t hp' r s' hrest
            exact ⟨r'', hrel', yieldsM_bind_iff.mpr (.inr (.inr ⟨a, t, h', hrest'⟩))⟩

/-- A program all of whose outcomes the other world has. -/
theorem lift {q : Prog Op α} (h : ∀ r t, Prog.Yields W q s r t → Prog.Yields W' q s r t) :
    Retraces W W' (ExceptT.lift q : ExceptT ε (Prog Op) α) (ExceptT.lift q) s := by
  intro r t hr
  obtain ⟨x, hx, rfl⟩ := yields_lift_iff.mp hr
  refine ⟨x.map .ok, ?_, yields_lift_iff.mpr ⟨x, h x t hx, rfl⟩⟩
  cases x with
  | none => exact .none
  | some a => exact .some (.replied a)

theorem call {op : Op (Except ε α)} (h : ∀ b t, W.exec op s b t → ∃ b', SameReply b b' ∧ W'.exec op s b' t) :
    Retraces W W' (ExceptT.mk (Prog.ofCall op)) (ExceptT.mk (Prog.ofCall op)) s := by
  rintro r s' (⟨rfl, rfl⟩ | ⟨b, t, hexec, hr, rfl⟩)
  · exact ⟨none, .none, .inl ⟨rfl, rfl⟩⟩
  · obtain ⟨b', hrel, hexec'⟩ := h b _ hexec
    obtain rfl | rfl := hr
    · exact ⟨none, .none, .inr ⟨b', _, hexec', .inl rfl, rfl⟩⟩
    · exact ⟨some b', .some hrel, .inr ⟨b', _, hexec', .inr rfl, rfl⟩⟩

theorem outcome {f f' : Except ε α → ExceptT ε (Prog Op) β} (hp : Retraces W W' p p' s)
    (hf : ∀ x x' t, SameReply x x' → Retraces W W' (f x) (f' x') t) :
    Retraces W W' (ExceptT.lift p.run >>= f) (ExceptT.lift p'.run >>= f') s := by
  intro r s' h
  rcases yieldsM_bind_iff.mp h with ⟨rfl, hstop⟩ | ⟨e, rfl, herr⟩ | ⟨x, t, hp', hrest⟩
  · obtain ⟨x, hx, -⟩ := yields_lift_iff.mp hstop
    obtain ⟨r', -, h'⟩ := hp _ _ hx
    have hfirst := (yields_lift_iff (ε := ε) (r := r'.map .ok)).mpr ⟨r', h', rfl⟩
    exact ⟨none, .none, yieldsM_bind_iff.mpr (.inl ⟨rfl, hfirst.stop⟩)⟩
  · obtain ⟨x, -, hx⟩ := yields_lift_iff.mp herr
    cases x with
    | none => cases hx
    | some x => cases hx
  · obtain ⟨x', hx, hmap⟩ := yields_lift_iff.mp hp'
    cases x' with
    | none => cases hmap
    | some y =>
        cases hmap
        obtain ⟨r', hrel, h'⟩ := hp _ _ hx
        cases hrel with
        | @some _ x' hreply =>
            obtain ⟨r'', hrel', hrest'⟩ := hf _ _ t hreply r s' hrest
            exact ⟨r'', hrel', yieldsM_bind_iff.mpr (.inr (.inr ⟨_, t, yields_lift_iff.mpr ⟨_, h', rfl⟩, hrest'⟩))⟩

end Retraces

namespace Alike

variable {p p' : ExceptT ε (Prog Op) α}

theorem pure (a : α) : Alike W W' (Pure.pure a : ExceptT ε (Prog Op) α) (Pure.pure a) s := by
  refine ⟨fun r s' h => ⟨r, ?_, h⟩, fun r s' h => ⟨r, ?_, h⟩⟩
  all_goals
    obtain ⟨rfl | rfl, -⟩ := h
    · exact .none
    · exact .some (.replied a)

theorem throw (e e' : ε) : Alike W W' (MonadExcept.throw e : ExceptT ε (Prog Op) α) (MonadExcept.throw e') s := by
  refine ⟨fun r s' h => ?_, fun r s' h => ?_⟩
  all_goals
    obtain ⟨rfl | rfl, rfl⟩ := h
    · exact ⟨none, .none, .inl rfl, rfl⟩
    · exact ⟨_, .some (.failed _ _), .inr rfl, rfl⟩

theorem bind {f f' : α → ExceptT ε (Prog Op) β} (hp : Alike W W' p p' s)
    (hf : ∀ a t, Prog.Yields W p.run s (some (.ok a)) t → Alike W W' (f a) (f' a) t) :
    Alike W W' (p >>= f) (p' >>= f') s := by
  refine ⟨hp.forth.bind (fun a t h => (hf a t h).forth), hp.back.bind (fun a t h => (hf a t ?_).back)⟩
  obtain ⟨r, hrel, h'⟩ := hp.back _ _ h
  cases hrel with
  | some hreply =>
      cases hreply with
      | replied _ => exact h'

/-- Programs that are replaced by others with the same outcomes. -/
theorem congr {q q' : ExceptT ε (Prog Op) α} (h : Alike W W' q q' s) (hp : Same W p q s) (hp' : Same W' p' q' s) :
    Alike W W' p p' s := by
  refine ⟨fun r t hr => ?_, fun r t hr => ?_⟩
  · obtain ⟨r', hrel, hr'⟩ := h.forth r t ((hp r t).mp hr)
    exact ⟨r', hrel, (hp' r' t).mpr hr'⟩
  · obtain ⟨r', hrel, hr'⟩ := h.back r t ((hp' r t).mp hr)
    exact ⟨r', hrel, (hp r' t).mpr hr'⟩

/-- A program with the same outcomes in both worlds. -/
theorem lift {q : Prog Op α} (h : ∀ r t, Prog.Yields W q s r t ↔ Prog.Yields W' q s r t) :
    Alike W W' (ExceptT.lift q : ExceptT ε (Prog Op) α) (ExceptT.lift q) s :=
  ⟨.lift (fun r t => (h r t).mp), .lift (fun r t => (h r t).mpr)⟩

/-- A call with the same replies in both worlds, up to errors. -/
theorem call {op : Op (Except ε α)}
    (h : ∀ b t, W.exec op s b t → ∃ b', SameReply b b' ∧ W'.exec op s b' t)
    (h' : ∀ b t, W'.exec op s b t → ∃ b', SameReply b b' ∧ W.exec op s b' t) :
    Alike W W' (ExceptT.mk (Prog.ofCall op)) (ExceptT.mk (Prog.ofCall op)) s := ⟨.call h, .call h'⟩

/-- A sequence that goes on after an error as well. -/
theorem outcome {f f' : Except ε α → ExceptT ε (Prog Op) β} (hp : Alike W W' p p' s)
    (hf : ∀ x x' t, SameReply x x' → Alike W W' (f x) (f' x') t) :
    Alike W W' (ExceptT.lift p.run >>= f) (ExceptT.lift p'.run >>= f') s :=
  ⟨hp.forth.outcome (fun x x' t hrel => (hf x x' t hrel).forth),
    hp.back.outcome (fun x' x t hrel => (hf x x' t hrel.symm).back)⟩

end Alike

end Alike

end DurableEngine.Lib
