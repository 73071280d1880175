import Mathlib.Tactic.Common

/-!
# Emitting computations

A computation over a state that emits items and may leave early. The rules
below relate the state to the whole history of emitted items.
-/

set_option autoImplicit false

namespace Siralos

/-- A run returns a value, or `none` when it left early, with the state it
reached and the items it emitted. -/
structure Emission (σ ε α : Type) where
  run : σ → Option α × σ × List ε

namespace Emission

variable {σ ε α β : Type}

def andThen (c : Emission σ ε α) (f : α → Emission σ ε β) : Emission σ ε β where
  run s := match c.run s with
    | (some a, s', es) =>
      let (b, s'', more) := (f a).run s'
      (b, s'', es ++ more)
    | (none, s', es) => (none, s', es)

instance : Monad (Emission σ ε) where
  pure a := ⟨fun s => (some a, s, [])⟩
  bind := andThen

theorem andThen_pure (c : Emission σ ε α) : andThen c pure = c := by
  rcases c with ⟨run⟩
  simp only [andThen, pure, Emission.mk.injEq]
  funext s
  rcases run s with ⟨_ | a, s', es⟩ <;> simp

theorem andThen_assoc {γ : Type} (c : Emission σ ε α) (f : α → Emission σ ε β)
    (g : β → Emission σ ε γ) : andThen (andThen c f) g = andThen c fun a => andThen (f a) g := by
  simp only [andThen, Emission.mk.injEq]
  funext s
  rcases c.run s with ⟨_ | a, s', es⟩
  · rfl
  · rcases hf : (f a).run s' with ⟨_ | b, s'', more⟩ <;> simp [hf, List.append_assoc]

instance : LawfulMonad (Emission σ ε) :=
  LawfulMonad.mk' (Emission σ ε) andThen_pure
    (fun a f => by
      change andThen (pure a) f = f a
      simp [andThen, pure])
    andThen_assoc

/-- The source's bare `return`. -/
def leave : Emission σ ε α := ⟨fun s => (none, s, [])⟩

def observe : Emission σ ε σ := ⟨fun s => (some s, s, [])⟩

def update (f : σ → σ) : Emission σ ε Unit := ⟨fun s => (some (), f s, [])⟩

def emit (e : ε) : Emission σ ε Unit := ⟨fun s => (some (), s, [e])⟩

def each {ι : Type} (f : ι → Emission σ ε Unit) : List ι → Emission σ ε Unit
  | [] => pure ()
  | x :: xs => do
    f x
    each f xs

theorem bind_of_value {c : Emission σ ε α} {f : α → Emission σ ε β} {s s' : σ} {a : α}
    {es : List ε} (hc : c.run s = (some a, s', es)) :
    (c >>= f).run s = (((f a).run s').1, ((f a).run s').2.1, es ++ ((f a).run s').2.2) := by
  change (andThen c f).run s = _
  simp only [andThen, hc]

theorem bind_of_left {c : Emission σ ε α} {f : α → Emission σ ε β} {s s' : σ} {es : List ε}
    (hc : c.run s = (none, s', es)) : (c >>= f).run s = (none, s', es) := by
  change (andThen c f).run s = _
  simp only [andThen, hc]

theorem observe_bind (f : σ → Emission σ ε β) (s : σ) : (observe >>= f).run s = (f s).run s := by
  have hobserve : (observe : Emission σ ε σ).run s = (some s, s, []) := rfl
  rw [bind_of_value hobserve, List.nil_append]

theorem update_bind (g : σ → σ) (f : Unit → Emission σ ε β) (s : σ) :
    (update g >>= f).run s = (f ()).run (g s) := by
  have hupdate : (update g : Emission σ ε Unit).run s = (some (), g s, []) := rfl
  rw [bind_of_value hupdate, List.nil_append]

/-- From `P` the run ends in `Q` with its value, or leaves early in `R`. The
history `h` holds the items emitted before the run. -/
def Holds (P : σ → List ε → Prop) (c : Emission σ ε α)
    (Q : α → σ → List ε → Prop) (R : σ → List ε → Prop) : Prop :=
  ∀ s h, P s h → match c.run s with
    | (some a, s', es) => Q a s' (h ++ es)
    | (none, s', es) => R s' (h ++ es)

section Rules

variable {P P' : σ → List ε → Prop} {Q Q' : α → σ → List ε → Prop} {R R' : σ → List ε → Prop}

theorem holds_pure (a : α) (hQ : ∀ s h, P s h → Q a s h) :
    Holds P (pure a : Emission σ ε α) Q R := by
  intro s h hp
  simpa [pure] using hQ s h hp

theorem holds_leave (hR : ∀ s h, P s h → R s h) : Holds P (leave : Emission σ ε α) Q R := by
  intro s h hp
  simpa [leave] using hR s h hp

theorem holds_update {Q : Unit → σ → List ε → Prop} (f : σ → σ)
    (hQ : ∀ s h, P s h → Q () (f s) h) : Holds P (update f : Emission σ ε Unit) Q R := by
  intro s h hp
  simpa [update] using hQ s h hp

theorem holds_emit {Q : Unit → σ → List ε → Prop} (e : ε)
    (hQ : ∀ s h, P s h → Q () s (h ++ [e])) : Holds P (emit e) Q R := by
  intro s h hp
  exact hQ s h hp

theorem holds_bind {Q : α → σ → List ε → Prop} {T : β → σ → List ε → Prop}
    {c : Emission σ ε α} {f : α → Emission σ ε β}
    (hc : Holds P c Q R) (hf : ∀ a, Holds (Q a) (f a) T R) : Holds P (c >>= f) T R := by
  intro s h hp
  have hcs := hc s h hp
  rcases hrun : c.run s with ⟨_ | a, s', es⟩
  · rw [hrun] at hcs
    rw [bind_of_left hrun]
    exact hcs
  · rw [hrun] at hcs
    rw [bind_of_value hrun]
    have hfs := hf a s' (h ++ es) hcs
    rcases hfrun : (f a).run s' with ⟨_ | b, s'', more⟩ <;> simpa [hfrun] using hfs

theorem holds_each {ι : Type} (f : ι → Emission σ ε Unit) (xs : List ι)
    (hf : ∀ x ∈ xs, Holds P (f x) (fun _ => P) R) : Holds P (each f xs) (fun _ => P) R := by
  induction xs with
  | nil => exact holds_pure _ fun _ _ hp => hp
  | cons x xs ih =>
    exact holds_bind (hf x (by simp)) fun _ => ih fun y hy => hf y (by simp [hy])

end Rules
end Emission
end Siralos
