import CcController.Lib.Program
import CcController.Lib.Reader

/-!
# Programs that consult a memory

A `Script` is a program with a state that may stop, together with the places of a memory it
consults on its way. `run` forgets the places and gives the program, so that a script for a
program shows what the program reads (`Reads`).

`Confined S mem s Q` says that the script consults places in `S` only and returns in `Q`,
whatever its other parts return. It commutes with sequencing.
-/

/-- A program over the states `σ` with the faults `φ` that consults places `ι` with values
`β`. -/
inductive Script (σ φ ι β α : Type) : Type 1 where
  | ret (a : α)
  | act {γ : Type} (m : Program σ φ γ) (k : γ → Script σ φ ι β α)
  | ask {γ : Type} (m : Reader ι β γ) (k : γ → Script σ φ ι β α)

namespace Script

variable {σ φ ι β α α' γ : Type}

/-- Go on with `f` where the script returns. -/
def followedBy : Script σ φ ι β α → (α → Script σ φ ι β α') → Script σ φ ι β α'
  | .ret a, f => f a
  | .act m k, f => .act m (fun c => (k c).followedBy f)
  | .ask m k, f => .ask m (fun c => (k c).followedBy f)

instance : Monad (Script σ φ ι β) where
  pure := .ret
  bind := followedBy

/-- A step that does not consult the memory. -/
def perform (m : Program σ φ γ) : Script σ φ ι β γ :=
  .act m .ret

/-- A step that only consults the memory. -/
def consult (m : Reader ι β γ) : Script σ φ ι β γ :=
  .ask m .ret

/-! ### Running -/

/-- What a reader returns; it stops in `stuck` when the fuel does not suffice. -/
def answer (fuel : ℕ) (mem : ι → β) (stuck : φ) (m : Reader ι β γ) : Program σ φ γ :=
  match (m.run fuel mem).2 with
  | none => Program.stop stuck
  | some c => pure c

/-- The program the script stands for. -/
def run (fuel : ℕ) (mem : ι → β) (stuck : φ) : Script σ φ ι β α → Program σ φ α
  | .ret a => pure a
  | .act m k => m >>= fun c => (k c).run fuel mem stuck
  | .ask m k => answer fuel mem stuck m >>= fun c => (k c).run fuel mem stuck

variable {fuel : ℕ} {mem : ι → β} {stuck : φ}

@[simp]
theorem run_pure {a : α} :
  (pure a : Script σ φ ι β α).run fuel mem stuck = pure a
  := rfl

@[simp]
theorem run_bind {s : Script σ φ ι β α} {f : α → Script σ φ ι β α'} :
  (s >>= f).run fuel mem stuck
    = s.run fuel mem stuck >>= fun a => (f a).run fuel mem stuck
  := by
  induction s with
  | ret a =>
      symm
      apply pure_bind
  | act m k ih =>
      change m >>= _ = (m >>= _) >>= _
      rw [bind_assoc]
      apply bind_congr
      exact ih
  | ask m k ih =>
      change answer fuel mem stuck m >>= _ = (answer fuel mem stuck m >>= _) >>= _
      rw [bind_assoc]
      apply bind_congr
      exact ih

@[simp]
theorem run_perform {m : Program σ φ γ} :
  (perform m : Script σ φ ι β γ).run fuel mem stuck = m
  := bind_pure m

@[simp]
theorem run_consult {m : Reader ι β γ} :
  (consult m : Script σ φ ι β γ).run fuel mem stuck = answer fuel mem stuck m
  := bind_pure _

@[simp]
theorem run_ite {c : Prop} [Decidable c] {s s' : Script σ φ ι β α} :
  (if c then s else s').run fuel mem stuck
    = if c then s.run fuel mem stuck else s'.run fuel mem stuck
  := apply_ite _ c s s'

/-! ### What is consulted -/

/-- Started in a state, the script consults the place `i`. -/
def Reads (fuel : ℕ) (mem : ι → β) : Script σ φ ι β α → σ → ι → Prop
  | .ret _, _, _ => False
  | .act m k, s, i => ∃ c s', m s = .ok (c, s') ∧ (k c).Reads fuel mem s' i
  | .ask m k, s, i =>
    i ∈ (m.run fuel mem).1 ∨ ∃ c, (m.run fuel mem).2 = some c ∧ (k c).Reads fuel mem s i

theorem reads_consult {m : Reader ι β γ} {w : σ} {i : ι} :
  (consult m : Script σ φ ι β γ).Reads fuel mem w i ↔ i ∈ (m.run fuel mem).1
  := by
  simp [consult, Reads]

/-- What is consulted first, and what is consulted when that has returned. -/
theorem reads_bind (stuck : φ) {s : Script σ φ ι β α} {f : α → Script σ φ ι β α'} {w : σ} {i : ι} :
  (s >>= f).Reads fuel mem w i ↔ s.Reads fuel mem w i ∨
    ∃ a w', s.run fuel mem stuck w = .ok (a, w') ∧ (f a).Reads fuel mem w' i
  := by
  induction s generalizing w with
  | ret a =>
      constructor
      · intro h
        exact .inr ⟨a, w, rfl, h⟩
      · rintro (h | ⟨a', w', hrun, h⟩)
        · exact h.elim
        · obtain ⟨rfl, rfl⟩ := Prod.mk.inj (Except.ok.inj hrun)
          exact h
  | act m k ih =>
      have hrun : ∀ c w', m w = .ok (c, w') → (Script.act m k).run fuel mem stuck w
          = (k c).run fuel mem stuck w' := by
        intro c w' hm
        simp only [run, bind, StateT.bind, hm, Except.bind]
      constructor
      · rintro ⟨c, w', hm, h⟩
        rcases ih c |>.mp h with h | ⟨a, w'', hk, h⟩
        · exact .inl ⟨c, w', hm, h⟩
        · exact .inr ⟨a, w'', (hrun c w' hm).trans hk, h⟩
      · rintro (⟨c, w', hm, h⟩ | ⟨a, w'', hk, h⟩)
        · exact ⟨c, w', hm, ih c |>.mpr (.inl h)⟩
        · cases hm : m w with
          | error e => simp [run, bind, StateT.bind, hm, Except.bind] at hk
          | ok r =>
              obtain ⟨c, w'⟩ := r
              rw [hrun c w' hm] at hk
              exact ⟨c, w', hm, ih c |>.mpr (.inr ⟨a, w'', hk, h⟩)⟩
  | ask m k ih =>
      have hrun : ∀ c, (m.run fuel mem).2 = some c → (Script.ask m k).run fuel mem stuck w
          = (k c).run fuel mem stuck w := by
        intro c hm
        simp only [run, answer, hm, pure_bind]
      constructor
      · rintro (h | ⟨c, hm, h⟩)
        · exact .inl (.inl h)
        · rcases ih c |>.mp h with h | ⟨a, w'', hk, h⟩
          · exact .inl (.inr ⟨c, hm, h⟩)
          · exact .inr ⟨a, w'', (hrun c hm).trans hk, h⟩
      · rintro ((h | ⟨c, hm, h⟩) | ⟨a, w'', hk, h⟩)
        · exact .inl h
        · exact .inr ⟨c, hm, ih c |>.mpr (.inl h)⟩
        · cases hm : (m.run fuel mem).2 with
          | none =>
              simp [run, answer, hm, bind, StateT.bind, Program.stop, Except.bind] at hk
          | some c =>
              rw [hrun c hm] at hk
              exact .inr ⟨c, hm, ih c |>.mpr (.inr ⟨a, w'', hk, h⟩)⟩

/-- The script consults places in `S` only, and what it returns satisfies `Q`. -/
def Confined (S : ι → Prop) (mem : ι → β) : Script σ φ ι β α → (α → Prop) → Prop
  | .ret a, Q => Q a
  | .act _ k, Q => ∀ c, (k c).Confined S mem Q
  | .ask m k, Q => Reader.Within S m mem (fun c => (k c).Confined S mem Q)

variable {S : ι → Prop} {Q : α' → Prop}

theorem Confined.reads {s : Script σ φ ι β α} {Q : α → Prop} (h : s.Confined S mem Q) {w : σ}
    {i : ι} (hi : s.Reads fuel mem w i) :
  S i
  := by
  induction s generalizing w with
  | ret a => exact hi.elim
  | act m k ih =>
      obtain ⟨c, w', -, hi⟩ := hi
      apply ih c (h c) hi
  | ask m k ih =>
      rcases hi with hi | ⟨c, hc, hi⟩
      · apply h.1 i ⟨fuel, hi⟩
      · apply ih c (h.2 c ⟨fuel, hc⟩) hi

@[simp]
theorem confined_pure {a : α'} :
  (pure a : Script σ φ ι β α').Confined S mem Q ↔ Q a
  := Iff.rfl

@[simp]
theorem confined_perform {m : Program σ φ α'} :
  (perform m : Script σ φ ι β α').Confined S mem Q ↔ ∀ c, Q c
  := Iff.rfl

@[simp]
theorem confined_consult {m : Reader ι β α'} :
  (consult m : Script σ φ ι β α').Confined S mem Q ↔ Reader.Within S m mem Q
  := Iff.rfl

@[simp]
theorem confined_bind {s : Script σ φ ι β α} {f : α → Script σ φ ι β α'} :
  (s >>= f).Confined S mem Q ↔ s.Confined S mem (fun a => (f a).Confined S mem Q)
  := by
  induction s with
  | ret a => exact Iff.rfl
  | act m k ih => exact forall_congr' ih
  | ask m k ih =>
      apply and_congr_right'
      apply forall_congr'
      intro c
      apply imp_congr_right
      intro _
      apply ih

@[simp]
theorem confined_ite {c : Prop} [Decidable c] {s s' : Script σ φ ι β α'} :
  (if c then s else s').Confined S mem Q ↔
    (c → s.Confined S mem Q) ∧ (¬ c → s'.Confined S mem Q)
  := by
  split
  · next hc => simp [hc]
  · next hc => simp [hc]

end Script
