import Mathlib.Logic.Basic

/-!
# Programs with a state that may stop

A `Program` takes a state to a value and a next state, or stops with a fault.

`Ends E m s Q` says that `m`, started in `s`, returns a value and a state that satisfy `Q`,
or stops with a fault that satisfies `E`. It commutes with sequencing, so a statement about
a program is taken apart along its text. When `E` holds of no fault it is total
correctness, when it holds of all faults partial correctness; the latter is `Ensures`.
-/

abbrev Program (σ φ α : Type) := StateT σ (Except φ) α

namespace Program

variable {σ φ α β : Type}

/-- Stop with the fault `f`. -/
def stop (f : φ) : Program σ φ α :=
  fun _ => .error f

/-- A computation that does not touch the state. -/
def lift (x : Except φ α) : Program σ φ α :=
  fun s =>
    match x with
    | .ok a => .ok (a, s)
    | .error f => .error f

/-- Replace the state. -/
def update (f : σ → σ) : Program σ φ Unit :=
  fun s => .ok ((), f s)

/-- Look at the state. -/
def state : Program σ φ σ :=
  fun s => .ok (s, s)

/-- The program, started in `s`, returns in `Q` or stops in `E`. -/
def Ends (E : φ → Prop) (m : Program σ φ α) (s : σ) (Q : α → σ → Prop) : Prop :=
  match m s with
  | .ok (a, s') => Q a s'
  | .error f => E f

/-- If the program, started in `s`, returns, it returns in `Q`. -/
abbrev Ensures (m : Program σ φ α) (s : σ) (Q : α → σ → Prop) : Prop :=
  Ends (fun _ => True) m s Q

/-- The program, started in `s`, returns in `Q`. -/
abbrev Reaches (m : Program σ φ α) (s : σ) (Q : α → σ → Prop) : Prop :=
  Ends (fun _ => False) m s Q

variable {E : φ → Prop} {m : Program σ φ α} {s : σ} {Q : α → σ → Prop}

theorem ends_of_ok {a : α} {s' : σ} (h : m s = .ok (a, s')) :
  Ends E m s Q ↔ Q a s'
  := by
  simp only [Ends, h]

theorem ensures_iff :
  Ensures m s Q ↔ ∀ a s', m s = .ok (a, s') → Q a s'
  := by
  cases h : m s with
  | ok r =>
      simp only [Ends, h, Except.ok.injEq]
      constructor
      · rintro hQ a s' rfl
        apply hQ
      · intro hQ
        apply hQ r.1 r.2 rfl
  | error f => simp [Ends, h]

theorem reaches_iff :
  Reaches m s Q ↔ ∃ a s', m s = .ok (a, s') ∧ Q a s'
  := by
  cases h : m s with
  | ok r =>
      obtain ⟨a, s'⟩ := r
      simp only [Ends, h, Except.ok.injEq, Prod.mk.injEq]
      constructor
      · intro hQ
        exact ⟨a, s', ⟨rfl, rfl⟩, hQ⟩
      · rintro ⟨_, _, ⟨rfl, rfl⟩, hQ⟩
        apply hQ
  | error f => simp [Ends, h]

theorem Ends.mono {Q' : α → σ → Prop} (h : Ends E m s Q) (hQ : ∀ a s', Q a s' → Q' a s') :
  Ends E m s Q'
  := by
  cases hm : m s with
  | ok r =>
      simp only [Ends, hm] at h ⊢
      apply hQ _ _ h
  | error f => simpa only [Ends, hm] using h

theorem ends_congr {Q' : α → σ → Prop} (h : ∀ a s', Q a s' ↔ Q' a s') :
  Ends E m s Q ↔ Ends E m s Q'
  := ⟨fun hends => hends.mono (fun a s' => (h a s').mp),
    fun hends => hends.mono (fun a s' => (h a s').mpr)⟩

/-- More faults may be admitted. -/
theorem Ends.weaken {E' : φ → Prop} (h : Ends E m s Q) (hE : ∀ f, E f → E' f) :
  Ends E' m s Q
  := by
  cases hm : m s with
  | ok r => simpa only [Ends, hm] using h
  | error f =>
      simp only [Ends, hm] at h ⊢
      apply hE f h

/-- What a program returns may be used. -/
theorem Ends.returning (h : Ends E m s Q) :
  Ends E m s (fun a s' => Q a s' ∧ m s = .ok (a, s'))
  := by
  cases hm : m s with
  | ok r =>
      simp only [Ends, hm] at h ⊢
      exact ⟨h, trivial⟩
  | error f => simpa only [Ends, hm] using h

@[simp]
theorem ends_pure {a : α} :
  Ends E (pure a : Program σ φ α) s Q ↔ Q a s
  := Iff.rfl

@[simp]
theorem ends_bind {f : α → Program σ φ β} {Q : β → σ → Prop} :
  Ends E (m >>= f) s Q ↔ Ends E m s (fun a s' => Ends E (f a) s' Q)
  := by
  cases h : m s with
  | ok r =>
      obtain ⟨a, s'⟩ := r
      have hbind : (m >>= f) s = f a s' := by simp only [bind, StateT.bind, h, Except.bind]
      simp only [Ends, h, hbind]
  | error e =>
      have hbind : (m >>= f) s = .error e := by simp only [bind, StateT.bind, h, Except.bind]
      simp only [Ends, h, hbind]

theorem ends_ite {c : Prop} [Decidable c] {m' : Program σ φ α} :
  Ends E (if c then m else m') s Q ↔ (c → Ends E m s Q) ∧ (¬ c → Ends E m' s Q)
  := by
  split
  · next hc => simp [hc]
  · next hc => simp [hc]

@[simp]
theorem ends_stop {f : φ} :
  Ends E (stop f : Program σ φ α) s Q ↔ E f
  := Iff.rfl

@[simp]
theorem ends_update {f : σ → σ} {Q : Unit → σ → Prop} :
  Ends E (update f) s Q ↔ Q () (f s)
  := Iff.rfl

@[simp]
theorem ends_state {Q : σ → σ → Prop} :
  Ends E (state : Program σ φ σ) s Q ↔ Q s s
  := Iff.rfl

@[simp]
theorem ends_lift_ok {a : α} :
  Ends E (lift (.ok a) : Program σ φ α) s Q ↔ Q a s
  := Iff.rfl

theorem ensures_lift {x : Except φ α} :
  Ensures (lift x) s Q ↔ ∀ a, x = .ok a → Q a s
  := by
  cases x with
  | ok a => simp
  | error f => simp [Ends, lift]

/-- A fault that is sure to come and is admitted. -/
theorem ends_lift_error {x : Except φ α} (hx : ∀ a, x ≠ .ok a) (hE : ∀ f, E f) :
  Ends E (lift x) s Q
  := by
  cases x with
  | ok a => exact absurd rfl (hx a)
  | error f => exact hE f

theorem ensures_any (h : ∀ a s', Q a s') :
  Ensures m s Q
  := ensures_iff.mpr (fun a s' _ => h a s')

/-- What goes before, with whatever result, does not matter. -/
theorem ensures_bind_any {f : α → Program σ φ β} {Q : β → σ → Prop}
    (h : ∀ a s', Ensures (f a) s' Q) :
  Ensures (m >>= f) s Q
  := by
  apply ends_bind.mpr
  apply ensures_any h

/-- A program does not end both in one way and in the other. -/
theorem Ends.not_ends (h : Ends E m s Q)
    (hnot : Ends (fun f => ¬ E f) m s (fun a s' => ¬ Q a s')) :
  False
  := by
  cases hm : m s with
  | ok r =>
      simp only [Ends, hm] at h hnot
      exact hnot h
  | error f =>
      simp only [Ends, hm] at h hnot
      exact hnot h

/-- A program does not return in one way when it returns in others only. -/
theorem not_reaches_of_ensures (h : Ensures m s (fun a s' => ¬ Q a s')) :
  ¬ Reaches m s Q
  := fun h' => h'.not_ends (h.weaken (fun _ _ => id))

end Program
