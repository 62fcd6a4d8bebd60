import CcController.Lib.Program
import Mathlib.Order.Defs.Unbundled

/-!
# What a program does to its state, whatever it returns

`Keeps R m` says that the state in which `m` returns is related by `R` to the one it was started
in. For a preorder `R` this passes from the parts of a program to the whole, so a program keeps
`R` when all its updates do.
-/

namespace Program

variable {σ φ α β : Type}

/-- Whenever the program returns, the state before and the state after are related by `R`. -/
def Keeps (R : σ → σ → Prop) (m : Program σ φ α) : Prop :=
  ∀ s, Ensures m s (fun _ s' => R s s')

variable {R : σ → σ → Prop} {m : Program σ φ α}

theorem Keeps.of_ok (h : Keeps R m) {s s' : σ} {a : α} (hok : m s = .ok (a, s')) :
  R s s'
  := ensures_iff.mp (h s) a s' hok

theorem keeps_stop {f : φ} :
  Keeps R (stop f : Program σ φ α)
  := fun _ => trivial

theorem keeps_update {f : σ → σ} (h : ∀ s, R s (f s)) :
  Keeps R (update f : Program σ φ Unit)
  := h

theorem Keeps.ite {c : Prop} [Decidable c] {m' : Program σ φ α} (h : Keeps R m)
    (h' : Keeps R m') :
  Keeps R (if c then m else m')
  := by
  split
  · exact h
  · exact h'

variable [IsPreorder σ R]

theorem keeps_pure {a : α} :
  Keeps R (pure a : Program σ φ α)
  := fun s => ends_pure.mpr (refl s)

theorem keeps_state :
  Keeps R (state : Program σ φ σ)
  := fun s => ends_state.mpr (refl s)

theorem keeps_lift {x : Except φ α} :
  Keeps R (lift x : Program σ φ α)
  := fun s => ensures_lift.mpr (fun _ _ => refl s)

theorem Keeps.bind {f : α → Program σ φ β} (hm : Keeps R m) (hf : ∀ a, Keeps R (f a)) :
  Keeps R (m >>= f)
  := by
  intro s
  apply ends_bind.mpr
  apply (hm s).mono
  intro a s' hs'
  apply (hf a s').mono
  intro b s'' hs''
  exact IsTrans.trans _ _ _ hs' hs''

end Program
