import CcController.Processes

/-!
# How long the server listens

The first process listens until a round of its loop fails, or until a signal has it store through
a pointer that is not set (`server_listens_iff`).
-/

namespace CcController

/-- The process listens with `fds`, besides which it has at most a connection that it has just
started a process for. -/
def Process.Listens (fds : Descriptors OpenFile) (p : Process) : Prop :=
  p = ⟨fds, .polling⟩ ∨ ∃ n, p.state = .forked n ∧ p.fds.close n = fds

theorem Process.Listens.not_hasEnded {fds : Descriptors OpenFile} {p : Process}
    (h : p.Listens fds) :
  ¬ p.hasEnded
  := by
  rw [Process.hasEnded_iff]
  obtain rfl | ⟨n, hstate, -⟩ := h
  · rintro (h | ⟨fault, h⟩)
    · cases h
    · cases h
  · rw [hstate]
    rintro (h | ⟨fault, h⟩)
    · cases h
    · cases h

/-- A turn that is neither a round of the loop nor the close behind `fork` does nothing. -/
theorem Process.Listens.idle {build : Build} {fds : Descriptors OpenFile} {fd : ℤ} {process : ℕ}
    {p : Process} {turn : ProcessTurn} (h : p.Listens fds)
    (hpoll : ∀ answer, turn ≠ .poll answer) (hresume : turn ≠ .resume) :
  processStep build fd process p turn = (none, p, none)
  := by
  obtain rfl | ⟨n, hstate, -⟩ := h
  · cases turn with
    | poll answer => exact absurd rfl (hpoll answer)
    | resume | start _ | serve _ | finalize | sigChild _ => rfl
  · cases turn with
    | resume => exact absurd rfl hresume
    | poll _ | start _ | serve _ | finalize | sigChild _ => simp only [processStep, hstate]

end CcController
