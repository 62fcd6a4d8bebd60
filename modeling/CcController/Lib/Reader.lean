import Mathlib.Data.List.Infix
import Mathlib.Logic.Relation

/-!
# Programs that read a memory

A `Reader` computes a value from a memory it only reads, and records the places it reads.
Loops are cut off by a budget of rounds, the fuel. More fuel never changes what has been read
or returned; this is a field of every program. So one may speak of what a program reads and
returns without naming the fuel: `Reads` and `Returns` are what it does with some fuel,
that is with all the fuel it needs.

`Within S` says that a program reads in `S` only, with any fuel, and that what it returns
satisfies `Q`. It commutes with sequencing, and for a loop it is a statement about every
round that is reached.
-/

/-- What a run comes to: the places read, and the value returned if the fuel sufficed. -/
abbrev Outcome (ι α : Type) := List ι × Option α

/-- The outcome `r` with less fuel agrees with the outcome `r'` with more. -/
def Extends {ι α : Type} (r r' : Outcome ι α) : Prop :=
  r = r' ∨ r.2 = none ∧ r.1 <+: r'.1

/-- A program that reads places `ι` holding values `β` and returns a value in `α`. -/
structure Reader (ι β α : Type) where
  run : ℕ → (ι → β) → Outcome ι α
  mono : ∀ {k l : ℕ} (mem : ι → β), k ≤ l → Extends (run k mem) (run l mem)

variable {ι β α γ σ : Type}

/-- The outcome `r` and, when it is a value, the outcome `f` of that value after it. -/
def Outcome.followedBy (r : Outcome ι α) (f : α → Outcome ι γ) : Outcome ι γ :=
  match r.2 with
  | none => (r.1, none)
  | some a => (r.1 ++ (f a).1, (f a).2)

theorem Outcome.subset_followedBy {r : Outcome ι α} {f : α → Outcome ι γ} {i : ι} (hi : i ∈ r.1) :
  i ∈ (r.followedBy f).1
  := by
  cases h : r.2 with
  | none => simpa [Outcome.followedBy, h] using hi
  | some a =>
      simp only [Outcome.followedBy, h]
      apply List.mem_append_left _ hi

theorem Extends.refl (r : Outcome ι α) :
  Extends r r
  := .inl rfl

theorem Extends.isPrefix {r r' : Outcome ι α} (h : Extends r r') :
  r.1 <+: r'.1
  := by
  rcases h with rfl | ⟨-, h⟩
  · apply List.prefix_refl
  · apply h

theorem Extends.value {r r' : Outcome ι α} (h : Extends r r') {a : α}
    (ha : r.2 = some a) :
  r'.2 = some a
  := by
  rcases h with rfl | ⟨hnone, -⟩
  · apply ha
  · rw [hnone] at ha
    cases ha

theorem Extends.followedBy {r r' : Outcome ι α} (h : Extends r r')
    {f f' : α → Outcome ι γ} (hf : ∀ a, Extends (f a) (f' a)) :
  Extends (r.followedBy f) (r'.followedBy f')
  := by
  obtain ⟨log, v⟩ := r
  rcases h with rfl | ⟨hnone, hlog⟩
  · cases v with
    | none => apply Extends.refl
    | some a =>
        rcases hf a with heq | ⟨hnone, hlog⟩
        · simp only [Outcome.followedBy, heq]
          apply Extends.refl
        · refine .inr ⟨hnone, ?_⟩
          apply (List.prefix_append_right_inj log).mpr hlog
  · obtain rfl : v = none := hnone
    refine .inr ⟨rfl, ?_⟩
    obtain ⟨log', v'⟩ := r'
    cases v' with
    | none => apply hlog
    | some a => apply hlog.trans (List.prefix_append log' _)

namespace Reader

instance : Monad (Reader ι β) where
  pure a := ⟨fun _ _ => ([], some a), fun _ _ => Extends.refl _⟩
  bind m f := ⟨fun fuel mem => (m.run fuel mem).followedBy (fun a => (f a).run fuel mem),
    fun mem hkl => (m.mono mem hkl).followedBy (fun a => (f a).mono mem hkl)⟩

/-- Read the place `i`. -/
def read (i : ι) : Reader ι β β where
  run _ mem := ([i], some (mem i))
  mono _ _ := Extends.refl _

/-- At most so many rounds of `step`, from `s` on, until a round returns a value. -/
def rounds (step : σ → Reader ι β (α ⊕ σ)) : ℕ → ℕ → (ι → β) → σ → Outcome ι α
  | 0, _, _, _ => ([], none)
  | n + 1, fuel, mem, s => ((step s).run fuel mem).followedBy (fun
    | .inl a => ([], some a)
    | .inr s' => rounds step n fuel mem s')

theorem rounds_mono (step : σ → Reader ι β (α ⊕ σ)) {m n k l : ℕ} (hmn : m ≤ n) (hkl : k ≤ l)
    (mem : ι → β) (s : σ) :
  Extends (rounds step m k mem s) (rounds step n l mem s)
  := by
  induction m generalizing n s with
  | zero => exact .inr ⟨rfl, List.nil_prefix⟩
  | succ m ih =>
      obtain ⟨n, rfl⟩ : ∃ n', n = n' + 1 := ⟨n - 1, by omega⟩
      apply ((step s).mono mem hkl).followedBy
      rintro (a | s')
      · apply Extends.refl
      · apply ih (by omega)

/-- Rounds of `step`, from `s` on, until one returns a value. -/
def loop (step : σ → Reader ι β (α ⊕ σ)) (s : σ) : Reader ι β α where
  run fuel mem := rounds step fuel fuel mem s
  mono mem hkl := rounds_mono step hkl hkl mem s

/-! ### What is read and returned -/

/-- The program returns `a`, given enough fuel. -/
def Returns (m : Reader ι β α) (mem : ι → β) (a : α) : Prop :=
  ∃ fuel, (m.run fuel mem).2 = some a

/-- The program reads the place `i`, given enough fuel. -/
def Reads (m : Reader ι β α) (mem : ι → β) (i : ι) : Prop :=
  ∃ fuel, i ∈ (m.run fuel mem).1

variable {m : Reader ι β α} {mem : ι → β}

theorem Returns.unique {a b : α} (ha : m.Returns mem a) (hb : m.Returns mem b) :
  a = b
  := by
  obtain ⟨k, hk⟩ := ha
  obtain ⟨l, hl⟩ := hb
  have hk' := (m.mono mem (Nat.le_max_left k l)).value hk
  have hl' := (m.mono mem (Nat.le_max_right k l)).value hl
  rw [hk'] at hl'
  apply Option.some.inj hl'

@[simp]
theorem returns_pure {a b : α} :
  (pure a : Reader ι β α).Returns mem b ↔ b = a
  := by
  constructor
  · rintro ⟨_, h⟩
    symm
    apply Option.some.inj h
  · rintro rfl
    exact ⟨0, rfl⟩

@[simp]
theorem reads_pure {a : α} {i : ι} :
  ¬ (pure a : Reader ι β α).Reads mem i
  := by
  rintro ⟨_, h⟩
  cases h

@[simp]
theorem returns_read {i : ι} {b : β} :
  (read i).Returns mem b ↔ b = mem i
  := by
  constructor
  · rintro ⟨_, h⟩
    symm
    apply Option.some.inj h
  · rintro rfl
    exact ⟨0, rfl⟩

@[simp]
theorem reads_read {i j : ι} :
  (read i : Reader ι β β).Reads mem j ↔ j = i
  := by
  constructor
  · rintro ⟨_, h⟩
    apply List.mem_singleton.mp h
  · rintro rfl
    exact ⟨0, List.mem_singleton_self j⟩

@[simp]
theorem returns_bind {f : α → Reader ι β γ} {b : γ} :
  (m >>= f).Returns mem b ↔ ∃ a, m.Returns mem a ∧ (f a).Returns mem b
  := by
  constructor
  · rintro ⟨fuel, h⟩
    cases hm : (m.run fuel mem).2 with
    | none => simp [bind, Outcome.followedBy, hm] at h
    | some a =>
        use a, ⟨fuel, hm⟩, fuel
        simpa [bind, Outcome.followedBy, hm] using h
  · rintro ⟨a, ⟨k, hk⟩, l, hl⟩
    use max k l
    have hk' := (m.mono mem (Nat.le_max_left k l)).value hk
    have hl' := ((f a).mono mem (Nat.le_max_right k l)).value hl
    simp [bind, Outcome.followedBy, hk', hl']

@[simp]
theorem reads_bind {f : α → Reader ι β γ} {i : ι} :
  (m >>= f).Reads mem i ↔ m.Reads mem i ∨ ∃ a, m.Returns mem a ∧ (f a).Reads mem i
  := by
  constructor
  · rintro ⟨fuel, h⟩
    cases hm : (m.run fuel mem).2 with
    | none =>
        left
        use fuel
        simpa [bind, Outcome.followedBy, hm] using h
    | some a =>
        have h' : i ∈ (m.run fuel mem).1 ∨ i ∈ ((f a).run fuel mem).1 := by
          simpa [bind, Outcome.followedBy, hm] using h
        rcases h' with h' | h'
        · exact .inl ⟨fuel, h'⟩
        · exact .inr ⟨a, ⟨fuel, hm⟩, fuel, h'⟩
  · rintro (⟨fuel, h⟩ | ⟨a, ⟨k, hk⟩, l, hl⟩)
    · use fuel
      cases hm : (m.run fuel mem).2 with
      | none => simpa [bind, Outcome.followedBy, hm] using h
      | some a =>
          simp only [bind, Outcome.followedBy, hm]
          apply List.mem_append_left _ h
    · use max k l
      have hk' := (m.mono mem (Nat.le_max_left k l)).value hk
      have hl' := ((f a).mono mem (Nat.le_max_right k l)).isPrefix.subset hl
      simp only [bind, Outcome.followedBy, hk']
      apply List.mem_append_right _ hl'

theorem returns_ite {c : Prop} [Decidable c] {m' : Reader ι β α} {a : α} :
  (if c then m else m').Returns mem a ↔ c ∧ m.Returns mem a ∨ ¬ c ∧ m'.Returns mem a
  := by
  split
  · next hc => simp [hc]
  · next hc => simp [hc]

/-- A round leads from one state of the loop to the next. -/
def Round (step : σ → Reader ι β (α ⊕ σ)) (mem : ι → β) (s s' : σ) : Prop :=
  (step s).Returns mem (.inr s')

/-- Rounds of the loop lead from `s` to `s'`. -/
abbrev Visits (step : σ → Reader ι β (α ⊕ σ)) (mem : ι → β) : σ → σ → Prop :=
  Relation.ReflTransGen (Round step mem)

variable {step : σ → Reader ι β (α ⊕ σ)}

theorem returns_of_rounds {n fuel : ℕ} {s : σ} {a : α}
    (h : (rounds step n fuel mem s).2 = some a) :
  ∃ s', Visits step mem s s' ∧ (step s').Returns mem (.inl a)
  := by
  induction n generalizing s with
  | zero => cases h
  | succ n ih =>
      cases hs : ((step s).run fuel mem).2 with
      | none => simp [rounds, Outcome.followedBy, hs] at h
      | some r =>
          cases r with
          | inl b =>
              have hb : b = a := by simpa [rounds, Outcome.followedBy, hs] using h
              exact ⟨s, .refl, fuel, by rw [hs, hb]⟩
          | inr s₁ =>
              have h₁ : (rounds step n fuel mem s₁).2 = some a := by
                simpa [rounds, Outcome.followedBy, hs] using h
              obtain ⟨s', hvisits, hreturns⟩ := ih h₁
              exact ⟨s', .head ⟨fuel, hs⟩ hvisits, hreturns⟩

theorem reads_of_rounds {n fuel : ℕ} {s : σ} {i : ι} (h : i ∈ (rounds step n fuel mem s).1) :
  ∃ s', Visits step mem s s' ∧ (step s').Reads mem i
  := by
  induction n generalizing s with
  | zero => cases h
  | succ n ih =>
      cases hs : ((step s).run fuel mem).2 with
      | none =>
          have hi : i ∈ ((step s).run fuel mem).1 := by
            simpa [rounds, Outcome.followedBy, hs] using h
          exact ⟨s, .refl, fuel, hi⟩
      | some r =>
          cases r with
          | inl b =>
              have hi : i ∈ ((step s).run fuel mem).1 := by
                simpa [rounds, Outcome.followedBy, hs] using h
              exact ⟨s, .refl, fuel, hi⟩
          | inr s₁ =>
              have h' : i ∈ ((step s).run fuel mem).1 ∨ i ∈ (rounds step n fuel mem s₁).1 := by
                simpa [rounds, Outcome.followedBy, hs] using h
              rcases h' with hi | hi
              · exact ⟨s, .refl, fuel, hi⟩
              · obtain ⟨s', hvisits, hreads⟩ := ih hi
                exact ⟨s', .head ⟨fuel, hs⟩ hvisits, hreads⟩

/-- A loop returns what one of the rounds it reaches returns. -/
theorem returns_loop {s : σ} {a : α} :
  (loop step s).Returns mem a ↔
    ∃ s', Visits step mem s s' ∧ (step s').Returns mem (.inl a)
  := by
  constructor
  · rintro ⟨_, h⟩
    apply returns_of_rounds h
  · rintro ⟨s', hvisits, k, hk⟩
    induction hvisits using Relation.ReflTransGen.head_induction_on with
    | refl =>
        use k + 1
        have hk' := ((step s').mono mem (Nat.le_succ k)).value hk
        simp [loop, rounds, Outcome.followedBy, hk']
    | @head s s₁ hround _ ih =>
        obtain ⟨l, hl⟩ := ih
        obtain ⟨j, hj⟩ := hround
        use max j l + 1
        have hj' := ((step s).mono mem (show j ≤ max j l + 1 by omega)).value hj
        have hl' := (rounds_mono step (show l ≤ max j l by omega)
          (show l ≤ max j l + 1 by omega) mem s₁).value hl
        simp [loop, rounds, Outcome.followedBy, hj', hl']

/-- A loop returns what its first round returns. -/
theorem returns_loop_of_inl {s : σ} {a : α} (h : (step s).Returns mem (.inl a)) :
  (loop step s).Returns mem a
  := returns_loop.mpr ⟨s, .refl, h⟩

/-- A loop returns what it returns from its second round on. -/
theorem returns_loop_of_round {s s' : σ} {a : α} (hround : Round step mem s s')
    (h : (loop step s').Returns mem a) :
  (loop step s).Returns mem a
  := by
  obtain ⟨s'', hvisits, hreturns⟩ := returns_loop.mp h
  exact returns_loop.mpr ⟨s'', .head hround hvisits, hreturns⟩

/-- A loop reads what the rounds it reaches read. -/
theorem reads_loop {s : σ} {i : ι} :
  (loop step s).Reads mem i ↔ ∃ s', Visits step mem s s' ∧ (step s').Reads mem i
  := by
  constructor
  · rintro ⟨_, h⟩
    apply reads_of_rounds h
  · rintro ⟨s', hvisits, k, hk⟩
    induction hvisits using Relation.ReflTransGen.head_induction_on with
    | refl =>
        use k + 1
        have hk' := ((step s').mono mem (Nat.le_succ k)).isPrefix.subset hk
        simp only [loop, rounds]
        apply Outcome.subset_followedBy hk'
    | @head s s₁ hround _ ih =>
        obtain ⟨l, hl⟩ := ih
        obtain ⟨j, hj⟩ := hround
        use max j l + 1
        have hj' := ((step s).mono mem (show j ≤ max j l + 1 by omega)).value hj
        have hl' := (rounds_mono step (show l ≤ max j l by omega)
          (show l ≤ max j l + 1 by omega) mem s₁).isPrefix.subset hl
        simp only [loop, rounds, Outcome.followedBy, hj']
        apply List.mem_append_right _ hl'

/-! ### Programs without loops -/

/-- Whatever the fuel, the program reads the places `log` and returns `a`. -/
def Yields (m : Reader ι β α) (mem : ι → β) (log : List ι) (a : α) : Prop :=
  ∀ fuel, m.run fuel mem = (log, some a)

theorem yields_read (i : ι) :
  (read i : Reader ι β β).Yields mem [i] (mem i)
  := fun _ => rfl

theorem Yields.bind {log log' : List ι} {a : α} {b : γ} (h : m.Yields mem log a)
    {f : α → Reader ι β γ} (hf : (f a).Yields mem log' b) :
  (m >>= f).Yields mem (log ++ log') b
  := by
  intro fuel
  simp only [Bind.bind, Outcome.followedBy, h fuel, hf fuel]

theorem Yields.returns {log : List ι} {a b : α} (h : m.Yields mem log a) :
  m.Returns mem b ↔ b = a
  := by
  constructor
  · rintro ⟨fuel, hb⟩
    rw [h fuel] at hb
    symm
    apply Option.some.inj hb
  · rintro rfl
    exact ⟨0, by rw [h 0]⟩

theorem Yields.reads {log : List ι} {a : α} (h : m.Yields mem log a) {i : ι} :
  m.Reads mem i ↔ i ∈ log
  := by
  constructor
  · rintro ⟨fuel, hi⟩
    rw [h fuel] at hi
    apply hi
  · intro hi
    exact ⟨0, by rw [h 0]; apply hi⟩

/-! ### Reading within bounds -/

/-- The program reads places in `S` only, and what it returns satisfies `Q`. -/
def Within (S : ι → Prop) (m : Reader ι β α) (mem : ι → β) (Q : α → Prop) : Prop :=
  (∀ i, m.Reads mem i → S i) ∧ ∀ a, m.Returns mem a → Q a

variable {S : ι → Prop} {Q : α → Prop}

theorem Within.mono {Q' : α → Prop} (h : Within S m mem Q)
    (hQ : ∀ a, m.Returns mem a → Q a → Q' a) :
  Within S m mem Q'
  := ⟨h.1, fun a ha => hQ a ha (h.2 a ha)⟩

@[simp]
theorem within_pure {a : α} :
  Within S (pure a : Reader ι β α) mem Q ↔ Q a
  := by
  simp [Within]

@[simp]
theorem within_read {i : ι} {Q : β → Prop} :
  Within S (read i) mem Q ↔ S i ∧ Q (mem i)
  := by
  simp [Within]

@[simp]
theorem within_bind {f : α → Reader ι β γ} {Q : γ → Prop} :
  Within S (m >>= f) mem Q ↔ Within S m mem (fun a => Within S (f a) mem Q)
  := by
  simp only [Within, reads_bind, returns_bind]
  constructor
  · rintro ⟨hreads, hreturns⟩
    refine ⟨fun i hi => hreads i (.inl hi), fun a ha => ⟨?_, ?_⟩⟩
    · intro i hi
      apply hreads i (.inr ⟨a, ha, hi⟩)
    · intro b hb
      apply hreturns b ⟨a, ha, hb⟩
  · rintro ⟨hreads, hrest⟩
    constructor
    · rintro i (hi | ⟨a, ha, hi⟩)
      · apply hreads i hi
      · apply (hrest a ha).1 i hi
    · rintro b ⟨a, ha, hb⟩
      apply (hrest a ha).2 b hb

@[simp]
theorem within_ite {c : Prop} [Decidable c] {m' : Reader ι β α} :
  Within S (if c then m else m') mem Q ↔
    (c → Within S m mem Q) ∧ (¬ c → Within S m' mem Q)
  := by
  split
  · next hc => simp [hc]
  · next hc => simp [hc]

theorem Yields.within {log : List ι} {a : α} (h : m.Yields mem log a) :
  Within S m mem Q ↔ (∀ i ∈ log, S i) ∧ Q a
  := by
  simp only [Within, h.reads, h.returns, forall_eq]

/-- A loop reads within `S` exactly when every round it reaches does. -/
theorem within_loop {s : σ} :
  Within S (loop step s) mem Q ↔
    ∀ s', Visits step mem s s' →
      Within S (step s') mem (fun r => ∀ a, r = .inl a → Q a)
  := by
  simp only [Within, reads_loop, returns_loop]
  constructor
  · rintro ⟨hreads, hreturns⟩ s' hvisits
    constructor
    · intro i hi
      apply hreads i ⟨s', hvisits, hi⟩
    · rintro r hr a rfl
      apply hreturns a ⟨s', hvisits, hr⟩
  · intro h
    constructor
    · rintro i ⟨s', hvisits, hi⟩
      apply (h s' hvisits).1 i hi
    · rintro a ⟨s', hvisits, ha⟩
      apply (h s' hvisits).2 _ ha a rfl

/-! ### Reading another memory -/

section

variable {ι' β' : Type} {place : ι → ι'} {value : ι → β' → β} {mem' : ι' → β'}

/-- The memory that shows at `i` what `value i` makes of the place `place i` of another. -/
def view (place : ι → ι') (value : ι → β' → β) (mem' : ι' → β') : ι → β :=
  fun i => value i (mem' (place i))

/-- The program `m` on a view of another memory. Reading a place of the view is reading the
place it shows. -/
def via (place : ι → ι') (value : ι → β' → β) (m : Reader ι β α) : Reader ι' β' α where
  run fuel mem' := ((m.run fuel (view place value mem')).1.map place,
    (m.run fuel (view place value mem')).2)
  mono mem' hkl := by
    rcases m.mono (view place value mem') hkl with heq | ⟨hnone, hlog⟩
    · exact .inl (by rw [heq])
    · exact .inr ⟨hnone, hlog.map place⟩

theorem reads_via {j : ι'} :
  (m.via place value).Reads mem' j ↔ ∃ i, m.Reads (view place value mem') i ∧ place i = j
  := by
  constructor
  · rintro ⟨fuel, hj⟩
    obtain ⟨i, hi, heq⟩ := List.mem_map.mp hj
    exact ⟨i, ⟨fuel, hi⟩, heq⟩
  · rintro ⟨i, ⟨fuel, hi⟩, heq⟩
    exact ⟨fuel, List.mem_map.mpr ⟨i, hi, heq⟩⟩

theorem returns_via {a : α} :
  (m.via place value).Returns mem' a ↔ m.Returns (view place value mem') a
  := Iff.rfl

theorem within_via {S : ι' → Prop} {Q : α → Prop} :
  Within S (m.via place value) mem' Q ↔
    Within (fun i => S (place i)) m (view place value mem') Q
  := by
  simp only [Within, returns_via, reads_via]
  apply and_congr_left'
  constructor
  · intro h i hi
    exact h (place i) ⟨i, hi, rfl⟩
  · rintro h _ ⟨i, hi, rfl⟩
    exact h i hi

end

end Reader
