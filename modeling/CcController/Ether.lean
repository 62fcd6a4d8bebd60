import CcController.BufferMemory

/-!
# Ethernet frames

`fillEtherPadding` brings a frame to the shortest length. What it clears is the start of the
frame, since `appendBackBuffer` returns the start of the data, and the length it leaves
counts the padding twice. Short frames are therefore not padded, except by chance: when there
is no memory for a longer block, but room behind the frame, and the bytes are zero that the
frame and its padding need to be (`fill_ether_padding_iff`).
-/

namespace CcController

abbrev ethFcsLength : UInt64 := 4
abbrev ethMinimumLength : UInt64 := 64

/-- The shortest frame without its check sequence. -/
abbrev shortest : ℕ := 60

open BufferMemory in
def fillEtherPadding (buf : ℕ) : BufferAction UInt16 := do
  let cell ← readBuffer (some buf)
  if cell.length + ethFcsLength < ethMinimumLength then do
    let paddingLength := ethMinimumLength - cell.length - ethFcsLength
    let padding ← appendBackBuffer buf paddingLength
    clear padding paddingLength
    pure paddingLength.toUInt16
  else pure 0

namespace BufferMemory

variable {w : BufferMemory} {buf : ℕ} {pre s post : List UInt8}

/-- The buffer holds the frame `s`, with `post` behind it in its block. The empty frame needs
no block. -/
def Carries (w : BufferMemory) (buf : ℕ) (s post : List UInt8) : Prop :=
  (∃ pre, w.Lies buf pre s post) ∨
    s = [] ∧ ∃ cell, w.buffers.cells buf = some cell ∧ cell.length = 0

/-- A short frame has been filled up with zero bytes, and the number of these returned; a
longer one has been left alone. -/
def Padded (w : BufferMemory) (buf : ℕ) (s : List UInt8) (ret : UInt16) (w' : BufferMemory) :
    Prop :=
  if s.length < shortest then
    ret.toNat = shortest - s.length ∧
      w'.Holds buf (s ++ List.replicate (shortest - s.length) 0)
  else ret = 0 ∧ w' = w

/-- The frame begins with as many zero bytes as it is too short, and the bytes of a filled up
frame that lie behind both these and the frame are there and zero. -/
def ZeroAnyway (s post : List UInt8) : Prop :=
  (∀ i < shortest - s.length, ∀ b, s[i]? = some b → b = 0) ∧
    ∀ i < shortest, shortest - s.length ≤ i → s.length ≤ i → (s ++ post)[i]? = some 0

/-- Clearing the first `n` bytes of a frame makes a filled up frame only if these and those
that the padding would be at are zero anyway. -/
theorem cleared_iff {n : ℕ} (hn : n + s.length = shortest) :
  s ++ List.replicate n 0 <+: List.replicate n 0 ++ (s ++ post).drop n ↔ ZeroAnyway s post
  := by
  have hlength : (s ++ List.replicate n 0).length = shortest := by
    simp only [List.length_append, List.length_replicate]
    omega
  have hsub : shortest - s.length = n := by omega
  -- the byte at `i` of either list
  have hleft : ∀ i < shortest, (s ++ List.replicate n 0)[i]? = some ((s[i]?).getD 0) := by
    intro i hi
    rcases Nat.lt_or_ge i s.length with hlt | hge
    · simp [List.getElem?_append_left hlt, hlt]
    · rw [List.getElem?_append_right hge, List.getElem?_replicate, if_pos (by omega),
        List.getElem?_eq_none hge]
      rfl
  have hright : ∀ i, (List.replicate n 0 ++ (s ++ post).drop n)[i]?
      = if i < n then some 0 else (s ++ post)[i]? := by
    intro i
    split
    · next hlt =>
        rw [List.getElem?_append_left (by simpa using hlt), List.getElem?_replicate, if_pos hlt]
    · next hge =>
        rw [List.getElem?_append_right (by simpa using hge), List.getElem?_drop,
          List.length_replicate, Nat.add_sub_cancel' (by omega)]
  have hbegins : s ++ List.replicate n 0 <+: List.replicate n 0 ++ (s ++ post).drop n ↔
      ∀ i < shortest, (List.replicate n 0 ++ (s ++ post).drop n)[i]?
        = (s ++ List.replicate n 0)[i]? := by
    rw [List.prefix_iff_getElem?]
    constructor
    · intro h i hi
      rw [h i (by omega), List.getElem?_eq_getElem]
    · intro h i hi
      rw [h i (by omega), List.getElem?_eq_getElem]
  rw [hbegins, ZeroAnyway, hsub]
  constructor
  · intro h
    constructor
    · intro i hi b hb
      have hlt : i < s.length := (List.getElem?_eq_some_iff.mp hb).1
      have heq := h i (by omega)
      rw [hleft i (by omega), hright, if_pos hi, hb] at heq
      exact (Option.some.inj heq).symm
    · intro i hi hni hsi
      have heq := h i hi
      rw [hleft i hi, hright, if_neg (by omega), List.getElem?_eq_none hsi] at heq
      exact heq
  · rintro ⟨hs, hpost⟩ i hi
    rw [hleft i hi, hright]
    split
    · next hlt =>
        cases hb : s[i]? with
        | none => rfl
        | some b =>
            rw [hs i hlt b hb]
            rfl
    · next hge =>
        rcases Nat.lt_or_ge i s.length with hlt | hsi
        · rw [List.getElem?_append_left hlt, List.getElem?_eq_getElem hlt]
          rfl
        · rw [hpost i hi (by omega) hsi, List.getElem?_eq_none hsi]
          rfl

/-! ### Padding -/

/-- The length of a short frame, and what it lacks. -/
theorem short_length {cell : BufferCell} (hlen : cell.length.toNat = s.length)
    (hshort : s.length < shortest) :
  cell.length + ethFcsLength < ethMinimumLength ∧
    (ethMinimumLength - cell.length - ethFcsLength).toNat = shortest - s.length
  := by
  have h4 : ethFcsLength.toNat = 4 := rfl
  have h64 : ethMinimumLength.toNat = 64 := rfl
  have h60 : shortest = 60 := rfl
  rw [← hlen] at hshort ⊢
  constructor
  · rw [UInt64.lt_iff_toNat_lt, UInt64.toNat_add]
    omega
  · rw [UInt64.toNat_sub, UInt64.toNat_sub]
    omega

/-- The empty frame is left as it is: what is allocated belongs to another buffer. -/
theorem not_padded_empty {cell : BufferCell} (hcell : w.buffers.cells buf = some cell)
    (hzero : cell.length = 0) :
  ¬ Program.Reaches (fillEtherPadding buf) w (Padded w buf [])
  := by
  intro h
  have h := (ends_readBuffer hcell).mp (Program.ends_bind.mp h)
  have hlen : cell.length.toNat = ([] : List UInt8).length := by rw [hzero]; rfl
  obtain ⟨hshort, -⟩ := short_length hlen (by decide)
  rw [if_pos hshort] at h
  have h := (ends_readBuffer hcell).mp (Program.ends_bind.mp (Program.ends_bind.mp h))
  rw [if_pos hzero, hzero] at h
  obtain ⟨-, hsome, hnone⟩ := reaches_allocBufferWithLength.mp (Program.ends_bind.mp h)
  cases hdata : w.mallocs 1 with
  | none =>
      have h := Program.ends_bind.mp (hnone (Or.inl hdata))
      have h := (ends_readBuffer (withRecord_new (w.drawn 2) _)).mp h
      rw [Program.ends_pure] at h
      obtain ⟨_, hstore, -⟩ := reaches_clear.mp (Program.ends_bind.mp h)
      cases hstore
  | some bytes =>
      have h := Program.ends_bind.mp (hsome bytes hdata (by decide))
      have h := (ends_readBuffer (withBuffer_new (w.drawn 2) _ _)).mp h
      rw [Program.ends_pure] at h
      obtain ⟨_, -, h⟩ := reaches_clear.mp (Program.ends_bind.mp h)
      rw [Program.ends_pure, Padded, if_pos (by decide)] at h
      have hlength := h.2.length_eq (withRecord_old (w := w.drawn 2) hcell)
      rw [hzero] at hlength
      cases hlength

/-- A frame that is not short is left alone. -/
theorem padded_long {cell : BufferCell} (hcell : w.buffers.cells buf = some cell)
    (hlen : cell.length.toNat = s.length) (hmax : s.length ≤ ptrdiffMax)
    (hlong : shortest ≤ s.length) :
  Program.Reaches (fillEtherPadding buf) w (Padded w buf s)
  := by
  have hnot : ¬ cell.length + ethFcsLength < ethMinimumLength := by
    have h4 : ethFcsLength.toNat = 4 := rfl
    have h64 : ethMinimumLength.toNat = 64 := rfl
    have h60 : shortest = 60 := rfl
    simp only [ptrdiffMax] at hmax
    rw [UInt64.lt_iff_toNat_lt, UInt64.toNat_add]
    omega
  apply Program.ends_bind.mpr
  apply (ends_readBuffer hcell).mpr
  rw [if_neg hnot, Program.ends_pure, Padded, if_neg (by omega)]
  exact ⟨rfl, rfl⟩

/-- The record after the block has been replaced by a longer one. -/
def grownCell (w : BufferMemory) (cell : BufferCell) (newLength : UInt64) : BufferCell where
  data := some (Pointer.add ⟨w.blocks.limit, 0⟩ (frontLengthOf cell))
  top := some ⟨w.blocks.limit, 0⟩
  tail := some (Pointer.add ⟨w.blocks.limit, 0⟩ (newLength - 1))
  length := newLength

/-- Growing a block at the back, when it returns, has replaced it, or there is no memory and
nothing else has changed. -/
theorem of_reaches_appendBack {cell : BufferCell} (hcell : w.buffers.cells buf = some cell)
    {length : UInt64} {Q : Option ℕ → BufferMemory → Prop}
    (h : Program.Reaches (appendBack buf length) w Q) :
  let newLength := frontLengthOf cell + cell.length + length
  (∃ r w', w'.buffers.cells buf = some (grownCell w cell newLength) ∧ Q r w') ∨
    (w.mallocs 0 = none ∨ ptrdiffMax < newLength.toNat) ∧ Q none (w.drawn 1)
  := by
  intro newLength
  have h := (ends_readBuffer hcell).mp (Program.ends_bind.mp h)
  obtain ⟨hsome, hnone⟩ := ends_mallocData.mp (Program.ends_bind.mp h)
  by_cases hnull : w.mallocs 0 = none ∨ ptrdiffMax < newLength.toNat
  · exact Or.inr ⟨hnull, hnone hnull⟩
  · rw [not_or, not_lt] at hnull
    obtain ⟨bytes, hbytes⟩ := Option.ne_none_iff_exists'.mp hnull.1
    have h := Program.ends_bind.mp (hsome bytes hbytes hnull.2)
    obtain ⟨_, blocks, -, -, h⟩ := reaches_copy.mp h
    obtain ⟨blocks, -, h⟩ := reaches_freeData.mp (Program.ends_bind.mp h)
    have h := (ends_writeBuffer (w := ⟨w.buffers, blocks, _⟩) hcell).mp (Program.ends_bind.mp h)
    rw [Program.ends_pure] at h
    exact Or.inl ⟨_, _, Heap.set_cells_self _ hcell, h⟩

theorem reaches_appendBack_none {cell : BufferCell} (hcell : w.buffers.cells buf = some cell)
    {length : UInt64} (hnull : w.mallocs 0 = none) {Q : Option ℕ → BufferMemory → Prop}
    (hQ : Q none (w.drawn 1)) :
  Program.Reaches (appendBack buf length) w Q
  := by
  apply Program.ends_bind.mpr
  apply (ends_readBuffer hcell).mpr
  apply Program.ends_bind.mpr
  apply ends_mallocData.mpr
  constructor
  · intro bytes hbytes
    rw [hnull] at hbytes
    cases hbytes
  · intro _
    exact hQ

/-- There is never room in a block for what is to be appended. -/
theorem Lies.not_alreadyAllocated {cell : BufferCell} (h : w.Lies buf pre s post)
    (hcell : w.buffers.cells buf = some cell) {n : UInt64} (hpos : 0 < n.toNat)
    (hn : n.toNat ≤ shortest) :
  (frontLengthOf cell + cell.length + n).toNat = pre.length + s.length + n.toNat ∧
    ¬ alreadyAllocated cell n
  := by
  have hpre := h.front_toNat
  have hs := h.length_toNat
  obtain ⟨cell', block, hcell', htop, hdata, hlen, -, hle⟩ := h
  obtain rfl := Option.some.inj (hcell.symm.trans hcell')
  have h60 : shortest = 60 := rfl
  simp only [List.length_append, ptrdiffMax] at hle
  have hfront : frontLengthOf cell = .ofNat pre.length := by
    simp [frontLengthOf, hdata, htop]
  have hsum : (frontLengthOf cell + cell.length + n).toNat
      = pre.length + s.length + n.toNat := by
    rw [UInt64.toNat_add, UInt64.toNat_add, hfront, hlen, hpre, hs]
    omega
  use hsum
  simp only [alreadyAllocated, decide_eq_true_eq, ge_iff_le, UInt64.le_iff_toNat_le]
  rw [hsum, hlen, hs]
  omega

/-- Without a longer block, the frame is padded when its block has room and the bytes are
zero that matter. -/
theorem holds_cleared_iff (h : w.Lies buf pre s post) {cell : BufferCell}
    (hcell : w.buffers.cells buf = some cell) (hs : s ≠ []) (hshort : s.length < shortest)
    {n : UInt64} (hn : n.toNat = shortest - s.length)
    (mallocs : ℕ → Option (ℕ → UInt8)) :
  (∃ blocks, w.blocks.store cell.data (List.replicate n.toNat 0) = .ok blocks ∧
    Holds ⟨w.buffers.set buf { cell with length := cell.length + n }, blocks, mallocs⟩ buf
      (s ++ List.replicate (shortest - s.length) 0)) ↔
    ZeroAnyway s post
  := by
  have hpre := h.front_toNat
  obtain ⟨cell', block, hcell', htop, hdata, hlen, hblock, hle⟩ := h
  obtain rfl := Option.some.inj (hcell.symm.trans hcell')
  have h60 : shortest = 60 := rfl
  have hblock' : w.blocks.cells block = some (pre ++ (s ++ post)) := by
    rw [hblock, List.append_assoc]
  have hstore := Blocks.store_behind (p := ⟨block, .ofNat pre.length⟩) hblock' hpre
    (List.replicate n.toNat 0)
  rw [List.length_replicate, ← hdata] at hstore
  have hpos : 0 < s.length := List.length_pos_iff.mpr hs
  have hmany : n.toNat + s.length = shortest := by omega
  rw [hstore, ← hn, ← cleared_iff hmany]
  constructor
  · rintro ⟨blocks, hok, pre', post', hlies₂⟩
    have hpre₂ := hlies₂.front_toNat
    obtain ⟨cell₂, block₂, hcell₂, -, hdata₂, -, hblock₂, -⟩ := hlies₂
    split at hok
    · obtain rfl := Except.ok.inj hok
      obtain rfl := Option.some.inj ((Heap.set_cells_self _ hcell).symm.trans hcell₂)
      have hpointer := Option.some.inj (hdata.symm.trans hdata₂)
      obtain rfl : block = block₂ := congrArg Pointer.block hpointer
      have hoffset : UInt64.ofNat pre.length = .ofNat pre'.length :=
        congrArg Pointer.offset hpointer
      have hsame := Option.some.inj ((Heap.set_cells_self _ hblock).symm.trans hblock₂)
      rw [List.append_assoc, List.append_assoc] at hsame
      obtain ⟨-, hrest⟩ := List.append_inj hsame (by rw [← hpre, ← hpre₂, hoffset])
      exact ⟨post', hrest.symm⟩
    · cases hok
  · rintro ⟨post', hrest⟩
    have hlen' := congrArg List.length hrest
    simp only [List.length_append, List.length_replicate, List.length_drop] at hlen' hle
    have hroom : n.toNat ≤ (s ++ post).length := by
      rw [List.length_append]
      omega
    refine ⟨_, if_pos hroom, pre, post', _, block, Heap.set_cells_self _ hcell, htop, hdata,
      ?_, ?_, ?_⟩
    · rw [List.length_append, List.length_replicate, UInt64.ofNat_add, UInt64.ofNat_toNat, hlen]
    · apply Eq.trans (Heap.set_cells_self _ hblock)
      rw [List.append_assoc pre, List.append_assoc pre, hrest]
    · simp only [List.length_append, List.length_replicate]
      omega

/-- What the frame's bytes have to be leaves room for the padding. -/
theorem ZeroAnyway.room (h : ZeroAnyway s post) (hs : s ≠ []) (hshort : s.length < shortest) :
  shortest - s.length ≤ post.length
  := by
  have hpos : 0 < s.length := List.length_pos_iff.mpr hs
  have h60 : shortest = 60 := rfl
  have hlast := h.2 (shortest - 1) (by omega) (by omega) (by omega)
  have hlt := (List.getElem?_eq_some_iff.mp hlast).1
  rw [List.length_append] at hlt
  omega

/-- What is left to do for a short frame once its block has been replaced, or not. -/
def clearBack (buf : ℕ) (n : UInt64) : BufferAction UInt16 := do
  let cell ← readBuffer (some buf)
  writeBuffer (some buf) { cell with length := cell.length + n }
  clear cell.data n
  pure n.toUInt16

theorem reaches_clearBack {cell : BufferCell} (hcell : w.buffers.cells buf = some cell)
    {n : UInt64} {Q : UInt16 → BufferMemory → Prop} :
  Program.Reaches (clearBack buf n) w Q ↔
    ∃ blocks, w.blocks.store cell.data (List.replicate n.toNat 0) = .ok blocks ∧
      Q n.toUInt16
        ⟨w.buffers.set buf { cell with length := cell.length + n }, blocks, w.mallocs⟩
  := by
  apply Program.ends_bind.trans
  apply (ends_readBuffer hcell).trans
  apply Program.ends_bind.trans
  apply (ends_writeBuffer hcell).trans
  apply Program.ends_bind.trans
  exact reaches_clear

/-- A short frame of at least a byte for which there is no room has its block replaced by a
longer one, and its bytes cleared whether that has been done or not. -/
theorem reaches_short {cell : BufferCell} (hcell : w.buffers.cells buf = some cell)
    (hlt : cell.length + ethFcsLength < ethMinimumLength) (hnonzero : cell.length ≠ 0)
    (hroom : ¬ alreadyAllocated cell (ethMinimumLength - cell.length - ethFcsLength))
    {Q : UInt16 → BufferMemory → Prop} :
  Program.Reaches (fillEtherPadding buf) w Q ↔
    Program.Reaches (appendBack buf (ethMinimumLength - cell.length - ethFcsLength)) w
      fun _ w' => Program.Reaches
        (clearBack buf (ethMinimumLength - cell.length - ethFcsLength)) w' Q
  := by
  apply Program.ends_bind.trans
  apply (ends_readBuffer hcell).trans
  rw [if_pos hlt]
  apply Program.ends_bind.trans
  apply Program.ends_bind.trans
  apply (ends_readBuffer hcell).trans
  rw [if_neg hnonzero, makeBack, if_pos hroom]
  simp only [clearBack, Program.Reaches, Program.ends_bind, Program.ends_pure]

/-- A short frame of at least a byte is padded only by chance. -/
theorem padded_short (h : w.Lies buf pre s post) (hs : s ≠ []) (hshort : s.length < shortest) :
  Program.Reaches (fillEtherPadding buf) w (Padded w buf s) ↔
    w.mallocs 0 = none ∧ ZeroAnyway s post
  := by
  have hlies := h
  have hlength := h.length_toNat
  obtain ⟨cell, block, hcell, htop, hdata, hlen, hblock, hle⟩ := h
  rw [← hlen] at hlength
  obtain ⟨hlt, hn⟩ := short_length hlength hshort
  have hnonzero : cell.length ≠ 0 := by
    intro hzero
    rw [hzero] at hlength
    exact hs (List.eq_nil_of_length_eq_zero hlength.symm)
  obtain ⟨hnew, hroom⟩ := hlies.not_alreadyAllocated hcell
    (n := ethMinimumLength - cell.length - ethFcsLength) (by omega) (by omega)
  have hcleared := holds_cleared_iff hlies hcell hs hshort hn (w.drawn 1).mallocs
  have h60 : shortest = 60 := rfl
  simp only [List.length_append, ptrdiffMax] at hle
  rw [reaches_short hcell hlt hnonzero hroom]
  constructor
  · intro h
    rcases of_reaches_appendBack hcell h with ⟨r, w', hcell', h⟩ | ⟨hnull, h⟩
    · -- the length counts the padding twice
      obtain ⟨blocks, -, h⟩ := (reaches_clearBack hcell').mp h
      rw [Padded, if_pos hshort] at h
      have hlast : (frontLengthOf cell + cell.length +
          (ethMinimumLength - cell.length - ethFcsLength) +
          (ethMinimumLength - cell.length - ethFcsLength)).toNat = _ :=
        h.2.length_eq (Heap.set_cells_self _ hcell')
      rw [UInt64.toNat_add, hnew, hn, List.length_append, List.length_replicate] at hlast
      omega
    · obtain ⟨blocks, hstore, h⟩ := (reaches_clearBack (w := w.drawn 1) hcell).mp h
      rw [Padded, if_pos hshort] at h
      have hzero := hcleared.mp ⟨blocks, hstore, h.2⟩
      have hpost := hzero.room hs hshort
      refine ⟨hnull.resolve_right ?_, hzero⟩
      rw [ptrdiffMax]
      omega
  · rintro ⟨hnull, hzero⟩
    obtain ⟨blocks, hstore, hholds⟩ := hcleared.mpr hzero
    apply reaches_appendBack_none hcell hnull
    apply (reaches_clearBack (w := w.drawn 1) hcell).mpr
    use blocks, hstore
    rw [Padded, if_pos hshort]
    refine ⟨?_, hholds⟩
    rw [UInt64.toNat_toUInt16, hn]
    omega

/-- A frame that is not short is left alone, and a shorter one is padded only by chance. -/
theorem fill_ether_padding_iff (h : w.Carries buf s post) :
  Program.Reaches (fillEtherPadding buf) w (Padded w buf s) ↔
    shortest ≤ s.length ∨ s ≠ [] ∧ w.mallocs 0 = none ∧ ZeroAnyway s post
  := by
  by_cases hs : s = []
  · subst hs
    obtain ⟨cell, hcell, hzero⟩ : ∃ cell, w.buffers.cells buf = some cell ∧ cell.length = 0 := by
      rcases h with ⟨pre, cell, block, hcell, -, -, hlen, -⟩ | ⟨-, hempty⟩
      · exact ⟨cell, hcell, hlen⟩
      · exact hempty
    have hnot := not_padded_empty hcell hzero
    constructor
    · intro hreaches
      exact absurd hreaches hnot
    · rintro (hlong | ⟨hne, -⟩)
      · cases hlong
      · exact absurd rfl hne
  · obtain ⟨pre, hlies⟩ : ∃ pre, w.Lies buf pre s post := by
      rcases h with hlies | ⟨hempty, -⟩
      · exact hlies
      · exact absurd hempty hs
    rcases Nat.lt_or_ge s.length shortest with hshort | hlong
    · rw [padded_short hlies hs hshort]
      constructor
      · intro hzero
        exact Or.inr ⟨hs, hzero⟩
      · rintro (hlong | ⟨-, hzero⟩)
        · omega
        · exact hzero
    · have hlength := hlies.length_toNat
      obtain ⟨cell, block, hcell, -, -, hlen, -, hle⟩ := hlies
      rw [← hlen] at hlength
      simp only [List.length_append] at hle
      have hpadded := padded_long hcell hlength (by omega) hlong
      constructor
      · intro _
        exact Or.inl hlong
      · intro _
        exact hpadded

theorem fill_ether_padding_two :
  Program.Reaches (fillEtherPadding 0) (filled [1, 2]) (Padded (filled [1, 2]) 0 [1, 2]) ↔
    shortest ≤ [1, 2].length ∨
      [(1 : UInt8), 2] ≠ [] ∧ (filled [1, 2]).mallocs 0 = none ∧ ZeroAnyway [1, 2] []
  := by
  have hlies : (filled [1, 2]).Lies 0 [] [1, 2] [] := lies_filled (by decide)
  exact fill_ether_padding_iff (Or.inl ⟨[], hlies⟩)

/-- The first bytes of a frame of two are cleared, and its length comes to 118. -/
theorem fill_ether_padding_clears :
  ¬ Program.Reaches (fillEtherPadding 0) (filled [1, 2]) (Padded (filled [1, 2]) 0 [1, 2])
  := by
  intro h
  have hlies : (filled [1, 2]).Lies 0 [] [1, 2] [] := lies_filled (by decide)
  obtain ⟨hnull, -⟩ := (padded_short hlies (by decide) (by decide)).mp h
  cases hnull

end BufferMemory

end CcController
