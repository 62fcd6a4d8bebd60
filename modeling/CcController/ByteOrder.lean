import CcController.Lib.Reader

/-!
# Reading the fields of a message

A message is read from the memory its data pointer points to; a place in it is an index from
that pointer on. Memory goes on after the message: reading past the end finds some byte.

The `ntoh` functions copy a structure out of a message, field by field. Their footprints are
the fields they copy and not the padding between these.
-/

namespace CcController

abbrev MessageReader := Reader ℕ UInt8

/-- The bytes of a message and what follows it in memory. -/
abbrev Memory := ℕ → UInt8

/-! ### Numbers in network order -/

def be16 (mem : Memory) (p : ℕ) : UInt16 :=
  UInt16.ofNat ((mem p).toNat * 256 + (mem (p + 1)).toNat)

def be32 (mem : Memory) (p : ℕ) : UInt32 :=
  UInt32.ofNat ((be16 mem p).toNat * 65536 + (be16 mem (p + 2)).toNat)

/-- `ntohs` of the 16-bit field at `p`. Whatever the byte order of the host, this is the
number whose high byte comes first. -/
def ntohs (p : ℕ) : MessageReader UInt16 := do
  let hi ← Reader.read p
  let lo ← Reader.read (p + 1)
  pure (UInt16.ofNat (hi.toNat * 256 + lo.toNat))

/-- `ntohl` of the 32-bit field at `p`. -/
def ntohl (p : ℕ) : MessageReader UInt32 := do
  let hi ← ntohs p
  let lo ← ntohs (p + 2)
  pure (UInt32.ofNat (hi.toNat * 65536 + lo.toNat))

/-- The bytes from `p` on. -/
def bcopy (p : ℕ) : ℕ → MessageReader (List UInt8)
  | 0 => pure []
  | n + 1 => do
    let b ← Reader.read p
    let bs ← bcopy (p + 1) n
    pure (b :: bs)

def bytesAt (mem : Memory) (p n : ℕ) : List UInt8 :=
  (List.range' p n).map mem

theorem bytesAt_succ (mem : Memory) (p n : ℕ) :
  bytesAt mem p (n + 1) = mem p :: bytesAt mem (p + 1) n
  := by
  simp [bytesAt, List.range'_succ]

/-- What a length leaves when it is `n` more than the length that is taken away. -/
theorem toNat_sub_of_eq_add {a b : UInt16} {n : ℕ} (h : a.toNat = b.toNat + n) :
  (a - b).toNat = n
  := by
  have hle : b ≤ a := by
    rw [UInt16.le_iff_toNat_le]
    omega
  rw [UInt16.toNat_sub_of_le _ _ hle]
  omega

/-- A walk over entries that goes past one of them has as much less left, if it stays before the
end. -/
theorem left_after {left len : UInt16} {p n : ℕ} (h : left.toNat + p = n)
    (hle : p + len.toNat ≤ n) :
  (left - len).toNat + (p + len.toNat) = n
  := by
  have hleft : left.toNat = len.toNat + (n - (p + len.toNat)) := by omega
  rw [toNat_sub_of_eq_add hleft]
  omega

section

variable {mem : Memory} {S : ℕ → Prop}

theorem yields_ntohs (p : ℕ) :
  (ntohs p).Yields mem [p, p + 1] (be16 mem p)
  := fun _ => rfl

theorem yields_ntohl (p : ℕ) :
  (ntohl p).Yields mem [p, p + 1, p + 2, p + 3] (be32 mem p)
  := fun _ => rfl

theorem yields_bcopy (p n : ℕ) :
  (bcopy p n).Yields mem (List.range' p n) (bytesAt mem p n)
  := by
  induction n generalizing p with
  | zero => exact fun _ => rfl
  | succ n ih =>
      intro fuel
      simp only [bcopy, Bind.bind, Outcome.followedBy, Reader.read, ih (p + 1) fuel]
      simp [bytesAt_succ, List.range'_succ, pure]

@[simp]
theorem within_ntohs {p : ℕ} {Q : UInt16 → Prop} :
  Reader.Within S (ntohs p) mem Q ↔ (S p ∧ S (p + 1)) ∧ Q (be16 mem p)
  := by
  rw [(yields_ntohs p).within]
  simp

@[simp]
theorem returns_ntohs {p : ℕ} {v : UInt16} :
  (ntohs p).Returns mem v ↔ v = be16 mem p
  := (yields_ntohs p).returns

@[simp]
theorem returns_ntohl {p : ℕ} {v : UInt32} :
  (ntohl p).Returns mem v ↔ v = be32 mem p
  := (yields_ntohl p).returns

/-- The bytes from `p` on lie below `n` when the last of them does. -/
theorem within_bcopy {p k n : ℕ} {Q : List UInt8 → Prop} :
  Reader.Within (· < n) (bcopy p k) mem Q ↔ (k = 0 ∨ p + k ≤ n) ∧ Q (bytesAt mem p k)
  := by
  rw [(yields_bcopy p k).within]
  apply and_congr_left'
  simp only [List.mem_range'_1]
  constructor
  · intro h
    have hlast := h (p + k - 1)
    omega
  · intro h i hi
    omega

@[simp]
theorem within_ntohl {p : ℕ} {Q : UInt32 → Prop} :
  Reader.Within S (ntohl p) mem Q ↔
    (S p ∧ S (p + 1) ∧ S (p + 2) ∧ S (p + 3)) ∧ Q (be32 mem p)
  := by
  rw [(yields_ntohl p).within]
  simp

end

/-! ### Structures -/

structure OfpMatch where
  wildcards : UInt32
  inPort : UInt16
  dlSrc : List UInt8
  dlDst : List UInt8
  dlVlan : UInt16
  dlVlanPcp : UInt8
  dlType : UInt16
  nwTos : UInt8
  nwProto : UInt8
  nwSrc : UInt32
  nwDst : UInt32
  tpSrc : UInt16
  tpDst : UInt16

def ntohMatch (src : ℕ) : MessageReader OfpMatch := do
  let wildcards ← ntohl src
  let inPort ← ntohs (src + 4)
  let dlSrc ← bcopy (src + 6) 6
  let dlDst ← bcopy (src + 12) 6
  let dlVlan ← ntohs (src + 18)
  let dlVlanPcp ← Reader.read (src + 20)
  let dlType ← ntohs (src + 22)
  let nwTos ← Reader.read (src + 24)
  let nwProto ← Reader.read (src + 25)
  let nwSrc ← ntohl (src + 28)
  let nwDst ← ntohl (src + 32)
  let tpSrc ← ntohs (src + 36)
  let tpDst ← ntohs (src + 38)
  pure { wildcards, inPort, dlSrc, dlDst, dlVlan, dlVlanPcp, dlType, nwTos, nwProto, nwSrc,
         nwDst, tpSrc, tpDst }

def matchAt (mem : Memory) (src : ℕ) : OfpMatch where
  wildcards := be32 mem src
  inPort := be16 mem (src + 4)
  dlSrc := bytesAt mem (src + 6) 6
  dlDst := bytesAt mem (src + 12) 6
  dlVlan := be16 mem (src + 18)
  dlVlanPcp := mem (src + 20)
  dlType := be16 mem (src + 22)
  nwTos := mem (src + 24)
  nwProto := mem (src + 25)
  nwSrc := be32 mem (src + 28)
  nwDst := be32 mem (src + 32)
  tpSrc := be16 mem (src + 36)
  tpDst := be16 mem (src + 38)

/-- A match lies below `n` when its 40 bytes do. -/
theorem within_ntohMatch {mem : Memory} {n src : ℕ} {Q : OfpMatch → Prop} :
  Reader.Within (· < n) (ntohMatch src) mem Q ↔ src + 40 ≤ n ∧ Q (matchAt mem src)
  := by
  simp only [ntohMatch, Reader.within_bind, within_ntohs, within_ntohl, within_bcopy,
    Reader.within_read, Reader.within_pure]
  constructor
  · intro h
    constructor
    · omega
    · simp only [h, matchAt]
  · rintro ⟨h, hQ⟩
    exact ⟨by omega, by omega, by omega, by omega, by omega, by omega, by omega, by omega,
      by omega, by omega, by omega, by omega, by omega, hQ⟩

theorem returns_ntohMatch {mem : Memory} {src : ℕ} {m : OfpMatch} :
  (ntohMatch src).Returns mem m ↔ m = matchAt mem src
  := by
  simp only [ntohMatch, Reader.returns_bind, returns_ntohs, returns_ntohl,
    (yields_bcopy _ _).returns, Reader.returns_read, Reader.returns_pure, exists_eq_left, matchAt]

structure OfpPhyPort where
  portNo : UInt16
  hwAddr : List UInt8
  name : List UInt8
  config : UInt32
  state : UInt32
  curr : UInt32
  advertised : UInt32
  supported : UInt32
  peer : UInt32

def ntohPhyPort (src : ℕ) : MessageReader OfpPhyPort := do
  let portNo ← ntohs src
  let hwAddr ← bcopy (src + 2) 6
  let name ← bcopy (src + 8) 16
  let config ← ntohl (src + 24)
  let state ← ntohl (src + 28)
  let curr ← ntohl (src + 32)
  let advertised ← ntohl (src + 36)
  let supported ← ntohl (src + 40)
  let peer ← ntohl (src + 44)
  pure { portNo, hwAddr, name, config, state, curr, advertised, supported, peer }

def phyPortAt (mem : Memory) (src : ℕ) : OfpPhyPort where
  portNo := be16 mem src
  hwAddr := bytesAt mem (src + 2) 6
  name := bytesAt mem (src + 8) 16
  config := be32 mem (src + 24)
  state := be32 mem (src + 28)
  curr := be32 mem (src + 32)
  advertised := be32 mem (src + 36)
  supported := be32 mem (src + 40)
  peer := be32 mem (src + 44)

/-- A port lies below `n` when its 48 bytes do. -/
theorem within_ntohPhyPort {mem : Memory} {n src : ℕ} {Q : OfpPhyPort → Prop} :
  Reader.Within (· < n) (ntohPhyPort src) mem Q ↔ src + 48 ≤ n ∧ Q (phyPortAt mem src)
  := by
  simp only [ntohPhyPort, Reader.within_bind, within_ntohs, within_ntohl, within_bcopy,
    Reader.within_pure]
  constructor
  · intro h
    constructor
    · omega
    · simp only [h, phyPortAt]
  · rintro ⟨h, hQ⟩
    exact ⟨by omega, by omega, by omega, by omega, by omega, by omega, by omega, by omega,
      by omega, hQ⟩

theorem returns_ntohPhyPort {mem : Memory} {src : ℕ} {port : OfpPhyPort} :
  (ntohPhyPort src).Returns mem port ↔ port = phyPortAt mem src
  := by
  simp only [ntohPhyPort, Reader.returns_bind, returns_ntohs, returns_ntohl,
    (yields_bcopy _ _).returns, Reader.returns_pure, exists_eq_left, phyPortAt]

/-- An action: its type, its length and its arguments. -/
structure OfpAction (A : Type) where
  type : UInt16
  len : UInt16
  args : A

variable {A : Type}

/-- The type and the length of the action at `src`, and the arguments that `args` reads
behind them. -/
def ntohActionWith (args : ℕ → MessageReader A) (src : ℕ) : MessageReader (OfpAction A) := do
  let type ← ntohs src
  let len ← ntohs (src + 2)
  let args ← args (src + 4)
  pure { type, len, args }

/-- The port and `max_len`. -/
def ntohActionOutput : ℕ → MessageReader (OfpAction (UInt16 × UInt16)) :=
  ntohActionWith (fun p => do
    let port ← ntohs p
    let maxLen ← ntohs (p + 2)
    pure (port, maxLen))

def ntohActionVlanVid : ℕ → MessageReader (OfpAction UInt16) :=
  ntohActionWith ntohs

def ntohActionVlanPcp : ℕ → MessageReader (OfpAction UInt8) :=
  ntohActionWith Reader.read

def ntohActionStripVlan : ℕ → MessageReader (OfpAction Unit) :=
  ntohActionWith (fun _ => pure ())

def ntohActionDlAddr : ℕ → MessageReader (OfpAction (List UInt8)) :=
  ntohActionWith (fun p => bcopy p 6)

def ntohActionNwAddr : ℕ → MessageReader (OfpAction UInt32) :=
  ntohActionWith ntohl

def ntohActionNwTos : ℕ → MessageReader (OfpAction UInt8) :=
  ntohActionWith Reader.read

def ntohActionTpPort : ℕ → MessageReader (OfpAction UInt16) :=
  ntohActionWith ntohs

/-- The port and the queue id. -/
def ntohActionEnqueue : ℕ → MessageReader (OfpAction (UInt16 × UInt32)) :=
  ntohActionWith (fun p => do
    let port ← ntohs p
    let queueId ← ntohl (p + 8)
    pure (port, queueId))

/-! ### The footprint of an action -/

section

variable {mem : Memory} {S : ℕ → Prop} {args : ℕ → MessageReader A}

theorem within_ntohActionWith {src : ℕ} {Q : OfpAction A → Prop} :
  Reader.Within S (ntohActionWith args src) mem Q ↔
    (S src ∧ S (src + 1)) ∧ (S (src + 2) ∧ S (src + 3)) ∧
      Reader.Within S (args (src + 4)) mem
        (fun a => Q ⟨be16 mem src, be16 mem (src + 2), a⟩)
  := by
  simp [ntohActionWith]

theorem returns_ntohActionWith {src : ℕ} {a : OfpAction A} :
  (ntohActionWith args src).Returns mem a ↔
    a.type = be16 mem src ∧ a.len = be16 mem (src + 2) ∧ (args (src + 4)).Returns mem a.args
  := by
  simp only [ntohActionWith, Reader.returns_bind, returns_ntohs, Reader.returns_pure,
    exists_eq_left]
  constructor
  · rintro ⟨b, hb, rfl⟩
    exact ⟨rfl, rfl, hb⟩
  · obtain ⟨type, len, b⟩ := a
    rintro ⟨rfl, rfl, hb⟩
    exact ⟨b, hb, rfl⟩

end

end CcController
