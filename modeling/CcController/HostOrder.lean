import CcController.Lib.Struct
import CcController.OfMsgCreate
import Mathlib.Data.UInt

/-!
# Structures in the byte order of the host

The structures that are handed to the functions creating messages lie in memory with their
numbers in the byte order of the host. `Host.short` and `Host.long` read a number from such
a block, `Host.half` and `Host.bytes` are the bytes of one.

The `hton` functions copy a structure into a message and turn its numbers round if the host
is little-endian; those called `ntoh` are the same functions, taken the other way.
-/

namespace CcController

/-! ### Numbers -/

/-- The bytes of a 16-bit number as the host stores it. -/
def Host.half (host : Host) (v : UInt16) : List UInt8 :=
  reorder host.littleEndian (htons v)

/-- The 16-bit number that the host has stored at `p`. -/
def Host.short (host : Host) (block : List UInt8) (p : ℕ) : UInt16 :=
  be16 (fun i => (reorder host.littleEndian ((block.drop p).take 2)).getD i 0) 0

/-- The 32-bit number that the host has stored at `p`. -/
def Host.long (host : Host) (block : List UInt8) (p : ℕ) : UInt32 :=
  be32 (fun i => (reorder host.littleEndian ((block.drop p).take 4)).getD i 0) 0

/-- The bytes of a number in network order. -/
def htonll (v : UInt64) : List UInt8 :=
  htonl (UInt32.ofNat (v.toNat / 2 ^ 32)) ++ htonl (UInt32.ofNat (v.toNat % 2 ^ 32))

section

variable {host : Host} {mem : Memory} {p : ℕ}

@[simp]
theorem length_htons {v : UInt16} :
  (htons v).length = 2
  := rfl

@[simp]
theorem length_htonl {v : UInt32} :
  (htonl v).length = 4
  := rfl

@[simp]
theorem length_htonll {v : UInt64} :
  (htonll v).length = 8
  := rfl

@[simp]
theorem Host.length_half {v : UInt16} :
  (host.half v).length = 2
  := by
  simp [Host.half]

theorem Host.bytes_eq {v : UInt32} :
  host.bytes v = reorder host.littleEndian (htonl v)
  := rfl

@[simp]
theorem Host.length_bytes {v : UInt32} :
  (host.bytes v).length = 4
  := by
  simp [Host.bytes_eq]

theorem htons_ofNat (a b : UInt8) :
  htons (UInt16.ofNat (a.toNat * 256 + b.toNat)) = [a, b]
  := by
  have ha := a.toNat_lt
  have hb := b.toNat_lt
  have hv : (UInt16.ofNat (a.toNat * 256 + b.toNat)).toNat = a.toNat * 256 + b.toNat :=
    UInt16.toNat_ofNat_of_lt' (by simp [UInt16.size]; omega)
  have hdiv : (a.toNat * 256 + b.toNat) / 256 = a.toNat := by omega
  have hmod : (a.toNat * 256 + b.toNat) % 256 = b.toNat := by omega
  rw [htons, hv, hdiv, hmod, UInt8.ofNat_toNat, UInt8.ofNat_toNat]

/-- A number that is in memory in network order. -/
theorem be16_of_holds {v : UInt16} (h : Holds mem p (htons v)) :
  be16 mem p = v
  := be16_htons h.1 h.2.1

/-- What lies in memory at `p` is what is read there. -/
theorem be16_eq {bs : List UInt8} (h : Holds mem p bs) (hbs : bs.length = 2) :
  be16 mem p = be16 (fun i => bs.getD i 0) 0
  := by
  match bs with
  | [a, b] => rw [be16, be16, h.1, h.2.1]; rfl

theorem be32_eq {bs : List UInt8} (h : Holds mem p bs) (hbs : bs.length = 4) :
  be32 mem p = be32 (fun i => bs.getD i 0) 0
  := by
  match bs with
  | [a, b, c, d] =>
      obtain ⟨ha, hb, hc, hd, -⟩ := h
      rw [be32, be32, be16, be16, be16, be16, ha, hb, hc, hd]
      rfl

/-- Four bytes are the number that is read from them. -/
theorem htonl_be32 {bs : List UInt8} (h : bs.length = 4) :
  htonl (be32 (fun i => bs.getD i 0) 0) = bs
  := by
  match bs with
  | [a, b, c, d] =>
      have hread : be32 (fun i => [a, b, c, d].getD i 0) 0 = UInt32.ofNat
          ((UInt16.ofNat (a.toNat * 256 + b.toNat)).toNat * 65536
            + (UInt16.ofNat (c.toNat * 256 + d.toNat)).toNat) := rfl
      have hhigh := (UInt16.ofNat (a.toNat * 256 + b.toNat)).toNat_lt
      have hlow := (UInt16.ofNat (c.toNat * 256 + d.toNat)).toNat_lt
      rw [hread, htonl, UInt32.toNat_ofNat_of_lt' (by simp [UInt32.size]; omega)]
      rw [show ∀ x y : ℕ, y < 65536 → (x * 65536 + y) / 65536 = x by intros; omega,
        show ∀ x y : ℕ, y < 65536 → (x * 65536 + y) % 65536 = y by intros; omega]
      · rw [UInt16.ofNat_toNat, UInt16.ofNat_toNat, htons_ofNat, htons_ofNat]
        rfl
      · exact hlow
      · exact hlow

theorem be32_htonl (v : UInt32) :
  be32 (fun i => (htonl v).getD i 0) 0 = v
  := by
  have hlt := v.toNat_lt
  have hhigh : be16 (fun i => (htonl v).getD i 0) 0 = UInt16.ofNat (v.toNat / 65536) :=
    be16_of_holds ⟨rfl, rfl, trivial⟩
  have hlow : be16 (fun i => (htonl v).getD i 0) 2 = UInt16.ofNat (v.toNat % 65536) :=
    be16_of_holds ⟨rfl, rfl, trivial⟩
  rw [be32, hhigh, hlow, UInt16.toNat_ofNat_of_lt' (by simp [UInt16.size]; omega),
    UInt16.toNat_ofNat_of_lt' (by simp [UInt16.size]; omega), Nat.div_add_mod',
    UInt32.ofNat_toNat]

theorem be32_of_holds {v : UInt32} (h : Holds mem p (htonl v)) :
  be32 mem p = v
  := (be32_eq h length_htonl).trans (be32_htonl v)

/-- Reading inside a part of a block. -/
theorem Host.short_append (before after : List UInt8) {block : List UInt8} {o : ℕ}
    (ho : o + 2 ≤ block.length) :
  host.short (before ++ (block ++ after)) (before.length + o) = host.short block o
  := by
  rw [Host.short, Host.short, ← List.drop_drop, List.drop_left,
    List.drop_append_of_le_length (by omega), List.take_append_of_le_length]
  rw [List.length_drop]
  omega

/-- A number that the host stores is the one it reads back. -/
@[simp]
theorem Host.short_half {after : List UInt8} {v : UInt16} :
  host.short (host.half v ++ after) 0 = v
  := by
  rw [Host.short, List.drop_zero, List.take_left' Host.length_half, Host.half, reorder_reorder]
  exact be16_of_holds ⟨rfl, rfl, trivial⟩

@[simp]
theorem Host.short_half_two {after : List UInt8} {u v : UInt16} :
  host.short (host.half u ++ (host.half v ++ after)) 2 = v
  := by
  have hdrop : (host.half u ++ (host.half v ++ after)).drop 2 = host.half v ++ after :=
    List.drop_left' Host.length_half
  rw [Host.short, hdrop]
  exact Host.short_half

/-- What the host has stored is turned round into network order. -/
theorem htons_short {block : List UInt8} {o : ℕ} (ho : o + 2 ≤ block.length) :
  htons (host.short block o) = reorder host.littleEndian ((block.drop o).take 2)
  := by
  have hlength : (reorder host.littleEndian ((block.drop o).take 2)).length = 2 := by
    rw [length_reorder, List.length_take, List.length_drop]
    omega
  rw [Host.short]
  match reorder host.littleEndian ((block.drop o).take 2), hlength with
  | [a, b], _ => exact htons_ofNat a b

/-- A number field of a structure that has been copied into a message, by the index of the
field. -/
theorem be16_hton {layout : Struct} {block : List UInt8} {k o : ℕ}
    (h : Holds mem p (layout.convert host.littleEndian block))
    (hblock : layout.size ≤ block.length) (hk : layout[k]? = some (.number 2))
    (ho : layout.offset k = o) :
  be16 mem (p + o) = host.short block o
  := by
  subst ho
  have hle : layout.offset k + 2 ≤ layout.size := Struct.offset_add_le hk
  apply be16_eq (Struct.holds_field hk hblock h)
  rw [Struct.Field.length_convert, Struct.Field.size]
  rw [List.length_take, List.length_drop, Struct.Field.size]
  omega

theorem be32_hton {layout : Struct} {block : List UInt8} {k o : ℕ}
    (h : Holds mem p (layout.convert host.littleEndian block))
    (hblock : layout.size ≤ block.length) (hk : layout[k]? = some (.number 4))
    (ho : layout.offset k = o) :
  be32 mem (p + o) = host.long block o
  := by
  subst ho
  have hle : layout.offset k + 4 ≤ layout.size := Struct.offset_add_le hk
  apply be32_eq (Struct.holds_field hk hblock h)
  rw [Struct.Field.length_convert, Struct.Field.size]
  rw [List.length_take, List.length_drop, Struct.Field.size]
  omega

/-- A byte of a structure that has been copied into a message. -/
theorem byte_hton {layout : Struct} {block : List UInt8} {k o : ℕ}
    (h : Holds mem p (layout.convert host.littleEndian block))
    (hblock : layout.size ≤ block.length) (hk : layout[k]? = some (.bytes 1))
    (ho : layout.offset k = o) :
  mem (p + o) = block.getD o 0
  := by
  subst ho
  have hle : layout.offset k + 1 ≤ layout.size := Struct.offset_add_le hk
  have hfield := Struct.holds_field hk hblock h
  have hlt : layout.offset k < block.length := by omega
  simp only [Struct.Field.convert, Struct.Field.size, List.take_one_drop_eq_of_lt_length hlt]
    at hfield
  rw [hfield.1]
  simp [hlt]

/-- A byte string of a structure that has been copied into a message. -/
theorem bytes_hton {layout : Struct} {block : List UInt8} {k o n : ℕ}
    (h : Holds mem p (layout.convert host.littleEndian block))
    (hblock : layout.size ≤ block.length) (hk : layout[k]? = some (.bytes n))
    (ho : layout.offset k = o) :
  bytesAt mem (p + o) n = (block.drop o).take n
  := by
  subst ho
  have hle : layout.offset k + n ≤ layout.size := Struct.offset_add_le hk
  have hfield := (Struct.holds_field hk hblock h).map_range'
  simp only [Struct.Field.convert, Struct.Field.size, List.length_take, List.length_drop] at hfield
  rw [bytesAt, ← hfield, Nat.min_eq_left (by omega)]

end

/-! ### Matches and ports -/

def ofpMatch : Struct :=
  [.number 4, .number 2, .bytes 6, .bytes 6, .number 2, .bytes 1, .pad 1, .number 2, .bytes 1,
    .bytes 1, .pad 2, .number 4, .number 4, .number 2, .number 2]

def ofpPhyPort : Struct :=
  [.number 2, .bytes 6, .bytes 16, .number 4, .number 4, .number 4, .number 4, .number 4,
    .number 4]

/-- The match that the host has stored in `block`. -/
def Host.matchOf (host : Host) (block : List UInt8) : OfpMatch where
  wildcards := host.long block 0
  inPort := host.short block 4
  dlSrc := (block.drop 6).take 6
  dlDst := (block.drop 12).take 6
  dlVlan := host.short block 18
  dlVlanPcp := block.getD 20 0
  dlType := host.short block 22
  nwTos := block.getD 24 0
  nwProto := block.getD 25 0
  nwSrc := host.long block 28
  nwDst := host.long block 32
  tpSrc := host.short block 36
  tpDst := host.short block 38

/-- The port that the host has stored in `block`. -/
def Host.phyPort (host : Host) (block : List UInt8) : OfpPhyPort where
  portNo := host.short block 0
  hwAddr := (block.drop 2).take 6
  name := (block.drop 8).take 16
  config := host.long block 24
  state := host.long block 28
  curr := host.long block 32
  advertised := host.long block 36
  supported := host.long block 40
  peer := host.long block 44

section

variable {host : Host} {mem : Memory} {p : ℕ} {block : List UInt8}

/-- A match comes out of a message as the host stored it. -/
theorem matchAt_hton (hblock : ofpMatch.size ≤ block.length)
    (h : Holds mem p (ofpMatch.convert host.littleEndian block)) :
  matchAt mem p = host.matchOf block
  := by
  rw [matchAt, Host.matchOf, OfpMatch.mk.injEq]
  exact ⟨be32_hton (k := 0) (o := 0) h hblock rfl rfl, be16_hton (k := 1) h hblock rfl rfl,
    bytes_hton (k := 2) h hblock rfl rfl, bytes_hton (k := 3) h hblock rfl rfl,
    be16_hton (k := 4) h hblock rfl rfl, byte_hton (k := 5) h hblock rfl rfl,
    be16_hton (k := 7) h hblock rfl rfl, byte_hton (k := 8) h hblock rfl rfl,
    byte_hton (k := 9) h hblock rfl rfl, be32_hton (k := 11) h hblock rfl rfl,
    be32_hton (k := 12) h hblock rfl rfl, be16_hton (k := 13) h hblock rfl rfl,
    be16_hton (k := 14) h hblock rfl rfl⟩

/-- A port comes out of a message as the host stored it. -/
theorem phyPortAt_hton (hblock : ofpPhyPort.size ≤ block.length)
    (h : Holds mem p (ofpPhyPort.convert host.littleEndian block)) :
  phyPortAt mem p = host.phyPort block
  := by
  rw [phyPortAt, Host.phyPort, OfpPhyPort.mk.injEq]
  exact ⟨be16_hton (k := 0) (o := 0) h hblock rfl rfl, bytes_hton (k := 1) h hblock rfl rfl,
    bytes_hton (k := 2) h hblock rfl rfl, be32_hton (k := 3) h hblock rfl rfl,
    be32_hton (k := 4) h hblock rfl rfl, be32_hton (k := 5) h hblock rfl rfl,
    be32_hton (k := 6) h hblock rfl rfl, be32_hton (k := 7) h hblock rfl rfl,
    be32_hton (k := 8) h hblock rfl rfl⟩

end

/-! ### Statistics and queues -/

/-- The part of a flow entry before its actions. -/
def ofpFlowStats : Struct :=
  [.number 2, .bytes 1, .pad 1] ++ ofpMatch
    ++ [.number 4, .number 4, .number 2, .number 2, .number 2, .pad 6, .number 8, .number 8,
      .number 8]

def ofpTableStats : Struct :=
  [.bytes 1, .pad 3, .bytes 32, .number 4, .number 4, .number 4, .number 8, .number 8]

def ofpPortStats : Struct :=
  [.number 2, .pad 6, .number 8, .number 8, .number 8, .number 8, .number 8, .number 8,
    .number 8, .number 8, .number 8, .number 8, .number 8, .number 8]

def ofpQueueStats : Struct :=
  [.number 2, .pad 2, .number 4, .number 8, .number 8, .number 8]

/-- The part of a queue before its properties. -/
def ofpPacketQueue : Struct :=
  [.number 4, .number 2, .pad 2]

def ofpQueuePropHeader : Struct :=
  [.number 2, .number 2, .pad 4]

def ofpQueuePropMinRate : Struct :=
  ofpQueuePropHeader ++ [.number 2, .pad 6]

/-- A structure of the layout, copied out of a message. -/
def ntohStruct (host : Host) (layout : Struct) (src : ℕ) : MessageReader (List UInt8) := do
  let bytes ← bcopy src layout.size
  pure (layout.convert host.littleEndian bytes)

def ntohTableStats (host : Host) : ℕ → MessageReader (List UInt8) :=
  ntohStruct host ofpTableStats

def ntohPortStats (host : Host) : ℕ → MessageReader (List UInt8) :=
  ntohStruct host ofpPortStats

def ntohQueueStats (host : Host) : ℕ → MessageReader (List UInt8) :=
  ntohStruct host ofpQueueStats

/-- What has been copied into a message is copied out with its padding cleared. -/
theorem ntohStruct_returns {host : Host} {mem : Memory} {p : ℕ} {layout : Struct}
    {block r : List UInt8} (hblock : layout.size ≤ block.length)
    (h : Holds mem p (layout.convert host.littleEndian block)) :
  (ntohStruct host layout p).Returns mem r ↔ r = layout.clear block
  := by
  have hbytes : bytesAt mem p layout.size = layout.convert host.littleEndian block := by
    rw [bytesAt, ← Struct.length_convert hblock]
    apply h.map_range'
  rw [ntohStruct, Reader.returns_bind]
  simp only [(yields_bcopy _ _).returns, Reader.returns_pure, exists_eq_left, hbytes,
    Struct.convert_convert hblock]

/-! ### Numbers in memory -/

/-- Reads the 16-bit number that the host has stored at `p`. -/
def loadShort (host : Host) (p : ℕ) : MessageReader UInt16 := do
  return host.short (← bcopy p 2) 0

/-- Reads the 32-bit number that the host has stored at `p`. -/
def loadLong (host : Host) (p : ℕ) : MessageReader UInt32 := do
  return host.long (← bcopy p 4) 0

/-- The 16-bit number in memory at `p`. -/
def Host.shortAt (host : Host) (mem : Memory) (p : ℕ) : UInt16 :=
  host.short (bytesAt mem p 2) 0

/-- The 32-bit number in memory at `p`. -/
def Host.longAt (host : Host) (mem : Memory) (p : ℕ) : UInt32 :=
  host.long (bytesAt mem p 4) 0

section

variable {host : Host} {mem : Memory} {p : ℕ}

@[simp]
theorem returns_loadShort {v : UInt16} :
  (loadShort host p).Returns mem v ↔ v = host.shortAt mem p
  := by
  simp [loadShort, (yields_bcopy p 2).returns, Host.shortAt]

@[simp]
theorem returns_loadLong {v : UInt32} :
  (loadLong host p).Returns mem v ↔ v = host.longAt mem p
  := by
  simp [loadLong, (yields_bcopy p 4).returns, Host.longAt]

theorem within_loadShort {n : ℕ} {Q : UInt16 → Prop} :
  Reader.Within (· < n) (loadShort host p) mem Q ↔ p + 2 ≤ n ∧ Q (host.shortAt mem p)
  := by
  simp [loadShort, within_bcopy, Host.shortAt]

theorem within_loadLong {n : ℕ} {Q : UInt32 → Prop} :
  Reader.Within (· < n) (loadLong host p) mem Q ↔ p + 4 ≤ n ∧ Q (host.longAt mem p)
  := by
  simp [loadLong, within_bcopy, Host.longAt]

end

end CcController
