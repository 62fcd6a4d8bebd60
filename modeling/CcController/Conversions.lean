import CcController.OfAction
import Mathlib.Data.List.Forall2

/-!
# Conversions that are used both ways

The structures of fixed size are converted field by field. Each function takes what the
destination has before, and a field that it forgot would keep that. On a little-endian host a
number is turned round, on a big-endian one it stays; so one function puts a structure into
network order and takes it out again, and the padding is cleared on the way.

Seen as the cells that it takes in memory, a structure is converted cell by cell.
-/

namespace CcController

/-! ### Numbers -/

/-- The number whose bytes are those of `v` in the other order. -/
def bswap16 (v : UInt16) : UInt16 :=
  be16 (fun i => (htons v).reverse.getD i 0) 0

def bswap32 (v : UInt32) : UInt32 :=
  be32 (fun i => (htonl v).reverse.getD i 0) 0

def bswap64 (v : UInt64) : UInt64 :=
  UInt64.ofNat ((bswap32 (UInt32.ofNat (v.toNat % 2 ^ 32))).toNat * 2 ^ 32
    + (bswap32 (UInt32.ofNat (v.toNat / 2 ^ 32))).toNat)

namespace Host

variable (host : Host)

/-- The number that the bytes of `v` in memory are in network order. -/
def ntohs (v : UInt16) : UInt16 :=
  if host.littleEndian then bswap16 v else v

def ntohl (v : UInt32) : UInt32 :=
  if host.littleEndian then bswap32 v else v

def ntohll (v : UInt64) : UInt64 :=
  if host.littleEndian then bswap64 v else v

/-- The bytes of a 64-bit number as the host stores it. -/
def wide (v : UInt64) : List UInt8 :=
  reorder host.littleEndian (htonll v)

end Host

theorem htons_bswap16 {v : UInt16} :
  htons (bswap16 v) = (htons v).reverse
  := htons_ofNat _ _

theorem htonl_bswap32 {v : UInt32} :
  htonl (bswap32 v) = (htonl v).reverse
  := htonl_be32 rfl

/-- The two halves that a number is put together from. -/
theorem htonll_ofNat {u v : UInt32} :
  htonll (UInt64.ofNat (u.toNat * 2 ^ 32 + v.toNat)) = htonl u ++ htonl v
  := by
  have hu := u.toNat_lt
  have hv := v.toNat_lt
  have hnumber : (UInt64.ofNat (u.toNat * 2 ^ 32 + v.toNat)).toNat
      = u.toNat * 2 ^ 32 + v.toNat := UInt64.toNat_ofNat_of_lt' (by simp [UInt64.size]; omega)
  have hdiv : (u.toNat * 2 ^ 32 + v.toNat) / 2 ^ 32 = u.toNat := by omega
  have hmod : (u.toNat * 2 ^ 32 + v.toNat) % 2 ^ 32 = v.toNat := by omega
  rw [htonll, hnumber, hdiv, hmod, UInt32.ofNat_toNat, UInt32.ofNat_toNat]

theorem htonll_bswap64 {v : UInt64} :
  htonll (bswap64 v) = (htonll v).reverse
  := by
  rw [bswap64, htonll_ofNat, htonl_bswap32, htonl_bswap32, htonll, List.reverse_append]

theorem htons_injective :
  Function.Injective htons
  := by
  intro u v h
  have hread : ∀ w : UInt16, be16 (fun i => (htons w).getD i 0) 0 = w := by
    intro w
    exact be16_of_holds ⟨rfl, rfl, trivial⟩
  rw [← hread u, h, hread]

theorem htonl_injective :
  Function.Injective htonl
  := by
  intro u v h
  rw [← be32_htonl u, h, be32_htonl]

theorem htonll_injective :
  Function.Injective htonll
  := by
  intro u v h
  rw [htonll, htonll] at h
  obtain ⟨hhigh, hlow⟩ := List.append_inj h rfl
  have hu := u.toNat_lt
  have hv := v.toNat_lt
  have hhigh' := congrArg UInt32.toNat (htonl_injective hhigh)
  have hlow' := congrArg UInt32.toNat (htonl_injective hlow)
  rw [UInt32.toNat_ofNat_of_lt' (by simp [UInt32.size]; omega),
    UInt32.toNat_ofNat_of_lt' (by simp [UInt32.size]; omega)] at hhigh' hlow'
  apply UInt64.toNat_inj.mp
  omega

namespace Host

variable {host : Host}

/-- What the network has of a number that is turned round on a little-endian host. -/
theorem reorder_of_reverse {N : Type} {network : N → List UInt8} {bswap : N → N} {v : N}
    (h : network (bswap v) = (network v).reverse) :
  network (if host.littleEndian then bswap v else v) = reorder host.littleEndian (network v)
  := by
  rw [reorder]
  split
  · exact h
  · rfl

theorem htons_ntohs {v : UInt16} :
  htons (host.ntohs v) = host.half v
  := reorder_of_reverse htons_bswap16

theorem htonl_ntohl {v : UInt32} :
  htonl (host.ntohl v) = host.bytes v
  := reorder_of_reverse htonl_bswap32

theorem htonll_ntohll {v : UInt64} :
  htonll (host.ntohll v) = host.wide v
  := reorder_of_reverse htonll_bswap64

/-- What the host stores of the converted number is the number in network order. -/
theorem half_ntohs {v : UInt16} :
  host.half (host.ntohs v) = htons v
  := by
  rw [half, htons_ntohs, half, reorder_reorder]

theorem bytes_ntohl {v : UInt32} :
  host.bytes (host.ntohl v) = htonl v
  := by
  rw [bytes_eq, htonl_ntohl, bytes_eq, reorder_reorder]

theorem wide_ntohll {v : UInt64} :
  host.wide (host.ntohll v) = htonll v
  := by
  rw [wide, htonll_ntohll, wide, reorder_reorder]

theorem ntohs_ntohs {v : UInt16} :
  host.ntohs (host.ntohs v) = v
  := by
  apply htons_injective
  rw [htons_ntohs, half_ntohs]

theorem ntohl_ntohl {v : UInt32} :
  host.ntohl (host.ntohl v) = v
  := by
  apply htonl_injective
  rw [htonl_ntohl, bytes_ntohl]

theorem ntohll_ntohll {v : UInt64} :
  host.ntohll (host.ntohll v) = v
  := by
  apply htonll_injective
  rw [htonll_ntohll, wide_ntohll]

end Host

/-- The functions of the other direction are the same. -/
abbrev Host.htons : Host → UInt16 → UInt16 := Host.ntohs

abbrev Host.htonl : Host → UInt32 → UInt32 := Host.ntohl

abbrev Host.htonll : Host → UInt64 → UInt64 := Host.ntohll

/-! ### Cells -/

/-- A field of a structure with what it has. -/
inductive Cell where
  | u16 (v : UInt16)
  | u32 (v : UInt32)
  | u64 (v : UInt64)
  | byte (v : UInt8)
  | bytes {n : ℕ} (v : Vector UInt8 n)
  | pad {n : ℕ} (v : Vector UInt8 n)

namespace Cell

def field : Cell → Struct.Field
  | u16 _ => .number 2
  | u32 _ => .number 4
  | u64 _ => .number 8
  | byte _ => .bytes 1
  | bytes (n := n) _ => .bytes n
  | pad (n := n) _ => .pad n

/-- What the host has in memory for the field. -/
def stored (host : Host) : Cell → List UInt8
  | u16 v => host.half v
  | u32 v => host.bytes v
  | u64 v => host.wide v
  | byte v => [v]
  | bytes v => v.toList
  | pad v => v.toList

/-- The field with its number converted or its padding cleared. -/
def ntoh (host : Host) : Cell → Cell
  | u16 v => .u16 (host.ntohs v)
  | u32 v => .u32 (host.ntohl v)
  | u64 v => .u64 (host.ntohll v)
  | byte v => .byte v
  | bytes v => .bytes v
  | pad (n := n) _ => .pad (Vector.replicate n 0)

def clear : Cell → Cell
  | pad (n := n) _ => .pad (Vector.replicate n 0)
  | cell => cell

/-- The second field is the first as it is put into a message: a number has its bytes in network
order, bytes stay as they are, and padding is zero. -/
inductive Converted (host : Host) : Cell → Cell → Prop
  | u16 {v w : UInt16} (h : host.half w = htons v) : Converted host (.u16 v) (.u16 w)
  | u32 {v w : UInt32} (h : host.bytes w = htonl v) : Converted host (.u32 v) (.u32 w)
  | u64 {v w : UInt64} (h : host.wide w = htonll v) : Converted host (.u64 v) (.u64 w)
  | byte {v : UInt8} : Converted host (.byte v) (.byte v)
  | bytes {n : ℕ} {v : Vector UInt8 n} : Converted host (.bytes v) (.bytes v)
  | pad {n : ℕ} {v : Vector UInt8 n} : Converted host (.pad v) (.pad (Vector.replicate n 0))

variable {host : Host} (cell : Cell)

theorem ntoh_ntoh :
  (cell.ntoh host).ntoh host = cell.clear
  := by
  cases cell with
  | u16 v => exact congrArg Cell.u16 Host.ntohs_ntohs
  | u32 v => exact congrArg Cell.u32 Host.ntohl_ntohl
  | u64 v => exact congrArg Cell.u64 Host.ntohll_ntohll
  | byte v => rfl
  | bytes v => rfl
  | pad v => rfl

theorem converted_ntoh :
  Converted host cell (cell.ntoh host)
  := by
  cases cell with
  | u16 v => exact .u16 Host.half_ntohs
  | u32 v => exact .u32 Host.bytes_ntohl
  | u64 v => exact .u64 Host.wide_ntohll
  | byte v => exact .byte
  | bytes v => exact .bytes
  | pad v => exact .pad

theorem length_stored :
  (cell.stored host).length = cell.field.size
  := by
  cases cell with
  | u16 v => exact Host.length_half
  | u32 v => exact Host.length_bytes
  | u64 v => exact length_reorder
  | byte v => rfl
  | bytes v => exact Vector.length_toList
  | pad v => exact Vector.length_toList

/-- Copying the bytes of a field is converting the field. -/
theorem convert_stored :
  cell.field.convert host.littleEndian (cell.stored host) = (cell.ntoh host).stored host
  := by
  cases cell with
  | u16 v =>
      change reorder host.littleEndian (host.half v) = host.half (host.ntohs v)
      rw [Host.half_ntohs, Host.half, reorder_reorder]
  | u32 v =>
      change reorder host.littleEndian (host.bytes v) = host.bytes (host.ntohl v)
      rw [Host.bytes_ntohl, Host.bytes_eq, reorder_reorder]
  | u64 v =>
      change reorder host.littleEndian (host.wide v) = host.wide (host.ntohll v)
      rw [Host.wide_ntohll, Host.wide, reorder_reorder]
  | byte v => rfl
  | bytes v => rfl
  | pad v => exact Vector.toList_replicate.symm

end Cell

/-! ### Structures -/

/-- The values of `S` as they lie in memory, cell by cell, with nothing between the cells. -/
class Laid (S : Type) where
  layout : Struct
  cells : S → List Cell
  /-- The value with its padding cleared. -/
  clear : S → S
  field : ∀ v, (cells v).map Cell.field = layout := by
    intro v
    rfl
  cells_clear : ∀ v, cells (clear v) = (cells v).map Cell.clear := by
    intro v
    rfl
  injective : Function.Injective cells := by
    rintro ⟨⟩ ⟨⟩ h
    simpa using h

/-- What the host has in memory for the value. -/
def Laid.stored (host : Host) {S : Type} [Laid S] (v : S) : List UInt8 :=
  ((Laid.cells v).map (Cell.stored host)).flatten

/-- A conversion that stores all of the destination: taking it twice gives back the value with
its padding cleared, and taking it once converts it field by field. -/
structure Conversion (host : Host) {S : Type} [Laid S] (ntoh : S → S → S) : Prop where
  twice : ∀ dst dst' v, ntoh dst' (ntoh dst v) = Laid.clear v
  once : ∀ dst v, List.Forall₂ (Cell.Converted host) (Laid.cells v) (Laid.cells (ntoh dst v))

section

variable {host : Host} {S : Type} [Laid S] {ntoh : S → S → S}

/-- It is enough that the fields are converted one by one. -/
theorem conversion_of_cells
    (h : ∀ dst v, Laid.cells (ntoh dst v) = (Laid.cells v).map (Cell.ntoh host)) :
  Conversion host ntoh
  := by
  constructor
  · intro dst dst' v
    apply Laid.injective
    rw [h, h, Laid.cells_clear, List.map_map]
    apply List.map_congr_left
    intro cell _
    exact cell.ntoh_ntoh
  · intro dst v
    rw [h, List.forall₂_map_right_iff, List.forall₂_same]
    intro cell _
    exact cell.converted_ntoh

/-- The conversion of the value is the conversion of its bytes by the layout. -/
theorem convert_stored
    (h : ∀ dst v, Laid.cells (ntoh dst v) = (Laid.cells v).map (Cell.ntoh host)) (dst v : S) :
  (Laid.layout S).convert host.littleEndian (Laid.stored host v) = Laid.stored host (ntoh dst v)
  := by
  rw [Laid.stored, Laid.stored, h, List.map_map, ← Laid.field v]
  induction Laid.cells v with
  | nil => rfl
  | cons cell cells ih =>
      rw [List.map_cons, List.map_cons, List.flatten_cons,
        Struct.convert_cons cell.length_stored, ih, cell.convert_stored]
      rfl

theorem Laid.length_stored {v : S} :
  (Laid.stored host v).length = (Laid.layout S).size
  := by
  rw [Laid.stored, ← Laid.field v, Struct.size, List.map_map]
  apply length_flatten_map
  intro cell _
  exact cell.length_stored

/-- What is copied out of a memory that holds a value is the conversion of the value. -/
theorem ntohStruct_stored {mem : Memory} {p : ℕ} {v : S}
    (h : ∀ dst v, Laid.cells (ntoh dst v) = (Laid.cells v).map (Cell.ntoh host))
    (hholds : Holds mem p (Laid.stored host v)) (dst : S) :
  (ntohStruct host (Laid.layout S) p).Returns mem (Laid.stored host (ntoh dst v))
  := by
  have hbytes : bytesAt mem p (Laid.layout S).size = Laid.stored host v := by
    rw [bytesAt, ← Laid.length_stored]
    apply hholds.map_range'
  rw [ntohStruct, Reader.returns_bind]
  simp only [(yields_bcopy _ _).returns, Reader.returns_pure, exists_eq_left, hbytes,
    convert_stored h dst]

end

namespace Conversions

/-! ### Matches and ports -/

structure OfpMatch where
  wildcards : UInt32
  inPort : UInt16
  dlSrc : Vector UInt8 6
  dlDst : Vector UInt8 6
  dlVlan : UInt16
  dlVlanPcp : UInt8
  pad1 : Vector UInt8 1
  dlType : UInt16
  nwTos : UInt8
  nwProto : UInt8
  pad2 : Vector UInt8 2
  nwSrc : UInt32
  nwDst : UInt32
  tpSrc : UInt16
  tpDst : UInt16

def ntohMatch (host : Host) (dst src : OfpMatch) : OfpMatch :=
  { dst with
    wildcards := host.ntohl src.wildcards
    inPort := host.ntohs src.inPort
    dlSrc := src.dlSrc
    dlDst := src.dlDst
    dlVlan := host.ntohs src.dlVlan
    dlVlanPcp := src.dlVlanPcp
    dlType := host.ntohs src.dlType
    nwTos := src.nwTos
    nwProto := src.nwProto
    pad1 := Vector.replicate 1 0
    pad2 := Vector.replicate 2 0
    nwSrc := host.ntohl src.nwSrc
    nwDst := host.ntohl src.nwDst
    tpSrc := host.ntohs src.tpSrc
    tpDst := host.ntohs src.tpDst }

instance : Laid OfpMatch where
  layout := ofpMatch
  cells v := [.u32 v.wildcards, .u16 v.inPort, .bytes v.dlSrc, .bytes v.dlDst, .u16 v.dlVlan,
    .byte v.dlVlanPcp, .pad v.pad1, .u16 v.dlType, .byte v.nwTos, .byte v.nwProto, .pad v.pad2,
    .u32 v.nwSrc, .u32 v.nwDst, .u16 v.tpSrc, .u16 v.tpDst]
  clear v := { v with pad1 := Vector.replicate 1 0, pad2 := Vector.replicate 2 0 }

structure OfpPhyPort where
  portNo : UInt16
  hwAddr : Vector UInt8 6
  name : Vector UInt8 16
  config : UInt32
  state : UInt32
  curr : UInt32
  advertised : UInt32
  supported : UInt32
  peer : UInt32

def ntohPhyPort (host : Host) (dst src : OfpPhyPort) : OfpPhyPort :=
  { dst with
    portNo := host.ntohs src.portNo
    hwAddr := src.hwAddr
    name := src.name
    config := host.ntohl src.config
    state := host.ntohl src.state
    curr := host.ntohl src.curr
    advertised := host.ntohl src.advertised
    supported := host.ntohl src.supported
    peer := host.ntohl src.peer }

instance : Laid OfpPhyPort where
  layout := ofpPhyPort
  cells v := [.u16 v.portNo, .bytes v.hwAddr, .bytes v.name, .u32 v.config, .u32 v.state,
    .u32 v.curr, .u32 v.advertised, .u32 v.supported, .u32 v.peer]
  clear v := v

/-! ### Actions -/

structure OfpActionOutput where
  type : UInt16
  len : UInt16
  port : UInt16
  maxLen : UInt16

def ntohActionOutput (host : Host) (dst src : OfpActionOutput) : OfpActionOutput :=
  { dst with
    type := host.ntohs src.type
    len := host.ntohs src.len
    port := host.ntohs src.port
    maxLen := host.ntohs src.maxLen }

instance : Laid OfpActionOutput where
  layout := ofpActionOutput
  cells v := [.u16 v.type, .u16 v.len, .u16 v.port, .u16 v.maxLen]
  clear v := v

structure OfpActionVlanVid where
  type : UInt16
  len : UInt16
  vlanVid : UInt16
  pad : Vector UInt8 2

def ntohActionVlanVid (host : Host) (dst src : OfpActionVlanVid) : OfpActionVlanVid :=
  { dst with
    type := host.ntohs src.type
    len := host.ntohs src.len
    vlanVid := host.ntohs src.vlanVid
    pad := Vector.replicate 2 0 }

instance : Laid OfpActionVlanVid where
  layout := ofpActionVlanVid
  cells v := [.u16 v.type, .u16 v.len, .u16 v.vlanVid, .pad v.pad]
  clear v := { v with pad := Vector.replicate 2 0 }

structure OfpActionVlanPcp where
  type : UInt16
  len : UInt16
  vlanPcp : UInt8
  pad : Vector UInt8 3

def ntohActionVlanPcp (host : Host) (dst src : OfpActionVlanPcp) : OfpActionVlanPcp :=
  { dst with
    type := host.ntohs src.type
    len := host.ntohs src.len
    vlanPcp := src.vlanPcp
    pad := Vector.replicate 3 0 }

instance : Laid OfpActionVlanPcp where
  layout := ofpActionVlanPcp
  cells v := [.u16 v.type, .u16 v.len, .byte v.vlanPcp, .pad v.pad]
  clear v := { v with pad := Vector.replicate 3 0 }

structure OfpActionHeader where
  type : UInt16
  len : UInt16
  pad : Vector UInt8 4

def ntohActionStripVlan (host : Host) (dst src : OfpActionHeader) : OfpActionHeader :=
  { dst with
    type := host.ntohs src.type
    len := host.ntohs src.len
    pad := Vector.replicate 4 0 }

instance : Laid OfpActionHeader where
  layout := ofpActionHeader
  cells v := [.u16 v.type, .u16 v.len, .pad v.pad]
  clear v := { v with pad := Vector.replicate 4 0 }

structure OfpActionDlAddr where
  type : UInt16
  len : UInt16
  dlAddr : Vector UInt8 6
  pad : Vector UInt8 6

def ntohActionDlAddr (host : Host) (dst src : OfpActionDlAddr) : OfpActionDlAddr :=
  { dst with
    type := host.ntohs src.type
    len := host.ntohs src.len
    dlAddr := src.dlAddr
    pad := Vector.replicate 6 0 }

instance : Laid OfpActionDlAddr where
  layout := ofpActionDlAddr
  cells v := [.u16 v.type, .u16 v.len, .bytes v.dlAddr, .pad v.pad]
  clear v := { v with pad := Vector.replicate 6 0 }

structure OfpActionNwAddr where
  type : UInt16
  len : UInt16
  nwAddr : UInt32

def ntohActionNwAddr (host : Host) (dst src : OfpActionNwAddr) : OfpActionNwAddr :=
  { dst with
    type := host.ntohs src.type
    len := host.ntohs src.len
    nwAddr := host.ntohl src.nwAddr }

instance : Laid OfpActionNwAddr where
  layout := ofpActionNwAddr
  cells v := [.u16 v.type, .u16 v.len, .u32 v.nwAddr]
  clear v := v

structure OfpActionNwTos where
  type : UInt16
  len : UInt16
  nwTos : UInt8
  pad : Vector UInt8 3

def ntohActionNwTos (host : Host) (dst src : OfpActionNwTos) : OfpActionNwTos :=
  { dst with
    type := host.ntohs src.type
    len := host.ntohs src.len
    nwTos := src.nwTos
    pad := Vector.replicate 3 0 }

instance : Laid OfpActionNwTos where
  layout := ofpActionNwTos
  cells v := [.u16 v.type, .u16 v.len, .byte v.nwTos, .pad v.pad]
  clear v := { v with pad := Vector.replicate 3 0 }

structure OfpActionTpPort where
  type : UInt16
  len : UInt16
  tpPort : UInt16
  pad : Vector UInt8 2

def ntohActionTpPort (host : Host) (dst src : OfpActionTpPort) : OfpActionTpPort :=
  { dst with
    type := host.ntohs src.type
    len := host.ntohs src.len
    tpPort := host.ntohs src.tpPort
    pad := Vector.replicate 2 0 }

instance : Laid OfpActionTpPort where
  layout := ofpActionTpPort
  cells v := [.u16 v.type, .u16 v.len, .u16 v.tpPort, .pad v.pad]
  clear v := { v with pad := Vector.replicate 2 0 }

structure OfpActionEnqueue where
  type : UInt16
  len : UInt16
  port : UInt16
  pad : Vector UInt8 6
  queueId : UInt32

def ntohActionEnqueue (host : Host) (dst src : OfpActionEnqueue) : OfpActionEnqueue :=
  { dst with
    type := host.ntohs src.type
    len := host.ntohs src.len
    port := host.ntohs src.port
    pad := Vector.replicate 6 0
    queueId := host.ntohl src.queueId }

instance : Laid OfpActionEnqueue where
  layout := ofpActionEnqueue
  cells v := [.u16 v.type, .u16 v.len, .u16 v.port, .pad v.pad, .u32 v.queueId]
  clear v := { v with pad := Vector.replicate 6 0 }

/-! ### Statistics -/

def ofpAggregateStatsReply : Struct :=
  [.number 8, .number 8, .number 4, .pad 4]

structure OfpAggregateStatsReply where
  packetCount : UInt64
  byteCount : UInt64
  flowCount : UInt32
  pad : Vector UInt8 4

def ntohAggregateStats (host : Host) (dst src : OfpAggregateStatsReply) : OfpAggregateStatsReply :=
  { dst with
    packetCount := host.ntohll src.packetCount
    byteCount := host.ntohll src.byteCount
    flowCount := host.ntohl src.flowCount
    pad := Vector.replicate 4 0 }

instance : Laid OfpAggregateStatsReply where
  layout := ofpAggregateStatsReply
  cells v := [.u64 v.packetCount, .u64 v.byteCount, .u32 v.flowCount, .pad v.pad]
  clear v := { v with pad := Vector.replicate 4 0 }

structure OfpTableStats where
  tableId : UInt8
  pad : Vector UInt8 3
  name : Vector UInt8 32
  wildcards : UInt32
  maxEntries : UInt32
  activeCount : UInt32
  lookupCount : UInt64
  matchedCount : UInt64

def ntohTableStats (host : Host) (dst src : OfpTableStats) : OfpTableStats :=
  { dst with
    tableId := src.tableId
    pad := Vector.replicate 3 0
    name := src.name
    wildcards := host.ntohl src.wildcards
    maxEntries := host.ntohl src.maxEntries
    activeCount := host.ntohl src.activeCount
    lookupCount := host.ntohll src.lookupCount
    matchedCount := host.ntohll src.matchedCount }

instance : Laid OfpTableStats where
  layout := ofpTableStats
  cells v := [.byte v.tableId, .pad v.pad, .bytes v.name, .u32 v.wildcards, .u32 v.maxEntries,
    .u32 v.activeCount, .u64 v.lookupCount, .u64 v.matchedCount]
  clear v := { v with pad := Vector.replicate 3 0 }

structure OfpPortStats where
  portNo : UInt16
  pad : Vector UInt8 6
  rxPackets : UInt64
  txPackets : UInt64
  rxBytes : UInt64
  txBytes : UInt64
  rxDropped : UInt64
  txDropped : UInt64
  rxErrors : UInt64
  txErrors : UInt64
  rxFrameErr : UInt64
  rxOverErr : UInt64
  rxCrcErr : UInt64
  collisions : UInt64

def ntohPortStats (host : Host) (dst src : OfpPortStats) : OfpPortStats :=
  { dst with
    portNo := host.ntohs src.portNo
    pad := Vector.replicate 6 0
    rxPackets := host.ntohll src.rxPackets
    txPackets := host.ntohll src.txPackets
    rxBytes := host.ntohll src.rxBytes
    txBytes := host.ntohll src.txBytes
    rxDropped := host.ntohll src.rxDropped
    txDropped := host.ntohll src.txDropped
    rxErrors := host.ntohll src.rxErrors
    txErrors := host.ntohll src.txErrors
    rxFrameErr := host.ntohll src.rxFrameErr
    rxOverErr := host.ntohll src.rxOverErr
    rxCrcErr := host.ntohll src.rxCrcErr
    collisions := host.ntohll src.collisions }

instance : Laid OfpPortStats where
  layout := ofpPortStats
  cells v := [.u16 v.portNo, .pad v.pad, .u64 v.rxPackets, .u64 v.txPackets, .u64 v.rxBytes,
    .u64 v.txBytes, .u64 v.rxDropped, .u64 v.txDropped, .u64 v.rxErrors, .u64 v.txErrors,
    .u64 v.rxFrameErr, .u64 v.rxOverErr, .u64 v.rxCrcErr, .u64 v.collisions]
  clear v := { v with pad := Vector.replicate 6 0 }

structure OfpQueueStats where
  portNo : UInt16
  pad : Vector UInt8 2
  queueId : UInt32
  txBytes : UInt64
  txPackets : UInt64
  txErrors : UInt64

/-- Here the source has the functions of the other direction. -/
def ntohQueueStats (host : Host) (dst src : OfpQueueStats) : OfpQueueStats :=
  { dst with
    portNo := host.htons src.portNo
    pad := Vector.replicate 2 0
    queueId := host.htonl src.queueId
    txBytes := host.htonll src.txBytes
    txPackets := host.htonll src.txPackets
    txErrors := host.htonll src.txErrors }

instance : Laid OfpQueueStats where
  layout := ofpQueueStats
  cells v := [.u16 v.portNo, .pad v.pad, .u32 v.queueId, .u64 v.txBytes, .u64 v.txPackets,
    .u64 v.txErrors]
  clear v := { v with pad := Vector.replicate 2 0 }

/-- The fifteen conversions that are used both ways are their own inverses but for the padding,
and put every number into network order. -/
theorem conversions_selfInverse (host : Host) :
  Conversion host (ntohMatch host) ∧
    Conversion host (ntohPhyPort host) ∧
    Conversion host (ntohActionOutput host) ∧
    Conversion host (ntohActionVlanVid host) ∧
    Conversion host (ntohActionVlanPcp host) ∧
    Conversion host (ntohActionStripVlan host) ∧
    Conversion host (ntohActionDlAddr host) ∧
    Conversion host (ntohActionNwAddr host) ∧
    Conversion host (ntohActionNwTos host) ∧
    Conversion host (ntohActionTpPort host) ∧
    Conversion host (ntohActionEnqueue host) ∧
    Conversion host (ntohAggregateStats host) ∧
    Conversion host (ntohTableStats host) ∧
    Conversion host (ntohPortStats host) ∧
    Conversion host (ntohQueueStats host)
  := by
  repeat' apply And.intro
  all_goals exact conversion_of_cells (fun _ _ => rfl)

/-- The readers of the entries of statistics replies are these conversions. -/
theorem statsEntries_returns {host : Host} {mem : Memory} {p : ℕ} :
  (∀ dst v, Holds mem p (Laid.stored host v) → (CcController.ntohTableStats host p).Returns mem
      (Laid.stored host (ntohTableStats host dst v))) ∧
    (∀ dst v, Holds mem p (Laid.stored host v) → (CcController.ntohPortStats host p).Returns mem
      (Laid.stored host (ntohPortStats host dst v))) ∧
    (∀ dst v, Holds mem p (Laid.stored host v) → (CcController.ntohQueueStats host p).Returns mem
      (Laid.stored host (ntohQueueStats host dst v)))
  := by
  refine ⟨fun dst v h => ?_, fun dst v h => ?_, fun dst v h => ?_⟩
  · exact ntohStruct_stored (fun _ _ => rfl) h dst
  · exact ntohStruct_stored (fun _ _ => rfl) h dst
  · exact ntohStruct_stored (fun _ _ => rfl) h dst

end Conversions

end CcController
