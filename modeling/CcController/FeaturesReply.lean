import CcController.Acceptance
import CcController.Builders
import CcController.Rejection

/-!
# Features replies

A features reply tells the number of the switch, the version, how many buffers there are, and
what the switch can do. The handler is to store this. It calls the validator of error messages,
which rejects every features reply; and behind that it would convert two of the fields as
numbers of another width.
-/

namespace CcController

variable {host : Host} {w : World} {buf : Buffer}

/-- What a features reply tells about the switch. -/
def featuresAt (mem : Memory) : EachSw where
  dpid := UInt64.ofNat ((be32 mem 8).toNat * 2 ^ 32 + (be32 mem 12).toNat)
  version := mem 0
  nBuffers := be32 mem 16
  actions := be32 mem 28
  capabilities := be32 mem 24

/-- The handler accepts the reply and stores `features` as the record of the switch. -/
def StoresFeatures (host : Host) (buf : Buffer) (w : World) (features : EachSw) : Prop :=
  Program.Reaches (ccRecvFeaturesReply.recv host buf) w
    (fun ret w' => ¬ ret < 0 ∧ w'.ccSwitch = features)

/-- A number of 32 bits is what its last 16 bits are exactly when it has no more. -/
theorem be32_eq_be16_iff {mem : Memory} {p : ℕ} :
  be32 mem p = (be16 mem (p + 2)).toUInt32 ↔ (be32 mem p).toNat < 2 ^ 16
  := by
  have hhigh := (be16 mem p).toNat_lt
  have hlow := (be16 mem (p + 2)).toNat_lt
  have hvalue : (be32 mem p).toNat = (be16 mem p).toNat * 65536 + (be16 mem (p + 2)).toNat :=
    UInt32.toNat_ofNat_of_lt' (by simp only [UInt32.size]; omega)
  rw [← UInt32.toNat_inj, UInt16.toNat_toUInt32, hvalue]
  omega

/-- What the handler would store is what the reply tells exactly on a big-endian host when the
number of buffers has 16 bits. -/
theorem featuresOf_returns_iff {mem : Memory} (hversion : mem 0 = ofpVersion) :
  (featuresOf host).Returns mem (featuresAt mem) ↔
    host.littleEndian = false ∧ (be32 mem 16).toNat < 2 ^ 16
  := by
  simp only [featuresOf, Reader.returns_bind, returns_ntohl, Reader.returns_read, returns_ntohs,
    exists_eq_left, Reader.returns_pure, featuresAt, EachSw.mk.injEq, true_and, and_true, hversion]
  cases host.littleEndian with
  | false =>
      simp only [Bool.false_eq_true, if_false, true_and]
      exact be32_eq_be16_iff
  | true =>
      have hne : ofpVersion ≠ 0 := by decide
      simp [hne]

/-- A message that passes for a features reply does not pass for an error message. -/
theorem not_accepts_validateError {n : ℕ} {mem : Memory}
    (h : Accepts (validateFeaturesReply (some n)) mem) :
  ¬ Accepts (validateError (some n)) mem
  := by
  intro herror
  have hreply := (validateHeader_accepts_iff (by decide) (by decide)).mp (accepts_passing.mp h).1
  have herror := (validateHeader_accepts_iff (by decide) (by decide)).mp
    (accepts_passing.mp herror).1
  have hsame := hreply.type.symm.trans herror.type
  exact absurd hsame (by decide)

/-- The handler rejects every features reply and leaves the record of the switch. -/
theorem ccRecvFeaturesReply_rejected
    (h : Accepts (validateFeaturesReply (some buf.length)) (buf.memory host)) :
  Program.Ensures (ccRecvFeaturesReply.recv host buf) w
    (fun ret w' => ret = ccEErr ∧ w'.ccSwitch = w.ccSwitch)
  := by
  apply RecvHandler.recv_ensures
  · intro _
    exact ⟨rfl, rfl⟩
  · intro haccepts
    exact absurd haccepts (not_accepts_validateError h)

theorem not_storesFeatures
    (h : Accepts (validateFeaturesReply (some buf.length)) (buf.memory host))
    (features : EachSw) :
  ¬ StoresFeatures host buf w features
  := by
  apply Program.not_reaches_of_ensures
  apply (ccRecvFeaturesReply_rejected h).mono
  rintro ret w' ⟨rfl, -⟩ ⟨hpos, -⟩
  exact hpos (by decide)

/-- No features reply that is accepted by its own validator is accepted by the handler, whatever
its xid is: the record of the switch gets neither what the reply tells nor, when the reply has
been created, what it was created with, but stays as it is, and an error is returned. -/
theorem ccRecvFeaturesReply_never (host : Host) (w : World) (buf : Buffer)
    (haccepts : Accepts (validateFeaturesReply (some buf.length)) (buf.memory host)) :
  ¬ StoresFeatures host buf w (featuresAt (buf.memory host)) ∧
    (∀ xid datapathId nBuffers nTables capabilities actions ports w₁ w₂,
      ccCreateFeaturesReply host xid datapathId nBuffers nTables capabilities actions ports w₁
        = .ok (some buf, w₂) →
      ¬ StoresFeatures host buf w ⟨datapathId, ofpVersion, nBuffers, actions, capabilities⟩) ∧
    Program.Ensures (ccRecvFeaturesReply.recv host buf) w
      (fun ret w' => ret = ccEErr ∧ w'.ccSwitch = w.ccSwitch)
  := by
  refine ⟨not_storesFeatures haccepts _, ?_, ccRecvFeaturesReply_rejected haccepts⟩
  intro xid datapathId nBuffers nTables capabilities actions ports w₁ w₂ _
  exact not_storesFeatures haccepts _

/-- The reply, with the xid 7, of a switch with one table. -/
def featuresReply : Buffer where
  addr := 0
  data := some [1, 6, 0, 32, 0, 0, 0, 7, 0, 0, 0, 0, 0, 0, 0, 1, 0, 0, 0, 2, 1, 0, 0, 0,
    0, 0, 0, 0, 0, 0, 0, 0]
  length := 32

/-- The xid of the reply is awaited. -/
theorem ccRecvFeaturesReply_never_awaited :
  ∃ xidTable, ccSendReqXid ccInitXidTable 6 true 0 = .ok (ccENone, xidTable) ∧
    Program.Ensures (ccRecvFeaturesReply.recv (Host.plain false) featuresReply)
      { World.start with xidTable := xidTable }
      (fun ret w' => ret = ccEErr ∧ w'.ccSwitch = World.start.ccSwitch)
  := ⟨_, rfl, (ccRecvFeaturesReply_never (Host.plain false) _ featuresReply
    ⟨0, ⟨0, by decide⟩, by decide⟩).2.2⟩

/-- A features reply whose xid is awaited and in time is not stored. -/
theorem ccRecvFeaturesReply_not_stored :
  ∃ xidTable, ccSendReqXid ccInitXidTable 6 true 0 = .ok (ccENone, xidTable) ∧
    xidTable.Timely (featuresReply.replyXid (Host.plain false)) 0 ∧
    Accepts (validateFeaturesReply (some 32)) (featuresReply.memory (Host.plain false)) ∧
    ¬ StoresFeatures (Host.plain false) featuresReply
      { World.start with xidTable := xidTable }
      (featuresAt (featuresReply.memory (Host.plain false)))
  := by
  have haccepts : Accepts (validateFeaturesReply (some 32))
      (featuresReply.memory (Host.plain false)) := ⟨0, ⟨0, by decide⟩, by decide⟩
  refine ⟨_, rfl, ?_, haccepts, not_storesFeatures haccepts _⟩
  exact ⟨53, _, rfl, rfl, by decide, by decide⟩

end CcController
