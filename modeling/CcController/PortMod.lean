import CcController.BuilderAccepted
import CcController.BuilderXid

/-!
# Modifying a port

`validatePortMod` checks the advertised features with the mask of the configuration bits, which
has seven of the twelve features. The messages of `ccCreatePortMod` are checked as they should be
unless they advertise one of the other five (`portMod_checked_iff`).
-/

namespace CcController

/-- The fields of the message before the advertised features are legal. -/
structure LegalPortModArgs (portNo : UInt16) (config mask : UInt32) : Prop where
  portNo : portNo ≠ 0 ∧ portNo ≤ ofppMax ∨ portNo = ofppLocal
  config : config &&& ~~~portConfig = 0
  mask : mask &&& ~~~portConfig = 0

/-- The message that advertises `advertise` is accepted if these are features, and else
rejected for them. -/
structure ChecksAdvertise (host : Host) (advertise : UInt32) (buf : Buffer) : Prop where
  accepted : advertise &&& ~~~portFeatures = 0 →
    (validatePortMod (some buf.length)).Returns (buf.memory host) 0
  rejected : advertise &&& ~~~portFeatures ≠ 0 →
    (validatePortMod (some buf.length)).Returns (buf.memory host) errorInvalidPortFeatures

/-- The bits that are checked are among those that are not features. -/
theorem features_of_config {advertise : UInt32} (h : advertise &&& ~~~portConfig = 0) :
  advertise &&& ~~~portFeatures = 0
  := by
  have hmask : ~~~portFeatures = ~~~portConfig &&& ~~~portFeatures := by decide
  rw [hmask, ← UInt32.and_assoc, h, UInt32.zero_and]

theorem LegalPortModArgs.validatePhyPortNo_eq {portNo : UInt16} {config mask : UInt32}
    (h : LegalPortModArgs portNo config mask) :
  validatePhyPortNo portNo = 0 ∧ ¬ (portNo > ofppMax ∧ portNo ≠ ofppLocal)
  := by
  rcases h.portNo with ⟨hzero, hmax⟩ | rfl
  · constructor
    · apply if_neg
      rintro (heq | ⟨hlt, -⟩)
      · exact hzero heq
      · exact UInt16.not_lt.mpr hmax hlt
    · rintro ⟨hlt, -⟩
      exact UInt16.not_lt.mpr hmax hlt
  · exact ⟨rfl, fun hne => hne.2 rfl⟩

/-- The body of the message. -/
abbrev portModBody (portNo : UInt16) (hwAddr : HwAddr) (config mask advertise : UInt32) :
    List UInt8 :=
  [htons portNo, hwAddr.bytes, htonl config, htonl mask, htonl advertise,
    List.replicate 4 0].flatten

section

variable {host : Host} {xid : UInt32} {portNo : UInt16} {hwAddr : HwAddr}
  {config mask advertise : UInt32} {buf : Buffer}

theorem length_portModBody :
  (portModBody portNo hwAddr config mask advertise).length = 24
  := by
  simp [hwAddr.size]

/-- What is checked of a message with legal fields is whether its features are configuration
bits. -/
theorem Created.validatePortMod_returns
    (h : Created host xid ofptPortMod (portModBody portNo hwAddr config mask advertise) buf)
    (hargs : LegalPortModArgs portNo config mask) :
  (validatePortMod (some buf.length)).Returns (buf.memory host)
    (if advertise &&& ~~~portConfig ≠ 0 then errorInvalidPortFeatures else 0)
  := by
  have hlength : buf.length = 32 := by
    rw [h.length, length_portModBody]
  have hheader : Accepts (validateHeader (some buf.length) ofptPortMod 32 32)
      (buf.memory host) := by
    have hok : HeaderOk buf.length (buf.memory host) ofptPortMod 32 ushrtMax.toNat :=
      h.headerOk (by rw [length_portModBody])
    apply (validateHeader_accepts (by omega) (by decide)).mpr
    exact ⟨hok.version, hok.type, hok.length, hok.min, by omega⟩
  have hbody := h.holds.2
  simp only [portModBody, List.flatten_cons, holds_append, length_htons, length_htonl,
    hwAddr.size] at hbody
  obtain ⟨hportNo, -, hconfig, hmask, hadvertise, -⟩ := hbody
  have hno : be16 (buf.memory host) 8 = portNo := be16_of_holds hportNo
  have hconfig' : be32 (buf.memory host) 16 = config := be32_of_holds hconfig
  have hmask' : be32 (buf.memory host) 20 = mask := be32_of_holds hmask
  have hadvertise' : be32 (buf.memory host) 24 = advertise := be32_of_holds hadvertise
  obtain ⟨hlegal, hmax⟩ := hargs.validatePhyPortNo_eq
  obtain ⟨ret, hret, hpos⟩ := hheader
  rw [validatePortMod, unlessNull_some, returns_passing]
  refine .inr ⟨ret, hret, hpos, ?_⟩
  simp only [Reader.returns_bind, returns_passing, Reader.returns_ite, Reader.returns_pure,
    returns_ntohs, returns_ntohl, exists_eq_left, hno, hconfig', hmask', hadvertise', hlegal,
    hmax, hargs.config, hargs.mask]
  by_cases hadv : advertise &&& ~~~portConfig = 0
  · simp [hadv]
  · simp [hadv]

theorem ccCreatePortMod_makes :
  Makes host xid ofptPortMod (portModBody portNo hwAddr config mask advertise) 3
    (ccCreatePortMod host xid portNo hwAddr config mask advertise)
  := by
  apply createWith_fields
  rw [length_portModBody]
  rfl

/-- Features that are not configuration bits are rejected. -/
theorem portMod_rejected (hroom : 32 ≤ host.scratch) (hargs : LegalPortModArgs portNo config mask)
    (hfeatures : advertise &&& ~~~portFeatures = 0) (hconfig : advertise &&& ~~~portConfig ≠ 0)
    {w : World} (hgrants : w.Grants 3) :
  ¬ Delivers 3 (ccCreatePortMod host xid portNo hwAddr config mask advertise) w
      (fun result => ∃ buf, result = some buf ∧ ChecksAdvertise host advertise buf)
  := by
  intro hchecks
  apply hchecks.not_ends
  apply ccCreatePortMod_makes
  · rintro - - buf _ hbuf ⟨_, hsome, hright⟩
    obtain rfl := Option.some.inj hsome
    have hreturns := hbuf.validatePortMod_returns hargs
    rw [if_pos hconfig] at hreturns
    cases (hright.accepted hfeatures).unique hreturns
  · rintro hfails -
    exact hfails hgrants
  · rw [length_portModBody]
    intro hlt
    exact absurd hroom (Nat.not_le_of_lt hlt)

end

/-- With legal fields otherwise, the message is checked as it should be exactly if the
advertised features are among the configuration bits or not all of them are features. -/
theorem portMod_checked_iff (host : Host) (hroom : 32 ≤ host.scratch) (xid : UInt32)
    (portNo : UInt16) (hwAddr : HwAddr) (config mask advertise : UInt32)
    (hargs : LegalPortModArgs portNo config mask) :
  (∀ w, Delivers 3 (ccCreatePortMod host xid portNo hwAddr config mask advertise) w
      (fun result => ∃ buf, result = some buf ∧ ChecksAdvertise host advertise buf)) ↔
    (advertise &&& ~~~portFeatures = 0 → advertise &&& ~~~portConfig = 0)
  := by
  constructor
  · intro hchecks hfeatures
    by_contra hconfig
    exact portMod_rejected hroom hargs hfeatures hconfig (fun _ _ => rfl) (hchecks World.start)
  · intro hbits w
    apply ccCreatePortMod_makes.delivers
    · rw [length_portModBody]
      exact hroom
    · intro buf hbuf
      have hreturns := hbuf.validatePortMod_returns hargs
      refine ⟨buf, rfl, fun hfeatures => ?_, fun hnot => ?_⟩
      · rw [if_neg (not_not.mpr (hbits hfeatures))] at hreturns
        exact hreturns
      · rw [if_pos (fun hconfig => hnot (features_of_config hconfig))] at hreturns
        exact hreturns

/-- Port one may advertise 10 Gb links. -/
theorem portMod_checked_ten :
  (∀ w, Delivers 3 (ccCreatePortMod Host.roomy 1 1 ⟨List.replicate 6 0, rfl⟩ 0 0 64) w
      (fun result => ∃ buf, result = some buf ∧ ChecksAdvertise Host.roomy 64 buf)) ↔
    ((64 : UInt32) &&& ~~~portFeatures = 0 → (64 : UInt32) &&& ~~~portConfig = 0)
  := portMod_checked_iff Host.roomy (by decide) 1 1 ⟨List.replicate 6 0, rfl⟩ 0 0 64
    ⟨.inl (by decide), by decide, by decide⟩

/-- A port whose medium is copper cannot be advertised. -/
theorem portMod_copper :
  ¬ ∀ (host : Host) (xid : UInt32) (portNo : UInt16) (hwAddr : HwAddr)
      (config mask advertise : UInt32) (w : World), 32 ≤ host.scratch →
    LegalPortModArgs portNo config mask →
    Delivers 3 (ccCreatePortMod host xid portNo hwAddr config mask advertise) w
      (fun result => ∃ buf, result = some buf ∧ ChecksAdvertise host advertise buf)
  := by
  intro h
  have hroom : 32 ≤ Host.roomy.scratch := by decide
  have hargs : LegalPortModArgs 1 0 0 := ⟨.inl (by decide), by decide, by decide⟩
  exact portMod_rejected hroom hargs (by decide) (by decide) (fun _ _ => rfl)
    (h Host.roomy 1 1 ⟨List.replicate 6 0, rfl⟩ 0 0 128 World.start hroom hargs)

end CcController
