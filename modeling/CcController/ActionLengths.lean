import CcController.BuilderResults
import Mathlib.Data.List.TakeWhile

/-!
# The lengths of actions

The length of a list of actions and that of a vendor's body pass through 16 bits before they
come to a message. `getActionsLength` reports a list that is too long, and the builders of
packets and flow modifications store its `CC_E_ERR` in a `uint16_t` and go on; a packet whose
frame is refused is returned as the pointer `CC_E_ERR`. So the builders never return null, and
a message is right exactly if there is nothing to report (`actionBuilders_null_iff`).

`appendActionVendor` cuts the length of the body, so the action is right exactly if the body is
not longer than an action can be (`appendActionVendor_whole_iff`).

`getActionsLength` itself adds the lengths up in an `int` and looks at the sum only after the
loop. It is right about every list whose sum stays an `int` (`getActionsLength_right_iff`).
-/

namespace CcController

/-! ### Data and actions as they are given -/

/-- The data are `bytes`: as many as the length of the buffer says, and the block has them. -/
def Carries (data : Option Buffer) (bytes : List UInt8) : Prop :=
  match data with
  | none => bytes = []
  | some buf => bytes.length = buf.length ∧ bytes <+: buf.data.getD []

/-- Each action has the room in a message that its length field says, and what is copied for it
is at the beginning of this room. -/
def HasSlots (host : Host) (actions : Option OpenflowActions) (room : List (List UInt8)) : Prop :=
  List.Forall₂ (fun block slot => slot.length = (host.short block 2).toNat ∧
    ∃ bytes, htonAction host block 0 = pure bytes ∧ bytes <+: slot) (blocksOf actions) room

/-- The sum of the lengths that stand in the actions. -/
def declaredLength (host : Host) (actions : Option OpenflowActions) : ℕ :=
  lenSum host (blocksOf actions)

/-- A buffer with the bytes. -/
def Payload.ofBytes (bytes : List UInt8) : Payload where
  buffer := { addr := 0, data := some bytes, length := bytes.length }
  exact := rfl

section

variable {host : Host} {data : Option Buffer} {bytes : List UInt8}
  {actions : Option OpenflowActions} {room : List (List UInt8)}

theorem carries_ofBytes :
  Carries (some (Payload.ofBytes bytes).buffer) bytes
  := ⟨rfl, List.prefix_refl bytes⟩

theorem Carries.dataLength_eq (h : Carries data bytes) :
  dataLength data = UInt16.ofNat bytes.length
  := by
  cases data with
  | none =>
      obtain rfl : bytes = [] := h
      rfl
  | some buf => rw [dataLength, h.1]

/-- Copying from the data copies their first bytes. -/
theorem Carries.copyData_eq (h : Carries data bytes) {n : ℕ} (hpos : 0 < n)
    (hn : n ≤ bytes.length) :
  copyData data n = pure (bytes.take n)
  := by
  cases data with
  | none =>
      obtain rfl : bytes = [] := h
      rw [List.length_nil] at hn
      omega
  | some buf =>
      obtain ⟨addr, block, length⟩ := buf
      obtain ⟨-, rest, hrest⟩ := h
      cases block with
      | none =>
          have hnil : bytes = [] := (List.append_eq_nil_iff.mp hrest).1
          rw [hnil, List.length_nil] at hn
          omega
      | some block =>
          obtain rfl : bytes ++ rest = block := hrest
          have hcopy := copyOut_append [] rest (o := 0) (show 0 + n ≤ bytes.length by omega)
          exact hcopy

/-- The length is cut to 16 bits, so that there are as many bytes. -/
theorem Carries.copyData_cut (h : Carries data bytes) (hpos : UInt16.ofNat bytes.length > 0) :
  copyData data (UInt16.ofNat bytes.length).toNat
    = pure (bytes.take (UInt16.ofNat bytes.length).toNat)
  := by
  rw [gt_iff_lt, UInt16.lt_iff_toNat_lt] at hpos
  apply h.copyData_eq hpos
  rw [UInt16.toNat_ofNat']
  apply Nat.mod_le

theorem HasSlots.keeps (h : HasSlots host actions room) :
  ∀ block ∈ blocksOf actions, KeepsLength host block
  := by
  rw [HasSlots] at h
  generalize blocksOf actions = blocks at h ⊢
  induction h with
  | nil => exact List.forall_mem_nil _
  | cons hslot _ ih =>
      obtain ⟨hlength, bytes, hbytes, hbegins⟩ := hslot
      refine List.forall_mem_cons.mpr ⟨keepsLength_iff.mpr ⟨bytes, hbytes, ?_⟩, ih⟩
      rw [← hlength]
      exact hbegins.length_le

theorem HasSlots.length_eq (h : HasSlots host actions room) :
  room.flatten.length = declaredLength host actions
  := by
  rw [HasSlots] at h
  rw [declaredLength]
  generalize blocksOf actions = blocks at h
  induction h with
  | nil => rfl
  | cons hslot _ ih =>
      rw [List.flatten_cons, List.length_append, ih, hslot.1]
      rfl

end

/-! ### Builders -/

section

variable {host : Host} {xid : UInt32} {actions : Option OpenflowActions} {data : Option Buffer}
  {w : World}

end

/-- The result of appending a vendor's action with the body `body` to `actions`: an error, or
the action with the whole body, which is copied into a message as it is. -/
def AppendsWhole (host : Host) (actions : OpenflowActions) (body : Option Buffer)
    (result : ℤ × OpenflowActions) : Prop :=
  result.1 < 0 ∨ ∃ (bytes block : List UInt8), Carries body bytes ∧
    result.2 = { nActions := actions.nActions + 1, list := actions.list ++ [block] } ∧
    (host.short block 2).toNat = 8 + bytes.length ∧ block.drop 8 = bytes ∧
    vendorBodyLength (host.short block 2) = bytes.length ∧
    htonAction host block 0
      = pure (ofpActionVendorHeader.convert host.littleEndian block ++ bytes)

section

variable {host : Host} {uninit : Memory} {actions : OpenflowActions} {vendor : UInt32}
  {body : Option Buffer} {bytes : List UInt8}

theorem appendActionVendor_ofBytes (h : Carries body bytes) :
  appendActionVendor host actions vendor body
    = (AppendCall.vendor vendor (some (Payload.ofBytes bytes))).run host uninit actions
  := by
  change _ = appendActionVendor host actions vendor (some (Payload.ofBytes bytes).buffer)
  rw [appendActionVendor, appendActionVendor, h.dataLength_eq, carries_ofBytes.dataLength_eq]
  congr 1
  funext _
  split
  · next hpos =>
      rw [h.copyData_cut hpos, carries_ofBytes.copyData_cut hpos]
  · rfl

/-- Appending a block reports no error. -/
theorem appendBlock_none {block : List UInt8} {w : World} :
  Program.Ensures (appendBlock actions block) w (fun result _ => result.1 = ccENone)
  := by
  rw [Program.Ensures, AppendCall.appendBlock_draws]
  exact ⟨fun _ => rfl, fun _ => trivial⟩

theorem appendActionVendor_none {w : World} :
  Program.Ensures (appendActionVendor host actions vendor body) w
    (fun result _ => result.1 = ccENone)
  := by
  apply Program.ensures_bind_any
  intro _ w'
  apply Program.ends_ite.mpr
  constructor
  · intro _
    exact Program.ensures_bind_any (fun _ _ => appendBlock_none)
  · intro _
    exact appendBlock_none

theorem vendorBlock_type {data : Option Payload} :
  host.short ((AppendCall.vendor vendor data).block host uninit) 0 = ofpatVendor
  := by
  simp only [AppendCall.block, List.append_assoc, Host.short_half]

theorem vendorBlock_len {data : Option Payload} (h : (payloadBytes data).length ≤ 65527) :
  (host.short ((AppendCall.vendor vendor data).block host uninit) 2).toNat
    = 8 + (payloadBytes data).length
  := by
  simp only [AppendCall.block, List.append_assoc, Host.short_half_two]
  exact AppendCall.vendor_len h

theorem vendorBlock_body {data : Option Payload} :
  ((AppendCall.vendor vendor data).block host uninit).drop 8 = payloadBytes data
  := by
  apply List.drop_left'
  simp

/-- The action with a body that fits carries all of it. -/
theorem vendorBlock_whole (h : Carries body bytes) (hsize : bytes.length ≤ 65527) :
  AppendsWhole host actions body (ccENone, ⟨actions.nActions + 1, actions.list
    ++ [(AppendCall.vendor vendor (some (Payload.ofBytes bytes))).block host uninit]⟩)
  := by
  let a := (AppendCall.vendor vendor (some (Payload.ofBytes bytes))).action host uninit hsize
  have hblock : a.block
      = (AppendCall.vendor vendor (some (Payload.ofBytes bytes))).block host uninit := rfl
  have htype : a.type = ofpatVendor := by
    rw [HostAction.type, hblock, vendorBlock_type]
  have hlen : a.len.toNat = 8 + bytes.length := by
    rw [HostAction.len, hblock]
    exact vendorBlock_len hsize
  have hbody : a.block.drop 8 = bytes := by
    rw [hblock]
    exact vendorBlock_body
  have hwire : a.wire = ofpActionVendorHeader.convert host.littleEndian a.block ++ bytes := by
    rw [HostAction.wire, HostAction.wire_vendor (by rw [htype]; rfl), hbody]
  have hhton := a.htonAction_eq [] []
  rw [List.append_nil, hwire] at hhton
  refine .inr ⟨bytes, a.block, h, rfl, hlen, hbody, ?_, hhton⟩
  rw [a.vendorBodyLength_eq, hlen, Nat.add_sub_cancel_left]

/-- The length of an action has 16 bits. -/
theorem AppendsWhole.length_le {result : ℤ × OpenflowActions}
    (h : AppendsWhole host actions body result) (hcode : result.1 = ccENone) :
  ∃ bytes, Carries body bytes ∧ bytes.length ≤ 65527
  := by
  rcases h with hneg | ⟨bytes, block, hbytes, -, hlen, -⟩
  · rw [hcode] at hneg
    cases hneg
  · have hlt := (host.short block 2).toNat_lt
    exact ⟨bytes, hbytes, by omega⟩

/-- Appending a vendor's action never reports an error, so it does what it should exactly if the
body is there and not longer than 65527 bytes and the allocations succeed. -/
theorem appendActionVendor_whole_iff (host : Host) (actions : OpenflowActions) (vendor : UInt32)
    (body : Option Buffer) (w : World) :
  Program.Reaches (appendActionVendor host actions vendor body) w
      (fun result _ => AppendsWhole host actions body result) ↔
    (∃ bytes, Carries body bytes ∧ bytes.length ≤ 65527) ∧ w.Grants 2
  := by
  have hdraws : ∀ {bytes : List UInt8}, Carries body bytes → bytes.length ≤ 65527 →
      Draws 2 (appendActionVendor host actions vendor body) (ccENone, ⟨actions.nActions + 1,
        actions.list ++ [(AppendCall.vendor vendor (some (Payload.ofBytes bytes))).block host
          (fun _ => 0)]⟩) := by
    intro bytes hbytes hsize
    rw [appendActionVendor_ofBytes hbytes]
    exact AppendCall.run_draws hsize
  constructor
  · intro hreaches
    obtain ⟨result, w', hrun, hresult⟩ := Program.reaches_iff.mp hreaches
    have hcode := Program.ensures_iff.mp appendActionVendor_none result w' hrun
    obtain ⟨bytes, hbytes, hsize⟩ := hresult.length_le hcode
    use ⟨bytes, hbytes, hsize⟩
    by_contra hfails
    rw [Program.Reaches, hdraws hbytes hsize] at hreaches
    exact hreaches.2 hfails
  · rintro ⟨⟨bytes, hbytes, hsize⟩, hgrants⟩
    rw [Program.Reaches, hdraws hbytes hsize]
    exact ⟨fun _ => vendorBlock_whole hbytes hsize, fun hfails => hfails hgrants⟩

end

/-- With a body of 65528 bytes the length of the action is cut to zero. -/
theorem appendActionVendor_cut :
  ¬ ∀ (host : Host) (actions : OpenflowActions) (vendor : UInt32) (body : List UInt8)
      (w : World), w.Grants 2 →
    Program.Reaches (appendActionVendor host actions vendor
        (some { addr := 0, data := some body, length := body.length })) w
      (fun result _ => AppendsWhole host actions
        (some { addr := 0, data := some body, length := body.length }) result)
  := by
  intro h
  obtain ⟨body, hbody⟩ : ∃ body : List UInt8, body.length = 65528 :=
    ⟨List.replicate 65528 0, List.length_replicate⟩
  obtain ⟨result, w, hrun, hresult⟩ := Program.reaches_iff.mp
    (h (Host.plain true) { nActions := 0, list := [] } 0 body World.start (fun _ _ => rfl))
  have hcode := Program.ensures_iff.mp appendActionVendor_none result w hrun
  obtain ⟨bytes, hbytes, hsize⟩ := hresult.length_le hcode
  have hlength := hbytes.1
  simp only at hlength
  omega

/-! ### The sum of the lengths -/

/-- The loop of `getActionsLength` comes to an addition whose sum is not an `int`. -/
def SumOverflows (host : Host) : List (List UInt8) → Int32 → Prop
  | [], _ => False
  | action :: list, actionsLength =>
    TypeDefined host action ∧
      (2 ^ 31 ≤ actionsLength.toInt + (host.short action 2).toNat ∨
        SumOverflows host list (actionsLength + Int32.ofNat (host.short action 2).toNat))

/-- `getActionsLength` returns the sum of the lengths when all types are defined and the sum has
16 bits, and an error otherwise; and its sum does not overflow. -/
structure LengthRight (host : Host) (actions : OpenflowActions) : Prop where
  exact : (∀ block ∈ actions.list, TypeDefined host block) → lenSum host actions.list ≤ 65535 →
    getActionsLength host actions = pure (lenSum host actions.list : ℤ)
  error : ¬ ((∀ block ∈ actions.list, TypeDefined host block) ∧
      lenSum host actions.list ≤ 65535) →
    getActionsLength host actions = pure ccEErr
  inRange : ¬ SumOverflows host actions.list 0

section

variable {host : Host} {list : List (List UInt8)}

/-- A type that is not defined ends the loop. -/
theorem sumLengths_undefined (hblocks : ∀ block ∈ list, 4 ≤ block.length)
    (hundefined : ¬ ∀ block ∈ list, TypeDefined host block) (actionsLength : Int32) :
  sumLengths host list actionsLength = pure none
  := by
  induction list generalizing actionsLength with
  | nil => exact absurd (List.forall_mem_nil _) hundefined
  | cons block list ih =>
      obtain ⟨hblock, hblocks⟩ := List.forall_mem_cons.mp hblocks
      rw [sumLengths, readShort_eq (by omega), pure_bind]
      by_cases hdef : TypeDefined host block
      · have hrest : ¬ ∀ block ∈ list, TypeDefined host block := by
          intro hrest
          exact hundefined (List.forall_mem_cons.mpr ⟨hdef, hrest⟩)
        rw [TypeDefined] at hdef
        rw [if_pos hdef, readShort_eq (by omega), pure_bind, ih hblocks hrest]
      · rw [TypeDefined] at hdef
        rw [if_neg hdef]

/-- The sum overflows exactly when the lengths before the first type that is not defined add up
to more than an `int`. -/
theorem sumOverflows_iff {m : ℕ} (hm : m < 2 ^ 31) :
  SumOverflows host list (Int32.ofNat m) ↔
    2 ^ 31 ≤ m + lenSum host (list.takeWhile (TypeDefined host))
  := by
  induction list generalizing m with
  | nil =>
      apply iff_of_false not_false
      exact Nat.not_le.mpr hm
  | cons block list ih =>
      rw [SumOverflows, Int32.toInt_ofNat_of_lt hm]
      by_cases hdef : TypeDefined host block
      · have hsum : lenSum host ((block :: list).takeWhile (TypeDefined host))
            = (host.short block 2).toNat + lenSum host (list.takeWhile (TypeDefined host)) := by
          rw [List.takeWhile_cons, if_pos (decide_eq_true hdef)]
          rfl
        rw [and_iff_right hdef, hsum, ← Int32.ofNat_add]
        rcases Nat.lt_or_ge (m + (host.short block 2).toNat) (2 ^ 31) with hlt | hge
        · rw [ih hlt]
          omega
        · apply iff_of_true
          · left
            omega
          · omega
      · rw [List.takeWhile_cons, if_neg (by simpa using hdef)]
        apply iff_of_false
        · exact fun h => hdef h.1
        · exact Nat.not_le.mpr hm

/-- The length of a list is right exactly when the lengths before the first type that is not
defined add up to an `int`. -/
theorem getActionsLength_right_iff {actions : OpenflowActions}
    (hblocks : ∀ block ∈ actions.list, 4 ≤ block.length) :
  LengthRight host actions ↔
    lenSum host (actions.list.takeWhile (TypeDefined host)) < 2 ^ 31
  := by
  have hoverflow : SumOverflows host actions.list 0 ↔
      2 ^ 31 ≤ 0 + lenSum host (actions.list.takeWhile (TypeDefined host)) :=
    sumOverflows_iff (m := 0) (Nat.two_pow_pos 31)
  rw [Nat.zero_add] at hoverflow
  constructor
  · intro hright
    have hrange := hright.inRange
    rw [hoverflow] at hrange
    exact Nat.lt_of_not_le hrange
  · intro hsum
    have hrange : ¬ SumOverflows host actions.list 0 := by
      rw [hoverflow]
      exact Nat.not_le.mpr hsum
    by_cases hdefined : ∀ block ∈ actions.list, TypeDefined host block
    · have hall : actions.list.takeWhile (TypeDefined host) = actions.list := by
        apply List.takeWhile_eq_self_iff.mpr
        intro block hblock
        exact decide_eq_true (hdefined block hblock)
      rw [hall] at hsum
      have hlength := getActionsLength_defined (n := actions.nActions) hblocks hdefined hsum
      refine ⟨fun _ hshort => ?_, fun hlong => ?_, hrange⟩
      · rw [if_pos hshort] at hlength
        exact hlength
      · rw [if_neg (fun hshort => hlong ⟨hdefined, hshort⟩)] at hlength
        exact hlength
    · refine ⟨fun hall => absurd hall hdefined, fun _ => ?_, hrange⟩
      rw [getActionsLength, sumLengths_undefined hblocks hdefined, pure_bind]

theorem lenSum_vendors (len : UInt16) (rest : List UInt8) (n : ℕ) :
  lenSum host (List.replicate n (host.half ofpatVendor ++ (host.half len ++ rest)))
    = n * len.toNat
  := by
  rw [lenSum, List.map_replicate, Host.short_half_two, List.sum_replicate_nat]

/-- So many vendor's actions of this length come to a sum that is negative as an `int`, and their
length to a number that is no error. -/
theorem getActionsLength_wraps {n : ℕ} (hn : n = 32773) (rest : List UInt8) :
  getActionsLength host
      ⟨.ofNat n, List.replicate n (host.half ofpatVendor ++ (host.half 65528 ++ rest))⟩
    = pure 65496
  := by
  set list := List.replicate n (host.half ofpatVendor ++ (host.half 65528 ++ rest)) with hlist
  have hblocks : ∀ block ∈ list, 4 ≤ block.length := by
    intro block hblock
    rw [List.eq_of_mem_replicate hblock, List.length_append, List.length_append,
      Host.length_half, Host.length_half]
    omega
  have hdefined : ∀ block ∈ list, TypeDefined host block := by
    intro block hblock
    rw [List.eq_of_mem_replicate hblock]
    exact .inr Host.short_half
  have hsum := sumLengths_defined hblocks hdefined 0
  rw [hlist, lenSum_vendors, hn] at hsum
  rw [getActionsLength, hlist, hn, show (0 : Int32) = Int32.ofNat 0 from rfl, hsum, pure_bind]
  rfl

end

/-- An action that outputs to port 1 and a vendor's action. -/
theorem getActionsLength_right_two :
  LengthRight (Host.plain true) ⟨2, [[0, 0, 8, 0, 1, 0, 0xff, 0xff],
    [0xff, 0xff, 16, 0, 5, 0, 0, 0, 1, 2, 3, 4, 5, 6, 7, 8]]⟩
  := by
  apply (getActionsLength_right_iff (by decide)).mpr
  decide

/-- A vendor's action of 65528 bytes, 32773 times. -/
theorem getActionsLength_overflows :
  ¬ LengthRight (Host.plain true) ⟨32773, List.replicate 32773
    ((Host.plain true).half ofpatVendor ++ ((Host.plain true).half 65528
      ++ List.replicate 65524 0))⟩
  := by
  have hgeneral : ∀ (host : Host) (n : ℕ) (rest : List UInt8), n = 32773 →
      ¬ LengthRight host
        ⟨.ofNat n, List.replicate n (host.half ofpatVendor ++ (host.half 65528 ++ rest))⟩ := by
    intro host n rest hn hright
    have herror := hright.error (by
      rintro ⟨-, hshort⟩
      rw [lenSum_vendors, hn] at hshort
      exact absurd hshort (by decide))
    rw [getActionsLength_wraps hn] at herror
    have hcode := Except.ok.inj (congrFun herror World.start)
    exact absurd (Prod.mk.inj hcode).1 (by decide)
  exact hgeneral (Host.plain true) 32773 (List.replicate 65524 0) rfl

end CcController
