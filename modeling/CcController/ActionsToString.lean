import CcController.HostOrder
import CcController.Lib.Ending

/-!
# Actions as a string

`actions_to_string` prints an area of actions in the byte order of the host, one after another.
Each action is printed by the function for its type, which reports a full string; an action of
another type is printed without such a report. The next action begins where the `len` of this
one says, so the walk may pass the end of the area, or stay where it is.

Places are counted from the beginning of the area. The string is the list of its characters up
to the first null character.
-/

open Relation

namespace CcController

/-! ### Printing -/

/-- The number as `%u` prints it. -/
def decimal (v : ℕ) : List Char := Nat.toDigits 10 v

/-- The number as `%#x` prints it. -/
def hexadecimal (v : ℕ) : List Char :=
  if v = 0 then ['0'] else "0x".toList ++ Nat.toDigits 16 v

/-- The byte as `%02x` prints it. -/
def hexByte (b : UInt8) : List Char :=
  if b < 16 then '0' :: Nat.toDigits 16 b.toNat else Nat.toDigits 16 b.toNat

/-- The length of the text, and what is stored of it with room for `size` characters and the
null character among them. -/
def snprintf (size : UInt64) (text : List Char) : ℤ × List Char :=
  (text.length, text.take (size.toNat - 1))

/-- The size, converted to `int`. -/
def asInt (size : UInt64) : ℤ := size.toUInt32.toInt32.toInt

/-- Prints a text and reports whether it had room. -/
def printed (size : UInt64) (text : List Char) : ℤ × List Char :=
  let (ret, stored) := snprintf size text
  (if ret ≥ asInt size ∨ ret < 0 then ccEErr else ccENone, stored)

/-! ### The functions for the types of actions -/

/-- A function that prints an action: it reads the fields after the header and prints a text of
them. -/
def actionToString {A : Type} (fields : ℕ → MessageReader A) (text : A → List Char) (action : ℕ)
    (size : UInt64) : MessageReader (ℤ × List Char) := do
  return printed size (text (← fields (action + 4)))

def actionOutputToString (host : Host) : ℕ → UInt64 → MessageReader (ℤ × List Char) :=
  actionToString (fun p => do return (← loadShort host p, ← loadShort host (p + 2)))
    (fun (port, maxLen) => "output: port=".toList ++ decimal port.toNat ++ " max_len=".toList
      ++ decimal maxLen.toNat)

def actionSetVlanVidToString (host : Host) : ℕ → UInt64 → MessageReader (ℤ × List Char) :=
  actionToString (loadShort host)
    (fun vlanVid => "set_vlan_vid: vlan_vid=".toList ++ hexadecimal vlanVid.toNat)

def actionSetVlanPcpToString : ℕ → UInt64 → MessageReader (ℤ × List Char) :=
  actionToString Reader.read
    (fun vlanPcp => "set_vlan_pcp: vlan_pcp=".toList ++ hexadecimal vlanPcp.toNat)

def actionStripVlanToString : ℕ → UInt64 → MessageReader (ℤ × List Char) :=
  actionToString (fun _ => pure ()) (fun _ => "strip_vlan".toList)

def actionDlAddrToString (type : UInt16) : ℕ → UInt64 → MessageReader (ℤ × List Char) :=
  actionToString (fun p => bcopy p 6)
    (fun dlAddr => "set_dl_".toList ++ (if type = ofpatSetDlSrc then "src" else "dst").toList
      ++ ": dl_addr=".toList ++ [':'].intercalate (dlAddr.map hexByte))

def actionSetDlSrcToString : ℕ → UInt64 → MessageReader (ℤ × List Char) :=
  actionDlAddrToString ofpatSetDlSrc

def actionSetDlDstToString : ℕ → UInt64 → MessageReader (ℤ × List Char) :=
  actionDlAddrToString ofpatSetDlDst

/-- The address as `inet_ntop` prints it. -/
def inetNtop (addr : List UInt8) : List Char :=
  ['.'].intercalate (addr.map (fun b => decimal b.toNat))

def actionNwAddrToString (host : Host) (type : UInt16) :
    ℕ → UInt64 → MessageReader (ℤ × List Char) :=
  actionToString (loadLong host)
    (fun nwAddr => "set_nw_".toList ++ (if type = ofpatSetNwSrc then "src" else "dst").toList
      ++ ": nw_addr=".toList ++ inetNtop (htonl nwAddr))

def actionSetNwSrcToString (host : Host) : ℕ → UInt64 → MessageReader (ℤ × List Char) :=
  actionNwAddrToString host ofpatSetNwSrc

def actionSetNwDstToString (host : Host) : ℕ → UInt64 → MessageReader (ℤ × List Char) :=
  actionNwAddrToString host ofpatSetNwDst

def actionSetNwTosToString : ℕ → UInt64 → MessageReader (ℤ × List Char) :=
  actionToString Reader.read
    (fun nwTos => "set_nw_tos: nw_tos=".toList ++ hexadecimal nwTos.toNat)

def actionTpPortToString (host : Host) (type : UInt16) :
    ℕ → UInt64 → MessageReader (ℤ × List Char) :=
  actionToString (loadShort host)
    (fun tpPort => "set_tp_".toList ++ (if type = ofpatSetTpSrc then "src" else "dst").toList
      ++ ": tp_port=".toList ++ decimal tpPort.toNat)

def actionSetTpSrcToString (host : Host) : ℕ → UInt64 → MessageReader (ℤ × List Char) :=
  actionTpPortToString host ofpatSetTpSrc

def actionSetTpDstToString (host : Host) : ℕ → UInt64 → MessageReader (ℤ × List Char) :=
  actionTpPortToString host ofpatSetTpDst

/-- The queue's number stands behind the port and six bytes of padding. -/
def actionEnqueueToString (host : Host) : ℕ → UInt64 → MessageReader (ℤ × List Char) :=
  actionToString (fun p => do return (← loadShort host p, ← loadLong host (p + 8)))
    (fun (port, queueId) => "enqueue: port=".toList ++ decimal port.toNat ++ " queue_id=".toList
      ++ decimal queueId.toNat)

def actionVendorToString (host : Host) : ℕ → UInt64 → MessageReader (ℤ × List Char) :=
  actionToString (loadLong host)
    (fun vendor => "vendor: vendor=".toList ++ hexadecimal vendor.toNat)

/-- The function for a type of actions. -/
def toStringOf (host : Host) (type : UInt16) :
    Option (ℕ → UInt64 → MessageReader (ℤ × List Char)) :=
  if type = ofpatOutput then some (actionOutputToString host)
  else if type = ofpatSetVlanVid then some (actionSetVlanVidToString host)
  else if type = ofpatSetVlanPcp then some actionSetVlanPcpToString
  else if type = ofpatStripVlan then some actionStripVlanToString
  else if type = ofpatSetDlSrc then some actionSetDlSrcToString
  else if type = ofpatSetDlDst then some actionSetDlDstToString
  else if type = ofpatSetNwSrc then some (actionSetNwSrcToString host)
  else if type = ofpatSetNwDst then some (actionSetNwDstToString host)
  else if type = ofpatSetNwTos then some actionSetNwTosToString
  else if type = ofpatSetTpSrc then some (actionSetTpSrcToString host)
  else if type = ofpatSetTpDst then some (actionSetTpDstToString host)
  else if type = ofpatEnqueue then some (actionEnqueueToString host)
  else if type = ofpatVendor then some (actionVendorToString host)
  else none

/-- Prints the action at `header`. For a type without a function of its own nothing is
reported, and `ret` is what it was. -/
def printAction (host : Host) (type : UInt16) (ret : ℤ) (header : ℕ) (size : UInt64) :
    MessageReader (ℤ × List Char) :=
  match toStringOf host type with
  | some toString => toString header size
  | none => return (ret, (snprintf size ("undefined: type=".toList ++ hexadecimal type.toNat)).2)

/-! ### The walk -/

/-- What the loop keeps from action to action. -/
structure Printing where
  offset : UInt64
  str : List Char
  ret : ℤ

/-- The string, with a separator if there is something before it and room behind it, and the
room for the next action. -/
def separated (strLength : UInt64) (str : List Char) : List Char × UInt64 :=
  let remaining := strLength - UInt64.ofNat str.length
  if str.length > 0 ∧ remaining > 2 then (str ++ (snprintf remaining ", ".toList).2, remaining - 2)
  else (str, remaining)

def actionsToStringRound (host : Host) (actionsLength : UInt16) (strLength : UInt64)
    (s : Printing) : MessageReader (ℤ × List Char ⊕ Printing) :=
  if actionsLength.toUInt64 - s.offset ≥ 8 then do
    let (str, remaining) := separated strLength s.str
    let header := s.offset.toNat
    let type ← loadShort host header
    let (ret, text) ← printAction host type s.ret header remaining
    if ret = ccEErr then return .inl (ret, str ++ text)
    else do
      let len ← loadShort host (header + 2)
      return .inr ⟨s.offset + len.toUInt64, str ++ text, ret⟩
  else return .inl (s.ret, s.str)

/-- Prints the actions of an area of `actions_length` bytes into `str_length` characters. -/
def actionsToString (host : Host) (actionsLength : UInt16) (strLength : UInt64) :
    MessageReader (ℤ × List Char) := do
  let (ret, str) ← Reader.loop (actionsToStringRound host actionsLength strLength) ⟨0, [], ccENone⟩
  return (ret, str.take (strLength.toNat - 1))

/-! ### What the functions read -/

section

variable {host : Host} {mem : Memory} {p : ℕ}

/-- How far the fields of an action go that are read to print it. -/
def fieldsEnd (type : UInt16) : ℕ :=
  if type = ofpatSetDlSrc ∨ type = ofpatSetDlDst then 10
  else if type = ofpatEnqueue then 16
  else 8

/-- The fields that are read of an action at `p` have the value `a` and go as far as `reach`. -/
structure FieldsAt {A : Type} (mem : Memory) (p reach : ℕ) (fields : MessageReader A) (a : A) :
    Prop where
  returns : fields.Returns mem a
  within : ∀ n Q, p + 8 ≤ n → (Reader.Within (· < n) fields mem Q ↔ p + reach ≤ n ∧ Q a)

/-- The function makes `text` of the action at `p`, and reads as far as `reach` in it. -/
structure PrintsAt (mem : Memory) (p reach : ℕ)
    (toString : ℕ → UInt64 → MessageReader (ℤ × List Char)) (text : List Char) : Prop where
  nonempty : text ≠ []
  fieldsAt : ∀ size, FieldsAt mem p reach (toString p size) (printed size text)

theorem prints_actionToString {A : Type} {fields : ℕ → MessageReader A} {text : A → List Char}
    {a : A} {reach : ℕ} (hfields : FieldsAt mem p reach (fields (p + 4)) a)
    (htext : text a ≠ []) :
  PrintsAt mem p reach (actionToString fields text) (text a)
  where
    nonempty := htext
    fieldsAt size := {
      returns := Reader.returns_bind.mpr ⟨a, hfields.returns, Reader.returns_pure.mpr rfl⟩
      within := by
        intro n Q hn
        simp only [actionToString, Reader.within_bind, Reader.within_pure]
        apply hfields.within n _ hn }

theorem fieldsAt_loadShort {q reach : ℕ} (hreach : ∀ n, p + 8 ≤ n → (q + 2 ≤ n ↔ p + reach ≤ n)) :
  FieldsAt mem p reach (loadShort host q) (host.shortAt mem q)
  where
    returns := returns_loadShort.mpr rfl
    within n Q hn := by rw [within_loadShort, hreach n hn]

theorem fieldsAt_loadLong {q reach : ℕ} (hreach : ∀ n, p + 8 ≤ n → (q + 4 ≤ n ↔ p + reach ≤ n)) :
  FieldsAt mem p reach (loadLong host q) (host.longAt mem q)
  where
    returns := returns_loadLong.mpr rfl
    within n Q hn := by rw [within_loadLong, hreach n hn]

theorem fieldsAt_read :
  FieldsAt mem p 8 (Reader.read (p + 4)) (mem (p + 4))
  where
    returns := Reader.returns_read.mpr rfl
    within n Q hn := by
      rw [Reader.within_read]
      apply and_congr_left'
      omega

theorem fieldsAt_bcopy :
  FieldsAt mem p 10 (bcopy (p + 4) 6) (bytesAt mem (p + 4) 6)
  where
    returns := (yields_bcopy _ _).returns.mpr rfl
    within n Q hn := by
      rw [within_bcopy]
      apply and_congr_left'
      omega

theorem fieldsAt_none :
  FieldsAt mem p 8 (pure ()) ()
  where
    returns := Reader.returns_pure.mpr rfl
    within n Q hn := by rw [Reader.within_pure, and_iff_right hn]

theorem fieldsAt_two {A B : Type} {first : MessageReader A} {second : MessageReader B} {a : A}
    {b : B} {reach : ℕ} (hfirst : FieldsAt mem p 8 first a)
    (hsecond : FieldsAt mem p reach second b) :
  FieldsAt mem p reach (do return (← first, ← second)) (a, b)
  where
    returns := by
      simp only [Reader.returns_bind, Reader.returns_pure]
      exact ⟨a, hfirst.returns, b, hsecond.returns, rfl⟩
    within n Q hn := by
      simp only [Reader.within_bind, Reader.within_pure]
      rw [hfirst.within n _ hn, hsecond.within n _ hn, and_iff_right hn]

theorem of_ite_some {T : Type} {P : T → Prop} {c : Prop} [Decidable c] {a : T} {o : Option T}
    (ha : c → P a) (ho : ∀ t, o = some t → P t) :
  ∀ t, (if c then some a else o) = some t → P t
  := by
  intro t h
  split at h
  · next hc =>
      obtain rfl := Option.some.inj h
      exact ha hc
  · exact ho t h

/-- A function for a type reads no farther than the fields of that type go, and as far. -/
theorem prints_toStringOf (mem : Memory) (p : ℕ) {type : UInt16} :
  ∀ toString, toStringOf host type = some toString →
    ∃ text, PrintsAt mem p (fieldsEnd type) toString text
  := by
  have hshort : FieldsAt mem p 8 (loadShort host (p + 4)) (host.shortAt mem (p + 4)) :=
    fieldsAt_loadShort (by omega)
  have hlong : FieldsAt mem p 8 (loadLong host (p + 4)) (host.longAt mem (p + 4)) :=
    fieldsAt_loadLong (by omega)
  have hmaxLen : FieldsAt mem p 8 (loadShort host (p + 4 + 2)) (host.shortAt mem (p + 4 + 2)) :=
    fieldsAt_loadShort (by omega)
  have hqueueId : FieldsAt mem p 16 (loadLong host (p + 4 + 8)) (host.longAt mem (p + 4 + 8)) :=
    fieldsAt_loadLong (by omega)
  have hdlAddr : ∀ type, ∃ text, PrintsAt mem p 10 (actionDlAddrToString type) text :=
    fun _ => ⟨_, prints_actionToString fieldsAt_bcopy (by simp)⟩
  unfold toStringOf
  apply of_ite_some
  · rintro rfl
    exact ⟨_, prints_actionToString (fieldsAt_two hshort hmaxLen) (by simp)⟩
  apply of_ite_some
  · rintro rfl
    exact ⟨_, prints_actionToString hshort (by simp)⟩
  apply of_ite_some
  · rintro rfl
    exact ⟨_, prints_actionToString fieldsAt_read (by simp)⟩
  apply of_ite_some
  · rintro rfl
    exact ⟨_, prints_actionToString fieldsAt_none (by simp)⟩
  apply of_ite_some
  · rintro rfl
    exact hdlAddr _
  apply of_ite_some
  · rintro rfl
    exact hdlAddr _
  apply of_ite_some
  · rintro rfl
    exact ⟨_, prints_actionToString hlong (by simp)⟩
  apply of_ite_some
  · rintro rfl
    exact ⟨_, prints_actionToString hlong (by simp)⟩
  apply of_ite_some
  · rintro rfl
    exact ⟨_, prints_actionToString fieldsAt_read (by simp)⟩
  apply of_ite_some
  · rintro rfl
    exact ⟨_, prints_actionToString hshort (by simp)⟩
  apply of_ite_some
  · rintro rfl
    exact ⟨_, prints_actionToString hshort (by simp)⟩
  apply of_ite_some
  · rintro rfl
    exact ⟨_, prints_actionToString (fieldsAt_two hshort hqueueId) (by simp)⟩
  apply of_ite_some
  · rintro rfl
    exact ⟨_, prints_actionToString hlong (by simp)⟩
  intro toString h
  cases h

/-- The types without a function. -/
theorem toStringOf_eq_none_iff (host : Host) {type : UInt16} :
  toStringOf host type = none ↔ ofpatEnqueue < type ∧ type ≠ ofpatVendor
  := by
  have hnone : ∀ {T : Type} {c : Prop} [Decidable c] {a : T} {o : Option T},
      (if c then some a else o) = none ↔ ¬ c ∧ o = none := by
    intro T c _ a o
    split
    · next hc => simp [hc]
    · next hc => simp [hc]
  simp only [toStringOf, hnone, ofpatOutput, ofpatSetVlanVid, ofpatSetVlanPcp, ofpatStripVlan,
    ofpatSetDlSrc, ofpatSetDlDst, ofpatSetNwSrc, ofpatSetNwDst, ofpatSetNwTos, ofpatSetTpSrc,
    ofpatSetTpDst, ofpatEnqueue, ofpatVendor, ← UInt16.toNat_inj, UInt16.lt_iff_toNat_lt, ne_eq,
    UInt16.reduceToNat, and_true]
  omega

/-! ### Printing one action -/

/-- The action at `o` is printed with room for `size` characters as `text`, and no full string
is reported. -/
def Prints (host : Host) (mem : Memory) (o : ℕ) (size : UInt64) (text : List Char) : Prop :=
  (printAction host (host.shortAt mem o) ccENone o size).Returns mem (ccENone, text)

variable {o : ℕ} {size : UInt64} {text : List Char}

theorem asInt_le (size : UInt64) :
  asInt size ≤ size.toNat
  := by
  have hlow : asInt size ≤ (size.toUInt32.toNat : ℤ) := by
    change size.toUInt32.toBitVec.toInt ≤ size.toUInt32.toBitVec.toNat
    rw [BitVec.toInt_eq_toNat_cond]
    split
    · apply Int.le_refl
    · omega
  rw [UInt64.toNat_toUInt32] at hlow
  omega

theorem printed_fst (size : UInt64) (text : List Char) :
  (printed size text).1 = ccEErr ∨ (printed size text).1 = ccENone
  := by
  simp only [printed]
  split
  · left
    rfl
  · right
    rfl

/-- Of a text that is not reported to fill its room something is stored. -/
theorem printed_ne_nil (htext : text ≠ []) (h : (printed size text).1 = ccENone) :
  (printed size text).2 ≠ []
  := by
  have hpos := List.length_pos_iff.mpr htext
  have hroom : (text.length : ℤ) < asInt size := by
    by_contra hfull
    rw [show (printed size text).1 = ccEErr from if_pos (.inl (Int.not_lt.mp hfull))] at h
    cases h
  have hsize := asInt_le size
  apply List.length_pos_iff.mp
  simp only [printed, snprintf, List.length_take]
  omega

/-- What a function for a type of actions, or none, reports and stores. -/
structure Stores (host : Host) (type : UInt16) (size : UInt64) (ret : ℤ) (text : List Char) :
    Prop where
  reports : ret = ccEErr ∨ ret = ccENone
  length : text.length ≤ size.toNat - 1
  nonempty : ret = ccENone → toStringOf host type ≠ none → text ≠ []
  undefined : toStringOf host type = none → ret = ccENone

theorem fieldsEnd_of_none {type : UInt16} (h : toStringOf host type = none) :
  fieldsEnd type = 8
  := by
  obtain ⟨hlt, -⟩ := (toStringOf_eq_none_iff host).mp h
  have hne : ∀ t ≤ ofpatEnqueue, type ≠ t := by
    rintro t ht rfl
    exact absurd hlt (UInt16.not_lt.mpr ht)
  rw [fieldsEnd, if_neg, if_neg]
  · exact hne _ (by decide)
  · rintro (h | h)
    · exact hne _ (by decide) h
    · exact hne _ (by decide) h

/-- Printing one action. -/
theorem printAction_stores (host : Host) (mem : Memory) (type : UInt16) (o : ℕ) (size : UInt64) :
  ∃ ret text, FieldsAt mem o (fieldsEnd type) (printAction host type ccENone o size) (ret, text) ∧
    Stores host type size ret text
  := by
  cases h : toStringOf host type with
  | none =>
      have hstored := List.length_take_le (size.toNat - 1)
        ("undefined: type=".toList ++ hexadecimal type.toNat)
      simp only [printAction, h, fieldsEnd_of_none h]
      refine ⟨_, _, ⟨Reader.returns_pure.mpr rfl, ?_⟩, .inr rfl, hstored, ?_, fun _ => rfl⟩
      · intro n Q hn
        rw [Reader.within_pure, and_iff_right hn]
      · intro _ hne
        exact absurd h hne
  | some toString =>
      obtain ⟨text, hprints⟩ := prints_toStringOf mem o toString h
      simp only [printAction, h]
      refine ⟨_, _, hprints.fieldsAt size, printed_fst size text, List.length_take_le _ _, ?_, ?_⟩
      · intro hret _
        exact printed_ne_nil hprints.nonempty hret
      · intro hnone
        rw [h] at hnone
        cases hnone

theorem Prints.stores (h : Prints host mem o size text) :
  Stores host (host.shortAt mem o) size ccENone text
  := by
  obtain ⟨ret, text', hfields, hstores⟩ := printAction_stores host mem
    (host.shortAt mem o) o size
  obtain ⟨rfl, rfl⟩ := Prod.mk.inj (Reader.Returns.unique h hfields.returns)
  exact hstores

/-! ### One round -/

variable {actionsLength : UInt16} {strLength : UInt64} {s s' : Printing}

/-- The length of the action at `o`. -/
abbrev lenAt (host : Host) (mem : Memory) (o : ℕ) : UInt16 := host.shortAt mem (o + 2)

/-- The separator takes from the room, and leaves some. -/
theorem separated_spec {str : List Char} (h : str.length < strLength.toNat) :
  (separated strLength str).1.length + (separated strLength str).2.toNat = strLength.toNat ∧
    0 < (separated strLength str).2.toNat ∧ str.length ≤ (separated strLength str).1.length
  := by
  have hlt := strLength.toNat_lt
  have hstr : (UInt64.ofNat str.length).toNat = str.length :=
    UInt64.toNat_ofNat_of_lt' (by simp only [UInt64.size]; omega)
  have hroom : (strLength - UInt64.ofNat str.length).toNat = strLength.toNat - str.length := by
    rw [UInt64.toNat_sub_of_le _ _ (UInt64.le_iff_toNat_le.mpr (by omega)), hstr]
  simp only [separated]
  split
  · next hsep =>
      have hmore : 2 < strLength.toNat - str.length := by
        rw [← hroom]
        exact UInt64.lt_iff_toNat_lt.mp hsep.2
      have hleft : (strLength - UInt64.ofNat str.length - 2).toNat =
          strLength.toNat - str.length - 2 := by
        rw [UInt64.toNat_sub_of_le _ _ (UInt64.le_iff_toNat_le.mpr _), hroom]
        · rfl
        · rw [hroom]
          exact Nat.le_of_lt hmore
      have htext : (snprintf (strLength - UInt64.ofNat str.length) ", ".toList).2.length = 2 := by
        simp only [snprintf, List.length_take, hroom]
        change min _ 2 = 2
        omega
      rw [List.length_append, htext, hleft]
      omega
  · simp only [hroom]
    omega

/-- A round that comes to an action goes on to the next one unless a full string is reported. -/
theorem round_iff (hret : s.ret = ccENone) (ho : s.offset.toNat = o)
    (hguard : actionsLength.toUInt64 - s.offset ≥ 8) :
  Reader.Round (actionsToStringRound host actionsLength strLength) mem s s' ↔
    ∃ text, Prints host mem o (separated strLength s.str).2 text ∧
      s' = ⟨s.offset + (lenAt host mem o).toUInt64, (separated strLength s.str).1 ++ text, ccENone⟩
  := by
  subst ho
  obtain ⟨ret, text, hfields, hstores⟩ := printAction_stores host mem
    (host.shortAt mem s.offset.toNat) s.offset.toNat (separated strLength s.str).2
  have hne : ccENone ≠ ccEErr := by decide
  simp only [Reader.Round, actionsToStringRound, if_pos hguard, Reader.returns_bind,
    returns_loadShort, exists_eq_left, hret]
  constructor
  · rintro ⟨⟨ret', text'⟩, hprint, hnext⟩
    obtain ⟨rfl, rfl⟩ := Prod.mk.inj (hprint.unique hfields.returns)
    rcases hstores.reports with rfl | rfl
    · rw [if_pos rfl, Reader.returns_pure] at hnext
      cases hnext
    · rw [if_neg hne] at hnext
      obtain ⟨len, hlen, hs'⟩ := Reader.returns_bind.mp hnext
      obtain rfl := returns_loadShort.mp hlen
      exact ⟨text', hprint, Sum.inr.inj (Reader.returns_pure.mp hs')⟩
  · rintro ⟨text', hprint, rfl⟩
    use (ccENone, text'), hprint
    rw [if_neg hne]
    exact Reader.returns_bind.mpr ⟨_, returns_loadShort.mpr rfl, Reader.returns_pure.mpr rfl⟩

theorem not_round (hguard : ¬ actionsLength.toUInt64 - s.offset ≥ 8) :
  ¬ Reader.Round (actionsToStringRound host actionsLength strLength) mem s s'
  := by
  rw [Reader.Round, actionsToStringRound, if_neg hguard, Reader.returns_pure]
  exact Sum.inr_ne_inl

theorem round_ends (hret : s.ret = ccENone) :
  (actionsToStringRound host actionsLength strLength s).Ends mem
  := by
  obtain ⟨ret, text, hfields, -⟩ := printAction_stores host mem
    (host.shortAt mem s.offset.toNat) s.offset.toNat (separated strLength s.str).2
  simp only [actionsToStringRound, Reader.ends_ite, Reader.ends_pure, implies_true, and_true]
  intro _
  apply Reader.ends_bind.mpr
  refine ⟨_, returns_loadShort.mpr rfl, ?_⟩
  apply Reader.ends_bind.mpr
  rw [hret]
  refine ⟨_, hfields.returns, ?_⟩
  simp only [Reader.ends_ite, Reader.ends_pure, implies_true, true_and]
  intro _
  exact Reader.ends_bind.mpr ⟨_, returns_loadShort.mpr rfl, Reader.ends_pure⟩

/-- What a round reads lies below `n` when it comes to no action, or the fields of the action
that it prints do. -/
theorem within_round {n : ℕ} (hret : s.ret = ccENone) (ho : s.offset.toNat = o)
    (hguard : actionsLength.toUInt64 - s.offset ≥ 8 ↔ o + 8 ≤ n) :
  Reader.Within (· < n) (actionsToStringRound host actionsLength strLength s) mem
      (fun _ => True) ↔
    (o + 8 ≤ n → o + fieldsEnd (host.shortAt mem o) ≤ n)
  := by
  subst ho
  obtain ⟨ret, text, hfields, -⟩ := printAction_stores host mem
    (host.shortAt mem s.offset.toNat) s.offset.toNat (separated strLength s.str).2
  simp only [actionsToStringRound, Reader.within_ite, Reader.within_pure, implies_true, and_true,
    hguard, Reader.within_bind, within_loadShort, hret]
  apply imp_congr_right
  intro hn
  rw [hfields.within n _ hn]
  constructor
  · rintro ⟨-, h, -⟩
    exact h
  · intro h
    refine ⟨by omega, h, trivial, ?_⟩
    intro _
    omega

/-! ### The walk over an area -/

/-- The walk comes to the offset `o` with the string `str` printed: it begins at the beginning of
the area, and goes on by the length of each action that lies in the area with its header and has
room. -/
inductive ComesTo (host : Host) (mem : Memory) (actionsLength : UInt16) (strLength : UInt64) :
    ℕ → List Char → Prop
  | start : ComesTo host mem actionsLength strLength 0 []
  | next {o : ℕ} {str text : List Char} : ComesTo host mem actionsLength strLength o str →
      o + 8 ≤ actionsLength.toNat → Prints host mem o (separated strLength str).2 text →
      ComesTo host mem actionsLength strLength (o + (lenAt host mem o).toNat)
        ((separated strLength str).1 ++ text)

variable {str : List Char}

theorem ComesTo.le (h : ComesTo host mem actionsLength strLength o str) :
  o ≤ actionsLength.toNat + 65535
  := by
  induction h with
  | start => omega
  | @next o _ _ _ hle _ _ =>
      have hlen := (lenAt host mem o).toNat_lt
      omega

theorem ComesTo.length_lt (hstr : 1 ≤ strLength)
    (h : ComesTo host mem actionsLength strLength o str) :
  str.length < strLength.toNat
  := by
  induction h with
  | start => exact UInt64.le_iff_toNat_le.mp hstr
  | @next o str text _ _ hprints ih =>
      obtain ⟨hsum, hpos, -⟩ := separated_spec ih
      have hle := hprints.stores.length
      rw [List.length_append]
      omega

/-- The state of the loop there. -/
def printingAt (o : ℕ) (str : List Char) : Printing := ⟨UInt64.ofNat o, str, ccENone⟩

theorem toNat_offset (str : List Char) (h : o ≤ actionsLength.toNat + 65535) :
  (printingAt o str).offset.toNat = o
  := by
  have hlt := actionsLength.toNat_lt
  apply UInt64.toNat_ofNat_of_lt'
  simp only [UInt64.size]
  omega

/-- The bytes that remain are counted modulo 2^64, so past the end there seem to be many. -/
theorem guard_iff (str : List Char) (h : o ≤ actionsLength.toNat + 65535) :
  actionsLength.toUInt64 - (printingAt o str).offset ≥ 8 ↔
    o + 8 ≤ actionsLength.toNat ∨ actionsLength.toNat < o
  := by
  have hlt := actionsLength.toNat_lt
  rw [ge_iff_le, UInt64.le_iff_toNat_le, UInt64.toNat_sub, toNat_offset str h,
    UInt16.toNat_toUInt64]
  change 8 ≤ _ ↔ _
  omega

/-- In the area the guard is what it is meant to be. -/
theorem guard_iff_of_le (str : List Char) (h : o ≤ actionsLength.toNat) :
  actionsLength.toUInt64 - (printingAt o str).offset ≥ 8 ↔ o + 8 ≤ actionsLength.toNat
  := by
  rw [guard_iff str (Nat.le_add_right_of_le h)]
  omega

theorem offset_add (o : ℕ) (len : UInt16) :
  (printingAt o str).offset + len.toUInt64 = (printingAt (o + len.toNat) str).offset
  := by
  apply UInt64.toNat_inj.mp
  simp [printingAt]

/-- The loop goes wherever the walk does. -/
theorem ComesTo.visits (h : ComesTo host mem actionsLength strLength o str) :
  Reader.Visits (actionsToStringRound host actionsLength strLength) mem (printingAt 0 [])
    (printingAt o str)
  := by
  induction h with
  | start => exact .refl
  | @next o str text hcomes hle hprints ih =>
      apply ih.tail
      apply (round_iff rfl (toNat_offset str hcomes.le)
        ((guard_iff str hcomes.le).mpr (.inl hle))).mpr
      use text, hprints
      rw [offset_add]
      rfl

/-- At every offset that the walk comes to, it has not passed the end of the area, an action that
lies in the area with its header does so with the fields that are read, and an action of an
unknown type has a length. -/
def PrintsInside (host : Host) (mem : Memory) (actionsLength : UInt16) (strLength : UInt64) :
    Prop :=
  ∀ o str, ComesTo host mem actionsLength strLength o str → o ≤ actionsLength.toNat ∧
    (o + 8 ≤ actionsLength.toNat →
      o + fieldsEnd (host.shortAt mem o) ≤ actionsLength.toNat ∧
      (toStringOf host (host.shortAt mem o) = none → lenAt host mem o ≠ 0))

/-- An action that is printed moves the walk on, in the area or in the string. -/
theorem PrintsInside.moves (h : PrintsInside host mem actionsLength strLength)
    (hstr : 1 ≤ strLength)
    (hcomes : ComesTo host mem actionsLength strLength o str) (hle : o + 8 ≤ actionsLength.toNat)
    (hprints : Prints host mem o (separated strLength str).2 text) :
  o + str.length < o + (lenAt host mem o).toNat + ((separated strLength str).1 ++ text).length
  := by
  obtain ⟨-, -, hgrows⟩ := separated_spec (hcomes.length_lt hstr)
  rw [List.length_append]
  by_cases htype : toStringOf host (host.shortAt mem o) = none
  · have hne := ((h o str hcomes).2 hle).2 htype
    have hpos : 0 < (lenAt host mem o).toNat := by
      apply Nat.pos_of_ne_zero
      intro hzero
      exact hne (UInt16.toNat_inj.mp hzero)
    omega
  · have hpos := List.length_pos_iff.mpr (hprints.stores.nonempty rfl htype)
    omega

theorem loop_inside_of_printsInside (hstr : 1 ≤ strLength)
    (h : PrintsInside host mem actionsLength strLength) :
  (Reader.loop (actionsToStringRound host actionsLength strLength) (printingAt 0 [])).Ends mem ∧
    ∀ i, (Reader.loop (actionsToStringRound host actionsLength strLength)
      (printingAt 0 [])).Reads mem i → i < actionsLength.toNat
  := by
  let Inv (s : Printing) : Prop :=
    ∃ o str, ComesTo host mem actionsLength strLength o str ∧ s = printingAt o str
  have hends : ∀ s, Inv s → (actionsToStringRound host actionsLength strLength s).Ends mem := by
    rintro _ ⟨o, str, -, rfl⟩
    exact round_ends rfl
  have hround : ∀ s, Inv s → Reader.Within (· < actionsLength.toNat)
      (actionsToStringRound host actionsLength strLength s) mem (fun r => ∀ s', r = .inr s' →
        Inv s' ∧ s.offset.toNat + s.str.length < s'.offset.toNat + s'.str.length) := by
    rintro _ ⟨o, str, hcomes, rfl⟩
    have ho := toNat_offset str hcomes.le
    have hguard := guard_iff_of_le str (h o str hcomes).1
    constructor
    · exact ((within_round rfl ho hguard).mpr fun hle => ((h o str hcomes).2 hle).1).1
    · rintro _ hnext s' rfl
      by_cases hmore : o + 8 ≤ actionsLength.toNat
      · obtain ⟨text, hprints, rfl⟩ := (round_iff rfl ho (hguard.mpr hmore)).mp hnext
        have hnew := hcomes.next hmore hprints
        rw [offset_add]
        use ⟨_, _, hnew, rfl⟩
        rw [ho, toNat_offset _ hnew.le]
        exact h.moves hstr hcomes hmore hprints
      · exact absurd hnext (not_round (fun hge => hmore (hguard.mp hge)))
  have hbound : ∀ s, Inv s →
      s.offset.toNat + s.str.length ≤ actionsLength.toNat + strLength.toNat := by
    rintro _ ⟨o, str, hcomes, rfl⟩
    have hin := (h o str hcomes).1
    have hlt := hcomes.length_lt hstr
    rw [toNat_offset str hcomes.le]
    change o + str.length ≤ _
    omega
  exact Reader.loop_inside hends hround hbound ⟨0, [], .start, rfl⟩

/-- An action of an unknown type without a length is printed again and again. -/
theorem not_ends_of_undefined (hcomes : ComesTo host mem actionsLength strLength o str)
    (hle : o + 8 ≤ actionsLength.toNat) (htype : toStringOf host (host.shortAt mem o) = none)
    (hlen : lenAt host mem o = 0) :
  ¬ (Reader.loop (actionsToStringRound host actionsLength strLength) (printingAt 0 [])).Ends mem
  := by
  intro hends
  have hstay : ∀ s : Printing, s.offset = (printingAt o str).offset ∧ s.ret = ccENone →
      ∃ s', Reader.Round (actionsToStringRound host actionsLength strLength) mem s s' ∧
        s'.offset = (printingAt o str).offset ∧ s'.ret = ccENone := by
    rintro s ⟨hoffset, hret⟩
    have hguard := (guard_iff str hcomes.le).mpr (.inl hle)
    have ho := toNat_offset str hcomes.le
    rw [← hoffset] at hguard ho
    obtain ⟨ret, text, hfields, hstores⟩ := printAction_stores host mem
      (host.shortAt mem o) o (separated strLength s.str).2
    obtain rfl := hstores.undefined htype
    refine ⟨_, (round_iff hret ho hguard).mpr ⟨text, hfields.returns, rfl⟩, ?_, rfl⟩
    rw [hlen, hoffset]
    apply UInt64.add_zero
  apply not_comesToEnd_of_stays Reader.round_rightUnique hstay hcomes.visits ⟨rfl, rfl⟩
  exact (Reader.ends_loop.mp hends).2

/-- Past the end the guard lets the loop go on, and it reads a header there. -/
theorem reads_of_past (hcomes : ComesTo host mem actionsLength strLength o str)
    (hpast : actionsLength.toNat < o) :
  (Reader.loop (actionsToStringRound host actionsLength strLength) (printingAt 0 [])).Reads mem o
  := by
  have hguard := (guard_iff str hcomes.le).mpr (.inr hpast)
  apply Reader.reads_loop.mpr
  use printingAt o str, hcomes.visits
  simp only [actionsToStringRound, if_pos hguard, toNat_offset str hcomes.le]
  apply Reader.reads_bind.mpr
  left
  apply Reader.reads_bind.mpr
  left
  apply (yields_bcopy o 2).reads.mpr
  exact List.mem_cons_self

theorem printsInside_of_loop
    (hends : (Reader.loop (actionsToStringRound host actionsLength strLength)
      (printingAt 0 [])).Ends mem)
    (hreads : ∀ i, (Reader.loop (actionsToStringRound host actionsLength strLength)
      (printingAt 0 [])).Reads mem i → i < actionsLength.toNat) :
  PrintsInside host mem actionsLength strLength
  := by
  intro o str hcomes
  have ho := toNat_offset str hcomes.le
  have hwithin : Reader.Within (· < actionsLength.toNat)
      (actionsToStringRound host actionsLength strLength (printingAt o str)) mem (fun _ => True) :=
    ⟨fun i hi => hreads i (Reader.reads_loop.mpr ⟨_, hcomes.visits, hi⟩), fun _ _ => trivial⟩
  have hin : o ≤ actionsLength.toNat := by
    by_contra hpast
    exact hpast (Nat.le_of_lt (hreads o (reads_of_past hcomes (Nat.not_le.mp hpast))))
  use hin
  intro hle
  use (within_round rfl ho (guard_iff_of_le str hin)).mp hwithin hle
  intro htype hlen
  exact not_ends_of_undefined hcomes hle htype hlen hends

theorem ends_actionsToString :
  (actionsToString host actionsLength strLength).Ends mem ↔
    (Reader.loop (actionsToStringRound host actionsLength strLength) (printingAt 0 [])).Ends mem
  := by
  apply Reader.ends_bind_of_forall
  intro _
  exact Reader.ends_pure

theorem reads_actionsToString {i : ℕ} :
  (actionsToString host actionsLength strLength).Reads mem i ↔
    (Reader.loop (actionsToStringRound host actionsLength strLength)
      (printingAt 0 [])).Reads mem i
  := by
  apply Iff.trans Reader.reads_bind
  simp only [Reader.reads_pure, and_false, exists_false, or_false]
  rfl

end

/-- Printing the actions of an area ends and reads the area only, exactly when the walk over the
actions never passes the end of the area, each action that it comes to with a header in the area
also has the fields there that are printed, and none of an unknown type has length zero. -/
theorem actionsToString_inside_iff (host : Host) (mem : Memory) (actionsLength : UInt16)
    (strLength : UInt64) (hstr : 1 ≤ strLength) :
  ((actionsToString host actionsLength strLength).Ends mem ∧
      ∀ i, (actionsToString host actionsLength strLength).Reads mem i → i < actionsLength.toNat) ↔
    ∀ o str, ComesTo host mem actionsLength strLength o str → o ≤ actionsLength.toNat ∧
      (o + 8 ≤ actionsLength.toNat →
        o + fieldsEnd (host.shortAt mem o) ≤ actionsLength.toNat ∧
        (ofpatEnqueue < host.shortAt mem o ∧ host.shortAt mem o ≠ ofpatVendor →
          host.shortAt mem (o + 2) ≠ 0))
  := by
  simp only [ends_actionsToString, reads_actionsToString,
    ← toStringOf_eq_none_iff host]
  constructor
  · rintro ⟨hends, hreads⟩
    exact printsInside_of_loop hends hreads
  · intro h
    exact loop_inside_of_printsInside hstr h

/-- An action that strips the tag, of `len` bytes, as a little-endian host stores it. -/
def stripVlan (len : UInt8) : Memory := fun i => [3, 0, len].getD i 0

theorem actionsToString_inside_strip_vlan :
  (1 : UInt64) ≤ 64 ∧
    (actionsToString (Host.plain true) 8 64).Ends (stripVlan 8) ∧
    ∀ i, (actionsToString (Host.plain true) 8 64).Reads (stripVlan 8) i → i < 8
  := by
  have hcomes : ∀ o str, ComesTo (Host.plain true) (stripVlan 8) 8 64 o str → o = 0 ∨ o = 8 := by
    intro o str h
    induction h with
    | start => exact .inl rfl
    | next _ hle _ ih =>
        rcases ih with rfl | rfl
        · right
          decide
        · exact absurd hle (by decide)
  use by decide
  apply (actionsToString_inside_iff (Host.plain true) (stripVlan 8) 8 64 (by decide)).mpr
  intro o str h
  rcases hcomes o str h with rfl | rfl
  · decide
  · decide

/-- An action of unknown type and length zero is printed for ever, and one that is longer than
the area leads past its end. -/
theorem actionsToString_runs_on :
  ¬ (actionsToString (Host.plain true) 8 64).Ends (fun i => [12].getD i 0) ∧
    ∃ i, (actionsToString (Host.plain true) 8 64).Reads (stripVlan 16) i ∧ 8 ≤ i
  := by
  constructor
  · rw [ends_actionsToString]
    exact not_ends_of_undefined .start (by decide) (by decide) (by decide)
  · have hprints : Prints (Host.plain true) (stripVlan 16) 0 (separated 64 []).2
        "strip_vlan".toList := ⟨0, rfl⟩
    have hcomes : ComesTo (Host.plain true) (stripVlan 16) 8 64 _ _ :=
      ComesTo.start.next (by decide) hprints
    have hpast : UInt16.toNat 8 < 0 + (lenAt (Host.plain true) (stripVlan 16) 0).toNat := by decide
    exact ⟨_, reads_actionsToString.mpr (reads_of_past hcomes hpast), Nat.le_of_lt hpast⟩

end CcController
