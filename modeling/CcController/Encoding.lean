import CcController.Builders

/-!
# What the builders make

A message is filled in from its header on: at every moment it is what has been stored
so far and then zeros (`underway`). Storing something next to what is there is an equation
about such messages, and the loops over actions, entries and properties store their
encodings one behind the other.

`Makes` says that a program makes the message with a given body. That takes a message of at
most 65535 bytes, a block for its header that it fits into, and allocations that succeed.
-/

namespace CcController

/-! ### Messages that are underway -/

/-- A message of which `done` is there, with `n` zeros behind. -/
def underway (addr length : ℕ) (done : List UInt8) (n : ℕ) : Buffer where
  addr := addr
  data := some (done ++ List.replicate n 0)
  length := length

/-- A buffer that has been written up to `rest`. -/
def partway (addr length : ℕ) (done rest : List UInt8) : Buffer where
  addr := addr
  data := some (done ++ rest)
  length := length

section

variable {addr length n p : ℕ} {done rest : List UInt8} {host : Host}

theorem underway_eq :
  underway addr length done n = partway addr length done (List.replicate n 0)
  := rfl

/-- What is kept may count as stored. -/
theorem partway_keep {k : ℕ} :
  partway addr length done rest = partway addr length (done ++ rest.take k) (rest.drop k)
  := by
  rw [partway, partway, List.append_assoc, List.take_append_drop]

theorem fill_partway {bytes : List UInt8} (hp : done.length = p)
    (hrest : bytes.length ≤ rest.length) :
  fill (partway addr length done rest) p bytes
    = pure (partway addr length (done ++ bytes) (rest.drop bytes.length))
  := by
  have hfits : p + bytes.length ≤ (done ++ rest).length := by
    rw [List.length_append]
    omega
  have hdrop : (done ++ rest).drop (p + bytes.length) = rest.drop bytes.length := by
    rw [← hp, ← List.drop_drop, List.drop_left]
  simp only [fill, partway, if_pos hfits, hdrop, List.take_left' hp]

theorem storeFields_partway {fields : List (List UInt8)} (hp : done.length = p)
    (hrest : fields.flatten.length ≤ rest.length) :
  storeFields (partway addr length done rest) p fields
    = pure (partway addr length (done ++ fields.flatten) (rest.drop fields.flatten.length))
  := by
  induction fields generalizing done rest p with
  | nil => simp [storeFields]
  | cons field fields ih =>
      rw [List.flatten_cons, List.length_append] at hrest
      have hp' : (done ++ field).length = p + field.length := by
        rw [List.length_append, hp]
      have hdrop : fields.flatten.length ≤ (rest.drop field.length).length := by
        rw [List.length_drop]
        omega
      rw [storeFields, fill_partway hp (by omega), pure_bind, ih hp' hdrop, List.flatten_cons,
        List.append_assoc, List.length_append, List.drop_drop]

theorem fill_underway {bytes : List UInt8} (hp : done.length = p) (hn : bytes.length ≤ n) :
  fill (underway addr length done n) p bytes
    = pure (underway addr length (done ++ bytes) (n - bytes.length))
  := by
  rw [underway_eq, underway_eq, fill_partway hp (by rwa [List.length_replicate]),
    List.drop_replicate]

theorem storeFields_underway {fields : List (List UInt8)} (hp : done.length = p)
    (hn : fields.flatten.length ≤ n) :
  storeFields (underway addr length done n) p fields
    = pure (underway addr length (done ++ fields.flatten) (n - fields.flatten.length))
  := by
  rw [underway_eq, underway_eq, storeFields_partway hp (by rwa [List.length_replicate]),
    List.drop_replicate]

theorem storeData_underway {payload : Option Payload} (hp : done.length = p)
    (hn : (payloadBytes payload).length ≤ n) (hsize : (payloadBytes payload).length < 2 ^ 16) :
  storeData (underway addr length done n) p (payload.map Payload.buffer)
      (dataLength (payload.map Payload.buffer))
    = pure (underway addr length (done ++ payloadBytes payload)
        (n - (payloadBytes payload).length))
  := by
  rw [storeData]
  split
  · next hpos =>
      rw [dataLength_payload hsize, copyData_payload ((dataLength_payload_pos hsize).mp hpos),
        pure_bind, fill_underway hp hn]
  · next hzero =>
      have hnil : payloadBytes payload = [] := by
        rw [dataLength_payload_pos hsize] at hzero
        exact List.eq_nil_of_length_eq_zero (by omega)
      rw [hnil, List.append_nil, List.length_nil, Nat.sub_zero]

/-! ### Actions -/

/-- Zeros that have not been stored over may count as stored. -/
theorem underway_zeros {k : ℕ} (hk : k ≤ n) :
  underway addr length done n = underway addr length (done ++ List.replicate k 0) (n - k)
  := by
  rw [underway, underway, List.append_assoc, List.replicate_append_replicate,
    Nat.add_sub_of_le hk]

/-- The loop over actions stores each of them where the room that the one before it has ends. -/
theorem storeActions_underway {blocks : List (List UInt8)}
    (h : ∀ block ∈ blocks, KeepsLength host block) (hp : done.length = p)
    (hn : lenSum host blocks ≤ n) :
  storeActions host (underway addr length done n) p blocks
    = pure (underway addr length (done ++ slots host blocks) (n - lenSum host blocks))
  := by
  induction blocks generalizing done n p with
  | nil => simp [storeActions, slots, lenSum]
  | cons block blocks ih =>
      obtain ⟨hblock, hblocks⟩ := List.forall_mem_cons.mp h
      obtain ⟨hmin, hread, hfits⟩ := hblock.bounds
      have hsum : lenSum host (block :: blocks)
          = (host.short block 2).toNat + lenSum host blocks := by
        simp [lenSum]
      have hslots : slots host (block :: blocks) = slot host block ++ slots host blocks := rfl
      rw [hsum] at hn
      have hlen : readShort host block 2 = pure (host.short block 2) := if_pos (by omega)
      have hstored : underway addr length (done ++ storedBytes host block)
          (n - (storedBytes host block).length)
          = underway addr length (done ++ slot host block)
            (n - (host.short block 2).toNat) := by
        rw [underway_zeros (k := (host.short block 2).toNat - (storedBytes host block).length)
          (by omega), List.append_assoc, slot]
        congr 1
        omega
      have hp' : (done ++ slot host block).length = p + (host.short block 2).toNat := by
        rw [List.length_append, hp, hblock.length_slot]
      rw [storeActions, hlen, pure_bind, hblock.hton, pure_bind, fill_underway hp (by omega),
        pure_bind, hstored, ih hblocks hp' (by omega), hslots, hsum, List.append_assoc,
        Nat.sub_sub]

theorem length_le_sizes {actions : List (HostAction host)} :
  actions.length ≤ sizes actions
  := by
  induction actions with
  | nil => exact Nat.le_refl 0
  | cons a actions ih =>
      have hmin := a.eight_le
      rw [sizes, List.map_cons, List.sum_cons, List.length_cons, ← sizes]
      omega

/-- As many rounds as there are actions store them in their order and leave nothing of the
entry. -/
theorem htonFlowActions_rounds {actions : List (HostAction host)} {before : List UInt8}
    {fuel q : ℕ} {actionsLength : UInt16} (hp : done.length = p) (hq : before.length = q)
    (hrest : sizes actions ≤ rest.length) (hlength : actionsLength.toNat = sizes actions) :
  htonFlowActions host (before ++ (actions.map HostAction.block).flatten)
      (actions.length + fuel) (partway addr length done rest) p q actionsLength
    = htonFlowActions host (before ++ (actions.map HostAction.block).flatten) fuel
        (partway addr length (done ++ wires actions) (rest.drop (sizes actions)))
        (p + sizes actions) (q + sizes actions) 0
  := by
  have height : UInt16.toNat 8 = 8 := rfl
  induction actions generalizing done rest p before q actionsLength with
  | nil =>
      obtain rfl : actionsLength = 0 := UInt16.toNat_inj.mp hlength
      simp [wires, sizes]
  | cons a actions ih =>
      have hsizes : sizes (a :: actions) = a.len.toNat + sizes actions := by
        simp [sizes]
      have hwires : wires (a :: actions) = a.wire ++ wires actions := rfl
      rw [hsizes] at hrest hlength
      have hmin := a.eight_le
      have hhton : htonAction host (before ++ (a.block ++ (actions.map HostAction.block).flatten))
          q = pure a.wire := by
        rw [← hq, a.htonAction_eq]
      have hlen : readShort host (before ++ (a.block ++ (actions.map HostAction.block).flatten))
          (q + 2) = pure a.len := by
        rw [← hq, HostAction.readShort_eq (by omega)]
      have hp' : (done ++ a.wire).length = p + a.len.toNat := by
        rw [List.length_append, hp, a.length_wire]
      have hq' : (before ++ a.block).length = q + a.len.toNat := by
        rw [List.length_append, hq, a.length_block]
      have hrest' : sizes actions ≤ (rest.drop a.len.toNat).length := by
        rw [List.length_drop]
        omega
      have hleft : (actionsLength - a.len).toNat = sizes actions := by
        apply toNat_sub_of_eq_add
        omega
      have hfuel : (a :: actions).length + fuel = actions.length + fuel + 1 := by
        rw [List.length_cons]
        omega
      rw [hfuel, List.map_cons, List.flatten_cons, htonFlowActions, if_pos, hhton, pure_bind,
        fill_partway hp (by rw [a.length_wire]; omega), pure_bind, hlen, pure_bind, a.length_wire,
        ← List.append_assoc, ih hp' hq' hrest' hleft, hwires, hsizes, List.append_assoc before,
        List.append_assoc done, List.drop_drop, Nat.add_assoc, Nat.add_assoc]
      rw [ge_iff_le, UInt16.le_iff_toNat_le]
      omega

/-- The loop over the actions of an entry stores the actions in their order. -/
theorem htonFlowActions_partway {actions : List (HostAction host)} {before : List UInt8}
    {fuel q : ℕ} {actionsLength : UInt16} (hp : done.length = p) (hq : before.length = q)
    (hrest : sizes actions ≤ rest.length) (hlength : actionsLength.toNat = sizes actions)
    (hfuel : sizes actions < fuel) :
  htonFlowActions host (before ++ (actions.map HostAction.block).flatten) fuel
      (partway addr length done rest) p q actionsLength
    = pure (partway addr length (done ++ wires actions) (rest.drop (sizes actions)))
  := by
  have hle : actions.length ≤ sizes actions := length_le_sizes
  obtain ⟨k, rfl⟩ : ∃ k, fuel = actions.length + (k + 1) := ⟨fuel - actions.length - 1, by omega⟩
  rw [htonFlowActions_rounds hp hq hrest hlength, htonFlowActions, if_neg (by decide)]

end

/-! ### Entries with entries inside -/

/-- A port in host order. Its name ends inside the record, as one that is null-terminated does. -/
structure PhyPort extends Record UInt8 ofpPhyPort where
  named : 0 ∈ bytes.drop 8

/-- A flow entry in host order, as long as its length field says. -/
structure FlowEntry (host : Host) where
  fields : Record UInt8 ofpFlowStats
  actions : List (HostAction host)
  length : (host.short fields.bytes 0).toNat = 88 + sizes actions

/-- A property of a queue in host order, of a defined type and the length it requires. -/
structure QueueProperty (host : Host) where
  block : List UInt8
  layout : Struct
  shape : host.short block 0 = ofpqtNone ∧ layout = ofpQueuePropHeader ∨
    host.short block 0 = ofpqtMinRate ∧ layout = ofpQueuePropMinRate
  size : block.length = layout.size
  len : (host.short block 2).toNat = layout.size

/-- What is put into a message for the property. -/
def QueueProperty.wire {host : Host} (property : QueueProperty host) : List UInt8 :=
  property.layout.convert host.littleEndian property.block

def propertySizes {host : Host} (properties : List (QueueProperty host)) : ℕ :=
  (properties.map (fun property => property.layout.size)).sum

def propertyWires {host : Host} (properties : List (QueueProperty host)) : List UInt8 :=
  (properties.map QueueProperty.wire).flatten

/-- A queue in host order, as long as its length field says. -/
structure PacketQueue (host : Host) where
  fields : Record UInt8 ofpPacketQueue
  properties : List (QueueProperty host)
  len : (host.short fields.bytes 4).toNat = 8 + propertySizes properties

namespace FlowEntry

variable {host : Host}

def block (entry : FlowEntry host) : List UInt8 :=
  entry.fields.bytes ++ (entry.actions.map HostAction.block).flatten

/-- What is put into a message for the entry. -/
def wire (entry : FlowEntry host) : List UInt8 :=
  ofpFlowStats.convert host.littleEndian entry.fields.bytes ++ wires entry.actions

variable {entry : FlowEntry host}

@[simp]
theorem length_blocks {actions : List (HostAction host)} :
  (actions.map HostAction.block).flatten.length = sizes actions
  := by
  apply length_flatten_map
  intro a _
  exact a.length_block

theorem length_block :
  entry.block.length = (host.short entry.fields.bytes 0).toNat
  := by
  rw [block, List.length_append, entry.fields.size, length_blocks, entry.length]
  rfl

theorem length_wire :
  entry.wire.length = (host.short entry.fields.bytes 0).toNat
  := by
  rw [wire, List.length_append, Record.length_convert, length_wires, entry.length]
  rfl

/-- What the length of an entry leaves for its actions. -/
theorem actionsLength :
  (host.short entry.fields.bytes 0 - 88).toNat = sizes entry.actions
  := toNat_sub_of_eq_add entry.length

theorem readShort_length :
  readShort host entry.block 0 = pure (host.short entry.fields.bytes 0)
  := by
  have hsize : entry.fields.bytes.length = 88 := entry.fields.size
  have hshort : host.short ([] ++ entry.block) (0 + 0) = host.short entry.fields.bytes 0 :=
    Host.short_append [] _ (by omega)
  rw [readShort, if_pos]
  · exact congrArg pure hshort
  · rw [length_block, entry.length]
    omega

/-- An entry is put next to what has been written. -/
theorem htonFlowStats_partway {addr length p : ℕ} {done rest : List UInt8}
    (hp : done.length = p) (hrest : entry.wire.length ≤ rest.length) :
  Draws 1 (htonFlowStats host (partway addr length done rest) p entry.block)
    (partway addr length (done ++ entry.wire) (rest.drop entry.wire.length))
  := by
  have hfields : entry.fields.bytes.length = 88 := entry.fields.size
  have hsize : entry.wire.length = 88 + sizes entry.actions := length_wire.trans entry.length
  have hcopy : copyOut entry.block 0 (host.short entry.fields.bytes 0).toNat
      = pure entry.block := by
    rw [← length_block]
    exact copyOut_whole
  have hstruct : htonStruct host ofpFlowStats entry.block 0
      = pure (ofpFlowStats.convert host.littleEndian entry.fields.bytes) := by
    have hout : copyOut entry.block 0 88 = pure entry.fields.bytes := by
      rw [copyOut, if_pos, List.drop_zero, block, List.take_left' hfields]
      rw [length_block, entry.length]
      omega
    change (copyOut entry.block 0 88 >>= _) = _
    rw [hout, pure_bind]
  have hconvert : (ofpFlowStats.convert host.littleEndian entry.fields.bytes).length = 88 :=
    Record.length_convert
  have hp' : (done ++ ofpFlowStats.convert host.littleEndian entry.fields.bytes).length
      = p + 88 := by
    rw [List.length_append, hp, hconvert]
  have hrest' : sizes entry.actions ≤ (rest.drop 88).length := by
    rw [List.length_drop]
    omega
  rw [htonFlowStats, readShort_length, pure_bind]
  apply draws_malloc_bind
  rw [hcopy, pure_bind, hstruct, pure_bind, fill_partway hp (by omega), pure_bind, hconvert,
    length_block, entry.length]
  rw [show entry.block = entry.fields.bytes ++ (entry.actions.map HostAction.block).flatten
    from rfl, htonFlowActions_partway hp' hfields hrest' entry.actionsLength (by omega),
    List.append_assoc, List.drop_drop, hsize]
  exact draws_pure

/-- An entry is put into a message next to what is there. -/
theorem htonFlowStats_draws {addr length n p : ℕ} {done : List UInt8} (hp : done.length = p)
    (hn : entry.wire.length ≤ n) :
  Draws 1 (htonFlowStats host (underway addr length done n) p entry.block)
    (underway addr length (done ++ entry.wire) (n - entry.wire.length))
  := by
  rw [underway_eq, underway_eq, ← List.drop_replicate]
  exact htonFlowStats_partway hp (by rwa [List.length_replicate])

end FlowEntry

namespace QueueProperty

variable {host : Host} (property : QueueProperty host)

theorem size_cases :
  host.short property.block 0 = ofpqtNone ∧ property.layout = ofpQueuePropHeader ∧
      property.layout.size = 8 ∨
    host.short property.block 0 = ofpqtMinRate ∧ property.layout = ofpQueuePropMinRate ∧
      property.layout.size = 16
  := by
  rcases property.shape with ⟨htype, hlayout⟩ | ⟨htype, hlayout⟩
  · exact .inl ⟨htype, hlayout, by rw [hlayout]; rfl⟩
  · exact .inr ⟨htype, hlayout, by rw [hlayout]; rfl⟩

theorem eight_le :
  8 ≤ property.layout.size
  := by
  rcases property.size_cases with ⟨-, -, h⟩ | ⟨-, -, h⟩
  · omega
  · omega

@[simp]
theorem length_wire :
  property.wire.length = property.layout.size
  := Struct.length_convert (Nat.le_of_eq property.size.symm)

/-- The numbers of a property in network order; its padding is zero. -/
theorem wire_eq :
  property.wire = htons (host.short property.block 0) ++ htons (host.short property.block 2)
    ++ List.replicate 4 0 ++ (if host.short property.block 0 = ofpqtMinRate then
      htons (host.short property.block 8) ++ List.replicate 6 0 else [])
  := by
  have hsize := property.size
  have hmin := property.eight_le
  rw [htons_short (by omega), htons_short (by omega), wire]
  rcases property.size_cases with ⟨htype, hlayout, _⟩ | ⟨htype, hlayout, hsixteen⟩
  · rw [htype, hlayout, if_neg (by decide), List.append_nil, List.append_assoc]
    rfl
  · rw [htype, hlayout, if_pos rfl, htons_short (by omega), List.append_assoc,
      List.append_assoc]
    have hdrop : ((property.block.drop 2).drop 2).drop 4 = property.block.drop 8 := by
      rw [List.drop_drop, List.drop_drop]
    rw [← hdrop]
    rfl

/-- What is at the place of the property after it has been stored over `old`. Its padding is
that of `old`. -/
def storedOver (old : List UInt8) : List UInt8 :=
  htons (host.short property.block 0) ++ htons (host.short property.block 2)
    ++ (old.drop 4).take 4 ++ (if host.short property.block 0 = ofpqtMinRate then
      htons (host.short property.block 8) ++ (old.drop 10).take 6 else [])

theorem length_over {old : List UInt8} (hold : property.layout.size ≤ old.length) :
  (property.storedOver old).length = property.layout.size
  := by
  simp only [storedOver, List.length_append, length_htons, List.length_take, List.length_drop]
  rcases property.size_cases with ⟨htype, -, height⟩ | ⟨htype, -, hsixteen⟩
  · rw [htype, if_neg (by decide), List.length_nil]
    omega
  · rw [if_pos htype, List.length_append, length_htons, List.length_take, List.length_drop]
    omega

/-- Over zeros a property is stored with its padding zero. -/
theorem over_zeros {n : ℕ} (hn : property.layout.size ≤ n) :
  property.storedOver (List.replicate n 0) = property.wire
  := by
  have hpad : ∀ j k, j + k ≤ n →
      ((List.replicate n (0 : UInt8)).drop j).take k = List.replicate k 0 := by
    intro j k hle
    rw [List.drop_replicate, List.take_replicate, Nat.min_eq_left (by omega)]
  rw [storedOver, wire_eq]
  rcases property.size_cases with ⟨htype, -, height⟩ | ⟨htype, -, hsixteen⟩
  · rw [hpad 4 4 (by omega), htype, if_neg (by decide), if_neg (by decide)]
  · rw [hpad 4 4 (by omega), hpad 10 6 (by omega)]

/-- A property is put next to what has been written. -/
theorem htonQueueProperty_partway {addr length p q : ℕ} {done rest before after : List UInt8}
    (hp : done.length = p) (hq : before.length = q) (hrest : property.layout.size ≤ rest.length) :
  Draws 1 (htonQueueProperty host (partway addr length done rest) p
      (before ++ (property.block ++ after)) q)
    (partway addr length (done ++ property.storedOver rest) (rest.drop property.layout.size))
  := by
  have hmin := property.eight_le
  have hsize := property.size
  have hread : ∀ o, o + 2 ≤ property.layout.size →
      readShort host (before ++ (property.block ++ after)) (q + o)
        = pure (host.short property.block o) := by
    intro o ho
    rw [readShort, if_pos, ← hq, Host.short_append before after (by omega)]
    simp only [List.length_append]
    omega
  have hself : ∀ o, o + 2 ≤ property.layout.size →
      readShort host property.block o = pure (host.short property.block o) := by
    intro o ho
    rw [readShort, if_pos (by omega)]
  have hcopy : copyOut (before ++ (property.block ++ after)) q
      (host.short property.block 2).toNat = pure property.block := by
    have hout := copyOut_append before after (o := 0)
      (show 0 + property.block.length ≤ property.block.length by omega)
    rw [Nat.add_zero, List.drop_zero, List.take_length, hq, hsize, ← property.len] at hout
    exact hout
  have hfields : [htons (host.short property.block 0), htons (host.short property.block 2)].flatten
      = htons (host.short property.block 0) ++ htons (host.short property.block 2) := by
    simp
  have hfour : (htons (host.short property.block 0)
      ++ htons (host.short property.block 2)).length = 4 := rfl
  rw [htonQueueProperty, hread 2 (by omega), pure_bind]
  apply draws_malloc_bind
  rw [hcopy, pure_bind, hself 0 (by omega), pure_bind, hself 2 (by omega), pure_bind,
    storeFields_partway hp (by rw [hfields, hfour]; omega), pure_bind]
  have hzero := hread 0 (by omega)
  rw [Nat.add_zero] at hzero
  rw [hzero, pure_bind, hfields, hfour, storedOver, partway_keep (k := 4), List.drop_drop,
    List.append_assoc done]
  rcases property.size_cases with ⟨htype, -, height⟩ | ⟨htype, -, hsixteen⟩
  · rw [htype, if_neg (by decide), if_neg (by decide), List.append_nil, height]
    exact draws_pure
  · have hp' : (done ++ (htons (host.short property.block 0)
        ++ htons (host.short property.block 2) ++ (rest.drop 4).take 4)).length = p + 8 := by
      rw [List.length_append, hp, List.length_append, hfour, List.length_take, List.length_drop]
      omega
    rw [if_pos htype, if_pos htype, hself 8 (by omega), pure_bind,
      fill_partway hp' (by rw [length_htons, List.length_drop]; omega), length_htons,
      List.drop_drop, partway_keep (k := 6), List.drop_drop, hsixteen, List.append_assoc,
      List.append_assoc]
    exact draws_pure

end QueueProperty

theorem length_propertyWires {host : Host} {properties : List (QueueProperty host)} :
  (propertyWires properties).length = propertySizes properties
  := by
  apply length_flatten_map
  intro property _
  exact property.length_wire

/-- What is at the place of the properties after they have been stored over `old`. -/
def propertiesOver {host : Host} : List (QueueProperty host) → List UInt8 → List UInt8
  | [], _ => []
  | property :: properties, old =>
    property.storedOver old ++ propertiesOver properties (old.drop property.layout.size)

section

variable {host : Host} {properties : List (QueueProperty host)}

theorem propertySizes_cons {property : QueueProperty host} :
  propertySizes (property :: properties) = property.layout.size + propertySizes properties
  := by
  rw [propertySizes, List.map_cons, List.sum_cons, ← propertySizes]

theorem length_le_propertySizes :
  properties.length ≤ propertySizes properties
  := by
  induction properties with
  | nil => exact Nat.le_refl 0
  | cons property properties ih =>
      have hmin := property.eight_le
      rw [propertySizes_cons, List.length_cons]
      omega

theorem length_propertiesOver {old : List UInt8} (hold : propertySizes properties ≤ old.length) :
  (propertiesOver properties old).length = propertySizes properties
  := by
  induction properties generalizing old with
  | nil => rfl
  | cons property properties ih =>
      rw [propertySizes_cons] at hold ⊢
      rw [propertiesOver, List.length_append, property.length_over (by omega), ih]
      rw [List.length_drop]
      omega

/-- Over zeros properties are stored with their padding zero. -/
theorem propertiesOver_zeros {n : ℕ} (hn : propertySizes properties ≤ n) :
  propertiesOver properties (List.replicate n 0) = propertyWires properties
  := by
  induction properties generalizing n with
  | nil => rfl
  | cons property properties ih =>
      rw [propertySizes_cons] at hn
      rw [propertiesOver, property.over_zeros (by omega), List.drop_replicate, ih (by omega)]
      rfl

variable {addr length p q fuel : ℕ} {done rest before : List UInt8} {propertiesLength : UInt16}

/-- As many rounds as there are properties store them in their order and leave nothing of the
queue. -/
theorem htonQueueProperties_rounds (hp : done.length = p) (hq : before.length = q)
    (hrest : propertySizes properties ≤ rest.length)
    (hlength : propertiesLength.toNat = propertySizes properties) :
  GoesOn properties.length
    (htonQueueProperties host (before ++ (properties.map QueueProperty.block).flatten)
      (properties.length + fuel) (partway addr length done rest) p q propertiesLength)
    (htonQueueProperties host (before ++ (properties.map QueueProperty.block).flatten) fuel
      (partway addr length (done ++ propertiesOver properties rest)
        (rest.drop (propertySizes properties)))
      (p + propertySizes properties) (q + propertySizes properties) 0)
  := by
  have height : UInt16.toNat 8 = 8 := rfl
  induction properties generalizing done rest p before q propertiesLength with
  | nil =>
      obtain rfl : propertiesLength = 0 := UInt16.toNat_inj.mp hlength
      simpa [propertiesOver, propertySizes] using goesOn_refl
  | cons property properties ih =>
      rw [propertySizes_cons] at hrest hlength ⊢
      have hmin := property.eight_le
      have hlen : readShort host
          (before ++ (property.block ++ (properties.map QueueProperty.block).flatten)) (q + 2)
            = pure (host.short property.block 2) := by
        have hsize := property.size
        rw [readShort, if_pos, ← hq, Host.short_append before _ (by omega)]
        simp only [List.length_append]
        omega
      have hp' : (done ++ property.storedOver rest).length = p + property.layout.size := by
        rw [List.length_append, hp, property.length_over (by omega)]
      have hq' : (before ++ property.block).length = q + property.layout.size := by
        rw [List.length_append, hq, property.size]
      have hrest' : propertySizes properties ≤ (rest.drop property.layout.size).length := by
        rw [List.length_drop]
        omega
      have hleft : (propertiesLength - host.short property.block 2).toNat
          = propertySizes properties := by
        apply toNat_sub_of_eq_add
        rw [hlength, property.len]
      have hfuel : (property :: properties).length + fuel = properties.length + fuel + 1 := by
        rw [List.length_cons]
        omega
      rw [hfuel, List.map_cons, List.flatten_cons, List.length_cons, Nat.add_comm _ 1,
        htonQueueProperties, if_pos]
      · refine ((property.htonQueueProperty_partway hp hq (by omega)).goesOn).trans ?_
        rw [hlen, pure_bind, property.len, ← List.append_assoc, propertiesOver,
          ← List.append_assoc, ← List.drop_drop, ← Nat.add_assoc, ← Nat.add_assoc]
        exact ih hp' hq' hrest' hleft
      · rw [ge_iff_le, UInt16.le_iff_toNat_le]
        omega

/-- The loop over the properties of a queue stores the properties in their order. -/
theorem htonQueueProperties_partway (hp : done.length = p) (hq : before.length = q)
    (hrest : propertySizes properties ≤ rest.length)
    (hlength : propertiesLength.toNat = propertySizes properties)
    (hfuel : propertySizes properties < fuel) :
  Draws properties.length
    (htonQueueProperties host (before ++ (properties.map QueueProperty.block).flatten) fuel
      (partway addr length done rest) p q propertiesLength)
    (partway addr length (done ++ propertiesOver properties rest)
      (rest.drop (propertySizes properties)))
  := by
  have hle : properties.length ≤ propertySizes properties := length_le_propertySizes
  obtain ⟨k, rfl⟩ : ∃ k, fuel = properties.length + (k + 1) :=
    ⟨fuel - properties.length - 1, by omega⟩
  apply (htonQueueProperties_rounds hp hq hrest hlength).draws (l := 0)
  rw [htonQueueProperties, if_neg (by decide)]
  exact draws_pure

end

namespace PacketQueue

variable {host : Host}

def block (queue : PacketQueue host) : List UInt8 :=
  queue.fields.bytes ++ (queue.properties.map QueueProperty.block).flatten

/-- What is put into a message for the queue. -/
def wire (queue : PacketQueue host) : List UInt8 :=
  ofpPacketQueue.convert host.littleEndian queue.fields.bytes ++ propertyWires queue.properties

variable {queue : PacketQueue host}

theorem length_block :
  queue.block.length = (host.short queue.fields.bytes 4).toNat
  := by
  have hblocks : (queue.properties.map QueueProperty.block).flatten.length
      = propertySizes queue.properties := by
    apply length_flatten_map
    intro property _
    exact property.size
  rw [block, List.length_append, queue.fields.size, hblocks, queue.len]
  rfl

theorem length_wire :
  queue.wire.length = (host.short queue.fields.bytes 4).toNat
  := by
  rw [wire, List.length_append, Record.length_convert, length_propertyWires, queue.len]
  rfl

/-- What the length of a queue leaves for its properties. -/
theorem propertiesLength :
  (host.short queue.fields.bytes 4 - 8).toNat = propertySizes queue.properties
  := toNat_sub_of_eq_add queue.len

theorem readShort_len :
  readShort host queue.block 4 = pure (host.short queue.fields.bytes 4)
  := by
  have hsize : queue.fields.bytes.length = 8 := queue.fields.size
  have hshort : host.short ([] ++ queue.block) (0 + 4) = host.short queue.fields.bytes 4 :=
    Host.short_append [] _ (by omega)
  rw [readShort, if_pos]
  · exact congrArg pure hshort
  · rw [length_block, queue.len]
    omega

/-- What is at the place of the queue after it has been stored over `old`. -/
def storedOver (queue : PacketQueue host) (old : List UInt8) : List UInt8 :=
  ofpPacketQueue.convert host.littleEndian queue.fields.bytes
    ++ propertiesOver queue.properties (old.drop 8)

/-- A queue is put next to what has been written. -/
theorem htonPacketQueue_partway {addr length p : ℕ} {done rest : List UInt8}
    (hp : done.length = p) (hrest : queue.block.length ≤ rest.length) :
  Draws (queue.properties.length + 1)
    (htonPacketQueue host (partway addr length done rest) p queue.block)
    (partway addr length (done ++ queue.storedOver rest) (rest.drop queue.block.length))
  := by
  have hfields : queue.fields.bytes.length = 8 := queue.fields.size
  have hsize : queue.block.length = 8 + propertySizes queue.properties :=
    length_block.trans queue.len
  have hcopy : copyOut queue.block 0 (host.short queue.fields.bytes 4).toNat
      = pure queue.block := by
    rw [← length_block]
    exact copyOut_whole
  have hstruct : htonStruct host ofpPacketQueue queue.block 0
      = pure (ofpPacketQueue.convert host.littleEndian queue.fields.bytes) := by
    have hout : copyOut queue.block 0 8 = pure queue.fields.bytes := by
      rw [copyOut, if_pos (by omega), List.drop_zero, block, List.take_left' hfields]
    change (copyOut queue.block 0 8 >>= _) = _
    rw [hout, pure_bind]
  have hconvert : (ofpPacketQueue.convert host.littleEndian queue.fields.bytes).length = 8 :=
    Record.length_convert
  have hp' : (done ++ ofpPacketQueue.convert host.littleEndian queue.fields.bytes).length
      = p + 8 := by
    rw [List.length_append, hp, hconvert]
  have hrest' : propertySizes queue.properties ≤ (rest.drop 8).length := by
    rw [List.length_drop]
    omega
  rw [htonPacketQueue, readShort_len, pure_bind]
  apply draws_malloc_bind
  rw [hcopy, pure_bind, hstruct, pure_bind, fill_partway hp (by omega), pure_bind, hconvert,
    hsize, storedOver, ← List.append_assoc, ← List.drop_drop]
  exact htonQueueProperties_partway hp' hfields hrest' queue.propertiesLength (by omega)

/-- A queue is put into a message next to what is there. -/
theorem htonPacketQueue_draws {addr length n p : ℕ} {done : List UInt8} (hp : done.length = p)
    (hn : queue.wire.length ≤ n) :
  Draws (queue.properties.length + 1)
    (htonPacketQueue host (underway addr length done n) p queue.block)
    (underway addr length (done ++ queue.wire) (n - queue.wire.length))
  := by
  have hblock : queue.block.length = queue.wire.length := length_block.trans length_wire.symm
  have hsize : queue.wire.length = 8 + propertySizes queue.properties :=
    length_wire.trans queue.len
  have hover : queue.storedOver (List.replicate n 0) = queue.wire := by
    rw [storedOver, wire, List.drop_replicate, propertiesOver_zeros (by omega)]
  rw [underway_eq, underway_eq, ← List.drop_replicate, ← hblock, ← hover]
  exact htonPacketQueue_partway hp (by rwa [hblock, List.length_replicate])

end PacketQueue

/-! ### Lists of entries -/

section

variable {host : Host} {ε : Type} {entries : List ε} {block wire : ε → List UInt8} {o : ℕ}

/-- The loop over entries stores the entries in their order, when each is stored next to what
is there and is as long as the number it has at `o`. -/
theorem storeEntries_draws {hton : Buffer → ℕ → List UInt8 → Action Buffer} (cost : ε → ℕ)
    {addr length n p : ℕ} {done : List UInt8}
    (hstore : ∀ e ∈ entries, ∀ (done : List UInt8) (n p : ℕ), done.length = p →
      (wire e).length ≤ n → Draws (cost e) (hton (underway addr length done n) p (block e))
        (underway addr length (done ++ wire e) (n - (wire e).length)))
    (hread : ∀ e ∈ entries,
      readShort host (block e) o = pure (UInt16.ofNat (wire e).length) ∧
        (wire e).length < 2 ^ 16)
    (hp : done.length = p) (hn : (entries.map wire).flatten.length ≤ n) :
  Draws (entries.map cost).sum
    (storeEntries host hton o (underway addr length done n) p (entries.map block))
    (underway addr length (done ++ (entries.map wire).flatten)
      (n - (entries.map wire).flatten.length))
  := by
  induction entries generalizing done n p with
  | nil => simpa [storeEntries] using draws_pure
  | cons e entries ih =>
      rw [List.map_cons, List.flatten_cons, List.length_append] at hn
      obtain ⟨hlen, hlt⟩ := hread e List.mem_cons_self
      have hp' : (done ++ wire e).length = p + (UInt16.ofNat (wire e).length).toNat := by
        rw [List.length_append, hp, UInt16.toNat_ofNat_of_lt' hlt]
      rw [List.map_cons, List.sum_cons, List.map_cons, storeEntries, List.map_cons,
        List.flatten_cons, List.length_append, ← List.append_assoc, ← Nat.sub_sub]
      apply (hstore e List.mem_cons_self done n p hp (by omega)).bind
      rw [hlen, pure_bind]
      apply ih _ _ hp' (by omega)
      · intro e' he'
        apply hstore e' (List.mem_cons_of_mem e he')
      · intro e' he'
        apply hread e' (List.mem_cons_of_mem e he')

/-- Storing entries that take all the room there is. -/
theorem storeEntries_whole {hton : Buffer → ℕ → List UInt8 → Action Buffer} (cost : ε → ℕ)
    {addr length p : ℕ} {done : List UInt8}
    (hstore : ∀ e ∈ entries, ∀ (done : List UInt8) (n p : ℕ), done.length = p →
      (wire e).length ≤ n → Draws (cost e) (hton (underway addr length done n) p (block e))
        (underway addr length (done ++ wire e) (n - (wire e).length)))
    (hread : ∀ e ∈ entries,
      readShort host (block e) o = pure (UInt16.ofNat (wire e).length) ∧
        (wire e).length < 2 ^ 16)
    (hp : done.length = p) :
  Draws (entries.map cost).sum
    (storeEntries host hton o (underway addr length done (entries.map wire).flatten.length) p
      (entries.map block))
    (underway addr length (done ++ (entries.map wire).flatten) 0)
  := by
  have hdraws := storeEntries_draws cost hstore hread hp (Nat.le_refl _)
  rw [Nat.sub_self] at hdraws
  exact hdraws

/-- The lengths of entries are added up as `uint16_t`. -/
theorem sumEntries_eq {length : UInt16}
    (hread : ∀ e ∈ entries, readShort host (block e) o = pure (UInt16.ofNat (wire e).length)) :
  sumEntries host o (entries.map block) length
    = pure (length + UInt16.ofNat (entries.map wire).flatten.length)
  := by
  induction entries generalizing length with
  | nil => simp [sumEntries]
  | cons e entries ih =>
      rw [List.map_cons, sumEntries, hread e List.mem_cons_self, pure_bind,
        ih (fun e' he' => hread e' (List.mem_cons_of_mem e he')), List.map_cons,
        List.flatten_cons, List.length_append, UInt16.ofNat_add, UInt16.add_assoc]

end

/-! ### Messages that are made -/

/-- The program makes the message with the body if the block for the header has room for the
message and its `k` allocations succeed. If one of them fails it follows the null pointer. -/
def Makes (host : Host) (xid : UInt32) (type : UInt8) (body : List UInt8) (k : ℕ)
    (m : Action (Option Buffer)) : Prop :=
  ∀ (E : Fault → Prop) (w : World) (Q : Option Buffer → World → Prop),
    (8 + body.length ≤ host.scratch → w.Grants k →
      ∀ buf w', Created host xid type body buf → Q (some buf) w') →
    (¬ w.Grants k → E .null) →
    (host.scratch < 8 + body.length → E .null ∧ E .overrun) →
    Program.Ends E m w Q

section

variable {host : Host} {xid : UInt32} {type : UInt8} {body : List UInt8} {k : ℕ}

/-- The header of a message that is long enough for one is there, and zeros behind. -/
theorem headed_eq {length : UInt16} {addr n : ℕ} (hlength : length.toNat = 8 + n) :
  headed host xid type length addr
    = underway addr length.toNat (ofpHeader host xid type length) n
  := by
  rw [headed, underway, hlength, Nat.add_sub_cancel_left, List.take_of_length_le]
  rw [List.length_append, length_ofpHeader, List.length_replicate]

theorem created_underway {length : UInt16} {addr : ℕ} (hlength : length.toNat = 8 + body.length) :
  Created host xid type body
    (underway addr length.toNat (ofpHeader host xid type length ++ body) 0)
  := by
  have hlt := length.toNat_lt
  refine ⟨?_, hlength, by omega⟩
  rw [underway, List.replicate_zero, List.append_nil, ← hlength, UInt16.ofNat_toNat]

/-- A message is made when all of the body is stored behind the header. -/
theorem createWith_makes {length : UInt16} {rest : Buffer → Action Buffer}
    (hlength : length.toNat = 8 + body.length)
    (hrest : ∀ addr, Draws k
      (rest (underway addr length.toNat (ofpHeader host xid type length) body.length))
      (underway addr length.toNat (ofpHeader host xid type length ++ body) 0)) :
  Makes host xid type body (3 + k) (createWith host xid type length rest)
  := by
  intro E w Q hmade hnull hscratch
  have hfails : ∀ i < 3, w.mallocs i = false → E .null := by
    intro i hi hfalse
    apply hnull
    intro hgrants
    have htrue := hgrants i (by omega)
    rw [hfalse] at htrue
    cases htrue
  have hmax : max 8 length.toNat = 8 + body.length := by omega
  rw [createWith, Program.ends_bind, ends_ccCreateHeader, hmax]
  refine ⟨hfails 0 (by omega), fun h0 => ⟨hfails 2 (by omega), fun h2 =>
    ⟨fun hlt => (hscratch hlt).2, fun hle => ⟨hfails 1 (by omega), fun h1 => ?_⟩⟩⟩⟩
  have hthree := World.grants_three h0 h1 h2
  rw [headed_eq hlength, unchecked, Program.ends_bind, hrest]
  constructor
  · intro hk
    apply hmade hle (World.grants_add.mpr ⟨hthree, hk⟩)
    apply created_underway hlength
  · intro hk
    apply hnull
    intro hgrants
    exact hk (World.grants_add.mp hgrants).2

/-- A body that consists of fields only. -/
theorem createWith_fields {length : UInt16} {fields : List (List UInt8)}
    (hlength : length.toNat = 8 + fields.flatten.length) :
  Makes host xid type fields.flatten 3
    (createWith host xid type length (fun buf => storeFields buf 8 fields))
  := by
  apply createWith_makes (k := 0) hlength
  intro addr
  rw [storeFields_underway length_ofpHeader (Nat.le_refl _), Nat.sub_self]
  exact draws_pure

/-- What is done before takes allocations of its own. -/
theorem Makes.after {α : Type} {j : ℕ} {a : α} {m : Action α} {f : α → Action (Option Buffer)}
    (hm : Draws j m a) (hf : Makes host xid type body k (f a)) :
  Makes host xid type body (j + k) (m >>= f)
  := by
  intro E w Q hmade hnull hscratch
  rw [Program.ends_bind, hm]
  constructor
  · intro hj
    apply hf
    · intro hle hk
      apply hmade hle (World.grants_add.mpr ⟨hj, hk⟩)
    · intro hk
      apply hnull
      intro hgrants
      exact hk (World.grants_add.mp hgrants).2
    · exact hscratch
  · intro hj
    apply hnull
    intro hgrants
    exact hj (World.grants_add.mp hgrants).1

/-- A message that gets more fields is one whose body begins with the fields it got first. -/
theorem addFields_eq {length : UInt16} {first rest : Buffer → Action Buffer} :
  (do
    let buf ← createWith host xid type length first
    unchecked buf fun buf => do
    let buf ← rest buf
    pure (some buf))
    = createWith host xid type length (fun buf => do
      let buf ← first buf
      rest buf)
  := by
  simp only [createWith, bind_assoc]
  congr 1
  funext buf
  cases buf with
  | none => rfl
  | some buf => simp only [unchecked, bind_assoc, pure_bind]

theorem statsReplyWith_eq {type length flags : UInt16} {rest : Buffer → Action Buffer} :
  statsReplyWith host xid type length flags rest
    = createWith host xid ofptStatsReply length (fun buf => do
      let buf ← storeFields buf 8 [htons type, htons flags]
      rest buf)
  := addFields_eq

theorem statsRequestWith_eq {type length flags : UInt16} {rest : Buffer → Action Buffer} :
  statsRequestWith host xid type length flags rest
    = createWith host xid ofptStatsRequest length (fun buf => do
      let buf ← storeFields buf 8 [htons type, htons flags]
      rest buf)
  := addFields_eq

/-- Fields first, and then the rest of the body. -/
theorem createWith_fields_then {length : UInt16} {fields : List (List UInt8)}
    {rest : Buffer → Action Buffer} {more : List UInt8}
    (hlength : length.toNat = 8 + (fields.flatten ++ more).length)
    (hrest : ∀ (addr : ℕ) (done : List UInt8), done.length = 8 + fields.flatten.length →
      Draws k (rest (underway addr length.toNat done more.length))
        (underway addr length.toNat (done ++ more) 0)) :
  Makes host xid type (fields.flatten ++ more) (3 + k)
    (createWith host xid type length (fun buf => do
      let buf ← storeFields buf 8 fields
      rest buf))
  := by
  apply createWith_makes hlength
  intro addr
  rw [List.length_append, storeFields_underway length_ofpHeader (Nat.le_add_right _ _),
    pure_bind, Nat.add_sub_cancel_left, ← List.append_assoc]
  apply hrest
  rw [List.length_append, length_ofpHeader]

/-! ### Messages that are delivered -/

/-- The program returns in `P`, unless one of its `k` allocations fails, whose null pointer is
then followed. -/
def Delivers {α : Type} (k : ℕ) (m : Action α) (w : World) (P : α → Prop) : Prop :=
  Program.Ends (fun fault => fault = .null ∧ ¬ w.Grants k) m w (fun a _ => P a)

/-- Where there is room, a message is delivered. -/
theorem Makes.delivers {m : Action (Option Buffer)} {w : World} {P : Option Buffer → Prop}
    (hm : Makes host xid type body k m) (hroom : 8 + body.length ≤ host.scratch)
    (hcreated : ∀ buf, Created host xid type body buf → P (some buf)) :
  Delivers k m w P
  := by
  apply hm
  · intro _ _ buf _ hbuf
    apply hcreated buf hbuf
  · intro hnot
    exact ⟨rfl, hnot⟩
  · intro hlt
    exact absurd hroom (Nat.not_le_of_lt hlt)

theorem delivers_created {m : Action (Option Buffer)} {w : World}
    {P : ℤ ⊕ Option Buffer → Prop} :
  Delivers k (created m) w P ↔ Delivers k m w (fun buf => P (.inr buf))
  := Program.ends_bind

/-- What is done before takes allocations of its own. -/
theorem Delivers.after {α β : Type} {j : ℕ} {a : α} {m : Action α} {f : α → Action β}
    {w : World} {P : β → Prop} (hm : Draws j m a) (hf : ∀ w', Delivers k (f a) w' P) :
  Delivers (j + k) (m >>= f) w P
  := by
  rw [Delivers, Program.ends_bind, hm]
  constructor
  · intro _
    apply (hf (w.drawn j)).weaken
    rintro fault ⟨hnull, hnot⟩
    use hnull
    intro hgrants
    exact hnot (World.grants_add.mp hgrants).2
  · intro hnot
    use rfl
    intro hgrants
    exact hnot (World.grants_add.mp hgrants).1

end

end CcController
