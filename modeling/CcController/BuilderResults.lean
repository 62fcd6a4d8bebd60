import CcController.BuilderMessages

/-!
# What the builders return

The block that a header is built in has two bytes, so every builder writes behind it, unless
it does not come to that. Where the block has more room than was asked for, a builder makes
the message that it is asked for exactly if the message fits.
-/

namespace CcController

/-! ### Accesses -/

/-- Nothing is accessed through a null pointer or behind the end of a block. -/
def StaysInRange {α : Type} (m : Action α) (w : World) : Prop :=
  Program.Ends (fun fault => fault = .diverges) m w (fun _ _ => True)

/-- No loop goes on for ever. -/
def Terminates {α : Type} (m : Action α) : Prop :=
  ∀ w, Program.Ends (fun fault => fault ≠ .diverges) m w (fun _ _ => True)

section

variable {α β : Type} {m : Action α} {f : α → Action β} {host : Host} {w : World}

theorem StaysInRange.of_bind (h : StaysInRange (m >>= f) w) :
  StaysInRange m w
  := (Program.ends_bind.mp h).mono (fun _ _ _ => trivial)

/-- What comes after a program that terminates is reached, if nothing goes wrong before. -/
theorem StaysInRange.rest (h : StaysInRange (m >>= f) w) (hm : Terminates m) :
  ∃ a w', StaysInRange (f a) w'
  := by
  have hends := Program.ends_bind.mp h
  have hterminates := hm w
  cases hrun : m w with
  | ok r =>
      use r.1, r.2
      exact (Program.ends_of_ok hrun).mp hends
  | error fault =>
      simp only [Program.Ends, hrun] at hends hterminates
      exact absurd hends hterminates

theorem terminates_pure {a : α} :
  Terminates (pure a : Action α)
  := fun _ => trivial

theorem terminates_overrun :
  Terminates (Program.stop .overrun : Action α)
  := fun _ h => by cases h

theorem Terminates.bind (hm : Terminates m) (hf : ∀ a, Terminates (f a)) :
  Terminates (m >>= f)
  := fun w => Program.ends_bind.mpr ((hm w).mono (fun a w' _ => hf a w'))

theorem terminates_copyHead {list : List α} :
  Terminates (copyHead list)
  := by
  intro w
  cases list with
  | nil => trivial
  | cons a list =>
      apply (draws_malloc _ _ _).mpr
      exact ⟨fun _ => trivial, fun _ h => by cases h⟩

theorem terminates_readShort {block : List UInt8} {p : ℕ} :
  Terminates (readShort host block p)
  := by
  rw [readShort]
  split
  · exact terminates_pure
  · exact terminates_overrun

theorem terminates_phyPortToString {phyPort : List UInt8} :
  Terminates (phyPortToString phyPort)
  := by
  rw [phyPortToString]
  split
  · exact terminates_pure
  · exact terminates_overrun

theorem terminates_sumEntries {o : ℕ} {list : List (List UInt8)} {length : UInt16} :
  Terminates (sumEntries host o list length)
  := by
  induction list generalizing length with
  | nil => exact terminates_pure
  | cons entry list ih => exact terminates_readShort.bind (fun _ => ih)

theorem terminates_sumLengths {list : List (List UInt8)} {actionsLength : Int32} :
  Terminates (sumLengths host list actionsLength)
  := by
  induction list generalizing actionsLength with
  | nil => exact terminates_pure
  | cons action list ih =>
      apply terminates_readShort.bind
      intro type
      split
      · exact terminates_readShort.bind (fun _ => ih)
      · exact terminates_pure

theorem terminates_actionsLengthOf {actions : Option OpenflowActions} :
  Terminates (actionsLengthOf host actions)
  := by
  cases actions with
  | none => exact terminates_pure
  | some actions =>
      apply Terminates.bind
      · apply terminates_sumLengths.bind
        intro sum
        cases sum with
        | none => exact terminates_pure
        | some actionsLength =>
            change Terminates (if _ then _ else _)
            split
            · exact terminates_pure
            · exact terminates_pure
      · intro actionsLength
        exact terminates_pure

end

/-! ### The block for the header -/

section

variable {α : Type} {host : Host} {xid : UInt32} {type : UInt8} {length : UInt16} {w : World}

/-- A header does not fit into a block of less than 8 bytes. -/
theorem header_overruns {f : Option Buffer → Action α} (hscratch : host.scratch < 8)
    (hnone : f none = Program.stop .null) :
  ¬ StaysInRange (ccCreateHeader host xid type length >>= f) w
  := by
  intro h
  rw [StaysInRange, Program.ends_bind, ends_ccCreateHeader, hnone] at h
  obtain ⟨hfirst, hrest⟩ := h
  cases h0 : w.mallocs 0 with
  | false => cases hfirst h0
  | true =>
      cases h2 : w.mallocs 2 with
      | false => cases (hrest h0).1 h2
      | true => cases ((hrest h0).2 h2).1 (by omega)

/-- Without the block for the header nothing is written to it. -/
theorem header_inRange_iff {f : Option Buffer → Action α} {a : α} (hscratch : host.scratch < 8)
    (hnone : f none = pure a) :
  StaysInRange (ccCreateHeader host xid type length >>= f) w ↔ w.HeaderFails
  := by
  rw [StaysInRange, Program.ends_bind, ends_ccCreateHeader, hnone]
  constructor
  · rintro ⟨hfirst, hrest⟩
    cases h0 : w.mallocs 0 with
    | false => cases hfirst h0
    | true =>
        use h0
        cases h2 : w.mallocs 2 with
        | false => rfl
        | true => cases ((hrest h0).2 h2).1 (by omega)
  · rintro ⟨h0, h2⟩
    rw [h0, h2]
    simp

theorem createWith_overruns {rest : Buffer → Action Buffer} (hscratch : host.scratch < 8) :
  ¬ StaysInRange (createWith host xid type length rest) w
  := header_overruns hscratch rfl

theorem created_overruns {m : Action (Option Buffer)} (h : ¬ StaysInRange m w) :
  ¬ StaysInRange (created m) w
  := fun hcreated => h hcreated.of_bind

/-- Fields that are added do not matter. -/
theorem statsRequestWith_overruns {stats length flags : UInt16} {rest : Buffer → Action Buffer}
    (hscratch : host.scratch < 8) :
  ¬ StaysInRange (statsRequestWith host xid stats length flags rest) w
  := fun h => createWith_overruns hscratch h.of_bind

theorem statsReplyWith_overruns {stats length flags : UInt16} {rest : Buffer → Action Buffer}
    (hscratch : host.scratch < 8) :
  ¬ StaysInRange (statsReplyWith host xid stats length flags rest) w
  := fun h => createWith_overruns hscratch h.of_bind

theorem statsListReply_overruns {stats flags : UInt16} {layout : Struct}
    {entries : List (Record UInt8 layout)} (hscratch : host.scratch < 8) :
  ¬ StaysInRange (statsListReply host xid stats layout flags entries) w
  := by
  intro h
  obtain ⟨_, w', hrest⟩ := h.rest terminates_copyHead
  exact statsReplyWith_overruns hscratch hrest

end

/-- The frame checks refuse the arguments. -/
def Builder.Refused : Builder → Prop
  | packetOut bufferId _ _ data => FrameRefused bufferId data
  | _ => False

/-- When the block for the header has the two bytes that are asked for, a builder stays in
range only if it makes no header: if it refuses its arguments, or if the block cannot be
allocated and the builder passes the null pointer on. -/
theorem builders_inRange_iff (host : Host) (hscratch : host.scratch = 2) (xid : UInt32)
    (builder : Builder) (w : World) :
  StaysInRange (builder.create host xid) w ↔
    builder.Refused ∨ builder.PassesNull ∧ w.HeaderFails
  := by
  have hsmall : host.scratch < 8 := by omega
  have hnever : ∀ {m : Action (Option Buffer)}, ¬ StaysInRange m w →
      (StaysInRange (created m) w ↔ False ∨ False ∧ w.HeaderFails) := by
    intro m hm
    simp only [created_overruns hm, false_and, or_self]
  cases builder with
  | hello | getConfigRequest | barrierRequest | barrierReply =>
      simp only [Builder.Refused, Builder.PassesNull, true_and, false_or]
      exact header_inRange_iff hsmall rfl
  | echoRequest data =>
      simp only [Builder.Refused, Builder.PassesNull, true_and, false_or]
      rw [Builder.create, created, ccCreateEchoRequest, bind_assoc]
      exact header_inRange_iff hsmall rfl
  | echoReply data =>
      simp only [Builder.Refused, Builder.PassesNull, false_or]
      rw [Builder.create, created, ccCreateEchoReply, bind_assoc]
      by_cases hzero : dataLength data = 0
      · rw [header_inRange_iff hsmall (a := .inr none) (by simp [hzero])]
        simp only [hzero, true_and]
      · simp only [hzero, false_and, iff_false]
        apply header_overruns hsmall
        have hpos : dataLength data > 0 := UInt16.pos_iff_ne_zero.mpr hzero
        simp only [if_pos hpos]
        rfl
  | featuresRequest => exact hnever (header_overruns hsmall rfl)
  | setConfig flags missSendLen => exact hnever (header_overruns hsmall rfl)
  | packetOut bufferId inPort actions data =>
      simp only [Builder.Refused, Builder.PassesNull, false_and, or_false]
      rw [Builder.create, ccCreatePacketOut]
      split
      · next hrefused => exact iff_of_true trivial hrefused
      · next hframe =>
          apply iff_of_false _ hframe
          intro h
          obtain ⟨_, w', hrest⟩ := h.rest terminates_actionsLengthOf
          exact createWith_overruns hsmall hrest.of_bind
  | flowMod m cookie command idleTimeout hardTimeout priority bufferId outPort flags actions =>
      apply hnever
      intro h
      obtain ⟨_, w', hrest⟩ := h.rest terminates_actionsLengthOf
      exact createWith_overruns hsmall hrest
  | featuresReply datapathId nBuffers nTables capabilities actions ports =>
      apply hnever
      intro h
      obtain ⟨_, w', hrest⟩ := h.rest terminates_copyHead
      exact createWith_overruns hsmall hrest
  | portStatus reason desc =>
      apply hnever
      intro h
      obtain ⟨_, w', hrest⟩ := h.rest terminates_phyPortToString
      exact createWith_overruns hsmall hrest
  | flowStatsReply flags flows =>
      apply hnever
      intro h
      obtain ⟨_, w', hrest⟩ := h.rest terminates_copyHead
      obtain ⟨_, w'', hrest⟩ := hrest.rest terminates_sumEntries
      exact statsReplyWith_overruns hsmall hrest
  | queueGetConfigReply port queues =>
      apply hnever
      intro h
      obtain ⟨_, w', hrest⟩ := h.rest terminates_copyHead
      obtain ⟨_, w'', hrest⟩ := hrest.rest terminates_sumEntries
      exact createWith_overruns hsmall hrest
  | tableStatsReply flags tables => exact hnever (statsListReply_overruns hsmall)
  | portStatsReply flags ports => exact hnever (statsListReply_overruns hsmall)
  | queueStatsReply flags queues => exact hnever (statsListReply_overruns hsmall)
  | flowStatsRequest | aggregateStatsRequest | portStatsRequest | queueStatsRequest
    | vendorStatsRequest => exact hnever (statsRequestWith_overruns hsmall)
  | descStatsReply | aggregateStatsReply | vendorStatsReply =>
      exact hnever (statsReplyWith_overruns hsmall)
  | _ => exact hnever (createWith_overruns hsmall)

/-- A host on which a block has the bytes that are asked for. -/
def Host.exact : Host where
  __ := Host.plain true
  scratch := 2

/-- A packet that is refused, since it has neither a buffer nor data. -/
theorem builders_inRange_refused :
  Host.exact.scratch = 2 ∧
    StaysInRange (Builder.create Host.exact 1 (.packetOut uintMax 0 none none)) World.start
  := ⟨rfl, (builders_inRange_iff Host.exact rfl 1 (.packetOut uintMax 0 none none)
    World.start).mpr (.inl ⟨rfl, fun _ h => by cases h⟩)⟩

/-- A HELLO message is written behind the block for its header. -/
theorem hello_overruns :
  ¬ ∀ (host : Host) (xid : UInt32) (builder : Builder) (w : World), host.scratch = 2 →
    StaysInRange (builder.create host xid) w
  := by
  intro h
  have hhello := h Host.exact 1 .hello World.start rfl
  change Fault.overrun = Fault.diverges at hhello
  cases hhello

/-! ### Where there is room -/

section

variable {host : Host} {xid : UInt32} {type : UInt8} {body : List UInt8} {k : ℕ} {w : World}
  {m : Action (Option Buffer)} {E : Fault → Prop} {P : Option Buffer → Prop}

/-- A message is made exactly if there is room for it and the allocations succeed. -/
theorem Makes.ends_iff (hm : Makes host xid type body k m) (hnull : ¬ E .null)
    (hoverrun : ¬ E .overrun)
    (hcreated : ∀ buf, Created host xid type body buf → P (some buf)) :
  Program.Ends E m w (fun result _ => P result) ↔
    8 + body.length ≤ host.scratch ∧ w.Grants k
  := by
  constructor
  · intro h
    by_contra hnot
    apply h.not_ends
    apply hm
    · intro hle hgrants
      exact absurd ⟨hle, hgrants⟩ hnot
    · intro _
      exact hnull
    · intro _
      exact ⟨hnull, hoverrun⟩
  · rintro ⟨hle, hgrants⟩
    apply hm
    · intro _ _ buf _ hbuf
      apply hcreated buf hbuf
    · intro hnot
      exact absurd hgrants hnot
    · intro hlt
      exact absurd hle (Nat.not_le_of_lt hlt)

/-- As for `Makes.ends_iff`, or the result is null. -/
theorem MakesOrNull.ends_iff (hm : MakesOrNull host xid type body m) (hnull : ¬ E .null)
    (hoverrun : ¬ E .overrun) (hnone : P none)
    (hcreated : ∀ buf, Created host xid type body buf → P (some buf)) :
  Program.Ends E m w (fun result _ => P result) ↔
    (8 + body.length ≤ host.scratch ∧ w.Grants 3) ∨ w.HeaderFails
  := by
  constructor
  · intro h
    by_contra hnot
    rw [not_or] at hnot
    apply h.not_ends
    apply hm
    · intro hfails
      exact absurd hfails hnot.2
    · intro hle hgrants
      exact absurd ⟨hle, hgrants⟩ hnot.1
    · intro _ _
      exact hnull
    · intro _ _
      exact ⟨hnull, hoverrun⟩
  · intro h
    apply hm
    · intro _ _
      exact hnone
    · intro _ _ buf _ hbuf
      apply hcreated buf hbuf
    · intro hno hnot
      rcases h with ⟨-, hgrants⟩ | hfails
      · exact absurd hgrants hnot
      · exact absurd hfails hno
    · intro hno hlt
      rcases h with ⟨hle, -⟩ | hfails
      · exact absurd hle (Nat.not_le_of_lt hlt)
      · exact absurd hfails hno

theorem ends_created {Q : ℤ ⊕ Option Buffer → Prop} :
  Program.Ends E (created m) w (fun result _ => Q result) ↔
    Program.Ends E m w (fun buf _ => Q (.inr buf))
  := Program.ends_bind

/-- A builder returns a message as it was asked for, or null, exactly if there is room for it
and the allocations succeed, or it passes on the null pointer that the failed allocation of
the block for the header left. -/
theorem Asks.ends_iff {builder : Builder} (h : Asks host builder type body k)
    (hsize : 8 + body.length < 2 ^ 16) (hnull : ¬ E .null) (hoverrun : ¬ E .overrun)
    {Q : ℤ ⊕ Option Buffer → Prop} (hnone : Q (.inr none))
    (hcreated : ∀ buf, Created host xid type body buf → Q (.inr (some buf))) :
  Program.Ends E (builder.create host xid) w (fun result _ => Q result) ↔
    (8 + body.length ≤ host.scratch ∧ w.Grants k) ∨ builder.PassesNull ∧ w.HeaderFails
  := by
  by_cases hpasses : builder.PassesNull
  · obtain ⟨rfl, m, hcreate, hm⟩ := h.makesOrNull xid hsize hpasses
    rw [hcreate, ends_created,
      hm.ends_iff (P := fun buf => Q (.inr buf)) hnull hoverrun hnone hcreated]
    simp only [hpasses, true_and]
  · obtain ⟨m, hcreate, hm⟩ := h.makes xid hsize hpasses
    rw [hcreate, ends_created,
      hm.ends_iff (P := fun buf => Q (.inr buf)) hnull hoverrun hcreated]
    simp only [hpasses, false_and, or_false]

/-- Where there is room for a header with its message, a builder stays in range unless an
allocation fails whose result it uses unchecked. -/
theorem Asks.inRange_iff {builder : Builder} (h : Asks host builder type body k)
    (hsize : 8 + body.length < 2 ^ 16) (hroom : 8 + body.length ≤ host.scratch) :
  StaysInRange (builder.create host xid) w ↔
    w.Grants k ∨ builder.PassesNull ∧ w.HeaderFails
  := by
  rw [StaysInRange, h.ends_iff (Q := fun _ => True) hsize (by rintro ⟨⟩) (by rintro ⟨⟩) trivial
    (fun _ _ => trivial)]
  simp only [hroom, true_and]

theorem terminates_copyOut {block : List UInt8} {p n : ℕ} :
  Terminates (copyOut block p n)
  := by
  rw [copyOut]
  split
  · exact terminates_pure
  · exact terminates_overrun

theorem terminates_fill {buf : Buffer} {p : ℕ} {bytes : List UInt8} :
  Terminates (fill buf p bytes)
  := by
  rw [fill]
  split
  · exact fun _ h => by cases h
  · split
    · exact terminates_pure
    · exact terminates_overrun

theorem terminates_storeFields {buf : Buffer} {p : ℕ} {fields : List (List UInt8)} :
  Terminates (storeFields buf p fields)
  := by
  induction fields generalizing buf p with
  | nil => exact terminates_pure
  | cons field fields ih => exact terminates_fill.bind (fun _ => ih)

theorem terminates_ccCreateHeader {length : UInt16} :
  Terminates (ccCreateHeader host xid type length)
  := by
  intro w
  apply ends_ccCreateHeader.mpr
  refine ⟨?_, fun _ => ⟨fun _ => trivial, fun _ => ⟨?_, fun _ => ⟨?_, fun _ => trivial⟩⟩⟩⟩
  · rintro _ ⟨⟩
  · rintro _ ⟨⟩
  · rintro _ ⟨⟩

/-- The serial number is shorter than what is copied from it: wherever the header fits, the
builder reads behind it. -/
theorem descStatsReply_overruns {flags : UInt16} {mfrDesc hwDesc swDesc serialNum dpDesc :
    List UInt8} (hserial : serialNum.length = 32) :
  ¬ StaysInRange (Builder.create host xid
    (.descStatsReply flags mfrDesc hwDesc swDesc serialNum dpDesc)) w
  := by
  intro h
  have hreply := h.of_bind
  rw [ccCreateDescStatsReply, statsReplyWith_eq] at hreply
  obtain ⟨buf, w₁, hbuf⟩ := hreply.rest terminates_ccCreateHeader
  cases buf with
  | none => cases hbuf
  | some buf =>
      obtain ⟨_, w₂, h₂⟩ := hbuf.of_bind.rest terminates_storeFields
      obtain ⟨_, w₃, h₃⟩ := h₂.rest terminates_copyOut
      obtain ⟨_, w₄, h₄⟩ := h₃.rest terminates_fill
      obtain ⟨_, w₅, h₅⟩ := h₄.rest terminates_copyOut
      obtain ⟨_, w₆, h₆⟩ := h₅.rest terminates_fill
      obtain ⟨_, w₇, h₇⟩ := h₆.rest terminates_copyOut
      obtain ⟨_, w₈, h₈⟩ := h₇.rest terminates_fill
      have hread := h₈.of_bind
      rw [copyOut, if_neg (by omega)] at hread
      cases hread

end

/-! ### Lengths -/

/-- The message has the body and nothing more behind its header, and both the length of the
buffer and the length in the header say so. -/
structure Complete (host : Host) (body : List UInt8) (buf : Buffer) : Prop where
  length : buf.length = 8 + body.length
  headerLength : (be16 (buf.memory host) 2).toNat = 8 + body.length
  data : ∃ header : List UInt8, header.length = 8 ∧ buf.data = some (header ++ body)

section

variable {host : Host} {xid : UInt32} {type : UInt8} {body : List UInt8} {buf : Buffer}
  {w : World}

theorem Created.complete (h : Created host xid type body buf) :
  Complete host body buf
  := by
  refine ⟨h.length, ?_, _, length_ofpHeader, h.data⟩
  have hlength : be16 (buf.memory host) 2 = UInt16.ofNat (8 + body.length) := by
    rw [Buffer.memory, h.data, Option.getD_some]
    exact be16_htons rfl rfl
  rw [hlength, UInt16.toNat_ofNat_of_lt' h.size]

/-- A length in a header has 16 bits. -/
theorem Complete.size (h : Complete host body buf) :
  8 + body.length < 2 ^ 16
  := by
  rw [← h.headerLength]
  apply UInt16.toNat_lt

/-- Whatever is done with a message, the result is not null. -/
theorem unchecked_some {message : Option Buffer} {rest : Buffer → Action Buffer} :
  Program.Ensures (unchecked message (fun buf => do
      let buf ← rest buf
      pure (some buf))) w
    (fun result _ => result ≠ none)
  := by
  cases message with
  | none => trivial
  | some message =>
      apply Program.ensures_bind_any
      rintro buf w' ⟨⟩

theorem createWith_some {length : UInt16} {rest : Buffer → Action Buffer} :
  Program.Ensures (createWith host xid type length rest) w (fun result _ => result ≠ none)
  := Program.ensures_bind_any (fun _ _ => unchecked_some)

theorem created_some {m : Action (Option Buffer)}
    (h : Program.Ensures m w (fun result _ => result ≠ none)) :
  Program.Ensures (created m) w (fun result _ => result ≠ .inr none)
  := by
  apply Program.ends_bind.mpr
  apply h.mono
  intro result w' hresult hinr
  exact hresult (Sum.inr.inj hinr)

/-- If nothing but null will do, it is because the block for the header is missing. -/
theorem header_null_iff {length : UInt16} {f : Option Buffer → Action (Option Buffer)}
    {P : Option Buffer → Prop} (hnone : f none = pure none)
    (hsome : ∀ (message : Buffer) (w : World),
      Program.Ensures (f (some message)) w (fun result _ => result ≠ none))
    (hnull : P none) (honly : ∀ result, P result → result = none) :
  Program.Reaches (ccCreateHeader host xid type length >>= f) w (fun result _ => P result) ↔
    w.HeaderFails
  := by
  rw [Program.Reaches, Program.ends_bind, ends_ccCreateHeader, hnone]
  constructor
  · rintro ⟨hfirst, hrest⟩
    cases h0 : w.mallocs 0 with
    | false => exact (hfirst h0).elim
    | true =>
        use h0
        cases h2 : w.mallocs 2 with
        | false => rfl
        | true =>
            obtain ⟨hover, hrest⟩ := (hrest h0).2 h2
            have hle := Nat.le_of_not_lt hover
            cases h1 : w.mallocs 1 with
            | false => exact ((hrest hle).1 h1).elim
            | true =>
                have hends := (hrest hle).2 h1
                obtain ⟨result, w', hrun, hresult⟩ := Program.reaches_iff.mp hends
                have hnot := Program.ensures_iff.mp (hsome _ _) result w' hrun
                exact absurd (honly result hresult) hnot
  · rintro ⟨h0, h2⟩
    rw [h0, h2]
    simpa using hnull

end

/-- A builder that does not pass a null pointer on does not return one. -/
theorem Builder.create_some {host : Host} {xid : UInt32} {builder : Builder} {w : World}
    (hpasses : ¬ builder.PassesNull) :
  Program.Ensures (builder.create host xid) w (fun result _ => result ≠ .inr none)
  := by
  have hstats : ∀ {m : Action (Option Buffer)} {rest : Buffer → Action Buffer},
      Program.Ensures (do
        let buf ← m
        unchecked buf fun buf => do
        let buf ← rest buf
        pure (some buf)) w (fun result _ => result ≠ none) :=
    Program.ensures_bind_any (fun _ _ => unchecked_some)
  cases builder with
  | hello | getConfigRequest | barrierRequest | barrierReply | echoRequest =>
      exact absurd trivial hpasses
  | echoReply data =>
      have hpos : dataLength data > 0 := UInt16.pos_iff_ne_zero.mpr hpasses
      apply created_some
      apply Program.ensures_bind_any
      rintro (_ | message) w'
      · simp only [if_pos hpos]
        trivial
      · apply Program.ensures_bind_any
        rintro buf w'' ⟨⟩
  | featuresRequest =>
      apply created_some
      apply Program.ensures_bind_any
      rintro (_ | message) w'
      · trivial
      · apply Program.ensures_bind_any
        rintro _ w'' ⟨⟩
  | setConfig flags missSendLen =>
      apply created_some
      apply Program.ensures_bind_any
      rintro (_ | message) w₁
      · trivial
      · apply Program.ensures_bind_any
        intro _ w₂
        apply Program.ensures_bind_any
        rintro _ w₃ ⟨⟩
  | packetOut bufferId inPort actions data =>
      apply Program.ends_ite.mpr
      constructor
      · rintro _ ⟨⟩
      · intro _
        apply Program.ensures_bind_any
        intro actionsLength w'
        exact created_some createWith_some
  | flowMod m cookie command idleTimeout hardTimeout priority bufferId outPort flags actions =>
      apply created_some
      exact Program.ensures_bind_any (fun _ _ => createWith_some)
  | featuresReply datapathId nBuffers nTables capabilities actions ports =>
      apply created_some
      exact Program.ensures_bind_any (fun _ _ => createWith_some)
  | portStatus reason desc =>
      apply created_some
      exact Program.ensures_bind_any (fun _ _ => createWith_some)
  | queueGetConfigReply port queues =>
      apply created_some
      apply Program.ensures_bind_any
      intro _ w'
      exact Program.ensures_bind_any (fun _ _ => createWith_some)
  | flowStatsReply flags flows =>
      apply created_some
      apply Program.ensures_bind_any
      intro _ w'
      apply Program.ensures_bind_any
      intro length w''
      exact Program.ensures_bind_any (fun _ _ => unchecked_some)
  | tableStatsReply | portStatsReply | queueStatsReply =>
      apply created_some
      apply Program.ensures_bind_any
      intro _ w'
      exact Program.ensures_bind_any (fun _ _ => unchecked_some)
  | flowStatsRequest | aggregateStatsRequest | portStatsRequest | queueStatsRequest
    | vendorStatsRequest | descStatsReply | aggregateStatsReply | vendorStatsReply =>
      exact created_some hstats
  | _ => exact created_some createWith_some

/-- A builder returns null, or the message with the whole body and the right lengths, exactly
if the message is not longer than 65535 bytes, the block for its header has room for it and
all allocations succeed, or it passes on the null pointer that the failed allocation of that
block left. -/
theorem builders_complete_iff (host : Host) (xid : UInt32) (builder : Builder) (type : UInt8)
    (body : List UInt8) (k : ℕ) (h : Asks host builder type body k) (w : World) :
  Program.Reaches (builder.create host xid) w (fun result _ =>
      result = .inr none ∨ ∃ buf, result = .inr (some buf) ∧ Complete host body buf) ↔
    (8 + body.length < 2 ^ 16 ∧ 8 + body.length ≤ host.scratch ∧ w.Grants k) ∨
      builder.PassesNull ∧ w.HeaderFails
  := by
  by_cases hsize : 8 + body.length < 2 ^ 16
  · rw [Program.Reaches, h.ends_iff (Q := fun result => result = .inr none ∨
        ∃ buf, result = .inr (some buf) ∧ Complete host body buf) hsize not_false not_false
      (.inl rfl) (fun buf hbuf => .inr ⟨buf, rfl, hbuf.complete⟩)]
    simp only [hsize, true_and]
  · -- the length has been cut, so that nothing but null will do
    have honly : ∀ result : ℤ ⊕ Option Buffer, (result = .inr none ∨
        ∃ buf, result = .inr (some buf) ∧ Complete host body buf) → result = .inr none := by
      rintro result (hnone | ⟨buf, -, hbuf⟩)
      · exact hnone
      · exact absurd hbuf.size hsize
    have hechoed : ∀ {type : UInt8} {length : UInt16}
        {f : Option Buffer → Action (Option Buffer)}, f none = pure none →
        (∀ (message : Buffer) (w : World),
          Program.Ensures (f (some message)) w (fun result _ => result ≠ none)) →
        (Program.Reaches (created (ccCreateHeader host xid type length >>= f)) w (fun result _ =>
          result = .inr none ∨ ∃ buf, result = .inr (some buf) ∧ Complete host body buf) ↔
            w.HeaderFails) := by
      intro type length f hnone hsome
      rw [Program.Reaches, ends_created]
      apply header_null_iff hnone hsome (.inl rfl)
      intro result hresult
      exact Sum.inr.inj (honly _ hresult)
    simp only [hsize, false_and, false_or]
    by_cases hpasses : builder.PassesNull
    · simp only [hpasses, true_and]
      cases h with
      | hello | getConfigRequest | barrierRequest | barrierReply =>
          exact absurd (show 8 + 0 < 2 ^ 16 by decide) hsize
      | echoRequest data =>
          apply hechoed
          · rfl
          · intro message w'
            apply Program.ensures_bind_any
            rintro _ w'' ⟨⟩
      | echoReply data =>
          apply hechoed
          · have hzero : dataLength (data.map Payload.buffer) = 0 := hpasses
            simp [hzero]
          · intro message w'
            apply Program.ensures_bind_any
            rintro _ w'' ⟨⟩
      | _ => exact hpasses.elim
    · simp only [hpasses, false_and, iff_false]
      intro hreaches
      obtain ⟨result, w', hrun, hresult⟩ := Program.reaches_iff.mp hreaches
      have hnot := Program.ensures_iff.mp (Builder.create_some hpasses) result w' hrun
      exact hnot (honly result hresult)

/-- A host on which a header may be as long as any message. -/
def Host.roomy : Host where
  __ := Host.plain true
  scratch := 65535

/-- An entry that begins with the port number `n`, as a little-endian host has it. -/
def portEntry (n : UInt8) (layout : Struct) (h : 2 ≤ layout.size) : Record UInt8 layout where
  bytes := [n, 0] ++ List.replicate (layout.size - 2) 0
  size := by
    rw [List.length_append, List.length_replicate]
    exact Nat.add_sub_of_le h

/-- A port without a name. -/
def plainPort (n : UInt8) : PhyPort where
  toRecord := portEntry n ofpPhyPort (by decide)
  named := show (0 : UInt8) ∈ List.replicate 40 0 by simp

/-- A buffer of three bytes. -/
def shortPayload : Payload where
  buffer := { addr := 0, data := some [1, 2, 3], length := 3 }
  exact := rfl

set_option maxRecDepth 4000 in
/-- An error with three bytes of the message that it is about, and a reply with two ports. -/
theorem builders_complete_parts :
  Program.Reaches (Builder.create Host.roomy 1 (.error 1 2 (some shortPayload.buffer)))
    World.start (fun result _ =>
      result = .inr none ∨ ∃ buf, result = .inr (some buf) ∧
        Complete Host.roomy [0, 1, 0, 2, 1, 2, 3] buf) ∧
  Program.Reaches (Builder.create Host.roomy 1 (.featuresReply 9 256 1 0 0
      ([plainPort 1, plainPort 2].map PhyPort.toRecord)))
    World.start (fun result _ =>
      result = .inr none ∨ ∃ buf, result = .inr (some buf) ∧
        Complete Host.roomy ([0, 0, 0, 0, 0, 0, 0, 9, 0, 0, 1, 0, 1, 0, 0, 0] ++
          List.replicate 8 0 ++
          ([0, 1] ++ List.replicate 46 0) ++ ([0, 2] ++ List.replicate 46 0)) buf)
  := by
  constructor
  · apply (builders_complete_iff Host.roomy 1 _ ofptError _ 3 (.error 1 2 (some shortPayload))
      World.start).mpr
    exact .inl ⟨by decide, by decide, fun _ _ => rfl⟩
  · apply (builders_complete_iff Host.roomy 1 _ ofptFeaturesReply _ 4
      (.featuresReply 9 256 1 0 0 [plainPort 1, plainPort 2]) World.start).mpr
    exact .inl ⟨by decide, by decide, fun _ _ => rfl⟩

/-- A buffer of 65536 bytes. -/
def longPayload : Payload where
  buffer := { addr := 0, data := some (List.replicate 65536 0), length := 65536 }
  exact := List.length_replicate

/-- The length of an echo request is cut to 16 bits, which leaves nothing of the body. -/
theorem echoRequest_cut :
  ¬ ∀ (host : Host) (xid : UInt32) (data : Option Payload) (w : World),
    8 + (payloadBytes data).length % 2 ^ 16 ≤ host.scratch → w.Grants 3 →
      Program.Reaches (Builder.create host xid (.echoRequest (data.map Payload.buffer))) w
        (fun result _ => result = .inr none ∨
          ∃ buf, result = .inr (some buf) ∧ Complete host (payloadBytes data) buf)
  := by
  intro h
  have hbytes : payloadBytes (some longPayload) = List.replicate 65536 0 := rfl
  have hlength : (payloadBytes (some longPayload)).length = 65536 := by
    rw [hbytes, List.length_replicate]
  have hreaches := h (Host.plain true) 1 (some longPayload) World.start
    (by rw [hlength]; decide) (fun _ _ => rfl)
  obtain hnone | ⟨buf, -, hbuf⟩ := hreaches
  · cases hnone
  · have hsize := hbuf.size
    rw [hlength] at hsize
    omega

end CcController
