import Mathlib
import RecordFile.Proofs.Agreement
import RecordFile.Proofs.WalkOutcome

/-! No operation of a handle is stopped for want of room in a word, whatever its file holds. A search does not
count past the record that it looks for, the chunk size of a file that was opened is not zero, and all else is
small enough. -/
namespace RecordFile

/-- A link that was read ends within a word. -/
theorem Header.stop_lt {bytes : List UInt8} {header : Header} {e : Extent} (read : decode bytes = .ok header)
    (next : header.next = some e) : e.stop < 2 ^ 64 := by
  obtain ⟨-, start, size⟩ := storable_blockPart (wellFormed_of_decode read) e next
  rw [Extent.stop]
  omega

theorem TableHeader.slotSize_le {table : TableHeader} {slotSize : Nat} (slots : table.slotSize = .ok slotSize) :
    slotSize ≤ 2 ^ 32 := by
  rw [TableHeader.slotSize] at slots
  split at slots
  · cases slots
  · cases slots
    exact table.recordSize.toNat_lt

namespace Checked

/-! ### What is reckoned apart from the store -/

section Reckoned

variable {α β : Type}

theorem run_ite_throw {fails : Prop} [Decidable fails] {fault : Fault} {rest : ExceptT Fault Option α} :
    ExceptT.run (do if fails then throw fault
                    rest) = if fails then some (.error fault) else rest.run := by
  split <;> rfl

theorem run_word {value : Option β} {held : β} (holds : value = some held) (next : β → ExceptT Fault Option α) :
    ExceptT.run ((liftM value : ExceptT Fault Option β) >>= next) = (next held).run := by
  rw [holds]
  rfl

variable {chunkSize : UInt32}

theorem extent_eq (positive : 0 < chunkSize.toNat) {offset size : UInt64}
    (aligned : offset.toNat % chunkSize.toNat = 0) (filled : size ≠ 0) :
    (extent offset size chunkSize).run = some (.ok { offset, size }) := by
  have chunked : chunkSize ≠ 0 := by
    rintro rfl
    exact absurd positive (Nat.lt_irrefl 0)
  rw [extent, run_ite_throw, if_neg chunked, run_word (Word.rem_eq positive), run_ite_throw,
    if_neg (not_not_intro aligned), run_ite_throw, if_neg filled]
  rfl

theorem check_eq (positive : 0 < chunkSize.toNat) (spec : BlockSpec) :
    (check spec chunkSize).run = some (spec.check chunkSize) := by
  have rest : spec.size.toNat % chunkSize.toNat ≠ 0 ↔ spec.size % chunkSize ≠ 0 := by
    rw [← UInt32.toNat_mod, not_iff_not, ← UInt32.toNat_inj]
    rfl
  rw [check, run_ite_throw, run_word (Word.rem_eq positive), run_ite_throw, run_ite_throw, BlockSpec.check]
  simp only [rest]
  by_cases empty : spec.size = 0
  · rw [if_pos empty, if_pos (.inl empty)]
  · rw [if_neg empty]
    by_cases uneven : spec.size % chunkSize ≠ 0
    · rw [if_pos uneven, if_pos (.inr uneven)]
    · rw [if_neg uneven, if_neg (not_or.mpr ⟨empty, uneven⟩)]
      split
      · rfl
      · split <;> rfl

theorem grown_fits (positive : 0 < chunkSize.toNat) {records slotSize : Nat} (few : records < 2 ^ 32)
    (small : slotSize ≤ 2 ^ 32) : roundUp (32 + records * slotSize) chunkSize.toNat < 2 ^ 64 := by
  have most : records * slotSize ≤ (2 ^ 32 - 1) * 2 ^ 32 := Nat.mul_le_mul (by omega) small
  exact Word.roundUp_fits positive chunkSize.toNat_lt (by omega)

theorem growthSize_eq (positive : 0 < chunkSize.toNat) {records slotSize : Nat} (few : records < 2 ^ 32)
    (small : slotSize ≤ 2 ^ 32) :
    (growthSize records slotSize chunkSize).run = some (RecordFile.growthSize records slotSize chunkSize) := by
  have most : records * slotSize ≤ (2 ^ 32 - 1) * 2 ^ 32 := Nat.mul_le_mul (by omega) small
  have header : blockHeaderSize.toNat = 32 := rfl
  have rounded := grown_fits positive few small
  rw [growthSize, Word.mul_eq (by omega), Option.bind_some, Word.add_eq (by omega), header, Nat.add_comm]
  simp only
  rw [run_word (Word.roundUp_eq positive rounded), run_ite_throw, RecordFile.growthSize, header]
  split <;> rfl

theorem slotSize_eq (t : TableHeader) : (slotSize t).run = some t.slotSize := by
  have small := t.recordSize.toNat_lt
  rw [slotSize, run_ite_throw, TableHeader.slotSize, Word.add_eq (by rw [presenceSize]; omega)]
  split <;> rfl

theorem nextRecord_eq (t : TableHeader) : (nextRecord t).run = some t.nextRecord := by
  have small := t.lastRecord.toNat_lt
  rw [nextRecord, run_word (Word.add_eq (by omega)), run_ite_throw, TableHeader.nextRecord]
  split
  case isTrue => rfl
  case isFalse =>
    rw [UInt32.ofNat_add, UInt32.ofNat_toNat]
    rfl

variable {slotSize target o : Nat} {header : Header} {seen : Search}

/-- The search has counted on from one, and not past its target. -/
def Before (target : Nat) (seen : Search) : Prop := ∀ start, seen = .searching start → 1 ≤ start ∧ start ≤ target

theorem step_eq (positive : 0 < slotSize) (small : target < 2 ^ 32) {bytes : List UInt8}
    (read : Header.decode bytes = .ok header) (reached : o ≤ maxOffset) (before : Before target seen) :
    step slotSize target header o seen = some (seen.step slotSize target header o) := by
  cases seen with
  | found => rfl
  | misnumbered => rfl
  | searching start =>
    obtain ⟨-, low⟩ := before start rfl
    have far : o < 2 ^ 63 := Nat.lt_succ_of_le reached
    have short : header.blockPart.headerSize.toNat ≤ 48 := (Header.size_le_of_decode read).2.1
    have payload : header.blockPart.payload < 2 ^ 32 :=
      Nat.lt_of_le_of_lt (Nat.sub_le _ _) header.blockPart.blockSize.toNat_lt
    simp only [step, Search.step, guard, if_pos low, pure_bind, Word.div_eq positive, Word.sub_eq low,
      Option.bind_eq_bind, Option.bind_some]
    by_cases wrong : header.blockPart.firstRecord ≠ 0 ∧ header.blockPart.firstRecord.toNat ≠ start
    · rw [if_pos wrong, if_pos wrong]
      rfl
    rw [if_neg wrong, if_neg wrong]
    by_cases here : target - start < header.blockPart.slots slotSize
    · have within : (target - start + 1) * slotSize ≤ header.blockPart.payload :=
        (Nat.le_div_iff_mul_le positive).mp here
      rw [Nat.add_mul] at within
      rw [if_pos here]
      refine (if_pos here).trans ?_
      rw [Word.add_eq (by omega), Word.mul_eq (by omega)]
      simp only [Option.bind_some]
      rw [Word.add_eq (by omega)]
      rfl
    · rw [if_neg here]
      refine (if_neg here).trans ?_
      have most : start + header.blockPart.slots slotSize ≤ target := by omega
      have counted : Word.add start (header.blockPart.payload / slotSize) =
          some (start + header.blockPart.slots slotSize) := Word.add_eq (Nat.lt_of_le_of_lt most (by omega))
      rw [counted]
      rfl

theorem before_step (before : Before target seen) {seen' : Search}
    (onward : seen.step slotSize target header o = .yield seen' ∨ seen.step slotSize target header o = .done seen') :
    Before target seen' := by
  rintro start' rfl
  cases seen with
  | found => rcases onward with onward | onward <;> cases onward
  | misnumbered => rcases onward with onward | onward <;> cases onward
  | searching start =>
    have low := before start rfl
    rw [Search.step] at onward
    split at onward
    · rcases onward with onward | onward <;> cases onward
    · split at onward
      · rcases onward with onward | onward <;> cases onward
      · rcases onward with onward | onward <;> cases onward
        omega

end Reckoned

/-! ### Operations -/

section Operations

variable {α β : Type} {h : Handle} {header : FileHeader}

theorem stop_eq {e : Extent} (fits : e.stop < 2 ^ 64) : stop e = some e.stop := Word.add_eq fits

theorem agrees_chunkSize :
    Agrees h.descriptor header (perform h.chunkSize) h.chunkSize (· = header.chunkSize) := by
  refine .perform h.keeps_chunkSize fun s value has ran => ?_
  obtain ⟨f, opened, rfl⟩ := Option.map_eq_some_iff.mp has
  rw [Handle.chunkSize, Action.exec_bind_ok (Handle.exec_file_opened opened)] at ran
  cases ran
  rfl

/-- What a visitor works out without the store. -/
theorem agrees_settled {value : Option β} {held : β} {Q : β → Prop} (holds : value = some held) (gives : Q held) :
    Agrees h.descriptor header (unfailing (OptionT.mk (pure value))) (unfailing (pure held)) Q := by
  subst holds
  intro s has
  refine ⟨rfl, has, ?_⟩
  rintro _ ⟨⟩
  exact gives

theorem agrees_lifted {effect : StateM Store β} {Q : β → Prop}
    (keeps : Action.Keeps (Store.fileHeader h.descriptor) (unfailing effect)) (gives : ∀ value, Q value) :
    Agrees h.descriptor header (unfailing (OptionT.lift effect)) (unfailing effect) Q :=
  fun s has => ⟨rfl, (keeps s).trans has, fun value _ => gives value⟩

variable (positive : 0 < header.chunkSize.toNat)
include positive

theorem agrees_isAligned (o : Nat) : Agrees h.descriptor header (isAligned h o) (h.isAligned o)
    fun aligned => aligned = (o % header.chunkSize.toNat == 0) := by
  refine .bind agrees_chunkSize fun chunkSize same => ?_
  subst same
  exact .word (Word.rem_eq positive) (.pure rfl)

theorem agrees_requireAligned (o : Nat) : Agrees h.descriptor header (requireAligned h o) (h.requireAligned o)
    fun _ => o % header.chunkSize.toNat = 0 := by
  refine .bind (agrees_isAligned positive o) fun aligned same => ?_
  cases aligned with
  | true => exact .pure (beq_iff_eq.mp same.symm)
  | false => exact .bind agrees_chunkSize fun _ _ => .throw _

theorem agrees_extend (bytes : Nat) : Agrees h.descriptor header (extend h bytes) (h.extend bytes)
    fun stop => stop % header.chunkSize.toNat = 0 ∧ stop ≤ maxOffset := by
  have blind := Store.blind_fileHeader h.descriptor
  by_cases empty : bytes = 0
  · simp only [extend, Handle.extend, if_pos empty]
    exact .failing _
  · simp only [extend, Handle.extend, if_neg empty]
    refine .bind (.perform ((h.keeping blind).seekEnd) fun _ _ _ ran => Handle.seekEnd_le ran) fun stop small =>
      .bind (agrees_requireAligned positive stop) fun _ aligned =>
        .word (Word.sub_eq (Nat.pos_of_ne_zero empty)) ?_
    by_cases fits : stop + (bytes - 1) < 0x10000000000000000
    · rw [Word.add_eq fits, if_neg (Nat.not_le.mpr fits)]
      exact .bind (.performs (h.keeps_writeAt blind _ _)) fun _ _ =>
        .bind (.performs (h.keeps_seek blind stop)) fun _ _ => .pure ⟨aligned, small⟩
    · have past : Word.add stop (bytes - 1) = none := if_neg fits
      rw [past, if_pos (Nat.le_of_not_lt fits)]
      exact .throw _

theorem agrees_append (spec : BlockSpec) :
    Agrees h.descriptor header (append h spec) (h.append spec) fun _ => True := by
  refine .bind agrees_chunkSize fun chunkSize same => ?_
  subst same
  refine .bind (.given (check_eq positive spec) fun _ checked => checked) fun _ checked => .keepingPosition h ?_
  refine .bind (agrees_extend positive _) fun stop known =>
    .bind (.performs (h.keeps_writeAt (Store.blind_fileHeader h.descriptor) _ _)) fun _ _ => ?_
  obtain ⟨aligned, small⟩ := known
  have filled : spec.size.toUInt64 ≠ 0 := by
    intro zero
    have none := congrArg UInt64.toNat zero
    rw [UInt32.toNat_toUInt64] at none
    exact (BlockSpec.check_ok checked).1 none
  have start : (UInt64.ofNat stop).toNat = stop := toNat_offset small
  exact .given (extent_eq positive (by rw [start]; exact aligned) filled) fun _ _ => trivial

theorem agrees_appendAfter (tail : Nat) (spec : BlockSpec) :
    Agrees h.descriptor header (appendAfter h tail spec) (h.appendAfter tail spec) fun _ => True := by
  have blind := Store.blind_fileHeader h.descriptor
  have rest : Agrees h.descriptor header (do
      let block ← append h spec
      perform (h.link tail block)
      return block) (do
      let block ← h.append spec
      h.link tail block
      return block) fun _ => True :=
    .bind (agrees_append positive spec) fun block _ =>
      .bind (.performs ((h.keeping blind).link tail block)) fun _ _ => .pure trivial
  refine .bind (.performs ((h.keeping blind).readHeader tail)) fun last _ => ?_
  cases last.next with
  | none => exact rest
  | some existing => exact .failing _

theorem agrees_checkLink (parent : Nat) {next : Extent} (fits : next.stop < 2 ^ 64) (length : Nat) :
    Agrees h.descriptor header (checkLink h parent next length) (h.checkLink parent next length)
      fun _ => True := by
  have rest : Agrees h.descriptor header (do
      if length < (← word (stop next)) then throw (.corruptChain (.linkPastEnd parent next length))) (do
      if length < next.stop then throw (.corruptChain (.linkPastEnd parent next length))) fun _ => True := by
    refine .word (stop_eq fits) ?_
    split
    · exact .throw _
    · exact .pure trivial
  refine .bind (agrees_isAligned positive next.start) fun aligned _ => ?_
  cases aligned with
  | true => exact rest
  | false => exact .failing _

section Walks

variable {P : α → Prop} {visit : Header → Nat → α → OptionT (StateM Store) (ForInStep α)}
  {visit' : Header → Nat → α → StateM Store (ForInStep α)}
  (visits : ∀ block o seen, (∃ bytes, Header.decode bytes = .ok block) → o ≤ maxOffset → P seen →
    Agrees h.descriptor header (unfailing (visit block o seen)) (unfailing (visit' block o seen))
      fun step => ∀ seen', step = .yield seen' ∨ step = .done seen' → P seen')
include visits

/-- A walk whose visitors are not stopped is not stopped either; it takes fewer steps than a word counts. -/
theorem agrees_walkFrom (start fuel steps length o : Nat) {seen : α} (fuelled : steps + fuel ≤ maxOffset + 1)
    (holds : P seen) :
    Agrees h.descriptor header (walkFrom h start visit fuel steps length o seen)
      (h.walkFrom start visit' fuel steps length o seen) fun found => P found.2 := by
  have blind := Store.blind_fileHeader h.descriptor
  induction fuel generalizing steps length o seen with
  | zero => exact .throw _
  | succ fuel ih =>
    have reads := (h.keeping blind).readHeader o
    refine .bind (.perform reads fun _ _ _ ran => Handle.readHeader_ok ran) fun block known =>
      .bind (visits block o seen known.2 known.1 holds) fun step after => ?_
    obtain ⟨-, bytes, read⟩ := known
    cases step with
    | done seen' => exact .pure (after seen' (.inr rfl))
    | yield seen' =>
      have holds' := after seen' (.inl rfl)
      cases next : block.next with
      | none => exact .pure holds'
      | some e =>
        have fits := Header.stop_lt read next
        have onward (length : Nat) : Agrees h.descriptor header (do
            checkLink h o e length
            let steps ← word (Word.add steps 1)
            let chunkSize ← perform h.chunkSize
            let most ← word (Word.div length chunkSize.toNat)
            if most < steps then
              throw (.corruptChain (.endless start))
            walkFrom h start visit fuel steps length e.start seen') (do
            perform (h.checkLink o e length)
            let chunkSize ← perform h.chunkSize
            if length / chunkSize.toNat < steps + 1 then
              throw (.corruptChain (.endless start))
            h.walkFrom start visit' fuel (steps + 1) length e.start seen') fun found => P found.2 := by
          refine .bind (agrees_checkLink positive o fits length) fun _ _ => ?_
          have few : steps + 1 < 2 ^ 64 := by
            rw [maxOffset] at fuelled
            omega
          refine .word (Word.add_eq few) (.bind agrees_chunkSize fun chunkSize same => ?_)
          subst same
          refine .word (Word.div_eq positive) ?_
          have rest := ih (steps + 1) length e.start (by omega) holds'
          split
          · exact .failing _
          · exact rest
        refine .word (stop_eq fits) ?_
        simp only
        split
        · exact .bind (.performs h.keeps_length) fun length _ => onward length
        · exact .bind (Q := fun _ => True) (.pure trivial) fun length _ => onward length

theorem agrees_walk (start : Nat) {seen : α} (holds : P seen) :
    Agrees h.descriptor header (walk h start seen visit) (h.walk start seen visit') fun found => P found.2 :=
  .bind (.performs h.keeps_length) fun length _ =>
    agrees_walkFrom positive visits start (maxOffset + 1) 0 length start (Nat.le_of_eq (Nat.zero_add _)) holds

end Walks

theorem agrees_search {slotSize target start : Nat} (some : 0 < slotSize) (small : target < 2 ^ 32) (cursor : Nat)
    (low : 1 ≤ start ∧ start ≤ target) :
    Agrees h.descriptor header (search h cursor slotSize target start) (h.search cursor slotSize target start)
      fun place => ∀ tail start', place = .beyond tail start' → 1 ≤ start' ∧ start' ≤ target := by
  have before : Before target (.searching start) := by
    rintro _ ⟨⟩
    exact low
  refine .bind (agrees_walk (P := Before target) positive (fun block o seen read reached before => ?_) cursor before)
    fun found before => ?_
  · obtain ⟨bytes, read⟩ := read
    exact agrees_settled (step_eq some small read reached before) fun seen' => before_step before
  · obtain ⟨ending, result⟩ := found
    cases result with
    | found offset => exact .pure nofun
    | misnumbered offset stored expected => exact .throw _
    | searching start' =>
      refine .pure ?_
      rintro _ _ ⟨⟩
      exact before start' rfl

theorem agrees_locate (chain : Nat) (table : TableHeader) (record : UInt32) :
    Agrees h.descriptor header (locate h chain table record) (h.locate chain table record) fun _ => True := by
  refine .bind (.given (slotSize_eq table) fun _ slots => slots) fun slotSize slots => ?_
  have filled := TableHeader.slotSize_pos slots
  by_cases zero : record = 0
  · simp only [if_pos zero]
    exact .failing _
  simp only [if_neg zero]
  have small := record.toNat_lt
  refine .bind (agrees_search positive filled small chain ⟨Nat.le_refl 1, one_le_record zero⟩) fun place low => ?_
  cases place with
  | slot offset => exact .pure trivial
  | beyond tail start =>
    have low := low tail start rfl
    refine .word (Word.sub_eq low.2) (.word (Word.add_eq (by omega)) (.bind agrees_chunkSize fun chunkSize same => ?_))
    subst same
    have few : record.toNat - start + 1 < 2 ^ 32 := by omega
    refine .bind (.given (growthSize_eq positive few (TableHeader.slotSize_le slots)) fun _ _ => trivial)
      fun size _ => .bind (.growing h (agrees_appendAfter positive tail _)) fun block _ =>
        .bind (agrees_search positive filled small block.start low) fun place _ => ?_
    cases place with
    | slot offset => exact .pure trivial
    | beyond tail start => exact .throw _

theorem agrees_reserveWith (head : Nat) {body : TableHeader → Slot → Checked (Outcome α × TableHeader)}
    {body' : TableHeader → Slot → Action (Outcome α × TableHeader)}
    (agrees : ∀ table slot, Agrees h.descriptor header (body table slot) (body' table slot) fun _ => True) :
    Agrees h.descriptor header (reserveWith h head body) (h.reserveWith (m := StateM Store) head body')
      fun _ => True := by
  refine .editing h fun bytes => ?_
  refine .bind (.performs (.orFault _ _)) fun table _ =>
    .bind (.given (nextRecord_eq table) fun _ _ => trivial) fun record _ =>
      .bind (agrees_locate positive head table record) fun offset _ =>
        .bind (.performs ((h.keeping (Store.blind_fileHeader h.descriptor)).readTable head)) fun fresh _ =>
          .bind (agrees fresh { record, offset }) fun ended _ => .pure trivial

theorem agrees_reserve (head : Nat) :
    Agrees h.descriptor header (reserve h head) (h.reserve head) fun _ => True :=
  agrees_reserveWith positive head fun _ _ => .pure trivial

theorem agrees_addTable (recordSize : UInt32) :
    Agrees h.descriptor header (addTable h recordSize) (h.addTable recordSize) fun _ => True := by
  have small := recordSize.toNat_lt
  by_cases zero : recordSize = 0
  · simp only [addTable, Handle.addTable, if_pos zero]
    exact .failing _
  · simp only [addTable, Handle.addTable, if_neg zero]
    have presence : presenceSize = 1 := rfl
    have head : tableHeaderSize.toNat = 40 := rfl
    have rounded : roundUp (tableHeaderSize.toNat + (recordSize.toNat + presenceSize)) header.chunkSize.toNat <
        2 ^ 64 := Word.roundUp_fits positive header.chunkSize.toNat_lt (by omega)
    refine .word (Word.add_eq (by omega)) (.word (Word.add_eq (by omega)) ?_)
    refine .bind agrees_chunkSize fun chunkSize same => ?_
    subst same
    refine .word (Word.roundUp_eq positive rounded) ?_
    split
    · exact .failing _
    · exact .growing h (agrees_append positive _)

omit positive in
/-- What a handle that opened its file does is never stopped, whatever the file holds by now. -/
theorem exact_opened {s : Store} {f : OpenFile} {c : Content} (opened : h.Opened s f c) :
    (∀ {α : Type} (start : Nat) (seen : α) (visit : Header → Nat → α → StateM Store (ForInStep α)),
      (∀ block o seen, Action.Keeps (Store.fileHeader h.descriptor) (unfailing (visit block o seen))) →
      Exact (walk h start seen fun block o seen => OptionT.lift (visit block o seen))
        (h.walk start seen visit) s) ∧
    (∀ parent bytes block next length, Header.decode bytes = .ok block → block.next = some next →
      Exact (checkLink h parent next length) (h.checkLink parent next length) s) ∧
    (∀ chain table record, Exact (locate h chain table record) (h.locate chain table record) s) ∧
    (∀ recordSize, Exact (addTable h recordSize) (h.addTable recordSize) s) ∧
    (∀ head, Exact (reserve h head) (h.reserve head) s) ∧
    (∀ spec, Exact (append h spec) (h.append spec) s) ∧
    (∀ tail spec, Exact (appendAfter h tail spec) (h.appendAfter tail spec) s) ∧
    (∀ bytes, Exact (extend h bytes) (h.extend bytes) s) ∧
    (∀ bytes block next, Header.decode bytes = .ok block → block.next = some next → next.stop < 2 ^ 64) ∧
    (∀ record recordSize chunkSize : UInt32, chunkSize ≠ 0 →
      (growthSize record.toNat (recordSize.toNat + 1) chunkSize).run =
          some (RecordFile.growthSize record.toNat (recordSize.toNat + 1) chunkSize) ∧
        roundUp (32 + record.toNat * (recordSize.toNat + 1)) chunkSize.toNat < 2 ^ 64) := by
  have positive := opened.chunk_pos
  have has : s.fileHeader h.descriptor = some f.header := by
    rw [Store.fileHeader, opened.opened, Option.map_some]
  refine ⟨fun start seen visit keeps => ?_, fun parent bytes block next length read linked => ?_,
    fun chain table record => (agrees_locate positive chain table record s has).1,
    fun recordSize => (agrees_addTable positive recordSize s has).1,
    fun head => (agrees_reserve positive head s has).1, fun spec => (agrees_append positive spec s has).1,
    fun tail spec => (agrees_appendAfter positive tail spec s has).1,
    fun bytes => (agrees_extend positive bytes s has).1, fun bytes block next => Header.stop_lt, ?_⟩
  · exact (agrees_walk (P := fun _ => True) positive
      (fun block o seen _ _ _ => agrees_lifted (keeps block o seen) fun _ _ _ => trivial) start trivial s has).1
  · exact (agrees_checkLink positive parent (Header.stop_lt read linked) length s has).1
  · intro record recordSize chunkSize chunked
    have some : 0 < chunkSize.toNat := Nat.pos_of_ne_zero fun zero => chunked (UInt32.toNat_inj.mp zero)
    exact ⟨growthSize_eq some record.toNat_lt recordSize.toNat_lt, grown_fits some record.toNat_lt recordSize.toNat_lt⟩

omit positive in
/-- On blocks that link to each other the ninth record is found, and a number past all of them is not; neither
search is stopped. -/
theorem exact_opened_knotted : ∃ s f, (⟨0⟩ : Handle).Opened s f Handle.knotted ∧
    ((locate ⟨0⟩ 0 Handle.knottedHead.table 9).exec s).1 = some (.ok 166) ∧
    ((locate ⟨0⟩ 0 Handle.knottedHead.table 4294967295).exec s).1 =
      some (.error (.corruptChain (.endless 0))) := by
  have read : FileHeader.ofContent Handle.knotted = .ok Handle.knottedHead := by decide +kernel
  have found : (((⟨0⟩ : Handle).locate 0 Handle.knottedHead.table 9).exec
      (Handle.alone Handle.knotted Handle.knottedHead)).1 = .ok 166 := by decide +kernel
  have missed : (((⟨0⟩ : Handle).locate 0 Handle.knottedHead.table 4294967295).exec
      (Handle.alone Handle.knotted Handle.knottedHead)).1 = .error (.corruptChain (.endless 0)) := by decide +kernel
  obtain ⟨f, opened, -, -⟩ := Handle.opened_alone read
  obtain ⟨-, -, located, -⟩ := exact_opened opened
  refine ⟨_, f, opened, ?_, ?_⟩
  · rw [located 0 Handle.knottedHead.table 9, found]
  · rw [located 0 Handle.knottedHead.table 4294967295, missed]

end Operations

end Checked
end RecordFile
