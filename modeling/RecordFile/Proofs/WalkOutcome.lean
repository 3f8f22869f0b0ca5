import Mathlib
import RecordFile.Proofs.Trails
import RecordFile.Proofs.Working

/-! Walks on files that may hold anything. A walk comes by the blocks of the trail from its start, and what
becomes of it is read off there. -/
namespace RecordFile

/-- A walk that is let on comes to a tail just where a chain ends. -/
theorem Content.Trail.reached_iff {c : Content} {chunk start : Nat} {blocks : List (Nat × Header)}
    {ending : Except Fault Nat} (trail : c.Trail chunk start blocks ending) {reached : Ending} {value : Unit} :
    (ending.map fun tail => (Ending.tail tail, ())) = .ok (reached, value) ↔
      ∃ front tail header, reached = .tail tail ∧ c.Ends chunk start front tail header := by
  cases ending with
  | error fault =>
    refine ⟨nofun, ?_⟩
    rintro ⟨front, tail, header, -, ends⟩
    cases (trail.of_ends ends).1
  | ok tail =>
    constructor
    · rintro ⟨⟩
      obtain ⟨front, header, ends⟩ := trail.ok_iff.mp rfl
      exact ⟨front, tail, header, rfl, ends⟩
    · rintro ⟨front, tail', header, rfl, ends⟩
      cases (trail.of_ends ends).1
      rfl

section Following

variable {α ρ : Type} {c : Content} {chunk o tail : Nat} {header : Header} {front : List (Nat × Header)}

/-- What a visitor comes to over the blocks of a trail, and what it has in mind then. -/
def follow (visit : Header → Nat → α → ρ → ForInStep α × ρ) (ending : Except Fault Nat) :
    List (Nat × Header) → α → ρ → Except Fault (Ending × α) × ρ
  | [], seen, x => (ending.map fun tail => (.tail tail, seen), x)
  | (o, header) :: rest, seen, x =>
    match visit header o seen x with
    | (.done seen, x) => (.ok (.stopped o, seen), x)
    | (.yield seen, x) => follow visit ending rest seen x

/-- A visitor that looks at headers, and at what it has in mind, and at nothing else. -/
def minding (visit : Header → Nat → α → ρ → ForInStep α × ρ) (header : Header) (o : Nat) (seen : α) :
    StateT ρ (StateM Store) (ForInStep α) :=
  fun x => pure (visit header o seen x)

theorem follow_noting (note : Header → Nat → ρ → ρ) (ending : Except Fault Nat)
    (blocks : List (Nat × Header)) (x : ρ) :
    follow (fun header o (_ : Unit) x => (.yield (), note header o x)) ending blocks () x =
      (ending.map fun tail => (.tail tail, ()), blocks.foldl (fun x b => note b.2 b.1 x) x) := by
  induction blocks generalizing x with
  | nil => rfl
  | cons b rest ih => exact ih _

/-- The visitor that looks for the last block. -/
def seekLast (header : Header) (o : Nat) (_ : Option (Header × Nat)) (x : Unit) :
    ForInStep (Option (Header × Nat)) × Unit :=
  (if header.blockPart.isTail then .done (some (header, o)) else .yield none, x)

theorem follow_seekLast (leads : c.Leads chunk o front tail) (ending : Except Fault Nat)
    (blocks : List (Nat × Header)) :
    follow seekLast ending (front ++ blocks) none () = follow seekLast ending blocks none () := by
  induction leads with
  | here => rfl
  | @onward o p header e rest link _ ih =>
    have linked : header.blockPart.isTail = false := by
      have next : header.blockPart.next = some e := link.next
      rw [BlockHeader.isTail, next]
      rfl
    have passed : seekLast header o none () = (.yield none, ()) := by
      rw [seekLast, linked]
      rfl
    rw [List.cons_append, follow, passed]
    exact ih

theorem follow_seekLast_tail (last : header.next = none) (ending : Except Fault Nat) :
    follow seekLast ending [(tail, header)] none () = (.ok (.stopped tail, some (header, tail)), ()) := by
  have unlinked : header.blockPart.isTail = true := by
    have next : header.blockPart.next = none := last
    rw [BlockHeader.isTail, next]
    rfl
  have found : seekLast header tail none () = (.done (some (header, tail)), ()) := by
    rw [seekLast, unlinked]
    rfl
  rw [follow, found]

theorem follow_seekLast_error (fault : Fault) (blocks : List (Nat × Header)) :
    (follow seekLast (.error fault) blocks none ()).1 = .error fault ∨
      ∃ ending found, (follow seekLast (.error fault) blocks none ()).1 = .ok (ending, some found) := by
  induction blocks with
  | nil => exact .inl rfl
  | cons b rest ih =>
    rw [follow, seekLast]
    by_cases last : b.2.blockPart.isTail = true
    · rw [if_pos last]
      exact .inr ⟨_, _, rfl⟩
    · rw [if_neg last]
      exact ih

/-- Along a chain that ends, the last block is found. -/
theorem follow_seekLast_ends (ends : c.Ends chunk o front tail header) (ending : Except Fault Nat) :
    (follow seekLast ending (front ++ [(tail, header)]) none ()).1 =
      .ok (.stopped tail, some (header, tail)) := by
  rw [follow_seekLast ends.leads, follow_seekLast_tail ends.last]

/-- What is made of where the search for the last block has stopped. -/
def lastFound (start : Nat) (found : Ending × Option (Header × Nat)) : Except Fault (Header × Nat) :=
  match found.2 with
  | some last => .ok last
  | none => .error (.corruptChain (.noTail start))

/-- A trail either comes to a last block or has a fault of its own. -/
theorem lastFound_ne_noTail {ending : Except Fault Nat} {blocks : List (Nat × Header)}
    (trail : c.Trail chunk o blocks ending) :
    (follow seekLast ending blocks none ()).1 >>= lastFound o ≠ .error (.corruptChain (.noTail o)) := by
  cases ending with
  | ok tail =>
    obtain ⟨front, header, ends⟩ := trail.ok_iff.mp rfl
    obtain ⟨-, rfl⟩ := trail.of_ends ends
    rw [follow_seekLast_ends ends]
    exact nofun
  | error fault =>
    have named := trail.fault_ne_noTail
    rcases follow_seekLast_error fault blocks with failed | ⟨stop, found, given⟩
    · rw [failed]
      rintro ⟨⟩
      exact named rfl
    · rw [given]
      exact nofun

end Following

namespace Handle

variable {h : Handle} {s : Store} {f : OpenFile} {c : Content} {chunkSize : UInt32} {α ρ : Type}

theorem scans_checkLink (parent : Nat) (next : Extent) (length : Nat) :
    h.Scans c chunkSize (h.checkLink parent next length) (next.permit chunkSize.toNat parent length) := by
  intro s f sees chunk
  refine ⟨s, ?_, sees.scanned⟩
  rw [checkLink, Action.exec_bind_ok (exec_isAligned sees next.start), chunk, Extent.permit]
  cases next.start % chunkSize.toNat == 0 with
  | false => rfl
  | true =>
    by_cases past : length < next.stop
    · simp only [if_pos past]
      rfl
    · simp only [if_neg past]
      rfl

/-- The length that a walk has in mind is the length of the file, which it may look up again. -/
theorem exec_lookedUp_again {β : Type} (sees : h.Sees s f c) (stop : Nat) (rest : Nat → Work ρ β) (x : ρ) :
    Work.exec (if c.size < stop then perform h.length >>= rest else pure c.size >>= rest) x s =
      Work.exec (rest c.size) x s := by
  split
  · exact Work.exec_bind_ok (Work.exec_perform_of (exec_length sees) x) rest
  · rfl

theorem exec_walkFrom_trail (visit : Header → Nat → α → ρ → ForInStep α × ρ) (sees : h.Sees s f c)
    (chunk : f.header.chunkSize = chunkSize) (start fuel steps o : Nat) (seen : α) (x : ρ) :
    ∃ s', Work.exec (h.walkFrom start (minding visit) fuel steps c.size o seen) x s =
        (follow visit (c.trail chunkSize.toNat start fuel steps o).2
          (c.trail chunkSize.toNat start fuel steps o).1 seen x, s') ∧ h.Scanned s f c s' := by
  induction fuel generalizing s f steps o seen x with
  | zero => exact ⟨s, rfl, sees.scanned⟩
  | succ fuel ih =>
    obtain ⟨s₁, ran₁, p₁, e₁, left₁⟩ := scans_readHeader (c := c) o sees chunk
    rw [walkFrom, Content.trail]
    cases read : c.headerAt o with
    | error fault =>
      rw [read] at ran₁
      exact ⟨s₁, Work.exec_bind_error (Work.exec_perform_of ran₁ x) _, p₁, e₁, left₁⟩
    | ok header =>
      rw [read] at ran₁
      rw [Work.exec_bind_ok (Work.exec_perform_of ran₁ x)]
      have visited : Work.exec (unfailing (minding visit header o seen)) x s₁ =
          ((.ok (visit header o seen x).1, (visit header o seen x).2), s₁) := Work.exec_unfailing rfl
      rw [Work.exec_bind_ok visited]
      rcases step : visit header o seen x with ⟨seen' | seen', x'⟩
      · refine ⟨s₁, ?_, p₁, e₁, left₁⟩
        simp only [follow, step]
        rfl
      simp only [follow, step]
      cases next : header.next with
      | none => exact ⟨s₁, rfl, p₁, e₁, left₁⟩
      | some e =>
        simp only
        rw [exec_lookedUp_again left₁.sees]
        obtain ⟨s₂, ran₂, p₂, e₂, left₂⟩ := scans_checkLink o e c.size left₁.sees chunk
        have left := left₁.trans_quiet left₂ rfl
        cases permitted : e.permit chunkSize.toNat o c.size with
        | error fault =>
          rw [permitted] at ran₂
          exact ⟨s₂, Work.exec_bind_error (Work.exec_perform_of ran₂ x') _, p₂, e₂, left⟩
        | ok =>
          rw [permitted] at ran₂
          have chunked := exec_chunkSize left₂.sees
          rw [Work.exec_bind_ok (Work.exec_perform_of ran₂ x'),
            Work.exec_bind_ok (Work.exec_perform_of chunked x'), chunk]
          simp only
          by_cases full : c.size / chunkSize.toNat < steps + 1
          · rw [if_pos full, if_pos full]
            exact ⟨s₂, rfl, p₂, e₂, left⟩
          · rw [if_neg full, if_neg full]
            obtain ⟨s₃, ran₃, scanned⟩ := ih left₂.sees chunk (steps + 1) e.start seen' x'
            exact ⟨s₃, ran₃, Scanned.trans left scanned⟩

/-- A walk comes by the blocks of the trail from its start, as far as its visitor lets it. -/
theorem exec_walk_trail (visit : Header → Nat → α → ρ → ForInStep α × ρ) (sees : h.Sees s f c)
    (chunk : f.header.chunkSize = chunkSize) (start : Nat) (seen : α) (x : ρ) :
    ∃ s', Work.exec (h.walk start seen (minding visit)) x s =
        (follow visit (c.trail chunkSize.toNat start (maxOffset + 1) 0 start).2
          (c.trail chunkSize.toNat start (maxOffset + 1) 0 start).1 seen x, s') ∧ h.Scanned s f c s' := by
  obtain ⟨s', ran, scanned⟩ := exec_walkFrom_trail visit sees chunk start (maxOffset + 1) 0 start seen x
  refine ⟨s', ?_, scanned⟩
  rw [walk]
  exact (Work.exec_bind_ok (Work.exec_perform_of (exec_length sees) x) _).trans ran

/-- What a visitor has in mind bears neither on what a walk gives nor on what it does to the store. -/
theorem mirrors_walkFrom {visit : Header → Nat → α → StateT ρ (StateM Store) (ForInStep α)}
    {visit' : Header → Nat → α → StateM Store (ForInStep α)}
    (visits : ∀ header o seen,
      Work.Mirrors (unfailing (visit header o seen)) (unfailing (visit' header o seen)))
    (start fuel steps length o : Nat) (seen : α) :
    Work.Mirrors (h.walkFrom start visit fuel steps length o seen)
      (h.walkFrom start visit' fuel steps length o seen) := by
  induction fuel generalizing steps length o seen with
  | zero => exact .throw _
  | succ fuel ih =>
    refine .bind (.perform _) fun header => .bind (visits header o seen) fun step => ?_
    cases step with
    | done seen => exact .pure _
    | yield seen =>
      cases header.next with
      | none => exact .pure _
      | some e =>
        simp only
        split
        · refine .bind (.perform _) fun _ => ?_
          exact .bind (.perform _) fun _ => .bind (.perform _) fun _ => .checked (ih _ _ _ _)
        · refine .bind (.pure length) fun _ => ?_
          exact .bind (.perform _) fun _ => .bind (.perform _) fun _ => .checked (ih _ _ _ _)

/-- A walk whose visitor has nothing in mind but what it hands on. -/
theorem exec_walk_plain (visit : Header → Nat → α → ForInStep α) (sees : h.Sees s f c)
    (chunk : f.header.chunkSize = chunkSize) (start : Nat) (seen : α) :
    ∃ s', Action.exec (h.walk (m := StateM Store) start seen fun header o seen => pure (visit header o seen)) s =
        ((follow (fun header o seen (x : Unit) => (visit header o seen, x))
          (c.trail chunkSize.toNat start (maxOffset + 1) 0 start).2
          (c.trail chunkSize.toNat start (maxOffset + 1) 0 start).1 seen ()).1, s') ∧ h.Scanned s f c s' := by
  have mirrors : Work.Mirrors
      (h.walk start seen (minding fun header o seen (x : Unit) => (visit header o seen, x)))
      (h.walk (m := StateM Store) start seen fun header o seen => pure (visit header o seen)) :=
    .bind (.perform _) fun _ => mirrors_walkFrom (fun _ _ _ _ _ => rfl) _ _ _ _ _ _
  obtain ⟨s', ran, scanned⟩ :=
    exec_walk_trail (fun header o seen (x : Unit) => (visit header o seen, x)) sees chunk start seen ()
  refine ⟨s', ?_, scanned⟩
  rw [← mirrors () s, ran]

theorem exec_lastBlock (sees : h.Sees s f c) {chunkSize : UInt32} (chunk : f.header.chunkSize = chunkSize)
    (start : Nat) : ∃ s', (h.lastBlock start).exec s =
      ((follow seekLast (c.trail chunkSize.toNat start (maxOffset + 1) 0 start).2
        (c.trail chunkSize.toNat start (maxOffset + 1) 0 start).1 none ()).1 >>= lastFound start, s') ∧
      h.Scanned s f c s' := by
  obtain ⟨s', ran, scanned⟩ := exec_walk_plain (fun header o seen => (seekLast header o seen ()).1) sees
    chunk start none
  refine ⟨s', ?_, scanned⟩
  change _ = ((follow seekLast _ _ none ()).1, s') at ran
  rw [lastBlock]
  generalize follow seekLast (c.trail chunkSize.toNat start (maxOffset + 1) 0 start).2
    (c.trail chunkSize.toNat start (maxOffset + 1) 0 start).1 none () = found at ran ⊢
  rcases found with ⟨fault | ⟨ending, last⟩, _⟩
  · exact Action.exec_bind_error ran _
  · refine (Action.exec_bind_ok ran _).trans ?_
    cases last <;> rfl

/-- A walk, on a file of any bytes, by a visitor that always goes on. It comes to a tail just if links that may
be followed lead there; then the visitor has seen each block on the way once and in order, and the tail is the
last block of the chain. It is cut off just if the links lead back to a block that they lead over. -/
theorem walk_exact (opened : h.Opened s f c) (start : Nat) : ∃ blocks result,
    (∀ {ρ : Type} (note : Header → Nat → ρ → ρ) (x : ρ), ∃ s',
      Work.exec (h.walk start () fun header o _ => do
        modify (note header o)
        return .yield ()) x s = ((result, blocks.foldl (fun x b => note b.2 b.1 x) x), s') ∧
      h.Scanned s f c s') ∧
    blocks.length ≤ c.size / f.header.chunkSize.toNat + 1 ∧
    (∀ ending value, result = .ok (ending, value) ↔ ∃ front tail header,
      ending = .tail tail ∧ c.Ends f.header.chunkSize.toNat start front tail header) ∧
    (∀ front tail header, c.Ends f.header.chunkSize.toNat start front tail header →
      blocks = front ++ [(tail, header)] ∧ (blocks.map Prod.fst).Nodup ∧
      ∃ s', (h.lastBlock start).exec s = (.ok (header, tail), s') ∧ h.Scanned s f c s') ∧
    ((h.lastBlock start).exec s).1 ≠ .error (.corruptChain (.noTail start)) ∧
    (result = .error (.corruptChain (.endless start)) ↔ c.Revisits f.header.chunkSize.toNat start) := by
  obtain ⟨trail, few⟩ := c.trail_start start opened.chunk_pos
  obtain ⟨s', last, scanned⟩ := exec_lastBlock opened.toSees rfl start
  have noted {ρ : Type} (note : Header → Nat → ρ → ρ) (x : ρ) :=
    exec_walk_trail (fun header o (_ : Unit) x => (.yield (), note header o x)) opened.toSees rfl start () x
  simp only [follow_noting] at noted
  generalize c.trail f.header.chunkSize.toNat start (maxOffset + 1) 0 start = whole at trail few last noted
  obtain ⟨blocks, ending⟩ := whole
  refine ⟨blocks, ending.map fun tail => (.tail tail, ()), noted, few, fun _ _ => trail.reached_iff, ?_, ?_, ?_⟩
  · intro front tail header ends
    obtain ⟨rfl, rfl⟩ := trail.of_ends ends
    refine ⟨rfl, ?_, s', last.trans ?_, scanned⟩
    · rw [List.map_append]
      exact ends.leads.nodup (ends.leads.not_revisits ends.stuck)
    · simp only
      rw [follow_seekLast_ends ends]
      rfl
  · rw [last]
    exact lastFound_ne_noTail trail
  · rw [← trail.endless_iff]
    cases ending <;> simp [Except.map]

/-- The head of a file of chunks of 64 bytes, linked to the second chunk. -/
def knottedHead : FileHeader where
  table := { (FileHeader.fresh 64 5).table with
    block := { (FileHeader.fresh 64 5).table.block with next := some ⟨64, 64⟩ } }
  chunkSize := 64

/-- A block of 64 bytes that is linked to the chunk at the offset. -/
def knottedBlock (target : UInt64) : BlockHeader :=
  { BlockHeader.fresh .data 64 with next := some ⟨target, 64⟩ }

/-- A file whose second and third block link to each other, with some bytes left over at its end. -/
def knotted : Content :=
  .ofList (knottedHead.encode ++ List.replicate 16 0 ++ ((knottedBlock 128).encode ++ List.replicate 32 0) ++
    ((knottedBlock 64).encode ++ List.replicate 32 0) ++ List.replicate 8 0)

theorem knotted_opened : ∃ s f, (⟨0⟩ : Handle).Opened s f knotted ∧ f.header = knottedHead := by
  have read : FileHeader.ofContent knotted = .ok knottedHead := by decide +kernel
  obtain ⟨f, opened, same, -⟩ := opened_alone read
  exact ⟨_, f, opened, same⟩

theorem size_knotted : knotted.size = 200 := by decide +kernel

theorem knotted_revisits : knotted.Revisits 64 0 := by
  have spelled : Header.decode (knotted.toList.drop 0) = .ok (.file knottedHead) ∧
      Header.decode (knotted.toList.drop 64) = .ok (.block (knottedBlock 128)) ∧
      Header.decode (knotted.toList.drop 128) = .ok (.block (knottedBlock 64)) := by decide +kernel
  obtain ⟨first, second, third⟩ := spelled
  have leads : knotted.Leads 64 0 [(0, .file knottedHead), (64, .block (knottedBlock 128)),
      (128, .block (knottedBlock 64))] 64 :=
    .onward (e := ⟨64, 64⟩) ⟨⟨first, by decide⟩, rfl, by decide, by rw [size_knotted]; decide⟩ <|
    .onward (e := ⟨128, 64⟩) ⟨⟨second, by decide⟩, rfl, by decide, by rw [size_knotted]; decide⟩ <|
    .onward (e := ⟨64, 64⟩) ⟨⟨third, by decide⟩, rfl, by decide, by rw [size_knotted]; decide⟩ .here
  exact ⟨_, _, leads, by decide⟩

/-- The walk is cut off, and has seen no more than four blocks then. -/
theorem walk_exact_knotted : ∃ s f, (⟨0⟩ : Handle).Opened s f knotted ∧ ∃ blocks s',
    Work.exec ((⟨0⟩ : Handle).walk 0 () fun _ o _ => do
      modify (o :: ·)
      return .yield ()) [] s =
        ((.error (.corruptChain (.endless 0)), blocks), s') ∧ blocks.length ≤ 4 := by
  obtain ⟨s, f, opened, same⟩ := knotted_opened
  obtain ⟨blocks, result, runs, few, -, -, -, cut⟩ := walk_exact opened 0
  rw [same] at few cut
  obtain rfl := cut.mpr knotted_revisits
  obtain ⟨s', ran, -⟩ := runs (fun _ o seen => o :: seen) []
  refine ⟨s, f, opened, _, s', ran, ?_⟩
  rw [size_knotted] at few
  rw [List.foldl_flip_cons_eq_append, List.append_nil, List.length_reverse, List.length_map]
  exact few

end Handle
end RecordFile
