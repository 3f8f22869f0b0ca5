import Mathlib
import RecordFile.Proofs.Opened

/-! Walks on files that may hold anything. Where every link that is met may be followed, a walk either
comes to a block without a link or comes back to a block it passed; and more links than the file has chunks
cannot all lead to different blocks. -/
namespace RecordFile

/-- Whether a walk may follow a link from the block at `parent`, in a file of this many bytes. -/
def Extent.permit (chunk parent : Nat) (next : Extent) (length : Nat) : Except Fault Unit := do
  unless next.start % chunk == 0 do
    throw (.corruptChain (.misalignedLink parent next.start))
  if length < next.stop then
    throw (.corruptChain (.linkPastEnd parent next length))

theorem Extent.permit_eq_ok {chunk parent length : Nat} {e : Extent} :
    e.permit chunk parent length = .ok () ↔ chunk ∣ e.start ∧ e.stop ≤ length := by
  rw [permit, unless_throw_eq_ok, beq_iff_eq, Nat.dvd_iff_mod_eq_zero, and_congr_right_iff]
  intro _
  split
  · simp
    omega
  · simp [Pure.pure, Except.pure]
    omega

theorem Extent.permit_error {chunk parent length : Nat} {e : Extent} {fault : Fault}
    (refused : e.permit chunk parent length = .error fault) :
    .corruptChain (.misalignedLink parent e.start) = fault ∨
      .corruptChain (.linkPastEnd parent e length) = fault := by
  unfold permit at refused
  by_cases even : (e.start % chunk == 0) = true
  · rw [if_pos even] at refused
    by_cases past : length < e.stop
    · exact .inr (Except.error.inj ((if_pos past).symm.trans refused))
    · cases (if_neg past).symm.trans refused
  · exact .inl (Except.error.inj ((if_neg even).symm.trans refused))

namespace Content

variable (c : Content) (chunk : Nat)

/-- The block at the offset links to another, and the link may be followed. -/
structure Link (o : Nat) (header : Header) (e : Extent) : Prop where
  shows : c.Shows o header
  next : header.next = some e
  aligned : chunk ∣ e.start
  fits : e.stop ≤ c.size

/-- Links that may be followed lead over these blocks from the one offset to the other. -/
inductive Leads : Nat → List (Nat × Header) → Nat → Prop
  | here {o : Nat} : Leads o [] o
  | onward {o p : Nat} {header : Header} {e : Extent} {rest : List (Nat × Header)} :
      c.Link chunk o header e → Leads e.start rest p → Leads o ((o, header) :: rest) p

/-- They lead to a block without a link, the tail. -/
structure Ends (o : Nat) (front : List (Nat × Header)) (tail : Nat) (header : Header) : Prop where
  leads : c.Leads chunk o front tail
  shows : c.Shows tail header
  last : header.next = none

/-- They lead back to a block they lead over. -/
def Revisits (o : Nat) : Prop := ∃ front p, c.Leads chunk o front p ∧ p ∈ front.map Prod.fst

/-- No link leads on from the offset. -/
def Stuck (o : Nat) : Prop := ∀ header e, ¬ c.Link chunk o header e

variable {c : Content} {chunk : Nat} {o p q tail tail' : Nat} {header header' : Header} {e e' : Extent}
  {front front' blocks : List (Nat × Header)}

theorem Link.unique (link : c.Link chunk o header e) (link' : c.Link chunk o header' e') :
    header = header' ∧ e = e' := by
  obtain rfl := link.shows.unique link'.shows
  exact ⟨rfl, Option.some.inj (link.next.symm.trans link'.next)⟩

/-- A link leads to a chunk that the file has, but not to its first. -/
theorem Link.target (link : c.Link chunk o header e) :
    0 < e.start ∧ e.start ≤ min c.size maxOffset := by
  have storable : e.Storable := by
    have wf := Header.wellFormed_of_decode link.shows.spelled
    exact Header.storable_blockPart wf e link.next
  have fits := link.fits
  obtain ⟨nonzero, small, -⟩ := storable
  have positive : e.offset.toNat ≠ 0 := fun zero => nonzero (UInt64.toNat_inj.mp zero)
  simp only [Extent.stop, Extent.start, maxOffset] at fits ⊢
  omega

theorem Ends.stuck (ends : c.Ends chunk o front tail header) : c.Stuck chunk tail := by
  intro header' e link
  obtain rfl := ends.shows.unique link.shows
  exact nomatch ends.last.symm.trans link.next

namespace Leads

theorem trans (first : c.Leads chunk o front p) (second : c.Leads chunk p front' q) :
    c.Leads chunk o (front ++ front') q := by
  induction first with
  | here => exact second
  | onward link _ ih => exact .onward link (ih second)

theorem snoc (first : c.Leads chunk o front p) (link : c.Link chunk p header e) :
    c.Leads chunk o (front ++ [(p, header)]) e.start := first.trans (.onward link .here)

theorem split {b : Nat × Header} (leads : c.Leads chunk o (front ++ b :: front') q) :
    c.Leads chunk o front b.1 ∧ c.Leads chunk b.1 (b :: front') q := by
  induction front generalizing o with
  | nil =>
    cases leads with
    | onward link rest => exact ⟨.here, .onward link rest⟩
  | cons b' front ih =>
    cases leads with
    | onward link rest =>
      obtain ⟨first, second⟩ := ih rest
      exact ⟨.onward link first, second⟩

/-- All ways from an offset are the start of one way, if that comes to a halt. -/
theorem of_stuck (leads : c.Leads chunk o blocks p) (stuck : c.Stuck chunk p)
    (other : c.Leads chunk o front q) : ∃ rest, blocks = front ++ rest ∧ c.Leads chunk q rest p := by
  induction other generalizing blocks with
  | here => exact ⟨blocks, rfl, leads⟩
  | onward link _ ih =>
    cases leads with
    | here => exact absurd link (stuck _ _)
    | onward link' leads =>
      obtain ⟨rfl, rfl⟩ := link.unique link'
      obtain ⟨rest, rfl, back⟩ := ih leads
      exact ⟨rest, rfl, back⟩

theorem unique (leads : c.Leads chunk o blocks p) (stuck : c.Stuck chunk p)
    (other : c.Leads chunk o front q) (stuck' : c.Stuck chunk q) : front = blocks ∧ q = p := by
  obtain ⟨rest, rfl, back⟩ := leads.of_stuck stuck other
  cases back with
  | here => exact ⟨(List.append_nil _).symm, rfl⟩
  | onward link _ => exact absurd link (stuck' _ _)

theorem not_revisits (leads : c.Leads chunk o blocks p) (stuck : c.Stuck chunk p) :
    ¬ c.Revisits chunk o := by
  rintro ⟨front, q, back, mem⟩
  obtain ⟨b, passed, rfl⟩ := List.mem_map.mp mem
  obtain ⟨before, after, rfl⟩ := List.append_of_mem passed
  obtain ⟨rest, rfl, onward⟩ := leads.of_stuck stuck back
  obtain ⟨rest', same, onward'⟩ := leads.of_stuck stuck back.split.1
  obtain ⟨rfl, -⟩ := onward.unique stuck onward' stuck
  have lengths := congrArg List.length same
  simp only [List.length_append, List.length_cons] at lengths
  omega

theorem nodup (leads : c.Leads chunk o front p) (once : ¬ c.Revisits chunk o) :
    (front.map Prod.fst ++ [p]).Nodup := by
  induction front using List.reverseRecOn generalizing p with
  | nil => exact List.nodup_singleton p
  | append_singleton front b ih =>
    have before := ih leads.split.1
    rw [List.map_append, List.map_singleton, List.nodup_append]
    refine ⟨before, List.nodup_singleton p, ?_⟩
    rintro q mem p' here rfl
    obtain rfl := List.mem_singleton.mp here
    exact once ⟨_, _, leads, by rwa [List.map_append, List.map_singleton]⟩

theorem targets (leads : c.Leads chunk o blocks p) : ∀ q ∈ (blocks.map Prod.fst ++ [p]).tail,
    chunk ∣ q ∧ 0 < q ∧ q ≤ min c.size maxOffset := by
  induction leads with
  | here => exact nofun
  | @onward o p header e rest link leads ih =>
    intro q mem
    have onward : (List.map Prod.fst ((o, header) :: rest) ++ [p]).tail = rest.map Prod.fst ++ [p] := rfl
    rw [onward] at mem
    have first : rest.map Prod.fst ++ [p] = e.start :: (rest.map Prod.fst ++ [p]).tail := by
      cases leads <;> rfl
    rw [first, List.mem_cons] at mem
    rcases mem with rfl | mem
    · exact ⟨link.aligned, link.target⟩
    · exact ih q mem

/-- There are not so many chunks that more links could all lead to different ones. -/
theorem revisits (leads : c.Leads chunk o blocks p) (positive : 0 < chunk)
    (long : min c.size maxOffset / chunk < blocks.length) : c.Revisits chunk o := by
  by_contra once
  have apart := (leads.nodup once).tail
  have among : (blocks.map Prod.fst ++ [p]).tail.toFinset ⊆
      (Finset.Icc 1 (min c.size maxOffset / chunk)).image (· * chunk) := by
    intro q mem
    obtain ⟨⟨k, rfl⟩, some, most⟩ := leads.targets q (List.mem_toFinset.mp mem)
    refine Finset.mem_image.mpr ⟨k, Finset.mem_Icc.mpr ⟨?_, ?_⟩, Nat.mul_comm ..⟩
    · exact Nat.pos_of_mul_pos_left some
    · rw [Nat.le_div_iff_mul_le positive, Nat.mul_comm]
      exact most
  have few := (Finset.card_le_card among).trans Finset.card_image_le
  rw [List.toFinset_card_of_nodup apart, Nat.card_Icc, List.length_tail, List.length_append, List.length_map,
    List.length_singleton, Nat.add_sub_cancel, Nat.add_sub_cancel] at few
  exact absurd long (Nat.not_lt.mpr few)

end Leads

/-- What keeps a walk from going on at an offset. -/
inductive Breaks (c : Content) (chunk o : Nat) : Fault → Prop
  | unread {fault : Fault} : c.headerAt o = .error fault → Breaks c chunk o fault
  | refused {fault : Fault} {header : Header} {e : Extent} : c.Shows o header → header.next = some e →
      e.permit chunk o c.size = .error fault → Breaks c chunk o fault

namespace Breaks

variable {fault : Fault}

theorem stuck (breaks : c.Breaks chunk o fault) : c.Stuck chunk o := by
  intro header e link
  cases breaks with
  | unread failed =>
    rw [headerAt_eq_ok.mpr link.shows] at failed
    cases failed
  | refused shows next refused =>
    obtain rfl := link.shows.unique shows
    obtain rfl := Option.some.inj (link.next.symm.trans next)
    rw [Extent.permit_eq_ok.mpr ⟨link.aligned, link.fits⟩] at refused
    cases refused

theorem no_tail (breaks : c.Breaks chunk o fault) (shows : c.Shows o header) : header.next ≠ none := by
  intro last
  cases breaks with
  | unread failed =>
    rw [headerAt_eq_ok.mpr shows] at failed
    cases failed
  | refused shows' next _ =>
    obtain rfl := shows.unique shows'
    exact nomatch last.symm.trans next

theorem fault_ne (breaks : c.Breaks chunk o fault) (start : Nat) :
    fault ≠ .corruptChain (.endless start) ∧ fault ≠ .corruptChain (.noTail start) := by
  cases breaks with
  | unread failed =>
    constructor <;> rintro rfl <;> exact headerAt_ne_corruptChain _ failed
  | refused _ _ refused =>
    rcases Extent.permit_error refused with rfl | rfl <;> exact ⟨nofun, nofun⟩

end Breaks

/-- A walk over bytes that stay as they are: the blocks it comes by, and the tail or the fault it ends at. -/
def trail (c : Content) (chunk start : Nat) : Nat → Nat → Nat → List (Nat × Header) × Except Fault Nat
  | 0, _, _ => ([], .error (.corruptChain (.endless start)))
  | fuel + 1, steps, offset =>
    match c.headerAt offset with
    | .error fault => ([], .error fault)
    | .ok header =>
      let onward : List (Nat × Header) × Except Fault Nat := match header.next with
        | none => ([], .ok offset)
        | some next =>
          match next.permit chunk offset c.size with
          | .error fault => ([], .error fault)
          | .ok () =>
            if c.size / chunk < steps + 1 then ([], .error (.corruptChain (.endless start)))
            else trail c chunk start fuel (steps + 1) next.start
      ((offset, header) :: onward.1, onward.2)

/-- How a trail ends, and over which blocks. -/
inductive Trail (c : Content) (chunk start : Nat) : List (Nat × Header) → Except Fault Nat → Prop
  | ends {front : List (Nat × Header)} {tail : Nat} {header : Header} :
      c.Ends chunk start front tail header → Trail c chunk start (front ++ [(tail, header)]) (.ok tail)
  | breaks {front blocks : List (Nat × Header)} {o : Nat} {fault : Fault} : c.Leads chunk start front o →
      c.Breaks chunk o fault → front <+: blocks → Trail c chunk start blocks (.error fault)
  | endless {blocks : List (Nat × Header)} : c.Revisits chunk start →
      Trail c chunk start blocks (.error (.corruptChain (.endless start)))

/-- Wherever links have led a walk, it goes on as a trail does. -/
theorem trail_trail {start : Nat} (leads : c.Leads chunk start front o) (positive : 0 < chunk) {fuel : Nat}
    (fuelled : fuel + front.length = maxOffset + 1) (room : front.length ≤ c.size / chunk) :
    Trail c chunk start (front ++ (c.trail chunk start fuel front.length o).1)
        (c.trail chunk start fuel front.length o).2 ∧
      front.length + (c.trail chunk start fuel front.length o).1.length ≤ c.size / chunk + 1 := by
  induction fuel generalizing front o with
  | zero =>
    have most : min c.size maxOffset / chunk ≤ maxOffset :=
      (Nat.div_le_self _ _).trans (Nat.min_le_right _ _)
    refine ⟨.endless (leads.revisits positive (by omega)), ?_⟩
    rw [trail, List.length_nil]
    omega
  | succ fuel ih =>
    rw [trail]
    cases read : c.headerAt o with
    | error fault =>
      refine ⟨.breaks leads (.unread read) (List.prefix_append ..), ?_⟩
      rw [List.length_nil]
      omega
    | ok header =>
      have shows := headerAt_eq_ok.mp read
      have passed : (front ++ [(o, header)]).length = front.length + 1 := by simp
      simp only [List.length_cons]
      rw [List.append_cons front]
      cases next : header.next with
      | none =>
        refine ⟨?_, by simp only [List.length_nil]; omega⟩
        simp only [List.append_nil]
        exact .ends ⟨leads, shows, next⟩
      | some e =>
        simp only
        cases permitted : e.permit chunk o c.size with
        | error fault =>
          refine ⟨.breaks leads (.refused shows next permitted) ?_, by simp only [List.length_nil]; omega⟩
          rw [List.append_assoc]
          exact List.prefix_append ..
        | ok =>
          obtain ⟨aligned, fits⟩ := Extent.permit_eq_ok.mp permitted
          have onward := leads.snoc ⟨shows, next, aligned, fits⟩
          simp only
          split
          case isTrue full =>
            have most : min c.size maxOffset / chunk ≤ c.size / chunk :=
              Nat.div_le_div_right (Nat.min_le_left _ _)
            exact ⟨.endless (onward.revisits positive (by omega)), by simp only [List.length_nil]; omega⟩
          case isFalse spare =>
            have rest := ih onward (by omega) (by omega)
            rw [passed] at rest
            exact ⟨rest.1, by omega⟩

namespace Trail

variable {blocks front : List (Nat × Header)} {ending : Except Fault Nat} {tail : Nat} {header : Header}

theorem of_ends (trail : c.Trail chunk start blocks ending) (ends : c.Ends chunk start front tail header) :
    ending = .ok tail ∧ blocks = front ++ [(tail, header)] := by
  cases trail with
  | ends ends' =>
    obtain ⟨rfl, rfl⟩ := ends.leads.unique ends.stuck ends'.leads ends'.stuck
    obtain rfl := ends.shows.unique ends'.shows
    exact ⟨rfl, rfl⟩
  | breaks leads breaks _ =>
    obtain ⟨-, rfl⟩ := ends.leads.unique ends.stuck leads breaks.stuck
    exact absurd ends.last (breaks.no_tail ends.shows)
  | endless again => exact absurd again (ends.leads.not_revisits ends.stuck)

theorem ok_iff (trail : c.Trail chunk start blocks ending) :
    ending = .ok tail ↔ ∃ front header, c.Ends chunk start front tail header := by
  constructor
  · rintro rfl
    cases trail with
    | ends ends => exact ⟨_, _, ends⟩
  · rintro ⟨front, header, ends⟩
    exact (trail.of_ends ends).1

theorem endless_iff (trail : c.Trail chunk start blocks ending) :
    ending = .error (.corruptChain (.endless start)) ↔ c.Revisits chunk start := by
  cases trail with
  | ends ends => simp [ends.leads.not_revisits ends.stuck]
  | breaks leads breaks _ =>
    simp [leads.not_revisits breaks.stuck, (breaks.fault_ne start).1]
  | endless again => simp [again]

theorem fault_ne_noTail {fault : Fault} (trail : c.Trail chunk start blocks (.error fault)) :
    fault ≠ .corruptChain (.noTail start) := by
  cases trail with
  | breaks _ breaks _ => exact (breaks.fault_ne start).2
  | endless _ => exact nofun

end Trail

/-- How a walk from a start goes, and how long. -/
theorem trail_start (c : Content) (start : Nat) (positive : 0 < chunk) :
    c.Trail chunk start (c.trail chunk start (maxOffset + 1) 0 start).1
        (c.trail chunk start (maxOffset + 1) 0 start).2 ∧
      (c.trail chunk start (maxOffset + 1) 0 start).1.length ≤ c.size / chunk + 1 := by
  have here : c.Leads chunk start [] start := .here
  have fuelled : maxOffset + 1 + ([] : List (Nat × Header)).length = maxOffset + 1 := rfl
  simpa using trail_trail here positive fuelled (Nat.zero_le _)

end Content
end RecordFile
