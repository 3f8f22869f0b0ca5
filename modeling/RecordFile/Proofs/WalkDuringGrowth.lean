import Mathlib
import RecordFile.Proofs.LayoutPersistence

/-! Walks while the file grows. Blocks stay where they are and links stay as they are, so the links that a
walk has followed still lead to where it is, whatever was added to the file since it set out. -/
namespace RecordFile

namespace Layout

variable {L M : Layout} {start o : Nat} {seen : List Nat} {blocks : List (Nat × Header)}

/-- Links lead from the block at `start` through the blocks at `seen` to the offset. -/
inductive Leads (L : Layout) (start : Nat) : List Nat → Nat → Prop
  | here : Leads L start [] start
  | onward {seen : List Nat} {o : Nat} {b : Block} {e : Extent} : Leads L start seen o →
      L.at? o = some b → b.header.next = some e → Leads L start (seen ++ [o]) e.start

namespace Leads

theorem grow (leads : L.Leads start seen o) (grows : L.GrowsTo M) : M.Leads start seen o := by
  induction leads with
  | here => exact .here
  | onward leads found next ih =>
    obtain ⟨b', found', becomes⟩ := grows _ _ found
    exact .onward ih found' (becomes.link _ next)

theorem chain (leads : L.Leads start seen o) (rest : L.Chain o blocks) :
    ∃ whole, L.Chain start whole ∧ whole.map Prod.fst = seen ++ blocks.map Prod.fst := by
  induction leads generalizing blocks with
  | here => exact ⟨blocks, rest, rfl⟩
  | onward leads found next ih =>
    obtain ⟨whole, chain, offsets⟩ := ih (.link found next rest)
    refine ⟨whole, chain, ?_⟩
    rw [offsets, List.map_cons, List.append_assoc]
    rfl

end Leads
end Layout

/-- However old the length is that a walk has in mind, a link fits it when it is followed. -/
theorem Handle.exec_lookedUp {α : Type} {h : Handle} {s : Store} {f : OpenFile} {c : Content}
    (sees : h.Sees s f c) (length : Nat) {stop : Nat} (fits : stop ≤ c.size) :
    ∃ length', stop ≤ length' ∧ ∀ rest : Nat → Action α,
      Action.exec (if length < stop then h.length >>= rest else pure length >>= rest) s =
        (rest length').exec s := by
  by_cases short : length < stop
  · refine ⟨c.size, fits, ?_⟩
    intro rest
    rw [if_pos short]
    exact Action.exec_bind_ok (exec_length sees) rest
  · refine ⟨length, Nat.le_of_not_lt short, ?_⟩
    intro rest
    rw [if_neg short]
    rfl

namespace History

variable {t t' u : History} {L M : Layout} {h : Handle} {request : Request}

/-- What may go on while a handle is busy: anything that the other handles are asked, and handles opened
and closed. -/
inductive Beside (busy : Handle) (t : History) : History → Prop
  | nothing : Beside busy t t
  | asked {u : History} {h : Handle} {request : Request} : Beside busy t u → h ∈ u.handles → h ≠ busy →
      Loose u request → Beside busy t (u.ask h request)
  | opened {u : History} {path : String} {settings : Settings} {h : Handle} {store : Store} :
      Beside busy t u → u.store.find path = .ok u.location →
      (Handle.openExisting path settings).exec u.store = (.ok h, store) →
      Beside busy t { u with store, handles := h :: u.handles }
  | closed {u : History} {h : Handle} : Beside busy t u → h ∈ u.handles → h ≠ busy →
      Beside busy t { u with store := (h.close.exec u.store).2, handles := u.handles.filter (· ≠ h) }
  | meanwhile {u : History} {store : Store} : Beside busy t u → u.Undisturbed store →
      Beside busy t { u with store }

namespace Beside

theorem run (beside : Beside h t u) (run : Run Loose t) : Run Loose u := by
  induction beside with
  | nothing => exact run
  | asked _ mem _ permitted ih => exact .asked ih mem permitted
  | opened _ found ran ih => exact .opened ih found ran
  | closed _ mem _ ih => exact .closed ih mem
  | meanwhile _ undisturbed ih => exact .meanwhile ih undisturbed

theorem trans {v : History} (first : Beside h t u) (second : Beside h u v) : Beside h t v := by
  induction second with
  | nothing => exact first
  | asked _ mem other permitted ih => exact .asked ih mem other permitted
  | opened _ found ran ih => exact .opened ih found ran
  | closed _ mem other ih => exact .closed ih mem other
  | meanwhile _ undisturbed ih => exact .meanwhile ih undisturbed

theorem mem (beside : Beside h t u) (mem : h ∈ t.handles) : h ∈ u.handles := by
  induction beside with
  | nothing => exact mem
  | asked _ _ _ _ ih => rwa [handles_ask]
  | opened _ _ _ ih => exact List.mem_cons_of_mem _ ih
  | closed _ _ other ih => exact List.mem_filter.mpr ⟨ih, by simpa using other.symm⟩
  | meanwhile _ _ ih => exact ih

theorem location (beside : Beside h t u) : u.location = t.location := by
  induction beside with
  | nothing => rfl
  | asked _ _ _ _ ih => rw [location_ask, ih]
  | opened _ _ _ ih => exact ih
  | closed _ _ _ ih => exact ih
  | meanwhile _ _ ih => exact ih

theorem settings (beside : Beside h t u) : u.settings = t.settings := by
  induction beside with
  | nothing => rfl
  | asked _ _ _ _ ih => rw [settings_ask, ih]
  | opened _ _ _ ih => exact ih
  | closed _ _ _ ih => exact ih
  | meanwhile _ _ ih => exact ih

/-- All that can happen to the layout is growth. -/
theorem growsTo (beside : Beside h t u) (sound : t.Sound L) : ∃ M, u.Sound M ∧ L.GrowsTo M := by
  induction beside with
  | nothing => exact ⟨L, sound, .refl L⟩
  | asked _ mem _ permitted ih =>
    obtain ⟨M, sound', grows⟩ := ih
    obtain ⟨N, answer, sound''⟩ := sound'.ask mem permitted
    exact ⟨N, sound'', grows.trans answer.growsTo⟩
  | opened _ found ran ih =>
    obtain ⟨M, sound', grows⟩ := ih
    exact ⟨M, sound'.opened found ran, grows⟩
  | closed _ mem _ ih =>
    obtain ⟨M, sound', grows⟩ := ih
    exact ⟨M, Tracked.close sound' mem, grows⟩
  | meanwhile _ undisturbed ih =>
    obtain ⟨M, sound', grows⟩ := ih
    have tracked := Tracked.meanwhile sound' undisturbed
    exact ⟨M, tracked, grows⟩

end Beside
/-- A walk under way: what its visitor has in mind, the history as the visitor left it last, and the
offsets of the blocks visited. -/
structure Tour (σ : Type) where
  mind : σ
  history : History
  seen : List Nat

namespace Tour

variable {σ : Type}

def current (tour : Tour σ) (store : Store) : History := { tour.history with store }

def next (visitor : Header → Nat → σ → History → σ × History) (header : Header) (offset : Nat)
    (tour : Tour σ) (store : Store) : Tour σ :=
  let (mind, history) := visitor header offset tour.mind (tour.current store)
  { mind, history, seen := tour.seen ++ [offset] }

/-- Visits a block and never stops. -/
def visit (visitor : Header → Nat → σ → History → σ × History) (header : Header) (offset : Nat)
    (tour : Tour σ) : StateM Store (ForInStep (Tour σ)) := do
  let next := tour.next visitor header offset (← get)
  set next.history.store
  return .yield next

theorem exec_visit (visitor : Header → Nat → σ → History → σ × History) (header : Header) (offset : Nat)
    (tour : Tour σ) (s : Store) : Action.exec (unfailing (tour.visit visitor header offset)) s =
      (.ok (.yield (tour.next visitor header offset s)),
        (tour.next visitor header offset s).history.store) := rfl

end Tour

/-- How a walk comes to its end that set out in the layout `L` of `t`. What it has seen is the chain as it
was when the walk read the last of its headers. -/
structure Toured (h : Handle) (t : History) (L : Layout) (start : Nat) (seen : List Nat) (last : Nat)
    (u : History) : Prop where
  beside : Beside h t u
  chain : ∃ N M blocks, L.GrowsTo N ∧ N.GrowsTo M ∧ u.Sound M ∧ N.Proper t.settings ∧
    N.Chain start blocks ∧ blocks.map Prod.fst = seen
  last : seen.getLast? = some last

theorem Toured.grow {start last : Nat} {seen : List Nat} (toured : Toured h t M start seen last u)
    (grows : L.GrowsTo M) : Toured h t L start seen last u := by
  obtain ⟨N, M', blocks, first, rest⟩ := toured.chain
  exact { toured with chain := ⟨N, M', blocks, grows.trans first, rest⟩ }

section Walk

variable {σ : Type} {visitor : Header → Nat → σ → History → σ × History} {start : Nat}
  (calls : ∀ L offset b x u, Beside h t u → u.LaidOut L → L.at? offset = some b →
    Beside h u (visitor b.header offset x u).2)

include calls

theorem exec_walkFrom_touring (mem : h ∈ t.handles) (fuel : Nat) {tour : Tour σ} {s : Store} {L : Layout}
    {o : Nat} {b : Block} (beside : Beside h t (tour.current s)) (sound : (tour.current s).Sound L)
    (leads : L.Leads start tour.seen o) (found : L.at? o = some b) (length : Nat) {steps : Nat}
    (progress : steps * t.settings.chunkSize.toNat ≤ o) (fuelled : maxOffset < fuel + steps) :
    ∃ tour' s' last, Action.exec (h.walkFrom (m := StateM Store) start (Tour.visit visitor) fuel steps
        length o tour) s = (.ok (.tail last, tour'), s') ∧
      Toured h t L start tour'.seen last (tour'.current s') := by
  induction fuel generalizing tour s L o b steps length with
  | zero => exact absurd rfl (Handle.fuel_ne sound.proper found (beside.settings ▸ progress) fuelled)
  | succ fuel ih =>
    have proper : L.Proper t.settings := beside.settings ▸ sound.proper
    obtain ⟨f, c, sees, laid, place, -⟩ := sound.sees (beside.mem mem)
    obtain ⟨s₁, p₁, ran₁, left₁⟩ := Handle.exec_readHeader sees laid proper.small found
    change (h.readHeader o).exec s = _ at ran₁
    have undisturbed := sound.undisturbed sees place left₁ ⟨rfl, rfl⟩
    have beside₁ : Beside h t (tour.current s₁) := .meanwhile (u := tour.current s) beside undisturbed
    have sound₁ := Tracked.meanwhile sound undisturbed
    -- The visitor may make the file grow before the link that was read is followed.
    have called := calls L o b tour.mind (tour.current s₁) beside₁ sound₁.content found
    obtain ⟨M, sound₂, grows⟩ := called.growsTo sound₁
    let tour₂ := tour.next visitor b.header o s₁
    change (tour₂.current tour₂.history.store).Sound M at sound₂
    have beside₂ : Beside h t (tour₂.current tour₂.history.store) := beside₁.trans called
    rw [Handle.walkFrom, perform_eq, Action.exec_bind_ok ran₁,
      Action.exec_bind_ok (Tour.exec_visit visitor b.header o tour s₁)]
    cases next : b.header.next with
    | none =>
      refine ⟨_, _, o, rfl, ?_⟩
      obtain ⟨whole, chain, offsets⟩ := leads.chain (.tail found next)
      exact ⟨beside₂, ⟨L, M, whole, .refl L, grows, sound₂, proper, chain, offsets⟩, List.getLast?_concat⟩
    | some e =>
      obtain ⟨f₂, c₂, sees₂, laid₂, -, chunk₂⟩ := sound₂.sees (beside₂.mem mem)
      obtain ⟨b₂, found₂, becomes⟩ := grows o b found
      have next₂ := becomes.link e next
      have proper₂ : M.Proper t.settings := beside₂.settings ▸ sound₂.proper
      rw [beside₂.settings] at chunk₂
      obtain ⟨-, target, there, -⟩ := proper₂.forward found₂ next₂
      have further := proper₂.next_onward found₂ next₂ progress
      obtain ⟨length', fits, looked⟩ :=
        Handle.exec_lookedUp (α := Ending × Tour σ) sees₂ length (laid₂.size ▸ proper₂.next_fits found₂ next₂)
      have room : steps + 1 ≤ length' / f₂.header.chunkSize.toNat := by
        rw [chunk₂, Nat.le_div_iff_mul_le proper₂.chunk_some]
        exact further.trans ((Nat.le_add_right _ _).trans fits)
      have leads₂ := (leads.grow grows).onward found₂ next₂
      obtain ⟨tour', s', last, ran, toured⟩ := ih beside₂ sound₂ leads₂ there length' further (by omega)
      refine ⟨tour', s', last, ?_, toured.grow grows⟩
      refine (looked _).trans ?_
      refine (Action.exec_bind_ok (Handle.exec_checkLink sees₂ proper₂ chunk₂ found₂ next₂ fits) _).trans ?_
      refine (Action.exec_bind_ok (Handle.exec_chunkSize sees₂) _).trans ?_
      rw [if_neg (by omega)]
      exact ran

/-- A walk that other handles grow the file under never fails. It visits a beginning of the chain as it is
in the end, which holds all of the chain as it was at first. -/
theorem run_walked (run : Run Loose t) (mem : h ∈ t.handles) (laid : t.LaidOut L) {b : Block}
    (found : L.at? start = some b) (x : σ) :
    ∃ tour s last M blocks blocks',
      Action.exec (h.walk (m := StateM Store) start { mind := x, history := t, seen := [] }
        (Tour.visit visitor)) t.store = (.ok (.tail last, tour), s) ∧
      Beside h t (tour.current s) ∧ (tour.current s).LaidOut M ∧
      L.Chain start blocks ∧ M.Chain start blocks' ∧
      blocks.map Prod.fst <+: tour.seen ∧ tour.seen <+: blocks'.map Prod.fst ∧
      tour.seen.Pairwise (· < ·) ∧ tour.seen.getLast? = some last := by
  obtain ⟨L', sound⟩ := run.sound
  obtain rfl := sound.unique laid
  obtain ⟨f, c, sees, -⟩ := sound.sees mem
  let setOut : Tour σ := { mind := x, history := t, seen := [] }
  have beside : Beside h t (setOut.current t.store) := .nothing
  have none : 0 * t.settings.chunkSize.toNat ≤ start := by omega
  obtain ⟨tour, s, last, ran, toured⟩ := exec_walkFrom_touring calls mem (maxOffset + 1)
    beside sound .here found c.size none (by omega)
  obtain ⟨N, M, visited, before, after, sound', proper, chain, offsets⟩ := toured.chain
  obtain ⟨blocks, chain₀⟩ := Layout.Chain.of_at? sound.proper found
  obtain ⟨b', rest, there, -⟩ := chain.head_eq
  obtain ⟨b'', there', -⟩ := after start b' there
  obtain ⟨blocks', chain'⟩ := Layout.Chain.of_at? sound'.proper there'
  refine ⟨tour, s, last, M, blocks, blocks', ?_, toured.beside, sound'.content, chain₀, chain', ?_⟩
  · rw [Handle.walk, perform_eq]
    exact (Action.exec_bind_ok (Handle.exec_length sees) _).trans ran
  · rw [← offsets]
    exact ⟨before.chain_prefix chain₀ chain, after.chain_prefix chain chain', chain.sorted proper,
      offsets ▸ toured.last⟩

end Walk

/-- At the first block the second handle makes the chain longer, by a block that ends past the length that
the first handle has in mind. -/
theorem run_walked_growing :
    let linked := paired.ask ⟨1⟩ (.appendAfter 0 (.data 64 0))
    let visitor (header : Header) (offset : Nat) (_ : Unit) (u : History) : Unit × History :=
      let tail := (header.next.map Extent.start).getD 0
      ((), if offset = 0 ∧ ⟨1⟩ ∈ u.handles then u.ask ⟨1⟩ (.appendAfter tail (.data 64 0)) else u)
    let walk := Action.exec ((⟨0⟩ : Handle).walk (m := StateM Store) 0
      { mind := (), history := linked, seen := [] } (Tour.visit visitor)) linked.store
    walk.1.map (fun ended => (ended.1, ended.2.seen)) = .ok (.tail 128, [0, 64, 128]) ∧
      ∃ (L M : Layout) (blocks blocks' : List (Nat × Header)), linked.LaidOut L ∧ L.Chain 0 blocks ∧
        M.Chain 0 blocks' ∧ blocks.map Prod.fst <+: [0, 64, 128] ∧ [0, 64, 128] <+: blocks'.map Prod.fst := by
  intro linked visitor walk
  have seen : walk.1.map (fun ended => (ended.1, ended.2.seen)) = .ok (.tail 128, [0, 64, 128]) := by
    decide +kernel
  have head {u : History} (run : Run Loose u) : ∃ L b, u.LaidOut L ∧ L.at? 0 = some b := by
    obtain ⟨L, sound⟩ := run.sound
    obtain ⟨b, -, found, -⟩ := sound.proper.head
    exact ⟨L, b, sound.content, found⟩
  obtain ⟨L₀, b₀, laid₀, found₀⟩ := head (run_paired Loose)
  have run : Run Loose linked := .asked (run_paired Loose) (by decide) (.appendAfter _ laid₀ found₀)
  obtain ⟨L, b, laid, found⟩ := head run
  have calls (N : Layout) (offset : Nat) (x : Block) (mind : Unit) (u : History)
      (beside : Beside ⟨0⟩ linked u) (laid : u.LaidOut N) (found : N.at? offset = some x) :
      Beside ⟨0⟩ u (visitor x.header offset mind u).2 := by
    obtain ⟨N', sound⟩ := (beside.run run).sound
    obtain rfl := sound.unique laid
    have block : ∃ y, N.at? ((x.header.next.map Extent.start).getD 0) = some y := by
      cases next : x.header.next with
      | none =>
        obtain ⟨y, -, there, -⟩ := sound.proper.head
        exact ⟨y, there⟩
      | some e =>
        obtain ⟨-, y, there, -⟩ := sound.proper.forward found next
        exact ⟨y, there⟩
    obtain ⟨y, there⟩ := block
    by_cases grows : offset = 0 ∧ (⟨1⟩ : Handle) ∈ u.handles
    · simp only [visitor, if_pos grows]
      exact .asked .nothing grows.2 (by decide) (.appendAfter _ laid there)
    · simp only [visitor, if_neg grows]
      exact .nothing
  obtain ⟨tour, s, last, M, blocks, blocks', ran, -, -, chain, chain', before, after, -⟩ :=
    run_walked calls run (by simp [linked, paired]) laid found ()
  change walk = _ at ran
  rw [ran] at seen
  have same : tour.seen = [0, 64, 128] := congrArg Prod.snd (Except.ok.inj seen)
  rw [same] at before after
  refine ⟨?_, L, M, blocks, blocks', laid, chain, chain', before, after⟩
  rw [ran]
  exact seen

end History
end RecordFile
