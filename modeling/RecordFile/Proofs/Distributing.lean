import Mathlib
import RecordFile.Proofs.Confining
import RecordFile.Proofs.Discipline
import RecordFile.Proofs.Determinacy

/-! Calls handed out over handles. Which handle serves a call, how long it has been open and with what
settings, makes no difference: what calls give, and the bytes they leave, is settled by the bytes there
were. -/
namespace RecordFile

/-- What a handle can be called for. The visitor of a walk is told by the blocks visited so far, the
latest first, whether to stop. -/
inductive Call
  | ask (request : Request)
  | walk (start : Nat) (stops : List (Header × Nat) → Bool)
  | last (start : Nat)

inductive Reply
  | done
  | extent (block : Extent)
  | table (header : TableHeader)
  | offset (offset : Nat)
  | slot (slot : Slot)
  | walked (ending : Ending) (visited : List (Header × Nat))
  | last (header : Header) (offset : Nat)
  deriving DecidableEq

def Request.serve (h : Handle) : Request → Action Reply
  | .addTable recordSize => return .extent (← h.addTable recordSize)
  | .append spec => return .extent (← h.append spec)
  | .appendAfter tail spec => return .extent (← h.appendAfter tail spec)
  | .readTable head => return .table (← h.readTable head)
  | .locate chain table record => return .offset (← h.locate chain table record)
  | .reserve head => return .slot (← h.reserve head)
  | .write offset bytes => do
    h.writeAt offset bytes
    return .done

/-- A visitor that remembers what it visits. -/
def Call.visitor (stops : List (Header × Nat) → Bool) (header : Header) (offset : Nat)
    (visited : List (Header × Nat)) : ForInStep (List (Header × Nat)) :=
  let visited := (header, offset) :: visited
  if stops visited then .done visited else .yield visited

def Call.serve (h : Handle) : Call → Action Reply
  | .ask request => request.serve h
  | .walk start stops => do
    let (ending, visited) ← h.walk (m := StateM Store) start [] fun header offset visited =>
      pure (visitor stops header offset visited)
    return .walked ending visited
  | .last start => do
    let (header, offset) ← h.lastBlock start
    return .last header offset

open Handle (Decided)

theorem Request.decided_serve (request : Request) : Decided fun h => request.serve h := by
  cases request with
  | addTable recordSize => exact .bind (Handle.decided.addTable recordSize) fun _ => .pure _
  | append spec => exact .bind (Handle.decided.around.append spec) fun _ => .pure _
  | appendAfter tail spec => exact .bind (Handle.decided.around.appendAfter tail spec) fun _ => .pure _
  | readTable head => exact .bind (Handle.decided.around.readTable head) fun _ => .pure _
  | locate chain table record => exact .bind (Handle.decided.locate chain table record) fun _ => .pure _
  | reserve head => exact .bind (Handle.decided.reserve head) fun _ => .pure _
  | write offset bytes => exact .bind (Handle.decided.around.writeAt offset bytes) fun _ => .pure _

theorem Call.decided_serve (call : Call) : Decided fun h => call.serve h := by
  cases call with
  | ask request => exact request.decided_serve
  | walk start stops => exact .bind (Handle.decided.around.walk (fun _ _ _ => .pure _) start []) fun _ => .pure _
  | last start => exact .bind (Handle.decided.around.lastBlock start) fun _ => .pure _

theorem Action.store_return {α β : Type} (act : Action α) (f : α → β) (s : Store) :
    ((act >>= fun value => pure (f value)).exec s).2 = (act.exec s).2 := by
  rw [exec_bind]
  rcases act.exec s with ⟨_ | _, s'⟩ <;> rfl

theorem Request.store_serve (t : History) (h : Handle) (request : Request) :
    ((request.serve h).exec t.store).2 = (t.ask h request).store := by
  cases request <;> refine (Action.store_return ..).trans ?_
  case append | appendAfter | locate | write => rfl
  all_goals
    simp only [History.ask]
    split <;> simp_all

/-- Whatever is called for, nothing is held after it that was not held before. -/
theorem Call.restores_serve {s : Store} (h : Handle) (call : Call) (ok : s.standing.Disciplined) :
    ((call.serve h).exec s).2.standing = s.standing := by
  cases call with
  | ask request =>
    cases request <;> refine (congrArg Store.standing (Action.store_return ..)).trans ?_
    case addTable recordSize => exact h.restores_addTable recordSize s (ok.unguarded _)
    case append spec => exact h.quiet.append spec s
    case appendAfter tail spec => exact h.quiet.appendAfter tail spec s
    case readTable head => exact h.quiet.readTable head s
    case locate chain table record => exact h.restores_locate chain table record s (ok.unguarded _)
    case reserve head => exact h.restores_reserve head s (ok.unguarded _)
    case write offset bytes => exact h.quiet.writeAt offset bytes s
  | walk start stops =>
    refine (congrArg Store.standing (Action.store_return ..)).trans ?_
    exact h.quiet.walk (fun _ _ _ _ => rfl) start [] s
  | last start =>
    refine (congrArg Store.standing (Action.store_return ..)).trans ?_
    exact h.quiet.lastBlock start s

theorem Handle.openExisting_ok {path : String} {settings : Settings} {h : Handle} {s s' : Store}
    (ran : (Handle.openExisting path settings).exec s = (.ok h, s')) :
    ∃ file : OpenFile, h = ⟨s.freeDescriptor⟩ ∧ s' = s.attach file ∧ file.held = [] := by
  rw [openExisting, Action.exec_bind_ok (Action.exec_get s)] at ran
  cases found : s.find path with
  | error e =>
    rw [found] at ran
    cases ran
  | ok location =>
    rw [found, Action.exec_bind_ok (Action.exec_orFault_ok ..)] at ran
    cases read : FileHeader.ofContent ((s.content? location).getD Content.empty) with
    | error fault =>
      rw [read] at ran
      cases ran
    | ok header =>
      rw [read] at ran
      cases ran
      exact ⟨_, rfl, rfl, rfl⟩

namespace Standing.Idle

variable {s : Store}

theorem attach (idle : s.standing.Idle) {file : OpenFile} (free : file.held = []) :
    (s.attach file).standing.Idle := by
  constructor
  · exact (congrArg LockTable.entries (s.locks_attach file)).trans idle.locks
  · intro d location held opened
    obtain ⟨f, there, rfl, rfl⟩ := Store.openFile?_of_files opened
    rw [Store.openFile?_attach] at there
    split at there
    · cases there
      exact free
    · exact idle.files d _ _ (Store.files_standing there)

theorem detach (idle : s.standing.Idle) (d : Nat) : (s.detach d).standing.Idle := by
  constructor
  · refine List.eq_nil_iff_forall_not_mem.mpr ?_
    intro l mem
    have locked : l ∈ s.locks.entries := (List.mem_filter.mp mem).1
    have none : s.locks.entries = [] := idle.locks
    rw [none] at locked
    cases locked
  · intro d' location held opened
    obtain ⟨f, there, rfl, rfl⟩ := Store.openFile?_of_files opened
    rw [Store.openFile?_detach] at there
    split at there
    · cases there
    · exact idle.files d' _ _ (Store.files_standing there)

end Standing.Idle

namespace History

/-- The call is about a block of the file, if it is about one. -/
def Placed (t : History) : Call → Prop
  | .ask request => Loose t request
  | .walk start _ | .last start => ∃ L b, t.LaidOut L ∧ L.at? start = some b

/-- What goes on between calls: handles are opened, with any settings, and closed, and whatever else may
go on beside requests, as long as it leaves nothing locked. -/
inductive Between (t : History) : History → Prop
  | nothing : Between t t
  | opened {u : History} {path : String} {settings : Settings} {h : Handle} {store : Store} :
      Between t u → u.store.find path = .ok u.location →
      (Handle.openExisting path settings).exec u.store = (.ok h, store) →
      Between t { u with store, handles := h :: u.handles }
  | closed {u : History} {h : Handle} : Between t u → h ∈ u.handles →
      Between t { u with store := (h.close.exec u.store).2, handles := u.handles.filter (· ≠ h) }
  | meanwhile {u : History} {store : Store} : Between t u → u.Undisturbed store → store.standing.Idle →
      Between t { u with store }

/-- The calls are handed out one after another, each to a handle that is open then, and give these
results. -/
inductive Served : History → List Call → List (Except Fault Reply) → History → Prop
  | done {t u : History} : Between t u → Served t [] [] u
  | called {t u v : History} {h : Handle} {call : Call} {calls : List Call}
      {results : List (Except Fault Reply)} : Between t u → h ∈ u.handles → u.Placed call →
      Served { u with store := ((call.serve h).exec u.store).2 } calls results v →
      Served t (call :: calls) (((call.serve h).exec u.store).1 :: results) v

/-- The file of the history is proper and has these bytes, and nothing is locked. -/
structure Shows (t : History) (c : Content) : Prop where
  sound : ∃ L, t.Sound L
  content : t.store.content? t.location = some c
  idle : t.store.standing.Idle

variable {t t' u v : History} {c : Content} {h : Handle} {call : Call}

theorem Between.chunkSize (between : Between t u) : u.settings.chunkSize = t.settings.chunkSize := by
  induction between with
  | nothing => rfl
  | opened _ _ _ ih => exact ih
  | closed _ _ ih => exact ih
  | meanwhile _ _ _ ih => exact ih

theorem Between.shows (between : Between t u) (shows : t.Shows c) : u.Shows c := by
  induction between with
  | nothing => exact shows
  | opened _ found ran ih =>
    obtain ⟨⟨L, sound⟩, content, idle⟩ := ih
    have sound' := sound.opened found ran
    obtain ⟨file, -, rfl, free⟩ := Handle.openExisting_ok ran
    exact ⟨⟨L, sound'⟩, (Store.content?_attach ..).trans content, idle.attach free⟩
  | @closed u h _ mem ih =>
    obtain ⟨⟨L, sound⟩, content, idle⟩ := ih
    have kept := Tracked.close sound mem
    obtain ⟨f, c', sees, -⟩ := Tracked.sees sound mem
    rw [Handle.exec_close sees.opened] at kept ⊢
    exact ⟨⟨L, kept⟩, content, idle.detach _⟩
  | meanwhile _ undisturbed idle ih =>
    obtain ⟨L, sound⟩ := ih.sound
    have content := undisturbed.content.trans ih.content
    have tracked := Tracked.meanwhile sound undisturbed
    exact ⟨⟨L, tracked⟩, content, idle⟩

theorem Shows.faces (shows : t.Shows c) (mem : h ∈ t.handles) :
    h.Faces t.store ⟨c, t.settings.chunkSize, [], []⟩ := by
  obtain ⟨L, sound⟩ := shows.sound
  obtain ⟨f, c', sees, -, place, chunk⟩ := Tracked.sees sound mem
  have same := sees.content
  rw [place, shows.content] at same
  cases same
  refine ⟨f, sees, chunk, shows.idle.files _ _ _ (Store.files_standing sees.opened), ?_⟩
  have none : t.store.locks.entries = [] := shows.idle.locks
  rw [LockTable.elsewhere, none]
  rfl

/-- A walk from a block comes to an end, and leaves the layout as it is. -/
theorem Sound.walked {α : Type} {L M : Layout} (sound : t.Sound L) (mem : h ∈ t.handles) {start : Nat}
    {b : Block} (known : t.LaidOut M) (found : M.at? start = some b) (seen : α)
    (visit : Header → Nat → α → ForInStep α) : ∃ value store,
      Action.exec (h.walk (m := StateM Store) start seen fun header offset seen =>
        pure (visit header offset seen)) t.store = (.ok value, store) ∧ Sound { t with store } L := by
  obtain ⟨f, c, sees, laid, place, chunk⟩ := Tracked.sees sound mem
  rw [sound.unique known] at found
  obtain ⟨blocks, chain⟩ := Layout.Chain.of_at? sound.proper found
  obtain ⟨store, p, ran, left⟩ := Handle.exec_walk visit sees laid sound.proper chunk chain seen
  exact ⟨_, store, ran, Tracked.step sound left place chunk laid sound.proper⟩

theorem Sound.called {L : Layout} (sound : t.Sound L) (mem : h ∈ t.handles) (placed : t.Placed call) :
    ∃ M, Sound { t with store := ((call.serve h).exec t.store).2 } M := by
  cases call with
  | ask request =>
    obtain ⟨M, -, asked⟩ := sound.ask mem placed
    rw [Sound, location_ask, settings_ask, handles_ask, ← Request.store_serve] at asked
    exact ⟨M, asked⟩
  | walk start stops =>
    obtain ⟨M, b, known, found⟩ := placed
    obtain ⟨value, store, ran, after⟩ := sound.walked mem known found [] (Call.visitor stops)
    have same : ((Call.serve h (.walk start stops)).exec t.store).2 = store :=
      (Action.store_return ..).trans (congrArg Prod.snd ran)
    rw [same]
    exact ⟨L, after⟩
  | last start =>
    obtain ⟨M, b, known, found⟩ := placed
    obtain ⟨value, store, ran, after⟩ := sound.walked mem known found none fun header offset _ =>
      if header.blockPart.isTail then .done (some (header, offset)) else .yield none
    have same : ((Call.serve h (.last start)).exec t.store).2 = store := by
      refine (Action.store_return ..).trans ?_
      rw [Handle.lastBlock]
      refine (congrArg Prod.snd (Action.exec_bind_ok ran _)).trans ?_
      obtain ⟨ending, _ | _⟩ := value <;> rfl
    rw [same]
    exact ⟨L, after⟩

/-- A call leaves the file proper, and leaves nothing locked. -/
theorem Shows.called (shows : t.Shows c) (mem : h ∈ t.handles) (placed : t.Placed call) :
    ∃ c', Shows { t with store := ((call.serve h).exec t.store).2 } c' := by
  obtain ⟨L, sound⟩ := shows.sound
  obtain ⟨M, after⟩ := sound.called mem placed
  obtain ⟨c', content, -⟩ := after.content
  refine ⟨c', ⟨M, after⟩, content, ?_⟩
  rw [call.restores_serve h shows.idle.disciplined]
  exact shows.idle

/-- The bytes of a file settle what a call gives and the bytes that it leaves, whichever handle it is handed
to. -/
theorem Shows.settled (call : Call) (c : Content) (chunkSize : UInt32) :
    ∃ result c', ∀ {t : History} {h : Handle}, t.Shows c → t.settings.chunkSize = chunkSize →
    h ∈ t.handles → t.Placed call → ((call.serve h).exec t.store).1 = result ∧
      Shows { t with store := ((call.serve h).exec t.store).2 } c' := by
  obtain ⟨result, o, -, settled⟩ := call.decided_serve ⟨c, chunkSize, [], []⟩
  refine ⟨result, o.content, ?_⟩
  intro t h shows chunk mem placed
  obtain ⟨s', ran, f, sees, -⟩ := settled h t.store (chunk ▸ shows.faces mem)
  obtain ⟨c', after⟩ := shows.called mem placed
  obtain ⟨L, sound⟩ := after.sound
  obtain ⟨f', c'', sees', -, place, -⟩ := Tracked.sees sound mem
  rw [ran] at after sees' ⊢
  have file := sees'.opened
  rw [sees.opened] at file
  cases file
  exact ⟨rfl, after.sound, place ▸ sees.content, after.idle⟩

/-- One call after another, the results and the bytes stay the same. -/
theorem Served.alike {calls : List Call} {results results' : List (Except Fault Reply)} {v' : History}
    (served : Served t calls results v) (served' : Served t' calls results' v') (shows : t.Shows c)
    (shows' : t'.Shows c) (chunk : t'.settings.chunkSize = t.settings.chunkSize) :
    results' = results ∧ ∃ c', v.Shows c' ∧ v'.Shows c' := by
  induction served generalizing t' results' c with
  | done between =>
    cases served' with
    | done between' => exact ⟨rfl, c, between.shows shows, between'.shows shows'⟩
  | @called t u v h call calls results between mem placed _ ih =>
    cases served' with
    | called between' mem' placed' rest' =>
      obtain ⟨result, c', settled⟩ := Shows.settled call c t.settings.chunkSize
      obtain ⟨gives, after⟩ := settled (between.shows shows) between.chunkSize mem placed
      have chunk' := between'.chunkSize.trans chunk
      obtain ⟨gives', after'⟩ := settled (between'.shows shows') chunk' mem' placed'
      obtain ⟨others, bytes⟩ := ih rest' after after' (chunk'.trans between.chunkSize.symm)
      exact ⟨congrArg₂ List.cons (gives'.trans gives.symm) others, bytes⟩

theorem Shows.bytes (shows : t.Shows c) : t.bytes = c.toList := by
  rw [History.bytes, shows.content]
  rfl

/-- Files of the same bytes have the same chunk size. -/
theorem Shows.chunkSize (shows : t.Shows c) (shows' : t'.Shows c) :
    t'.settings.chunkSize = t.settings.chunkSize := by
  obtain ⟨L, sound⟩ := shows.sound
  obtain ⟨L', sound'⟩ := shows'.sound
  obtain ⟨c', content', laid'⟩ := sound'.content
  have file := shows'.content
  rw [content'] at file
  cases file
  have same := sound.unique ⟨_, shows.content, laid'⟩
  subst same
  obtain ⟨b, header, found, kind, chunk, -⟩ := sound.proper.head
  obtain ⟨b', header', found', kind', chunk', -⟩ := sound'.proper.head
  rw [found] at found'
  cases found'
  rw [kind] at kind'
  cases kind'
  exact chunk'.symm.trans chunk

/-- However calls are handed out over handles of a file, or over handles of another file with the same
bytes, they give the same, and leave the same bytes. -/
theorem run_distributed {calls : List Call} {results results' : List (Except Fault Reply)} {v' : History}
    (run : Run Loose t) (run' : Run Loose t') (idle : t.store.standing.Idle)
    (idle' : t'.store.standing.Idle) (same : t'.bytes = t.bytes) (served : Served t calls results v)
    (served' : Served t' calls results' v') : results' = results ∧ v'.bytes = v.bytes := by
  obtain ⟨L, sound⟩ := run.sound
  obtain ⟨L', sound'⟩ := run'.sound
  obtain ⟨c, content, -⟩ := sound.content
  obtain ⟨c', content', -⟩ := sound'.content
  have shows : t.Shows c := ⟨⟨L, sound⟩, content, idle⟩
  have shows' : t'.Shows c' := ⟨⟨L', sound'⟩, content', idle'⟩
  have : c' = c := by
    apply Content.ext_toList
    rw [← shows.bytes, ← shows'.bytes, same]
  subst this
  obtain ⟨gives, c'', after, after'⟩ := served.alike served' shows shows' (shows.chunkSize shows')
  refine ⟨gives, ?_⟩
  rw [after.bytes, after'.bytes]

/-- A number given out, and a table added. -/
def errands : List Call := [.ask (.reserve 0), .ask (.addTable 7)]

theorem served_errands (between : Between t u) (run : Run Loose u) {h h' : Handle} (mem : h ∈ u.handles)
    (mem' : h' ∈ u.handles) : ∃ results v, Served t errands results v ∧ v.handles = u.handles ∧
      results = [((Call.serve h (.ask (.reserve 0))).exec u.store).1,
        ((Call.serve h' (.ask (.addTable 7))).exec ((Call.serve h (.ask (.reserve 0))).exec u.store).2).1] := by
  obtain ⟨L, sound⟩ := run.sound
  obtain ⟨c, content, laid⟩ := sound.content
  obtain ⟨b, _, found, _⟩ := sound.proper.head
  have placed : u.Placed (.ask (.reserve 0)) := Loose.reserve ⟨c, content, laid⟩ found
  exact ⟨_, _, .called between mem placed (.called .nothing mem' (.addTable 7) (.done .nothing)), rfl, rfl⟩

/-- Both by one handle; or the number by a handle just opened with other settings, and the table by one that
has not read the file header since. -/
theorem run_distributed_sample : ∃ results v v', Served sample errands results v ∧ v.handles = [⟨0⟩] ∧
    Served sample errands results v' ∧ v'.handles = [⟨1⟩, ⟨0⟩] ∧
    results = [.ok (.slot ⟨1, 48⟩), .ok (.extent ⟨64, 64⟩)] ∧ v'.bytes = v.bytes := by
  have run := run_sample Loose
  have run' := Run.opened run opened_paired.1 opened_paired.2
  have opened := Between.opened (t := sample) .nothing opened_paired.1 opened_paired.2
  have idle : sample.store.standing.Idle := Store.idle_of_opened (by decide +kernel) (by decide +kernel)
  have zero : (⟨0⟩ : Handle) ∈ sample.handles := by simp
  obtain ⟨results, v, alone, one, given⟩ := served_errands .nothing run zero zero
  obtain ⟨results', v', shared, both, -⟩ :=
    served_errands opened run' (List.mem_cons_self ..) (List.mem_cons_of_mem _ zero)
  obtain ⟨gives, leaves⟩ := run_distributed run run idle idle rfl alone shared
  refine ⟨results, v, v', alone, one, gives ▸ shared, both, given.trans ?_, leaves⟩
  decide +kernel

end History
end RecordFile
