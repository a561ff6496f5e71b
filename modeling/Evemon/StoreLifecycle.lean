import Evemon.Lib.Runs
import Evemon.StoreUpdate

namespace Evemon.Store

open List Runs

open Ipc (Heap allGranted)

structure Update where
  snap : ProcSnapshot
  now : Int

def Update.pids (update : Update) : List Int32 := snapPids update.snap

section

-- What the store is for: a process is there while the snapshots list it and for a while
-- after. `seen` is the last update that listed it.
inductive Life where
  | alive (seen : Update)
  | dying (seen : Update) (since : Int)

def liveOn (pid : Int32) (life : Option Life) (update : Update) : Option Life :=
  if pid ∈ update.pids then some (.alive update)
  else
    match life with
    | none => none
    | some (.alive seen) => some (.dying seen update.now)
    | some (.dying seen since) => if update.now - since > storeKillDelayUs then none else some (.dying seen since)

variable (pid : Int32) (history : List Update) (seen : Update)

theorem live_on_listed {life} {update : Update} (listed : pid ∈ update.pids) :
    liveOn pid life update = some (.alive update) := by simp [liveOn, listed]

def lifeOf (pid : Int32) (history : List Update) : Option Life := history.foldl (liveOn pid) none

theorem life_of_concat (update : Update) : lifeOf pid (history ++ [update]) = liveOn pid (lifeOf pid history) update := by
  simp [lifeOf, foldl_append]

def LastSeen (pid : Int32) (history : List Update) (seen : Update) (lacking : List Update) : Prop :=
  (∃ before, history = before ++ seen :: lacking) ∧ pid ∈ seen.pids ∧ ∀ update ∈ lacking, pid ∉ update.pids

theorem last_seen_or_never :
    (∃ seen lacking, LastSeen pid history seen lacking) ∨ ∀ update ∈ history, pid ∉ update.pids := by
  induction history using List.reverseRecOn with
  | nil => exact .inr fun update mem => by cases mem
  | append_singleton history update ih =>
    by_cases here : pid ∈ update.pids
    · exact .inl ⟨update, [], ⟨history, rfl⟩, here, fun other mem => by cases mem⟩
    · rcases ih with ⟨seen, lacking, ⟨before, shape⟩, listed, absent⟩ | never
      · refine .inl ⟨seen, lacking ++ [update], ⟨before, by simp [shape]⟩, listed, fun other mem => ?_⟩
        rcases mem_append.mp mem with old | _ | ⟨_, ⟨⟩⟩
        · exact absent other old
        · assumption
      · refine .inr fun other mem => ?_
        rcases mem_append.mp mem with old | _ | ⟨_, ⟨⟩⟩
        · exact never other old
        · assumption

theorem life_never (never : ∀ update ∈ history, pid ∉ update.pids) : history.foldl (liveOn pid) none = none := by
  induction history with
  | nil => rfl
  | cons update rest ih =>
    rw [foldl_cons, liveOn, if_neg (never update mem_cons_self)]
    exact ih fun other mem => never other (mem_cons_of_mem _ mem)

theorem life_dying {since : Int} (more : List Update) (absent : ∀ update ∈ more, pid ∉ update.pids) :
    ((∀ update ∈ more, update.now - since ≤ storeKillDelayUs) ∧
    more.foldl (liveOn pid) (some (.dying seen since)) = some (.dying seen since)) ∨
    ((¬ ∀ update ∈ more, update.now - since ≤ storeKillDelayUs) ∧
    more.foldl (liveOn pid) (some (.dying seen since)) = none) := by
  induction more with
  | nil => exact .inl ⟨forall_mem_nil _, rfl⟩
  | cons update rest ih =>
    have later := fun other mem => absent other (mem_cons_of_mem update mem)
    rw [foldl_cons, liveOn, if_neg (absent update mem_cons_self)]
    by_cases late : update.now - since > storeKillDelayUs
    · rw [if_pos late]
      refine .inr ⟨fun all => ?_, life_never pid rest later⟩
      have soon := all update mem_cons_self
      omega
    · rw [if_neg late, forall_mem_cons]
      have soon : update.now - since ≤ storeKillDelayUs := by omega
      rcases ih later with ⟨all, kept⟩ | ⟨some, gone⟩
      · exact .inl ⟨⟨soon, all⟩, kept⟩
      · exact .inr ⟨fun both => some both.2, gone⟩

theorem life_of_last_seen (lacking : List Update) (last : LastSeen pid history seen lacking) :
    lifeOf pid history = lacking.foldl (liveOn pid) (some (.alive seen)) := by
  obtain ⟨⟨before, rfl⟩, listed, -⟩ := last
  rw [lifeOf, foldl_append, foldl_cons, live_on_listed pid listed]

theorem life_alive (lives : lifeOf pid history = some (.alive seen)) : LastSeen pid history seen [] := by
  cases history using List.reverseRecOn with
  | nil => cases lives
  | append_singleton before update =>
    rw [life_of_concat] at lives
    by_cases listed : pid ∈ update.pids
    · rw [live_on_listed _ listed] at lives
      cases lives
      exact ⟨⟨before, rfl⟩, listed, forall_mem_nil _⟩
    · unfold liveOn at lives
      rw [if_neg listed] at lives
      split at lives
      · cases lives
      · cases lives
      · split at lives <;> cases lives

theorem life_lacking {seen first : Update} {more : List Update} (last : LastSeen pid history seen (first :: more)) :
    ((∀ update ∈ more, update.now - first.now ≤ storeKillDelayUs) ∧ lifeOf pid history = some (.dying seen first.now)) ∨
    ((¬ ∀ update ∈ more, update.now - first.now ≤ storeKillDelayUs) ∧ lifeOf pid history = none) := by
  obtain ⟨-, -, absent⟩ := id last
  rw [forall_mem_cons] at absent
  rw [life_of_last_seen pid history seen _ last, foldl_cons, liveOn, if_neg absent.1]
  exact life_dying pid seen more absent.2

theorem life_died {since} (lives : lifeOf pid history = some (.dying seen since)) :
    ∃ first more, LastSeen pid history seen (first :: more) ∧ since = first.now := by
  rcases last_seen_or_never pid history with ⟨other, lacking, last⟩ | never
  · cases lacking with
    | nil =>
      rw [life_of_last_seen pid history other [] last] at lives
      cases lives
    | cons first more =>
      rcases life_lacking pid history last with ⟨-, dying⟩ | ⟨-, gone⟩
      · rw [dying] at lives
        cases lives
        exact ⟨first, more, last, rfl⟩
      · rw [gone] at lives
        cases lives
  · rw [lifeOf, life_never pid history never] at lives
    cases lives

end

def Shows (store : ProcStore) (rec : ProcRecord) : Life → Prop
  | .alive seen => rec.mark = .born rec.pid ∧ ∃ src ∈ seen.snap.entries, Copied src seen.snap rec.entry store
  | .dying seen since =>
    rec.mark = ⟨rec.pid, .dying, since⟩ ∧
      ∃ src ∈ seen.snap.entries, Carries rec.entry src (texts seen.snap.strtab src) store

structure Follows (history : List Update) (store : ProcStore) : Prop where
  ht : store.ht = some (indexPids store.pids)
  snapHt : store.snapHt.isSome = true
  terminated : Terminated store.strtab
  few : store.extras.length ≤ uint32Max
  distinct : store.pids.Nodup
  small : store.pids.length ≤ storeHtSize
  shown : ∀ rec ∈ store.records, ∃ life, lifeOf rec.pid history = some life ∧ Shows store rec life
  complete : ∀ pid, (lifeOf pid history).isSome = true → pid ∈ store.pids

def storeStep (state : List Update × ProcStore) (action : Update × Heap) : List Update × ProcStore :=
  (state.1 ++ [action.1],
    ((procStoreUpdate action.1.snap action.1.now).run { store := state.2, heap := action.2 }).2.store)

structure Allowed (state : List Update × ProcStore) (action : Update × Heap) : Prop where
  distinct : action.1.pids.Nodup
  few : (state.2.pids ++ action.1.pids).toFinset.card ≤ storeHtSize
  ordered : ∀ earlier ∈ state.1, earlier.now ≤ action.1.now
  granted : ∀ request, action.2.grant request = true
  fits : ((procStoreUpdate action.1.snap action.1.now).run { store := state.2, heap := action.2 }).2.refused = false

section

variable (held : List Int32) {rest : List Int32}

theorem length_small (distinct : rest.Nodup) (inside : rest ⊆ held) (few : held.toFinset.card ≤ storeHtSize) :
    rest.length ≤ storeHtSize := by
  rw [← toFinset_card_of_nodup distinct]
  refine le_trans (Finset.card_le_card fun pid mem => ?_) few
  rw [mem_toFinset] at mem ⊢
  exact inside mem

theorem fresh_small (distinct : rest.Nodup) (few : (held ++ rest.filter (· ∉ held)).length ≤ storeHtSize) :
    fresh held rest = rest.filter (· ∉ held) := by
  induction rest generalizing held with
  | nil => rfl
  | cons pid rest ih =>
    rw [nodup_cons] at distinct
    have whole : held.take storeHtSize = held := by
      rw [length_append] at few
      exact take_of_length_le (by omega)
    by_cases present : pid ∈ held
    · have skipped : (pid :: rest).filter (· ∉ held) = rest.filter (· ∉ held) := by simp [present]
      rw [skipped] at few ⊢
      rw [fresh, whole, if_pos present]
      exact ih held distinct.2 few
    · have kept : (pid :: rest).filter (· ∉ held) = pid :: rest.filter (· ∉ held) := by simp [present]
      have same : rest.filter (· ∉ held ++ [pid]) = rest.filter (· ∉ held) := by
        refine filter_congr fun other mem => ?_
        have different : other ≠ pid := fun equal => distinct.1 (equal ▸ mem)
        simp [different]
      rw [kept] at few ⊢
      rw [fresh, whole, if_neg present, ih (held ++ [pid]) distinct.2 (by rw [same]; simpa using few), same]

end

theorem listed_iff {snap} (distinct : (snapPids snap).Nodup) (few : (snapPids snap).length ≤ storeHtSize)
    (pid : Int32) : listed snap pid ↔ pid ∈ snapPids snap := by
  have whole := take_of_length_le few
  rw [listed, ht_find_some_iff (by rwa [whole]), whole]

theorem saved_texts {tab} (oldStrtab : StrTab) {entry : ProcEntry} {wanted}
    (saved : SavedFrom tab oldStrtab)
    (strings : List.Forall₂ (Holds tab) entry.refs wanted) : texts oldStrtab entry = wanted := by
  have same (ref : StrRef) (s : Ipc.Bytes) (holds : Holds tab ref s) : procStr oldStrtab ref.off = s := by
    rcases saved with equal | ⟨short, empty⟩
    · rw [← holds.reads, procStr, procStr, equal]
    · have inside := holds.inside
      have first : ref.off = 0 := by omega
      rw [← holds.reads, first]
      rfl
  rw [texts]
  generalize entry.refs = refs at strings
  induction strings with
  | nil => rfl
  | cons holds _ ih => rw [map_cons, same _ _ holds, ih]

theorem shows_status {store} {rec} {life} (shows : Shows store rec life) :
    rec.status ≠ .killed := by
  cases life with
  | alive seen => exact fun killed => by simpa [ProcRecord.mark, Mark.born, killed] using shows.1
  | dying seen since => exact fun killed => by simpa [ProcRecord.mark, killed] using shows.1

variable (update : Update)

theorem aged_shows (store next : ProcStore) (oldStrtab : StrTab) (rec after : ProcRecord) (life : Life)
    (distinct : update.pids.Nodup) (few : update.pids.length ≤ storeHtSize) (saved : SavedFrom store.strtab oldStrtab)
    (shows : Shows store rec life) (refreshed : Refreshed update.snap update.now oldStrtab rec after next)
    (alive : after.status ≠ .killed) :
    after.pid = rec.pid ∧ ∃ later, liveOn rec.pid (some life) update = some later ∧ Shows next after later := by
  obtain ⟨mark, contents⟩ := refreshed
  have kept := contents (shows_status shows)
  have pid : after.pid = rec.pid := (congrArg Mark.pid mark).trans (aged_pid _ _ _)
  refine ⟨pid, ?_⟩
  unfold Kept at kept
  have here := listed_iff distinct few rec.pid
  cases found : sourceOf update.snap rec.pid with
  | some src =>
    have hit : listed update.snap rec.pid := by rw [listed, ← source_of_isSome, found]; rfl
    rw [found] at kept
    rw [hit] at mark
    refine ⟨.alive update, live_on_listed _ (here.mp hit), ?_, src, (source_of_some found).1, kept⟩
    cases life with
    | alive seen | dying seen since => rw [mark, shows.1, pid]; rfl
  | none =>
    have missed : listed update.snap rec.pid = false := by rw [listed, ← source_of_isSome, found]; rfl
    have absent : rec.pid ∉ update.pids := fun mem => by simpa [missed] using here.mpr mem
    rw [found] at kept
    rw [missed] at mark
    cases life with
    | alive seen =>
      obtain ⟨born, src, mem, copied⟩ := shows
      refine ⟨.dying seen update.now, by simp [liveOn, absent], ?_, src, mem, kept.plain.trans copied.carries.plain, ?_⟩
      · rw [mark, born, pid]
        rfl
      · rw [← saved_texts oldStrtab saved copied.carries.strings]
        exact kept.strings
    | dying seen since =>
      obtain ⟨dying, src, mem, carries⟩ := shows
      by_cases late : update.now - since > storeKillDelayUs
      · rw [dying] at mark
        have killed : after.mark.status = .killed := by rw [mark]; simp [Mark.aged, late]
        exact absurd killed alive
      · refine ⟨.dying seen since, by simp [liveOn, absent, late], ?_, src, mem, kept.plain.trans carries.plain, ?_⟩
        · rw [mark, dying, pid]
          simp [Mark.aged, late]
        · rw [← saved_texts oldStrtab saved carries.strings]
          exact kept.strings

theorem updated_pids_sublist (snap : ProcSnapshot) (now : Int) (marks : List Mark) :
    List.Sublist ((updatedMarks snap now marks).map Mark.pid)
    (marks.map Mark.pid ++ fresh (marks.map Mark.pid) (snapPids snap)) := by
  have born (pids : List Int32) : (pids.map Mark.born).map Mark.pid = pids := by simp [Mark.born, Function.comp_def]
  have whole : (agedMarks snap now marks ++ (fresh (marks.map Mark.pid) (snapPids snap)).map Mark.born).map Mark.pid =
      marks.map Mark.pid ++ fresh (marks.map Mark.pid) (snapPids snap) := by
    rw [map_append, aged_marks_pids, born]
  rw [← whole]
  exact filter_sublist.map Mark.pid

theorem updated_pids_nodup {marks : List Mark} (distinct : (marks.map Mark.pid).Nodup) (listed : update.pids.Nodup)
    (few : (marks.map Mark.pid ++ update.pids).toFinset.card ≤ storeHtSize) :
    fresh (marks.map Mark.pid) update.pids = update.pids.filter (· ∉ marks.map Mark.pid) ∧
    ((updatedMarks update.snap update.now marks).map Mark.pid).Nodup ∧
    ((updatedMarks update.snap update.now marks).map Mark.pid).length ≤ storeHtSize := by
  have apart : (marks.map Mark.pid ++ update.pids.filter (· ∉ marks.map Mark.pid)).Nodup := by
    refine nodup_append.mpr ⟨distinct, listed.filter _, fun pid held other new same => ?_⟩
    rw [mem_filter, decide_eq_true_eq] at new
    exact new.2 (same ▸ held)
  have room := length_small _ apart (append_subset.mpr ⟨subset_append_left _ _,
    fun pid mem => mem_append_right _ (mem_of_mem_filter mem)⟩) few
  have added := fresh_small (marks.map Mark.pid) listed room
  have kept := updated_pids_sublist update.snap update.now marks
  rw [← Update.pids, added] at kept
  exact ⟨added, kept.nodup apart, le_trans kept.length_le room⟩

theorem aged_stays {store} (rec : ProcRecord) (life : Life) {update : Update} (shows : Shows store rec life)
    (distinct : update.pids.Nodup) (few : update.pids.length ≤ storeHtSize)
    (remains : (liveOn rec.pid (some life) update).isSome) :
    (rec.mark.aged (listed update.snap rec.pid) update.now).status ≠ .killed := by
  by_cases present : rec.pid ∈ update.pids
  · rw [(listed_iff distinct few rec.pid).mpr present]
    cases life with
    | alive seen | dying seen since => rw [shows.1]; exact fun killed => by cases killed
  · have missed : listed update.snap rec.pid = false :=
      eq_false_of_ne_true fun hit => present ((listed_iff distinct few rec.pid).mp hit)
    rw [missed]
    cases life with
    | alive seen => rw [shows.1]; exact fun killed => by cases killed
    | dying seen since =>
      rw [shows.1]
      by_cases late : update.now - since > storeKillDelayUs
      · simp [liveOn, present, late] at remains
      · simp [Mark.aged, late]

theorem step_follows {history} {store} {update : Update} {heap : Heap}
    (follows : Follows history store) (allowed : Allowed (history, store) (update, heap)) :
    Follows (history ++ [update]) (storeStep (history, store) (update, heap)).2 := by
  have indexed : Indexed { store, heap } := ⟨follows.ht, follows.snapHt, allowed.granted⟩
  have held : store.pids.length ≤ storeHtSize :=
    length_small _ follows.distinct (subset_append_left _ _) allowed.few
  have brought : update.pids.length ≤ storeHtSize :=
    length_small _ allowed.distinct (subset_append_right _ _) allowed.few
  have distinct : (store.pids.take storeHtSize).Nodup := by
    rw [take_of_length_le held]
    exact follows.distinct
  obtain ⟨ht, snapHt, marks⟩ := update_marks update.snap update.now { store, heap } indexed distinct
  obtain ⟨ready, oldStrtab, saved, furnished⟩ := update_contents update.snap update.now { store, heap } indexed
    ⟨follows.terminated, follows.few⟩ distinct allowed.fits
  have few := allowed.few
  simp only [pids_marks] at few
  obtain ⟨added, apart, room⟩ := updated_pids_nodup update (pids_marks store ▸ follows.distinct) allowed.distinct few
  change Follows _ ((procStoreUpdate update.snap update.now).run { store, heap }).2.store
  generalize ((procStoreUpdate update.snap update.now).run { store, heap }).2 = after at ht snapHt marks ready furnished ⊢
  refine ⟨ht, snapHt, ready.terminated, ready.few, ?_, ?_, fun rec mem => ?_, fun pid lives => ?_⟩
  · rw [pids_marks, marks]
    exact apart
  · rw [pids_marks, marks]
    exact room
  · obtain ⟨alive, source⟩ := furnished rec mem
    rcases source with ⟨old, was, refreshed⟩ | ⟨src, listed, born, copied⟩
    · obtain ⟨life, lived, shows⟩ := follows.shown old was
      obtain ⟨same, later, lives, shown⟩ := aged_shows update store after.store oldStrtab old rec life allowed.distinct
        brought saved shows refreshed alive
      exact ⟨later, by rw [life_of_concat, same, lived, lives], shown⟩
    · have pid : rec.pid = src.pid := congrArg Mark.pid born
      refine ⟨.alive update, ?_, by rw [born, pid], src, listed, copied⟩
      rw [life_of_concat, pid]
      exact live_on_listed _ (mem_map_of_mem listed)
  · rw [life_of_concat] at lives
    rw [pids_marks, marks, updatedMarks, mem_map]
    by_cases known : pid ∈ store.pids
    · obtain ⟨rec, mem, rfl⟩ := mem_map.mp known
      obtain ⟨life, lived, shows⟩ := follows.shown rec mem
      rw [lived] at lives
      refine ⟨rec.mark.aged (listed update.snap rec.pid) update.now, mem_filter.mpr ⟨?_, ?_⟩, aged_pid _ _ _⟩
      · exact mem_append_left _ (mem_map.mpr ⟨rec.mark, mem_map_of_mem mem, rfl⟩)
      · exact decide_eq_true (aged_stays rec life shows allowed.distinct brought lives)
    · have unknown : lifeOf pid history = none := by
        by_contra lived
        exact known (follows.complete pid (Option.isSome_iff_ne_none.mpr lived))
      have listed : pid ∈ update.pids := by
        by_contra absent
        rw [unknown, liveOn, if_neg absent] at lives
        cases lives
      refine ⟨.born pid, mem_filter.mpr ⟨mem_append_right _ (mem_map_of_mem ?_), rfl⟩, rfl⟩
      rw [← Update.pids, added, mem_filter]
      exact ⟨listed, by simpa [← pids_marks] using known⟩

section

def ProcStore.row (store : ProcStore) (entry : ProcEntry) : Row :=
  ProcSnapshot.row { strtab := store.strtab, extras := store.extras.map some } entry

variable (store : ProcStore) {entry : ProcEntry} (src : ProcEntry) (wanted : List Ipc.Bytes)

theorem carries_pid (carries : Carries entry src wanted store) : entry.pid = src.pid := by
  have same := congrArg ProcEntry.pid carries.plain
  exact same

theorem carries_texts (carries : Carries entry src wanted store) : texts store.strtab entry = wanted :=
  saved_texts store.strtab (.inl rfl) carries.strings

theorem carries_inside
    (carries : Carries entry src wanted store) : ∀ ref ∈ entry.refs, ref.off < store.strtab.buf.length := by
  obtain ⟨-, strings⟩ := carries
  generalize entry.refs = refs at strings
  induction strings with
  | nil => exact forall_mem_nil _
  | cons holds _ ih => exact forall_mem_cons.mpr ⟨holds.inside, ih⟩

theorem copied_row {snap} (src : ProcEntry) {entry}
    (few : store.extras.length ≤ uint32Max) (copied : Copied src snap entry store) : store.row entry = snap.row src := by
  have steam : ProcSnapshot.steam { strtab := store.strtab, extras := store.extras.map some } entry = snap.steam src := by
    have placed := copied.steam
    cases info : snap.steam src with
    | none =>
      rw [info] at placed
      rw [ProcSnapshot.steam, placed, List.getElem?_eq_none (by simpa using few)]
      rfl
    | some held =>
      rw [info] at placed
      rw [ProcSnapshot.steam, List.getElem?_map, placed]
      rfl
  have strings := carries_texts store src _ copied.carries
  simp only [texts, ProcEntry.refs, map_cons, map_nil, List.cons.injEq, and_true] at strings
  obtain ⟨name, cmd, user, cwd, container, service⟩ := strings
  have same := copied.carries.plain
  simp only [plain, ProcEntry.mk.injEq, true_and, and_true] at same
  simp only [ProcStore.row, ProcSnapshot.row, name, cmd, user, cwd, container, service, steam, same]

variable (entry)

structure Lifecycle (history : List Update) (store : ProcStore) : Prop where
  distinct : store.pids.Nodup
  alive : ∀ pid, (∃ rec ∈ store.records, rec.pid = pid ∧ rec.status = .alive) ↔
    ∃ latest ∈ history.getLast?, pid ∈ latest.pids
  row : ∀ rec ∈ store.records, rec.status = .alive →
    ∃ latest ∈ history.getLast?, ∃ src ∈ latest.snap.entries, store.row rec.entry = latest.snap.row src
  died : ∀ rec ∈ store.records, rec.status = .dying →
    ∃ seen first more, LastSeen rec.pid history seen (first :: more) ∧ rec.diedAtUs = first.now
  removed : ∀ pid seen first more, LastSeen pid history seen (first :: more) →
    (pid ∈ store.pids ↔ ∀ update ∈ more, update.now - first.now ≤ storeKillDelayUs)
  unkilled : ∀ rec ∈ store.records, rec.status ≠ .killed
  indexed : ∃ ht, store.ht = some ht ∧ ∀ pid idx, htFind ht pid = some idx ↔ store.pids[idx]? = some pid
  strings : ∀ rec ∈ store.records, ∃ seen lacking, LastSeen rec.pid history seen lacking ∧
    ∃ src ∈ seen.snap.entries, src.pid = rec.pid ∧ texts store.strtab rec.entry = texts seen.snap.strtab src
  inside : ∀ rec ∈ store.records, ∀ ref ∈ rec.entry.refs, ref.off < store.strtab.buf.length

def Starts (state : List Update × ProcStore) : Prop := state = ([], procStoreInit true true true)

theorem reached_follows {state} (reached : Reachable Starts Allowed storeStep state) :
    Follows state.1 state.2 := by
  refine invariant (fun state => Follows state.1 state.2) ?_ ?_ state reached
  · rintro state rfl
    refine ⟨rfl, rfl, rfl, Nat.zero_le _, nodup_nil, Nat.zero_le _, fun rec mem => ?_, fun pid lives => ?_⟩
    · cases mem
    · cases lives
  · intro state action follows allowed
    exact step_follows follows allowed

theorem last_seen_now {pid} {history} {seen} (last : LastSeen pid history seen []) : seen ∈ history.getLast? := by
  obtain ⟨⟨before, rfl⟩, -, -⟩ := last
  simp

section

variable (history : List Update) (store : ProcStore) (follows : Follows history store)

include follows

variable (rec : ProcRecord)

theorem alive_record (mem : rec ∈ store.records) (alive : rec.status = .alive) :
    ∃ seen ∈ history.getLast?, rec.pid ∈ seen.pids ∧ ∃ src ∈ seen.snap.entries, Copied src seen.snap rec.entry store := by
  obtain ⟨life, lives, shows⟩ := follows.shown rec mem
  cases life with
  | alive seen =>
    have last := life_alive _ _ _ lives
    exact ⟨seen, last_seen_now last, last.2.1, shows.2⟩
  | dying seen since =>
    have status : rec.status = .dying := congrArg Mark.status shows.1
    rw [alive] at status
    cases status

theorem alive_listed {latest : Update} (pid : Int32) (last : latest ∈ history.getLast?) (listed : pid ∈ latest.pids) :
    ∃ rec ∈ store.records, rec.pid = pid ∧ rec.status = .alive := by
  obtain ⟨before, rfl⟩ := List.getLast?_eq_some_iff.mp last
  have lives : lifeOf pid (before ++ [latest]) = some (.alive latest) := by
    rw [life_of_concat, live_on_listed _ listed]
  obtain ⟨rec, mem, rfl⟩ := mem_map.mp (follows.complete pid (by rw [lives]; rfl))
  obtain ⟨life, same, shows⟩ := follows.shown rec mem
  rw [lives] at same
  cases same
  exact ⟨rec, mem, rfl, congrArg Mark.status shows.1⟩

theorem dying_record (mem : rec ∈ store.records) (dying : rec.status = .dying) :
    ∃ seen first more, LastSeen rec.pid history seen (first :: more) ∧ rec.diedAtUs = first.now := by
  obtain ⟨life, lives, shows⟩ := follows.shown rec mem
  cases life with
  | alive seen =>
    have status : rec.status = .alive := congrArg Mark.status shows.1
    rw [dying] at status
    cases status
  | dying seen since =>
    obtain ⟨first, more, last, rfl⟩ := life_died _ _ _ lives
    exact ⟨seen, first, more, last, congrArg Mark.diedAtUs shows.1⟩

theorem lacking_record (pid : Int32) (seen first : Update) (more : List Update)
    (last : LastSeen pid history seen (first :: more)) :
    pid ∈ store.pids ↔ ∀ update ∈ more, update.now - first.now ≤ storeKillDelayUs := by
  rcases life_lacking pid history last with ⟨soon, lives⟩ | ⟨late, gone⟩
  · exact iff_of_true (follows.complete pid (by rw [lives]; rfl)) soon
  · refine iff_of_false (fun known => ?_) late
    obtain ⟨rec, mem, rfl⟩ := mem_map.mp known
    obtain ⟨life, lives, -⟩ := follows.shown rec mem
    rw [gone] at lives
    cases lives

theorem indexed_record (pid : Int32) (idx : Nat) :
    htFind (indexPids store.pids) pid = some idx ↔ store.pids[idx]? = some pid := by
  have whole := take_of_length_le follows.small
  rw [ht_find_iff (by rw [whole]; exact follows.distinct)]
  refine and_iff_right_of_imp fun present => ?_
  obtain ⟨inside, -⟩ := List.getElem?_eq_some_iff.mp present
  exact lt_of_lt_of_le inside follows.small

theorem seen_record (mem : rec ∈ store.records) : ∃ seen lacking, LastSeen rec.pid history seen lacking ∧
    ∃ src ∈ seen.snap.entries, Carries rec.entry src (texts seen.snap.strtab src) store := by
  obtain ⟨life, lives, shows⟩ := follows.shown rec mem
  cases life with
  | alive seen =>
    obtain ⟨-, src, listed, copied⟩ := shows
    exact ⟨seen, [], life_alive _ _ _ lives, src, listed, copied.carries⟩
  | dying seen since =>
    obtain ⟨-, src, listed, carries⟩ := shows
    obtain ⟨first, more, last, -⟩ := life_died _ _ _ lives
    exact ⟨seen, first :: more, last, src, listed, carries⟩

end

theorem store_lifecycle (history : List Update) (store : ProcStore)
    (reached : Reachable Starts Allowed storeStep (history, store)) : Lifecycle history store := by
  have follows : Follows history store := reached_follows reached
  constructor
  case distinct => exact follows.distinct
  case alive =>
    intro pid
    constructor
    · rintro ⟨rec, mem, rfl, alive⟩
      obtain ⟨seen, last, listed, -⟩ := alive_record history store follows rec mem alive
      exact ⟨seen, last, listed⟩
    · rintro ⟨latest, last, listed⟩
      exact alive_listed history store follows pid last listed
  case row =>
    intro rec mem alive
    obtain ⟨seen, last, -, src, listed, copied⟩ := alive_record history store follows rec mem alive
    exact ⟨seen, last, src, listed, copied_row store src follows.few copied⟩
  case died => exact dying_record history store follows
  case removed => exact lacking_record history store follows
  case unkilled =>
    intro rec mem
    obtain ⟨life, -, shows⟩ := follows.shown rec mem
    exact shows_status shows
  case indexed => exact ⟨_, follows.ht, indexed_record history store follows⟩
  case strings =>
    intro rec mem
    obtain ⟨seen, lacking, last, src, listed, carries⟩ := seen_record history store follows rec mem
    exact ⟨seen, lacking, last, src, listed, (carries_pid store src _ carries).symm, carries_texts store src _ carries⟩
  case inside =>
    intro rec mem
    obtain ⟨seen, lacking, last, src, listed, carries⟩ := seen_record history store follows rec mem
    exact carries_inside store src _ carries

def namedRow (pid : Int32) : ProcEntry where
  pid := pid
  ppid := 1
  name := ⟨1, 1⟩

def namedSnap (pids : List Int32) : ProcSnapshot := { entries := pids.map namedRow, strtab := ⟨[0, 97, 0], 3⟩ }

def lateReturn : List (Update × Heap) :=
  [(⟨namedSnap [7, 9], 0⟩, allGranted), (⟨namedSnap [9], 5⟩, allGranted), (⟨namedSnap [9], 2000006⟩, allGranted),
    (⟨namedSnap [9, 7], 2000007⟩, allGranted)]

theorem late_return_reached :
    Reachable Starts Allowed storeStep (lateReturn.foldl storeStep ([], procStoreInit true true true)) := by
  have start : Reachable Starts Allowed storeStep ([], procStoreInit true true true) := .start _ rfl
  have first := Reachable.step _ (⟨namedSnap [7, 9], 0⟩, allGranted) start
    ⟨by decide +kernel, by decide +kernel, by decide +kernel, fun _ => rfl, by decide +kernel⟩
  have second := Reachable.step _ (⟨namedSnap [9], 5⟩, allGranted) first
    ⟨by decide +kernel, by decide +kernel, by decide +kernel, fun _ => rfl, by decide +kernel⟩
  have third := Reachable.step _ (⟨namedSnap [9], 2000006⟩, allGranted) second
    ⟨by decide +kernel, by decide +kernel, by decide +kernel, fun _ => rfl, by decide +kernel⟩
  exact Reachable.step _ (⟨namedSnap [9, 7], 2000007⟩, allGranted) third
    ⟨by decide +kernel, by decide +kernel, by decide +kernel, fun _ => rfl, by decide +kernel⟩

theorem store_lifecycle_late_return : (lateReturn.foldl storeStep ([], procStoreInit true true true)).2.pids = [9, 7] ∧
    Lifecycle (lateReturn.foldl storeStep ([], procStoreInit true true true)).1
    (lateReturn.foldl storeStep ([], procStoreInit true true true)).2 :=
  ⟨by decide +kernel, store_lifecycle _ _ late_return_reached⟩

end

end Evemon.Store
