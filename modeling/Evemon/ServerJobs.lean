import Evemon.ServerFraming

-- Which connection an inspector result is handed to. Connections and jobs are numbered as they
-- come: neither slots nor tickets identify them.
namespace Evemon.QueryServer

open Ipc Controls List Function Nat Option

structure Ask where
  connection : Nat
  id : UInt32
  type : UInt16
  outcome : Option (Option IpcCode × Body) := none

structure Delivery where
  job : Nat
  connection : Nat
  frames : List Frame

-- `serial` numbers the connection in a client slot, `asked` the job in a job slot.
structure Watched where
  server : Server
  opened : Nat := 0
  serial : Slot → Nat := fun _ => 0
  asks : List Ask := []
  asked : Slot → Nat := fun _ => 0
  handed : List Delivery := []

def watchReapJob (heap : Slot → Heap) (now : Slot → Int) (w : Watched) (slot : Slot) :
    Watched :=
  let after := reapJob heap now w.server slot
  let found := if (w.server.jobs slot).state = .complete then waiting w.server slot else none
  let delivered := found.toList.map fun j =>
    ⟨w.asked slot, w.serial j, (after.clients j).log.frames.drop (w.server.clients j).log.frames.length⟩
  { w with server := after, handed := w.handed ++ delivered }

def watchAccept (w : Watched) (incoming : Incoming) : Watched :=
  let after := acceptOne w.server incoming
  match (List.finRange clientsMax).find? fun i => (w.server.clients i).fd = none with
  | none => { w with server := after }
  | some slot =>
    if incoming.authorised then
      { w with server := after, opened := w.opened + 1, serial := update w.serial slot w.opened }
    else { w with server := after }

def newJob (before after : Client) : Option Slot := if after.job = before.job then none else after.job

def watchService (cfg : Config) (io : Exchange) (w : Watched) (i : Slot) : Watched :=
  let after := service cfg io w.server i
  match newJob (w.server.clients i) (after.clients i) with
  | none => { w with server := after }
  | some slot =>
    { w with
      server := after
      asks := w.asks ++ [{ connection := w.serial i, id := (after.clients i).incoming.id,
                           type := (after.clients i).incoming.type }]
      asked := update w.asked slot w.asks.length }

def Watched.step (cfg : Config) (w : Watched) (action : Action) : Watched :=
  match action with
  | .reap _ heap replied =>
    let reaped := (List.finRange clientsMax).foldl (watchReapJob heap replied) w
    { reaped with server := QueryServer.step cfg w.server action }
  | .service i io => { watchService cfg io w i with server := QueryServer.step cfg w.server action }
  | .accept incoming => { incoming.foldl watchAccept w with server := QueryServer.step cfg w.server action }
  | .finishJob slot error result =>
    { w with
      server := QueryServer.step cfg w.server action
      asks := w.asks.modify (w.asked slot) fun ask => { ask with outcome := some (error, result) } }
  | _ => { w with server := QueryServer.step cfg w.server action }

def Watched.Initial (w : Watched) : Prop := QueryServer.Initial w.server ∧ w = { server := w.server }

def WatchedReached (cfg : Config) (w : Watched) : Prop :=
  Runs.Reachable Watched.Initial (fun w => Allowed w.server) (Watched.step cfg) w

def Continues (cfg : Config) (w later : Watched) : Prop :=
  Runs.Reachable (· = w) (fun w => Allowed w.server) (Watched.step cfg) later

theorem watched_step_server (cfg : Config) (w : Watched) (action : Action) :
    (w.step cfg action).server = QueryServer.step cfg w.server action := by
  cases action <;> rfl

theorem watch_reap_server (heap : Slot → Heap) (now : Slot → Int) (slots : List Slot)
    (w : Watched) : (slots.foldl (watchReapJob heap now) w).server = slots.foldl (reapJob heap now) w.server := by
  induction slots generalizing w with
  | nil => rfl
  | cons slot rest ih => exact ih _

theorem watch_accept_one_server (w : Watched) (incoming : Incoming) :
    (watchAccept w incoming).server = acceptOne w.server incoming := by
  unfold watchAccept
  split
  · rfl
  · split
    · rfl
    · rfl

theorem watch_accept_server (incoming : List Incoming) (w : Watched) :
    (incoming.foldl watchAccept w).server = incoming.foldl acceptOne w.server := by
  induction incoming generalizing w with
  | nil => rfl
  | cons first rest ih =>
    rw [foldl_cons, foldl_cons, ih, watch_accept_one_server]

section

def Ask.AnsweredBy (ask : Ask) (frames : List Frame) : Prop :=
  ∃ error result frame, ask.outcome = some (error, result) ∧ frames = [frame] ∧ frame.id = ask.id ∧
    match error with
    | none => frame.type = ask.type ||| ipcReply ∧ frame.body = result
    | some _ => frame.type = ipcError

structure JobInv (w : Watched) : Prop where
  sane : Sane w.server.clients w.server.jobs
  serials : ∀ i, (w.server.clients i).fd.isSome = true → w.serial i < w.opened
  distinct : ∀ i j, (w.server.clients i).fd.isSome = true → (w.server.clients j).fd.isSome = true →
    w.serial i = w.serial j → i = j
  tracked : ∀ slot, (w.server.jobs slot).state ≠ .free → w.asked slot < w.asks.length
  finished : ∀ slot ask, (w.server.jobs slot).state = .complete → w.asks[w.asked slot]? = some ask →
    ask.outcome = some ((w.server.jobs slot).error, (w.server.jobs slot).result)
  apart : ∀ a b, (w.server.jobs a).state ≠ .free → (w.server.jobs b).state ≠ .free → w.asked a = w.asked b → a = b
  unhanded : ∀ slot, (w.server.jobs slot).state ≠ .free → ∀ d ∈ w.handed, d.job ≠ w.asked slot
  owner : ∀ i slot ask, (w.server.clients i).job = some slot → w.asks[w.asked slot]? = some ask →
    ask.connection = w.serial i ∧ ask.id = (w.server.clients i).incoming.id ∧
      ask.type = (w.server.clients i).incoming.type
  once : (w.handed.map Delivery.job).Nodup
  requester : ∀ d ∈ w.handed, ∃ ask, w.asks[d.job]? = some ask ∧ d.connection = ask.connection ∧ ask.AnsweredBy d.frames

variable (cfg : Config) (w : Watched) (after : Server)

theorem inv_clients (inv : JobInv w) (sane : Sane after.clients after.jobs) (jobs : after.jobs = w.server.jobs)
    (open_ : ∀ i, (after.clients i).fd.isSome → (w.server.clients i).fd.isSome)
    (held : ∀ i slot, (after.clients i).job = some slot →
      (w.server.clients i).job = some slot ∧ (after.clients i).incoming = (w.server.clients i).incoming) :
    JobInv { w with server := after } where
  sane := sane
  serials i opened := inv.serials i (open_ i opened)
  distinct i j first second := inv.distinct i j (open_ i first) (open_ j second)
  tracked slot := by
    rw [jobs]
    exact inv.tracked slot
  finished slot ask := by
    rw [jobs]
    exact inv.finished slot ask
  apart a b := by
    rw [jobs]
    exact inv.apart a b
  unhanded slot := by
    rw [jobs]
    exact inv.unhanded slot
  owner i slot ask holds found := by
    obtain ⟨before, incoming⟩ := held i slot holds
    rw [incoming]
    exact inv.owner i slot ask before found
  once := inv.once
  requester := inv.requester

section

-- The slot was free, so every other record is about another job.
variable {w after} {slot : Slot} {job : Job} (inv : JobInv w)
  (jobs : after.jobs = update w.server.jobs slot job) {other : Slot}

omit inv in
theorem ask_earlier {asks : List Ask} {index : Nat} {ask new : Ask} (inside : index < asks.length)
    (found : (asks ++ [new])[index]? = some ask) : asks[index]? = some ask := by
  rwa [List.getElem?_append_left inside] at found

include jobs

theorem queued_elsewhere (away : other ≠ slot) : after.jobs other = w.server.jobs other := by
  rw [jobs, update_of_ne away]

include inv

theorem queued_inside (away : other ≠ slot) (busy : (after.jobs other).state ≠ .free) : w.asked other < w.asks.length :=
  inv.tracked other (queued_elsewhere jobs away ▸ busy)

theorem queued_finished (state : job.state = .queued) {ask new : Ask} (complete : (after.jobs other).state = .complete)
    (found : (w.asks ++ [new])[update w.asked slot w.asks.length other]? = some ask) :
    ask.outcome = some ((after.jobs other).error, (after.jobs other).result) := by
  by_cases here : other = slot
  · simp only [here, jobs, update_self, state] at complete
    cases complete
  · have inside := queued_inside inv jobs here (by simp [complete])
    rw [update_of_ne here] at found
    rw [queued_elsewhere jobs here] at complete ⊢
    exact inv.finished other ask complete (ask_earlier inside found)

theorem queued_apart {a b} (busyA : (after.jobs a).state ≠ .free) (busyB : (after.jobs b).state ≠ .free)
    (equal : update w.asked slot w.asks.length a = update w.asked slot w.asks.length b) : a = b := by
  by_cases hereA : a = slot
  · by_cases hereB : b = slot
    · rw [hereA, hereB]
    · have inside := queued_inside inv jobs hereB busyB
      rw [hereA, update_self, update_of_ne hereB] at equal
      omega
  · have insideA := queued_inside inv jobs hereA busyA
    by_cases hereB : b = slot
    · rw [hereB, update_self, update_of_ne hereA] at equal
      omega
    · rw [update_of_ne hereA, update_of_ne hereB] at equal
      rw [queued_elsewhere jobs hereA] at busyA
      rw [queued_elsewhere jobs hereB] at busyB
      exact inv.apart a b busyA busyB equal

theorem queued_unhanded (busy : (after.jobs other).state ≠ .free) {d : Delivery} (mem : d ∈ w.handed) :
    d.job ≠ update w.asked slot w.asks.length other := by
  by_cases here : other = slot
  · obtain ⟨ask, found, _⟩ := inv.requester d mem
    rw [here, update_self]
    exact Nat.ne_of_lt (List.getElem?_eq_some_iff.mp found).1
  · rw [update_of_ne here]
    rw [queued_elsewhere jobs here] at busy
    exact inv.unhanded other busy d mem

variable {i : Slot} (others : ∀ j, j ≠ i → after.clients j = w.server.clients j)

include others

omit jobs in
theorem queued_owner (free : (w.server.jobs slot).state = .free) {j : Slot} (away : j ≠ i)
    (held : (after.clients j).job = some other) {ask new : Ask}
    (found : (w.asks ++ [new])[update w.asked slot w.asks.length other]? = some ask) :
    ask.connection = w.serial j ∧ ask.id = (after.clients j).incoming.id ∧ ask.type = (after.clients j).incoming.type := by
  rw [others j away] at held ⊢
  have busy := (inv.sane.held j other held).1
  have elsewhere : other ≠ slot := fun equal => busy (equal ▸ free)
  rw [update_of_ne elsewhere] at found
  exact inv.owner j other ask held (ask_earlier (inv.tracked other busy) found)

theorem inv_queued (sane : Sane after.clients after.jobs) (free : (w.server.jobs slot).state = .free)
    (state : job.state = .queued) (opened : (w.server.clients i).fd.isSome)
    (holds : (after.clients i).job = some slot) :
    JobInv { w with
      server := after
      asks := w.asks ++ [{ connection := w.serial i, id := (after.clients i).incoming.id,
                           type := (after.clients i).incoming.type }]
      asked := update w.asked slot w.asks.length } := by
  have open_ (j : Slot) (there : (after.clients j).fd.isSome) : (w.server.clients j).fd.isSome := by
    by_cases here : j = i
    · rw [here]
      exact opened
    · rwa [others j here] at there
  refine ⟨sane, fun j there => inv.serials j (open_ j there),
    fun a b first second => inv.distinct a b (open_ a first) (open_ b second), fun other busy => ?_,
    fun _ _ => queued_finished inv jobs state, fun _ _ => queued_apart inv jobs,
    fun _ busy _ => queued_unhanded inv jobs busy, fun j other ask held found => ?_, inv.once, fun d mem => ?_⟩
  · rw [length_append]
    by_cases here : other = slot
    · simp [here]
    · have inside := queued_inside inv jobs here busy
      simp only [update_of_ne here, length_singleton]
      omega
  · by_cases here : j = i
    · subst here
      obtain rfl : slot = other := Option.some.inj (holds.symm.trans held)
      simp only [update_self, List.getElem?_concat_length, Option.some.injEq] at found
      subst found
      exact ⟨rfl, rfl, rfl⟩
    · exact queued_owner inv others free here held found
  · obtain ⟨ask, found, answered⟩ := inv.requester d mem
    refine ⟨ask, ?_, answered⟩
    rw [List.getElem?_append_left (List.getElem?_eq_some_iff.mp found).1]
    exact found

end

theorem inv_started (slot : Slot) (inv : JobInv w) (queued : (w.server.jobs slot).state = .queued) {jobs : Jobs}
    (started : jobs = update w.server.jobs slot { w.server.jobs slot with state := .running }) :
    JobInv { w with server := { w.server with jobs := jobs } } := by
  have busy (other : Slot) (still : (jobs other).state ≠ .free) : (w.server.jobs other).state ≠ .free := by
    by_cases here : other = slot
    · simp [here, queued]
    · rwa [started, update_of_ne here] at still
  refine ⟨?_, inv.serials, inv.distinct, fun other still => inv.tracked other (busy other still), ?_,
    fun a b first second => inv.apart a b (busy a first) (busy b second),
    fun other still => inv.unhanded other (busy other still), inv.owner, inv.once, inv.requester⟩
  · rw [started]
    exact sane_progress inv.sane slot (by simp) rfl
  · intro other ask complete found
    by_cases here : other = slot
    · simp only [started, here, update_self] at complete
      cases complete
    · simp only [started, update_of_ne here] at complete ⊢
      exact inv.finished other ask complete found

theorem inv_finished (slot : Slot) (error : Option IpcCode) (result : Body) (inv : JobInv w)
    (running : (w.server.jobs slot).state = .running) {jobs : Jobs} (ended : jobs = update w.server.jobs slot
      { w.server.jobs slot with state := .complete, error := error, result := result }) :
    JobInv { w with
      server := { w.server with jobs := jobs }
      asks := w.asks.modify (w.asked slot) fun ask => { ask with outcome := some (error, result) } } := by
  have busy (other : Slot) (still : (jobs other).state ≠ .free) : (w.server.jobs other).state ≠ .free := by
    by_cases here : other = slot
    · simp [here, running]
    · rwa [ended, update_of_ne here] at still
  have ran : (w.server.jobs slot).state ≠ .free := by simp [running]
  have elsewhere (index : Nat) (away : index ≠ w.asked slot) (change : Ask → Ask) :
      (w.asks.modify (w.asked slot) change)[index]? = w.asks[index]? := by
    rw [List.getElem?_modify_ne _ _ (Ne.symm away)]
  refine ⟨?_, inv.serials, inv.distinct, fun other still => ?_, ?_,
    fun a b first second => inv.apart a b (busy a first) (busy b second),
    fun other still => inv.unhanded other (busy other still), ?_, inv.once, ?_⟩
  · rw [ended]
    exact sane_progress inv.sane slot (by simp) rfl
  · rw [length_modify]
    exact inv.tracked other (busy other still)
  · intro other ask complete found
    by_cases here : other = slot
    · subst here
      simp only [List.getElem?_modify_eq, Option.map_eq_map, Option.map_eq_some_iff] at found
      obtain ⟨before, _, same⟩ := found
      simp only [← same, ended, update_self]
    · simp only [ended, update_of_ne here] at complete ⊢
      have away : w.asked other ≠ w.asked slot := fun equal => here (inv.apart other slot (by simp [complete]) ran equal)
      rw [elsewhere _ away] at found
      exact inv.finished other ask complete found
  · intro i other ask holds found
    by_cases here : w.asked other = w.asked slot
    · simp only [here, List.getElem?_modify_eq, Option.map_eq_map, Option.map_eq_some_iff] at found
      obtain ⟨before, recorded, same⟩ := found
      simp only [← same]
      exact inv.owner i other before holds (by rw [here]; exact recorded)
    · rw [elsewhere _ here] at found
      exact inv.owner i other ask holds found
  · intro d mem
    obtain ⟨ask, found, answered⟩ := inv.requester d mem
    refine ⟨ask, ?_, answered⟩
    rw [elsewhere _ (inv.unhanded slot ran d mem)]
    exact found

theorem reap_client_frames (c : Client) (job : Job) (heap : Heap) (now : Int) :
    ∃ frame, (reapClient c job heap now).log.frames = c.log.frames ++ [frame] ∧ frame.id = c.incoming.id ∧
      match job.error with
      | none => frame.type = c.incoming.type ||| ipcReply ∧ frame.body = job.result
      | some _ => frame.type = ipcError := by
  unfold reapClient
  cases job.error with
  | none => exact ⟨_, rfl, rfl, rfl, rfl⟩
  | some code => exact ⟨_, rfl, rfl, rfl⟩

theorem inv_reaped (heap : Slot → Heap) (now : Slot → Int) {w} {slot}
    (inv : JobInv w) (complete : (w.server.jobs slot).state = .complete) (new : List Delivery)
    (single : (new.map Delivery.job).Nodup) (about : ∀ d ∈ new, d.job = w.asked slot)
    (fits : ∀ d ∈ new, ∃ ask, w.asks[d.job]? = some ask ∧ d.connection = ask.connection ∧ ask.AnsweredBy d.frames) :
    JobInv { w with server := reapJob heap now w.server slot, handed := w.handed ++ new } := by
  have busy : (w.server.jobs slot).state ≠ .free := by simp [complete]
  have elsewhere (other : Slot) (still : ((reapJob heap now w.server slot).jobs other).state ≠ .free) :
      other ≠ slot ∧ (reapJob heap now w.server slot).jobs other = w.server.jobs other := by
    have away : other ≠ slot := by
      intro here
      simp [reapJob, complete, here] at still
    exact ⟨away, reap_job_other w.server heap now away⟩
  have before (other : Slot) (still : ((reapJob heap now w.server slot).jobs other).state ≠ .free) :
      (w.server.jobs other).state ≠ .free := by
    rwa [(elsewhere other still).2] at still
  refine ⟨reap_job_sane w.server slot heap now inv.sane, fun i => ?_, fun i j => ?_,
    fun other still => inv.tracked other (before other still), ?_,
    fun a b first second => inv.apart a b (before a first) (before b second), ?_, ?_, ?_, ?_⟩
  · rw [reap_job_fd]
    exact inv.serials i
  · rw [reap_job_fd, reap_job_fd]
    exact inv.distinct i j
  · intro other ask done found
    change ((reapJob heap now w.server slot).jobs other).state = .complete at done
    have same := (elsewhere other (by simp [done])).2
    rw [same] at done ⊢
    exact inv.finished other ask done found
  · intro other still d mem
    rcases mem_append.mp mem with old | fresh
    · exact inv.unhanded other (before other still) d old
    · rw [about d fresh]
      exact fun equal => (elsewhere other still).1 (inv.apart other slot (before other still) busy equal.symm)
  · intro i other ask holds found
    rcases reap_job_client w.server heap now i with same | ⟨_, gone⟩
    · rw [same] at holds ⊢
      exact inv.owner i other ask holds found
    · rw [gone] at holds
      cases holds
  · rw [map_append]
    refine nodup_append.mpr ⟨inv.once, single, fun old earlier fresh later => ?_⟩
    obtain ⟨d, mem, rfl⟩ := mem_map.mp earlier
    obtain ⟨e, added, rfl⟩ := mem_map.mp later
    rw [about e added]
    exact inv.unhanded slot busy d mem
  · intro d mem
    rcases mem_append.mp mem with old | fresh
    · exact inv.requester d old
    · exact fits d fresh

theorem inv_reap_job (heap : Slot → Heap) (now : Slot → Int) (w : Watched) (slot : Slot)
    (inv : JobInv w) : JobInv (watchReapJob heap now w slot) := by
  by_cases complete : (w.server.jobs slot).state = .complete
  · rw [watchReapJob, if_pos complete]
    have reaped := inv_reaped heap now inv complete
    cases found : waiting w.server slot with
    | none => exact reaped [] .nil (by simp) (by simp)
    | some j =>
      have holds := (waiting_some w.server found).2
      obtain ⟨ask, recorded⟩ : ∃ ask, w.asks[w.asked slot]? = some ask :=
        ⟨_, List.getElem?_eq_getElem (inv.tracked slot (by simp [complete]))⟩
      obtain ⟨connection, id, type⟩ := inv.owner j slot ask holds recorded
      obtain ⟨frame, frames, sameId, kind⟩ := reap_client_frames (w.server.clients j) (w.server.jobs slot) (heap slot)
        (now slot)
      have added : ((reapJob heap now w.server slot).clients j).log.frames.drop (w.server.clients j).log.frames.length =
          [frame] := by
        rw [reapJob, if_pos complete, handOver, found]
        simp only [Server.setClient, update_self, frames, drop_left]
      refine reaped _ (by simp) (by simp) fun d mem => ?_
      simp only [toList_some, map_cons, map_nil, mem_singleton] at mem
      subst mem
      refine ⟨ask, recorded, connection.symm, _, _, frame, inv.finished slot ask complete recorded, added, ?_, ?_⟩
      · rw [sameId, id]
      · rw [type]
        exact kind
  · have same : watchReapJob heap now w slot = w := by
      simp [watchReapJob, reapJob, complete]
    rw [same]
    exact inv

def newcomer (s : Server) (incoming : Incoming) : Client :=
  { fd := some incoming.fd, ticket := s.ticket + 1, expected := ipcHeaderSize, deadline := s.now + ipcTimeoutMs }

theorem watch_accept_cases (w : Watched) (incoming : Incoming) : watchAccept w incoming = w ∨
    ∃ slot, watchAccept w incoming = { w with
      server := { w.server.setClient slot (newcomer w.server incoming) with ticket := w.server.ticket + 1 }
      opened := w.opened + 1
      serial := update w.serial slot w.opened } := by
  unfold watchAccept acceptOne
  cases (List.finRange clientsMax).find? fun i => (w.server.clients i).fd = none with
  | none => exact .inl rfl
  | some slot =>
    cases incoming.authorised with
    | false => exact .inl rfl
    | true => exact .inr ⟨slot, rfl⟩

theorem inv_accept (incoming : Incoming) (inv : JobInv w) : JobInv (watchAccept w incoming) := by
  have sane := accept_one_sane incoming inv.sane
  rw [← watch_accept_one_server] at sane
  obtain same | ⟨slot, after⟩ := watch_accept_cases w incoming
  · rwa [same]
  rw [after] at sane ⊢
  have fresh (i : Slot) (opened : (update w.server.clients slot (newcomer w.server incoming) i).fd.isSome)
      (away : i ≠ slot) : (w.server.clients i).fd.isSome := by
    rwa [update_of_ne away] at opened
  refine ⟨sane, fun i opened => ?_, fun i j first second equal => ?_, inv.tracked, inv.finished, inv.apart,
    inv.unhanded, fun i other ask holds recorded => ?_, inv.once, inv.requester⟩
  · by_cases here : i = slot
    · simp [here]
    · have before := inv.serials i (fresh i opened here)
      simp only [update_of_ne here]
      omega
  · by_cases hereI : i = slot
    · by_cases hereJ : j = slot
      · rw [hereI, hereJ]
      · have before := inv.serials j (fresh j second hereJ)
        simp only [hereI, update_self, update_of_ne hereJ] at equal
        omega
    · have before := inv.serials i (fresh i first hereI)
      by_cases hereJ : j = slot
      · simp only [hereJ, update_self, update_of_ne hereI] at equal
        omega
      · simp only [update_of_ne hereI, update_of_ne hereJ] at equal
        exact inv.distinct i j (fresh i first hereI) (fresh j second hereJ) equal
  · by_cases here : i = slot
    · simp only [here, Server.setClient, update_self] at holds
      cases holds
    · simp only [Server.setClient, update_of_ne here] at holds recorded ⊢
      exact inv.owner i other ask holds recorded

theorem inv_same_tables (inv : JobInv w) (clients : after.clients = w.server.clients)
    (jobs : after.jobs = w.server.jobs) : JobInv { w with server := after } := by
  refine inv_clients w after inv ?_ jobs (fun i opened => ?_) fun i slot holds => ?_
  · rw [clients, jobs]
    exact inv.sane
  · rwa [clients] at opened
  · rw [clients] at holds ⊢
    exact ⟨holds, rfl⟩

theorem inv_reap (heap : Slot → Heap) (now : Slot → Int) (slots : List Slot) (w : Watched)
    (inv : JobInv w) : JobInv (slots.foldl (watchReapJob heap now) w) := by
  induction slots generalizing w with
  | nil => exact inv
  | cons slot rest ih => exact ih _ (inv_reap_job heap now w slot inv)

theorem inv_accept_all (incoming : List Incoming) (w : Watched) (inv : JobInv w) :
    JobInv (incoming.foldl watchAccept w) := by
  induction incoming generalizing w with
  | nil => exact inv
  | cons first rest ih => exact ih _ (inv_accept w first inv)

variable {i : Slot} {pc : Pc}

theorem inv_prepare {env : Preparation} (inv : JobInv w) :
    JobInv { w with server := { prepare env w.server i with pc := pc } } := by
  have kept := push_keeps env w.server.now (w.server.clients i)
  refine inv_clients w _ inv (prepare_sane env i inv.sane) rfl (fun j opened => ?_) fun j slot holds => ?_
  · exact prepare_open env w.server i j ▸ opened
  · by_cases here : j = i
    · subst here
      simp only [prepare, Server.setClient, update_self, kept.2.1] at holds ⊢
      exact ⟨holds, kept.2.2⟩
    · simp only [prepare, Server.setClient, update_of_ne here, and_true] at holds ⊢
      exact holds

theorem inv_close_all {closing : Slot → Closing} (inv : JobInv w) :
    JobInv { w with server := { closeAll closing w.server with pc := pc } } := by
  obtain ⟨jobs, clients⟩ := close_all_client closing (List.finRange clientsMax) w.server
  refine inv_clients w _ inv (close_all_sane closing w.server inv.sane) jobs (fun i opened => ?_) fun i slot holds => ?_
  · exact close_all_open closing i opened
  · rcases clients i with same | closed
    · exact ⟨same ▸ holds, congrArg Client.incoming same⟩
    · have gone := closed ▸ holds
      cases gone

theorem new_job_none {before} {after : Client} (free : after.job = none) : newJob before after = none := by
  unfold newJob
  split
  · rfl
  · exact free

theorem inv_let_go (i : Slot) (other : Client) {after : Server} (inv : JobInv w)
    (sane : Sane after.clients after.jobs) (clients : after.clients = update w.server.clients i other)
    (jobs : after.jobs = w.server.jobs) (free : other.job = none)
    (fd : other.fd.isSome → (w.server.clients i).fd.isSome) : JobInv { w with server := after } := by
  refine inv_clients w after inv sane jobs (fun j opened => ?_) fun j slot holds => ?_
  · by_cases here : j = i
    · subst here
      rw [clients, update_self] at opened
      exact fd opened
    · rwa [clients, update_of_ne here] at opened
  · by_cases here : j = i
    · rw [clients, here, update_self, free] at holds
      cases holds
    · rw [clients, update_of_ne here] at holds ⊢
      exact ⟨holds, rfl⟩

theorem inv_service {io} {w} (inv : JobInv w)
    (opened : service cfg io w.server i = w.server ∨ (w.server.clients i).fd.isSome)
    (serviced : Serviced w.server i (service cfg io w.server i)) :
    JobInv { watchService cfg io w i with server := { service cfg io w.server i with pc := pc } } := by
  have sane := @serviced_sane w.server i inv.sane _ serviced opened
  unfold watchService
  generalize service cfg io w.server i = after at sane opened serviced ⊢
  cases serviced with
  | same =>
    simp only [newJob, if_true]
    exact inv_same_tables w _ inv rfl rfl
  | closed tracing =>
    simp only [Server.setClient, update_self, @new_job_none _ {} rfl]
    exact inv_let_go w i {} inv sane rfl rfl rfl fun gone => by cases gone
  | talked other tracing conversing fd free =>
    simp only [Server.setClient, update_self, new_job_none free]
    exact inv_let_go w i other inv sane rfl rfl free fun there => by rwa [fd] at there
  | queued other slot job conversing fd held ticket state free =>
    have new : newJob (w.server.clients i) other = some slot := by
      have different : ¬ other.job = (w.server.clients i).job := by
        intro same
        exact (inv.sane.held i slot (same ▸ held)).1 free
      rw [newJob, if_neg different, held]
    have there : (w.server.clients i).fd.isSome := by
      rcases opened with same | there
      · have jobs := congrFun (congrArg Server.jobs same) slot
        simp only [update_self] at jobs
        rw [jobs, free] at state
        cases state
      · exact there
    simp only [Server.setClient, update_self, new]
    have others (j : Slot) (away : j ≠ i) :
        ({ w.server.setClient i other with jobs := update w.server.jobs slot job, pc := pc } : Server).clients j =
          w.server.clients j := by
      simp only [Server.setClient, update_of_ne away]
    have queued := inv_queued inv rfl others sane free state there (by simp only [Server.setClient, update_self, held])
    simpa only [Server.setClient, update_self] using queued

theorem inv_step {action} (served : Served w.server) (inv : JobInv w)
    (allowed : Allowed w.server action) : JobInv (w.step cfg action) := by
  cases action with
  | reap now heap replied =>
    have reaped := inv_reap heap replied (List.finRange clientsMax) w inv
    have server := watch_reap_server heap replied (List.finRange clientsMax) w
    refine inv_same_tables _ _ reaped ?_ ?_
    · simp only [server, QueryServer.step, reap]
    · simp only [server, QueryServer.step, reap]
  | prepare i env => exact inv_prepare w inv
  | poll result =>
    cases result with
    | interrupted | ready revents now => exact inv_same_tables w _ inv rfl rfl
    | stop closing => exact inv_close_all w inv
  | service i io =>
    refine inv_service cfg inv ?_ (allowed_serviced cfg w.server i served allowed)
    by_cases gone : (w.server.clients i).fd = none
    · exact .inl (by simp only [service, if_pos gone])
    · exact .inr (isSome_iff_ne_none.mpr gone)
  | accept incoming =>
    have accepted := inv_accept_all incoming w inv
    have server := watch_accept_server incoming w
    refine inv_same_tables _ _ accepted ?_ ?_
    · simp only [server, QueryServer.step]
    · simp only [server, QueryServer.step]
  | startJob slot => exact inv_started w slot inv allowed rfl
  | finishJob slot error result => exact inv_finished w slot error result inv allowed rfl

theorem watched_inv (reached : WatchedReached cfg w) : Served w.server ∧ JobInv w := by
  refine Runs.invariant (fun w => Served w.server ∧ JobInv w) (fun w initial => ?_)
    (fun w action holds allowed => ?_) w reached
  · obtain ⟨start, fresh⟩ := initial
    have served := initial_served w.server start
    refine ⟨served, ?_⟩
    rw [fresh]
    refine ⟨served.sane, ?_, ?_, ?_, ?_, ?_, ?_, ?_, .nil, ?_⟩
    all_goals simp [start.clients, start.jobs]
  · refine ⟨?_, inv_step cfg w holds.1 holds.2 allowed⟩
    rw [watched_step_server]
    exact step_served cfg w.server action holds.1 allowed

end

def Closed (w : Watched) (connection : Nat) : Prop :=
  connection < w.opened ∧ ∀ i, (w.server.clients i).fd.isSome = true → w.serial i ≠ connection

structure Later (w after : Watched) : Prop where
  opened : w.opened ≤ after.opened
  clients : ∀ i, (after.server.clients i).fd.isSome = true →
    ((w.server.clients i).fd.isSome = true ∧ after.serial i = w.serial i) ∨ w.opened ≤ after.serial i
  handed : ∀ d ∈ after.handed, d ∈ w.handed ∨
    (∃ i, (w.server.clients i).fd.isSome = true ∧ d.connection = w.serial i) ∨ w.opened ≤ d.connection

theorem later_refl (w : Watched) : Later w w :=
  ⟨le_refl _, fun _ opened => .inl ⟨opened, rfl⟩, fun _ mem => .inl mem⟩

theorem later_trans (w mid after : Watched) (first : Later w mid) (second : Later mid after) : Later w after := by
  refine ⟨le_trans first.opened second.opened, fun i opened => ?_, fun d mem => ?_⟩
  · rcases second.clients i opened with ⟨still, same⟩ | fresh
    · rw [same]
      exact first.clients i still
    · exact .inr (le_trans first.opened fresh)
  · rcases second.handed d mem with old | ⟨i, opened, receiver⟩ | fresh
    · exact first.handed d old
    · rw [receiver]
      rcases first.clients i opened with ⟨still, same⟩ | fresh
      · exact .inr (.inl ⟨i, still, same⟩)
      · exact .inr (.inr fresh)
    · exact .inr (.inr (le_trans first.opened fresh))

theorem later_quiet {w after : Watched} (opened : after.opened = w.opened) (serial : after.serial = w.serial)
    (handed : after.handed = w.handed)
    (clients : ∀ i, (after.server.clients i).fd.isSome → (w.server.clients i).fd.isSome) : Later w after := by
  refine ⟨le_of_eq opened.symm, fun i still => .inl ⟨clients i still, congrFun serial i⟩, fun d mem => .inl ?_⟩
  rwa [handed] at mem

theorem later_reap_job (heap : Slot → Heap) (now : Slot → Int) (w : Watched)
    (slot : Slot) : Later w (watchReapJob heap now w slot) := by
  refine ⟨le_refl _, fun i opened => .inl ⟨reap_job_fd w.server heap now i ▸ opened, rfl⟩, fun d mem => ?_⟩
  rcases mem_append.mp mem with old | fresh
  · exact .inl old
  · obtain ⟨j, found, rfl⟩ := mem_map.mp fresh
    rw [mem_toList] at found
    split at found
    · exact .inr (.inl ⟨j, (waiting_some w.server found).1, rfl⟩)
    · cases found

theorem later_reap (heap : Slot → Heap) (now : Slot → Int) (slots : List Slot)
    (w : Watched) : Later w (slots.foldl (watchReapJob heap now) w) := by
  induction slots generalizing w with
  | nil => exact later_refl w
  | cons slot rest ih => exact later_trans _ _ _ (later_reap_job heap now w slot) (ih _)

theorem later_accept_one (w : Watched) (incoming : Incoming) : Later w (watchAccept w incoming) := by
  obtain same | ⟨slot, after⟩ := watch_accept_cases w incoming
  · rw [same]
    exact later_refl w
  rw [after]
  refine ⟨le_succ _, fun i opened => ?_, fun d mem => .inl mem⟩
  by_cases here : i = slot
  · exact .inr (by simp [here])
  · refine .inl ⟨?_, update_of_ne here _ _⟩
    simpa [Server.setClient, update_of_ne here] using opened

theorem later_accept (incoming : List Incoming) (w : Watched) : Later w (incoming.foldl watchAccept w) := by
  induction incoming generalizing w with
  | nil => exact later_refl w
  | cons first rest ih => exact later_trans _ _ _ (later_accept_one w first) (ih _)

theorem watch_service_ghost (cfg : Config) (io : Exchange) (w : Watched) (i : Slot) :
    (watchService cfg io w i).opened = w.opened ∧ (watchService cfg io w i).serial = w.serial ∧
    (watchService cfg io w i).handed = w.handed := by
  simp only [watchService]
  cases newJob (w.server.clients i) ((service cfg io w.server i).clients i) with
  | none | some slot => exact ⟨rfl, rfl, rfl⟩

theorem later_server {w mid} {after : Server} (later : Later w mid)
    (clients : after.clients = mid.server.clients) : Later w { mid with server := after } :=
  later_trans _ _ _ later (later_quiet rfl rfl rfl fun i opened => by rwa [clients] at opened)

variable {action : Action}

theorem later_step (cfg : Config) {w : Watched} (served : Served w.server) (allowed : Allowed w.server action) :
    Later w (w.step cfg action) := by
  cases action with
  | reap now heap replied =>
    refine later_server (later_reap heap replied (List.finRange clientsMax) w) ?_
    simp only [watch_reap_server, QueryServer.step, reap]
  | prepare i env => exact later_quiet rfl rfl rfl fun j opened => prepare_open env w.server i j ▸ opened
  | poll result =>
    cases result with
    | interrupted | ready revents now => exact later_quiet rfl rfl rfl fun j opened => opened
    | stop closing => exact later_quiet rfl rfl rfl fun j opened => close_all_open closing j opened
  | service i io =>
    obtain ⟨opened, serial, handed⟩ := watch_service_ghost cfg io w i
    exact later_quiet opened serial handed fun j still =>
      serviced_open (allowed_serviced cfg w.server i served allowed) j still
  | accept incoming =>
    refine later_server (later_accept incoming w) ?_
    simp only [watch_accept_server, QueryServer.step]
  | startJob slot | finishJob slot error result => exact later_quiet rfl rfl rfl fun j opened => opened

variable {later : Watched}

theorem continues_later {cfg} {w} (reached : WatchedReached cfg w)
    (continues : Continues cfg w later) : WatchedReached cfg later ∧ Later w later := by
  refine Runs.invariant (fun later => WatchedReached cfg later ∧ Later w later) (fun state start => ?_)
    (fun state action holds allowed => ?_) later continues
  · subst start
    exact ⟨reached, later_refl state⟩
  · exact ⟨.step state action holds.1 allowed,
      later_trans _ _ _ holds.2 (later_step cfg (watched_inv cfg state holds.1).1 allowed)⟩

theorem closed_receives_nothing {w} (follows : Later w later) {d : Delivery} (mem : d ∈ later.handed)
    (closed : Closed w d.connection) : d ∈ w.handed := by
  rcases follows.handed d mem with old | ⟨i, opened, receiver⟩ | fresh
  · exact old
  · exact absurd receiver.symm (closed.2 i opened)
  · exact absurd closed.1 (not_lt.mpr fresh)

def Action.reaps : Action → Bool
  | .reap _ _ _ => true
  | _ => false

theorem reap_job_free (heap : Slot → Heap) (now : Slot → Int) (s : Server)
    (slot first : Slot) (settled : (s.jobs slot).state = .free ∨ first = slot ∧ (s.jobs slot).state = .complete) :
    ((reapJob heap now s first).jobs slot).state = .free := by
  rcases settled with free | ⟨rfl, complete⟩
  · by_cases here : slot = first
    · subst here
      simp [reapJob, free]
    · rw [reap_job_other s heap now here]
      exact free
  · simp [reapJob, complete]

theorem reap_frees (heap : Slot → Heap) (now : Slot → Int) (slot : Slot) {slots : List Slot} (s : Server)
    (settled : (s.jobs slot).state = .free ∨ slot ∈ slots ∧ (s.jobs slot).state = .complete) :
    ((slots.foldl (reapJob heap now) s).jobs slot).state = .free := by
  induction slots generalizing s with
  | nil => simpa using settled
  | cons first rest ih =>
    refine ih _ ?_
    rcases settled with free | ⟨mem, complete⟩
    · exact .inl (reap_job_free heap now s slot first (.inl free))
    · by_cases here : slot = first
      · exact .inl (reap_job_free heap now s slot first (.inr ⟨here.symm, complete⟩))
      · rw [reap_job_other s heap now here]
        exact .inr ⟨(mem_cons.mp mem).resolve_left here, complete⟩

theorem accept_jobs (incoming : List Incoming) (s : Server) : (incoming.foldl acceptOne s).jobs = s.jobs := by
  induction incoming generalizing s with
  | nil => rfl
  | cons first rest ih =>
    rw [foldl_cons, ih]
    unfold acceptOne
    split
    · rfl
    · split
      · rfl
      · rfl

variable {slot : Slot} {s : Server}

theorem serviced_complete {i} {after} (serviced : Serviced s i after)
    (complete : (s.jobs slot).state = .complete) : after.jobs slot = s.jobs slot := by
  cases serviced with
  | same | closed tracing | talked other tracing conversing fd free => rfl
  | queued other taken job conversing fd held ticket state free =>
    have away : slot ≠ taken := by
      rintro rfl
      rw [free] at complete
      cases complete
    exact update_of_ne away _ _

theorem complete_until_reaped {cfg} (served : Served s) (allowed : Allowed s action)
    (complete : (s.jobs slot).state = .complete) :
    ((step cfg s action).jobs slot).state = if action.reaps then .free else .complete := by
  have elsewhere (other : Slot) (job : Job) (state : JobState) (busy : (s.jobs other).state = state)
      (different : state ≠ .complete) : (update s.jobs other job slot).state = .complete := by
    have away : slot ≠ other := by
      rintro rfl
      exact different (busy.symm.trans complete)
    rw [update_of_ne away]
    exact complete
  cases action with
  | reap now heap replied =>
    have freed := reap_frees heap replied slot s (.inr ⟨mem_finRange slot, complete⟩)
    simpa only [step, reap, Action.reaps, if_true] using freed
  | prepare i env => exact complete
  | poll result =>
    cases result with
    | interrupted | ready revents now => exact complete
    | stop closing =>
      have jobs := (close_all_client closing (List.finRange clientsMax) s).1
      exact (congrArg (fun jobs : Jobs => (jobs slot).state) jobs).trans complete
  | service i io =>
    have kept := serviced_complete (allowed_serviced cfg s i served allowed) complete
    exact (congrArg Job.state kept).trans complete
  | accept incoming =>
    have jobs := accept_jobs incoming s
    exact (congrArg (fun jobs : Jobs => (jobs slot).state) jobs).trans complete
  | startJob other | finishJob other error result => exact elsewhere other _ _ allowed (by decide)

theorem watched_run (cfg : Config) (actions : List Action) {w} (reached : WatchedReached cfg w)
    (passed : permittedRun cfg actions w.server) : WatchedReached cfg (actions.foldl (Watched.step cfg) w) := by
  induction actions generalizing w with
  | nil => exact reached
  | cons action rest ih =>
    simp only [permittedRun, Bool.and_eq_true] at passed
    refine ih (.step w action reached (permitted_allowed passed.1)) ?_
    rw [watched_step_server]
    exact passed.2

def asking : List Action :=
  turn {} .again .again [⟨5, true⟩] ++
    turn { input := true } (.data (ipcHeaderWrite ipcHello 9 0)) .again [] ++
    turn { output := true } .again (.sent 16) [] ++ turn { output := true } .again (.sent 25) [] ++
    turn { input := true } (.data (ipcHeaderWrite ipcAbout 10 0)) .again [] ++
    [.startJob firstClient, .finishJob firstClient none Body.empty, .reap 1 (fun _ => allGranted) fun _ => 1]

def asked : Watched := asking.foldl (Watched.step sampleConfig) { server := { tracing := freshTracing } }

theorem asked_reached : WatchedReached sampleConfig asked :=
  watched_run sampleConfig asking (.start _ ⟨⟨rfl, rfl, rfl, rfl⟩, rfl⟩) (by decide +kernel)

end Evemon.QueryServer
