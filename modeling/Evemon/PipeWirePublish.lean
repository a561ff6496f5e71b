import Evemon.PipeWire
import Evemon.Lib.Runs

-- The watcher together with a server that answers its requests in order.
namespace Evemon.PipeWire

open SwapRemove Bool

inductive ServerEvent where
  | announce (id : UInt32) (type : ObjectType) (props : Option Dict) (out : Outcome)
  | withdraw (id : UInt32) (copied : Bool)
  | answer (props : Option Dict) (out : Outcome)

-- The answer to the oldest request. A proxy that has been destroyed gets no info.
def answerRequest (props : Option Dict) (out : Outcome) (s : State) : State :=
  match s.requests with
  | [] => s
  | .bind proxy :: rest =>
    match s.bound.findIdx? (·.proxy = some proxy) with
    | some index => run (.nodeInfo index props) { s with requests := rest }
    | none => { s with requests := rest }
  | .sync seq :: rest => run (.coreDone coreId seq out) { s with requests := rest }

structure Exchange where
  state : State
  announced : Finset UInt32 := ∅

def exchangeStep (x : Exchange) : ServerEvent → Exchange
  | .announce id type props out => ⟨run (.global id type props out) x.state, insert id x.announced⟩
  | .withdraw id copied => ⟨run (.globalRemove id copied) x.state, x.announced.erase id⟩
  | .answer props out => ⟨answerRequest props out x.state, x.announced⟩

-- Copies succeed, the sequence number of a sync is not 0, the ids of live objects are distinct, and only
-- live objects are withdrawn.
def lawful (x : Exchange) : ServerEvent → Bool
  | .announce id _ _ out => decide (id ∉ x.announced) && out.copied && decide (out.seq ≠ 0)
  | .withdraw id copied => decide (id ∈ x.announced) && copied
  | .answer _ out => out.copied && decide (out.seq ≠ 0)

def ExchangeStarts (x : Exchange) : Prop := ∃ seq, x = { state := started seq }

def Current (s : State) : Prop := s.live = pwGraphCopy (pwGraphResolvePids s.graph)

def Waiting (s : State) : Prop := s.initialDone = false ∨ s.pendingSync ≠ 0

def EntryMade (s : State) (out : Outcome) : Prop := (s.bound.length < s.boundCap ∨ out.boundGrown = true) ∧ out.entry = true

def TimelyEvent (s : State) : ServerEvent → Prop
  | .announce _ .node _ out =>
    (s.initialDone = false ∧ s.phase = 0) ∨ (s.initialDone = true ∧ s.pendingSync = 0 ∧ EntryMade s out)
  | .announce _ .port _ _ => Waiting s
  | .withdraw id _ =>
    Waiting s ∨ id ∈ s.graph.nodes.items.map Node.id ∨ id ∈ s.graph.links.items.map Link.id ∨
      (id ∉ s.graph.ports.items.map Port.id ∧ id ∉ s.graph.clients.items.map Client.id)
  | _ => True

instance decidableTimelyEvent (s : State) : (event : ServerEvent) → Decidable (TimelyEvent s event)
  | .announce _ .node _ out =>
    inferInstanceAs (Decidable ((s.initialDone = false ∧ s.phase = 0) ∨ (s.initialDone = true ∧ s.pendingSync = 0 ∧
      (s.bound.length < s.boundCap ∨ out.boundGrown = true) ∧ out.entry = true)))
  | .announce _ .port _ _ => inferInstanceAs (Decidable (s.initialDone = false ∨ s.pendingSync ≠ 0))
  | .withdraw id _ =>
    inferInstanceAs (Decidable ((s.initialDone = false ∨ s.pendingSync ≠ 0) ∨ id ∈ s.graph.nodes.items.map Node.id ∨
      id ∈ s.graph.links.items.map Link.id ∨
      (id ∉ s.graph.ports.items.map Port.id ∧ id ∉ s.graph.clients.items.map Client.id)))
  | .announce _ .client _ _ => .isTrue trivial
  | .announce _ .link _ _ => .isTrue trivial
  | .announce _ .other _ _ => .isTrue trivial
  | .answer _ _ => .isTrue trivial

def Timely (x : Exchange) (event : ServerEvent) : Prop := lawful x event = true ∧ TimelyEvent x.state event

inductive Following (s : State) : Prop where
  | enumerating (initial : s.initialDone = false) (unsynced : s.pendingSync = 0) (phase : s.phase = 0) (earlier later : List Nat)
      (sent : s.requests = earlier.map Request.bind ++ Request.sync s.syncSeq :: later.map Request.bind)
  | collecting (initial : s.initialDone = false) (unsynced : s.pendingSync = 0) (phase : s.phase ≠ 0) (binds : List Nat)
      (sent : s.requests = binds.map Request.bind ++ [Request.sync s.syncSeq])
  | pending (initial : s.initialDone = true) (waiting : s.pendingSync ≠ 0) (binds : List Nat)
      (sent : s.requests = binds.map Request.bind ++ [Request.sync s.pendingSync])
  | settled (initial : s.initialDone = true) (unsynced : s.pendingSync = 0) (sent : s.requests = []) (ready : s.liveReady = true)
      (current : Current s)

structure SameRequests (s after : State) : Prop where
  syncSeq : after.syncSeq = s.syncSeq
  phase : after.phase = s.phase
  initialDone : after.initialDone = s.initialDone
  pendingSync : after.pendingSync = s.pendingSync
  requests : after.requests = s.requests

variable {s : State}

theorem same_refl : SameRequests s s := ⟨rfl, rfl, rfl, rfl, rfl⟩

variable {before : State}

theorem publish_same (copied : Bool) (same : SameRequests s before) : SameRequests s (watcherPublish copied before) := by
  unfold watcherPublish
  dsimp only
  split
  · exact ⟨same.1, same.2, same.3, same.4, same.5⟩
  · exact ⟨same.1, same.2, same.3, same.4, same.5⟩

theorem resolve_pid_idem (clients : List Client) (n : Node) : resolvePid clients (resolvePid clients n) =
    resolvePid clients n := by
  by_cases skip : n.pid ≠ 0 ∨ n.clientId = 0
  · have first : resolvePid clients n = n := if_pos skip
    rw [first, first]
  · cases search : clients.find? fun client => client.id = n.clientId with
    | none =>
      have first : resolvePid clients n = n := by rw [resolvePid, if_neg skip, search]
      rw [first, first]
    | some client =>
      have first : resolvePid clients n = { n with pid := client.pid } := by rw [resolvePid, if_neg skip, search]
      rw [first, resolvePid]
      dsimp only
      split
      · rfl
      · rw [search]

theorem resolve_pids_idem (g : Graph) : pwGraphResolvePids (pwGraphResolvePids g) = pwGraphResolvePids g := by
  unfold pwGraphResolvePids
  dsimp only
  rw [List.map_map, show resolvePid g.clients.items ∘ resolvePid g.clients.items = resolvePid g.clients.items from
    funext (resolve_pid_idem g.clients.items)]

theorem publish_current (s : State) : Current (watcherPublish true s) :=
  congrArg pwGraphCopy (resolve_pids_idem s.graph).symm

theorem waiting_following (s : State) {after} (following : Following s) (same : SameRequests s after)
    (waiting : Waiting s) : Following after := by
  obtain ⟨syncSeq, phase, initialDone, pendingSync, requests⟩ := same
  cases following with
  | enumerating initial unsynced first earlier later sent =>
    exact .enumerating (initialDone.trans initial) (pendingSync.trans unsynced) (phase.trans first) earlier later
      (by rw [requests, syncSeq, sent])
  | collecting initial unsynced second binds sent =>
    exact .collecting (initialDone.trans initial) (pendingSync.trans unsynced) (phase ▸ second) binds
      (by rw [requests, syncSeq, sent])
  | pending initial outstanding binds sent =>
    exact .pending (initialDone.trans initial) (pendingSync ▸ outstanding) binds (by rw [requests, pendingSync, sent])
  | settled initial unsynced _ _ _ =>
    rcases waiting with undone | outstanding
    · rw [initial] at undone
      cases undone
    · exact absurd unsynced outstanding

theorem publish_following (following : Following s) (same : SameRequests s before) :
    Following (watcherPublish true before) := by
  have published := publish_same true same
  cases following with
  | enumerating initial unsynced phase earlier later sent =>
    exact waiting_following s (.enumerating initial unsynced phase earlier later sent) published (.inl initial)
  | collecting initial unsynced phase binds sent =>
    exact waiting_following s (.collecting initial unsynced phase binds sent) published (.inl initial)
  | pending initial waiting binds sent =>
    exact waiting_following s (.pending initial waiting binds sent) published (.inr waiting)
  | settled initial unsynced sent _ _ =>
    exact .settled (published.initialDone.trans initial) (published.pendingSync.trans unsynced) (published.requests.trans sent)
      rfl (publish_current before)

theorem publish_if_done_following (following : Following s) (same : SameRequests s before) :
    Following (publishIfDone true before) := by
  unfold publishIfDone
  split
  · exact publish_following following same
  · rename_i undone
    rw [same.initialDone, not_eq_true] at undone
    exact waiting_following s following same (.inl undone)

variable {props : Option Dict}

theorem node_info_same {index} : SameRequests s (watcherOnNodeInfo index props s) := by
  unfold watcherOnNodeInfo
  split
  · exact same_refl
  · split
    · exact same_refl
    · exact ⟨rfl, rfl, rfl, rfl, rfl⟩

theorem bind_node_enumerating (id : UInt32) (out : Outcome) (s : State) (undone : s.initialDone = false) :
    ∃ binds : List Nat, SameRequests { s with requests := s.requests ++ binds.map Request.bind } (bindNode id out s) := by
  unfold bindNode
  split
  · exact ⟨[], rfl, rfl, rfl, rfl, by simp⟩
  · dsimp only
    split
    · exact ⟨[], rfl, rfl, rfl, rfl, by simp⟩
    · rw [if_neg (by simp [undone])]
      refine ⟨if out.proxy then [s.proxies] else [], rfl, rfl, rfl, rfl, ?_⟩
      split <;> simp

theorem bind_node_synced (id : UInt32) (out : Outcome) (s : State) (done : s.initialDone) (idle : s.pendingSync = 0)
    (made : EntryMade s out) :
    ∃ binds : List Nat, (bindNode id out s).initialDone ∧ (bindNode id out s).pendingSync = out.seq ∧
    (bindNode id out s).requests = s.requests ++ binds.map Request.bind ++ [Request.sync out.seq] := by
  have granted : ¬ (s.bound.length ≥ s.boundCap ∧ out.boundGrown = false) := by
    intro refused
    rcases made.1 with room | grown
    · omega
    · rw [grown] at refused
      exact Bool.noConfusion refused.2
  have entry : ¬ out.entry = false := by simp [made.2]
  unfold bindNode
  rw [if_neg granted]
  dsimp only
  rw [if_neg entry, if_pos ⟨done, idle⟩]
  refine ⟨if out.proxy then [s.proxies] else [], done, rfl, ?_⟩
  unfold coreSync
  split <;> simp

variable {id : UInt32} {out : Outcome}

theorem node_following (following : Following s) (nonzero : out.seq ≠ 0)
    (timely : TimelyEvent s (.announce id .node props out)) : Following (watcherOnGlobal id .node props out s) := by
  dsimp only [watcherOnGlobal]
  cases pwGraphPushNode out.grown s.graph (newNode id props) with
  | none => exact following
  | some graph =>
    dsimp only
    rcases timely with ⟨undone, first⟩ | ⟨done, idle, made⟩
    · obtain ⟨binds, same⟩ := bind_node_enumerating id out { s with graph } undone
      cases following with
      | enumerating initial unsynced phase earlier later sent =>
        have started : Following { s with graph, requests := s.requests ++ binds.map Request.bind } :=
          .enumerating initial unsynced phase earlier (later ++ binds) (by simp [sent])
        exact waiting_following _ started same (.inl initial)
      | collecting _ _ second _ _ => exact absurd first second
      | pending initial _ _ _ | settled initial _ _ _ _ => exact absurd undone (by simp [initial])
    · obtain ⟨binds, initial, pending, requests⟩ := bind_node_synced id out { s with graph } done idle made
      cases following with
      | settled _ _ sent _ _ =>
        refine .pending initial (pending ▸ nonzero) binds ?_
        rw [requests, pending, sent, List.nil_append]
      | enumerating undone _ _ _ _ _ | collecting undone _ _ _ _ => exact absurd done (by simp [undone])
      | pending _ outstanding _ _ => exact absurd idle outstanding

theorem announce_following (following : Following s) {type : ObjectType} (copied : out.copied) (nonzero : out.seq ≠ 0)
    (timely : TimelyEvent s (.announce id type props out)) : Following (watcherOnGlobal id type props out s) := by
  cases type with
  | node => exact node_following following nonzero timely
  | client | link =>
    dsimp only [watcherOnGlobal]
    rw [copied]
    split
    · exact following
    · split
      · exact following
      · exact publish_if_done_following following ⟨rfl, rfl, rfl, rfl, rfl⟩
  | port =>
    dsimp only [watcherOnGlobal]
    split
    · exact following
    · split
      · exact following
      · exact waiting_following s following ⟨rfl, rfl, rfl, rfl, rfl⟩ timely
  | other => exact following

theorem withdraw_following (following : Following s) (timely : TimelyEvent s (.withdraw id true)) :
    Following (watcherOnGlobalRemove id true s) := by
  unfold watcherOnGlobalRemove
  split
  · exact publish_following following ⟨rfl, rfl, rfl, rfl, rfl⟩
  · rename_i noNode
    split
    · exact publish_following following ⟨rfl, rfl, rfl, rfl, rfl⟩
    · rename_i noLink
      -- Only a sync that is outstanding publishes what happens to ports and clients.
      have late : Waiting s ∨ id ∉ s.graph.ports.items.map Port.id ∧ id ∉ s.graph.clients.items.map Client.id := by
        rcases timely with waiting | node | link | neither
        · exact .inl waiting
        · exact absurd node ((search_none Node.id id).mp noNode)
        · exact absurd link ((search_none Link.id id).mp noLink)
        · exact .inr neither
      split
      · rename_i found
        refine waiting_following s following ⟨rfl, rfl, rfl, rfl, rfl⟩ (late.resolve_right fun neither => ?_)
        have none := (search_none Port.id id).mpr neither.1
        rw [none] at found
        cases found
      · split
        · rename_i found
          refine waiting_following s following ⟨rfl, rfl, rfl, rfl, rfl⟩ (late.resolve_right fun neither => ?_)
          have none := (search_none Client.id id).mpr neither.2
          rw [none] at found
          cases found
        · exact following

theorem answer_bind_same (props : Option Dict) (out : Outcome) {proxy} {rest : List Request}
    (oldest : s.requests = .bind proxy :: rest) :
    SameRequests { s with requests := rest } (answerRequest props out s) := by
  unfold answerRequest
  rw [oldest]
  dsimp only
  split
  · exact node_info_same
  · exact ⟨rfl, rfl, rfl, rfl, rfl⟩

theorem answer_sync {seq} {rest : List Request} (oldest : s.requests = .sync seq :: rest) :
    answerRequest props out s = watcherOnCoreDone coreId seq out { s with requests := rest } := by
  unfold answerRequest
  rw [oldest]
  rfl

theorem answer_following (following : Following s) (copied : out.copied) : Following (answerRequest props out s) := by
  cases following with
  | enumerating initial unsynced phase earlier later sent =>
    cases earlier with
    | nil =>
      rw [answer_sync sent]
      unfold watcherOnCoreDone
      rw [if_neg (by simp), if_neg (by simp [initial]), if_neg (by simp), if_pos phase]
      exact .collecting initial unsynced Nat.one_ne_zero later rfl
    | cons proxy earlier =>
      refine waiting_following _ ?_ (answer_bind_same props out sent) (.inl initial)
      exact .enumerating initial unsynced phase earlier later rfl
  | collecting initial unsynced phase binds sent =>
    cases binds with
    | nil =>
      rw [answer_sync sent]
      unfold watcherOnCoreDone
      rw [if_neg (by simp), if_neg (by simp [initial]), if_neg (by simp), if_neg phase, copied]
      exact .settled rfl unsynced rfl rfl (publish_current _)
    | cons proxy binds =>
      refine waiting_following _ ?_ (answer_bind_same props out sent) (.inl initial)
      exact .collecting initial unsynced phase binds rfl
  | pending initial waiting binds sent =>
    cases binds with
    | nil =>
      rw [answer_sync sent]
      unfold watcherOnCoreDone
      rw [if_neg (by simp), if_pos ⟨initial, rfl⟩, copied]
      exact .settled initial rfl rfl rfl (publish_current _)
    | cons proxy binds =>
      refine waiting_following _ ?_ (answer_bind_same props out sent) (.inr waiting)
      exact .pending initial waiting binds rfl
  | settled initial unsynced sent ready current =>
    unfold answerRequest
    rw [sent]
    exact .settled initial unsynced sent ready current

theorem exchange_step_following {x : Exchange} {event} (following : Following x.state) (timely : Timely x event) :
    Following (exchangeStep x event).state := by
  obtain ⟨lawful, timely⟩ := timely
  cases event with
  | announce id type props out =>
    simp only [PipeWire.lawful, and_eq_true, decide_eq_true_eq] at lawful
    exact announce_following following lawful.1.2 lawful.2 timely
  | withdraw id copied =>
    simp only [PipeWire.lawful, and_eq_true] at lawful
    obtain ⟨-, rfl⟩ := lawful
    exact withdraw_following following timely
  | answer props out =>
    simp only [PipeWire.lawful, and_eq_true] at lawful
    exact answer_following following lawful.1

theorem published_graph_catches_up (x : Exchange) (reached : Runs.Reachable ExchangeStarts Timely exchangeStep x)
    (answered : x.state.requests = []) :
    Current x.state ∧ pwSnapshot true x.state = some (pwGraphCopy (pwGraphResolvePids x.state.graph)) := by
  have following : Following x.state := by
    refine Runs.invariant (fun x => Following x.state) (fun x starts => ?_)
      (fun x event following timely => exchange_step_following following timely) x reached
    obtain ⟨seq, rfl⟩ := starts
    exact .enumerating rfl rfl rfl [] [] rfl
  cases following with
  | enumerating _ _ _ earlier later sent | collecting _ _ _ binds sent | pending _ _ binds sent =>
    rw [answered] at sent
    simp at sent
  | settled _ _ _ ready current =>
    refine ⟨current, ?_⟩
    unfold pwSnapshot
    rw [ready, current]
    rfl

def exchangeAfter (events : List ServerEvent) : Exchange := events.foldl exchangeStep { state := started 1 }

def enumerated : List ServerEvent := [.answer none { seq := 2 }, .answer none { seq := 3 }]

def streamProps : Dict
  | .mediaClass => some [83, 116, 114, 101, 97, 109]
  | .appProcessId => some [52, 50]
  | _ => none

def streamAnnounced : List ServerEvent :=
  enumerated ++ [.announce 10 .node none { seq := 4 }, .answer (some streamProps) {}, .answer none {}]

theorem published_graph_catches_up_stream :
    (exchangeAfter streamAnnounced).state.live.nodes.items.map (fun n => (n.id, n.pid, n.mediaClass)) =
    [(10, 42, [83, 116, 114, 101, 97, 109])] ∧
    Current (exchangeAfter streamAnnounced).state := by
  have reached : Runs.Reachable ExchangeStarts Timely exchangeStep (exchangeAfter streamAnnounced) :=
    Runs.reachable_follows (fun x event => lawful x event && decide (TimelyEvent x.state event))
      (fun x event checked => ⟨(Bool.and_eq_true_iff.mp checked).1, of_decide_eq_true (Bool.and_eq_true_iff.mp checked).2⟩)
      streamAnnounced _ (.start _ ⟨1, rfl⟩) (by decide +kernel)
  exact ⟨by decide +kernel, (published_graph_catches_up _ reached (by decide +kernel)).1⟩

theorem lawful_reachable {events}
    (checked : Runs.follows lawful exchangeStep events { state := started 1 }) :
    Runs.Reachable ExchangeStarts (fun x event => lawful x event) exchangeStep (exchangeAfter events) :=
  Runs.reachable_follows lawful (fun _ _ passed => passed) events _ (.start _ ⟨1, rfl⟩) checked

def secondAnnounced : List ServerEvent :=
  enumerated ++ [.announce 10 .node none { seq := 4 }, .announce 11 .node none { seq := 5 }, .answer (some streamProps) {},
    .answer none {}, .answer (some streamProps) {}]

def portAnnounced : List ServerEvent := enumerated ++ [.announce 12 .port (some streamProps) {}]

theorem published_graph_stays_behind :
    (Runs.Reachable ExchangeStarts (fun x event => lawful x event = true) exchangeStep (exchangeAfter secondAnnounced) ∧
    (exchangeAfter secondAnnounced).state.requests = [] ∧
    (exchangeAfter secondAnnounced).state.graph.nodes.items.map (fun n => (n.id, n.pid, n.mediaClass)) =
    [(10, 42, [83, 116, 114, 101, 97, 109]), (11, 42, [83, 116, 114, 101, 97, 109])] ∧
    (exchangeAfter secondAnnounced).state.live.nodes.items.map (fun n => (n.id, n.pid, n.mediaClass)) =
    [(10, 42, [83, 116, 114, 101, 97, 109]), (11, 0, [])] ∧
    ¬ Current (exchangeAfter secondAnnounced).state) ∧
    Runs.Reachable ExchangeStarts (fun x event => lawful x event = true) exchangeStep (exchangeAfter portAnnounced) ∧
    (exchangeAfter portAnnounced).state.requests = [] ∧
    (exchangeAfter portAnnounced).state.graph.ports.items.length = 1 ∧
    (exchangeAfter portAnnounced).state.live.ports.items = [] := by
  refine ⟨⟨lawful_reachable (by decide +kernel), by decide +kernel, by decide +kernel, by decide +kernel, fun current => ?_⟩,
    lawful_reachable (by decide +kernel), by decide +kernel, by decide +kernel, by decide +kernel⟩
  have same := congrArg (fun g => g.nodes.items.map Node.mediaClass) current
  revert same
  decide +kernel

end Evemon.PipeWire
