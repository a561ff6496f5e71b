import Evemon.Lib.Framing
import Evemon.Server

-- What holds of one open connection, and what each thing the server does to it preserves.
namespace Evemon.QueryServer

open Ipc Controls Framing Function List Nat

section

def Request.Complete (q : Request) : Prop :=
  ipcHeaderRead q.raw = some q.header ∧ q.raw.length = ipcHeaderSize + q.header.size.toNat

def Answered (q : Request) (frame : Frame) : Prop :=
  frame.id = q.header.id ∧ (frame.type = q.header.type ||| ipcReply ∨ frame.type = ipcError)

def answersIn (frames : List Frame) : List Frame := frames.filter fun frame => frame.origin = .answer

def Log.exchanges (log : Log) : List (Request × Frame) := log.requests.zip (answersIn log.frames)

def NeedsHello (exchange : Request × Frame) : Prop :=
  exchange.1.header.type ≠ ipcHello ∧ exchange.2.type ≠ ipcError

def GrantsHello (starved : Bool) (exchange : Request × Frame) : Prop :=
  exchange.1.header.type = ipcHello ∧ (exchange.2.type = ipcHello ||| ipcReply ∨ starved = true)

structure Ledger (log : Log) (hello : Bool) (pending : Option Request) (buffered : Bytes) : Prop where
  stream : log.received = log.requests.flatMap Request.raw ++ buffered
  complete : ∀ q ∈ log.requests, q.Complete
  paired : Paired Answered log.requests pending (answersIn log.frames)
  gated : Preceded NeedsHello (GrantsHello log.starved) log.exchanges
  opened : hello = true → ∃ exchange ∈ log.exchanges, GrantsHello log.starved exchange
  kept : log.replaced = false

variable {log : Log} {hello : Bool} {buffered : Bytes}

theorem answers_in_append (frames : List Frame) (frame : Frame) : answersIn (frames ++ [frame]) =
    if frame.origin = .answer then answersIn frames ++ [frame] else answersIn frames := by
  by_cases origin : frame.origin = .answer
  · simp [answersIn, origin]
  · simp [answersIn, origin]

theorem ledger_received (ledger : Ledger log hello none buffered) (bytes : Bytes) :
    Ledger { log with received := log.received ++ bytes } hello none (buffered ++ bytes) where
  stream := by rw [ledger.stream, append_assoc]
  complete := ledger.complete
  paired := ledger.paired
  gated := ledger.gated
  opened := ledger.opened
  kept := ledger.kept

theorem ledger_sent {pending} (ledger : Ledger log hello pending buffered) {wire} :
    Ledger { log with wire := wire } hello pending buffered :=
  ⟨ledger.stream, ledger.complete, ledger.paired, ledger.gated, ledger.opened, ledger.kept⟩

variable {frame : Frame}

theorem ledger_push (ledger : Ledger log hello none buffered) (origin : frame.origin = .push) {replaced : Bool}
    (kept : replaced = false) :
    Ledger { log with frames := log.frames ++ [frame], replaced := replaced } hello none buffered := by
  have same : answersIn (log.frames ++ [frame]) = answersIn log.frames := by
    rw [answers_in_append, if_neg (by simp [origin])]
  have exchanges : Log.exchanges { log with frames := log.frames ++ [frame], replaced := replaced } = log.exchanges := by
    simp only [Log.exchanges, same]
  refine ⟨ledger.stream, ledger.complete, ?_, ?_, ?_, kept⟩
  · simpa only [same] using ledger.paired
  · rw [exchanges]
    exact ledger.gated
  · rw [exchanges]
    exact ledger.opened

theorem ledger_complete (ledger : Ledger log hello none buffered) {q : Request} (whole : q.Complete)
    (raw : q.raw = buffered) : Ledger { log with requests := log.requests ++ [q] } hello (some q) [] := by
  have exchanges : Log.exchanges { log with requests := log.requests ++ [q] } = log.exchanges :=
    exchanges_receive ledger.paired q
  refine ⟨?_, fun other mem => ?_, paired_receive ledger.paired q, ?_, ?_, ledger.kept⟩
  · simp [ledger.stream, raw]
  · rcases mem_append.mp mem with before | _ | ⟨_, ⟨⟩⟩
    · exact ledger.complete other before
    · assumption
  · rw [exchanges]
    exact ledger.gated
  · rw [exchanges]
    exact ledger.opened

theorem ledger_answer {q} (ledger : Ledger log hello (some q) []) (origin : frame.origin = .answer)
    (answered : Answered q frame) {starved after : Bool} (replaced : Bool) (kept : replaced = false)
    (starves : log.starved → starved) (needs : NeedsHello (q, frame) → hello)
    (opens : after → hello ∨ GrantsHello starved (q, frame)) :
    Ledger { log with frames := log.frames ++ [frame], replaced := replaced, starved := starved } after none [] := by
  have longer : answersIn (log.frames ++ [frame]) = answersIn log.frames ++ [frame] := by
    rw [answers_in_append, if_pos origin]
  have exchanges : Log.exchanges { log with frames := log.frames ++ [frame], replaced := replaced, starved := starved } =
        log.exchanges ++ [(q, frame)] := by
    simp only [Log.exchanges, longer]
    exact exchanges_answer ledger.paired frame
  have wider (exchange : Request × Frame) (granted : GrantsHello log.starved exchange) :
      GrantsHello starved exchange := ⟨granted.1, granted.2.imp_right starves⟩
  have before (open_ : hello) : ∃ exchange ∈ log.exchanges, GrantsHello starved exchange := by
    obtain ⟨exchange, mem, granted⟩ := ledger.opened open_
    exact ⟨exchange, mem, wider exchange granted⟩
  refine ⟨ledger.stream, ledger.complete, ?_, ?_, ?_, kept⟩
  · simp only [longer]
    exact paired_answer ledger.paired frame answered
  · rw [exchanges]
    exact preceded_append (preceded_mono ledger.gated wider) fun needed => before (needs needed)
  · intro lifted
    rw [exchanges]
    rcases opens lifted with open_ | granted
    · obtain ⟨exchange, mem, granted⟩ := before open_
      exact ⟨exchange, mem_append_left _ mem, granted⟩
    · exact ⟨(q, frame), mem_append_right _ (mem_singleton_self _), granted⟩

end

def Client.current (c : Client) : Bytes := c.header ++ c.response

abbrev Client.sending (c : Client) : Prop :=
  Sending (c.log.frames.map Frame.bytes) c.writing c.current c.sent c.log.wire

structure Unfinished (c : Client) : Prop where
  short : c.request.length < c.expected
  headed : c.expected = ipcHeaderSize ∨ ipcHeaderSize ≤ c.request.length ∧ ipcHeaderRead c.request = some c.incoming ∧
    c.expected = ipcHeaderSize + c.incoming.size.toNat

inductive Conversing (c : Client) : Prop where
  | reading (quiet : c.writing = false) (free : c.job = none) (sending : c.sending)
      (ledger : Ledger c.log c.hello none c.request) (unfinished : Unfinished c)
  | writing (busy : c.writing = true) (free : c.job = none) (sending : c.sending)
      (ledger : Ledger c.log c.hello none []) (empty : c.request = []) (expected : c.expected = ipcHeaderSize)
      (headed : c.header.length = ipcHeaderSize)
  | waiting (slot : Slot) (quiet : c.writing = false) (held : c.job = some slot) (greeted : c.hello = true)
      (sending : c.sending) (ledger : Ledger c.log c.hello (some ⟨c.incoming, c.request⟩) [])

variable {deadline : Int}

theorem conversing_timers {c} (conversing : Conversing c) {period subscription eventSubscription : UInt32}
    {events : Bool} {eventCursor : UInt64} {nextEvent nextSample : Int} :
    Conversing { c with
      period := period, subscription := subscription, eventSubscription := eventSubscription, events := events
      eventCursor := eventCursor, nextEvent := nextEvent, nextSample := nextSample, deadline := deadline } := by
  cases conversing with
  | reading quiet free sending ledger unfinished => exact .reading quiet free sending ledger ⟨unfinished.1, unfinished.2⟩
  | writing busy free sending ledger empty expected headed => exact .writing busy free sending ledger empty expected headed
  | waiting slot quiet held greeted sending ledger => exact .waiting slot quiet held greeted sending ledger

theorem fresh_conversing {fd : Nat} {ticket : UInt64} :
    Conversing { fd := some fd, ticket := ticket, expected := ipcHeaderSize, deadline := deadline } := by
  have nothing : Ledger {} false none [] :=
    ⟨rfl, by simp, ⟨[], rfl, .nil⟩, preceded_nil, by simp, rfl⟩
  exact .reading rfl rfl (.idle [] _ _) nothing ⟨succ_pos 15, .inl rfl⟩

theorem reply_sending {c : Client} (quiet : c.writing = false) (sending : c.sending) (origin : Origin) (type : UInt16)
    (id : UInt32) (body : Body) (now : Int) : (reply c origin type id body now).sending := by
  rw [Client.sending, quiet] at sending
  have started := @sending_start _ _ _ _ _ sending (Frame.bytes ⟨type, id, body, origin⟩) (frame_bytes_positive _)
  simpa [Client.sending, reply, Client.current, Frame.bytes] using started

theorem reply_headed (c : Client) (origin : Origin) (type : UInt16) (id : UInt32) (body : Body) (now : Int) :
    (reply c origin type id body now).header.length = ipcHeaderSize := by
  simp only [reply, header_write_length]

theorem released_conversing {c : Client} (busy : c.writing) (sending : c.sending)
    (ledger : Ledger c.log c.hello none []) (empty : c.request = []) (expected : c.expected = ipcHeaderSize)
    (headed : c.header.length = ipcHeaderSize) : Conversing { c with job := none } :=
  .writing busy rfl sending ledger empty expected headed

theorem push_conversing (c : Client) (conversing : Conversing c) {input} (idle : c.idle input)
    (type : UInt16) (id : UInt32) (body : Body) (now : Int) : Conversing (reply c .push type id body now) := by
  simp only [Client.idle, Bool.and_eq_true, Bool.not_eq_true', Option.isNone_iff_eq_none, List.isEmpty_iff] at idle
  obtain ⟨⟨⟨-, quiet⟩, free⟩, empty⟩ := idle
  cases conversing with
  | reading _ _ sending ledger unfinished =>
    rw [empty] at ledger
    exact .writing rfl free (reply_sending quiet sending .push type id body now)
      (ledger_push ledger rfl (by simp [ledger.kept, quiet])) rfl rfl (reply_headed c .push type id body now)
  | writing busy _ _ _ _ _ _ =>
    rw [quiet] at busy
    cases busy
  | waiting slot _ held _ _ _ =>
    rw [free] at held
    cases held

theorem answer_conversing (c : Client) {q} (quiet : c.writing = false) (sending : c.sending)
    (hello starved : Bool) (ledger : Ledger { c.log with starved := starved } hello (some q) [])
    (starves : starved → c.log.starved) {type : UInt16} {id : UInt32} {body : Body} {now}
    (answered : Answered q ⟨type, id, body, .answer⟩) (needs : NeedsHello (q, ⟨type, id, body, .answer⟩) → hello)
    (opens : c.hello → hello ∨ GrantsHello c.log.starved (q, ⟨type, id, body, .answer⟩)) :
    Conversing { reply c .answer type id body now with job := none } := by
  have after := ledger_answer ledger rfl answered
    (c.log.replaced || c.writing) (by simpa [quiet] using ledger.kept) starves needs opens
  exact released_conversing rfl
    (reply_sending quiet sending .answer type id body now) after rfl rfl (reply_headed c .answer type id body now)

section

structure SameTalk (c after : Client) : Prop where
  fd : after.fd = c.fd
  ticket : after.ticket = c.ticket
  job : after.job = c.job
  request : after.request = c.request
  header : after.header = c.header
  sent : after.sent = c.sent
  incoming : after.incoming = c.incoming
  response : after.response = c.response
  writing : after.writing = c.writing
  log : { after.log with starved := c.log.starved } = c.log

inductive HandledWell (c : Client) (jobs : Jobs) : Handled → Prop where
  | refused (after : Client) (tracing : Tracing) (error : Option IpcCode) (out : Out) (same : SameTalk c after)
      (hello : after.hello = c.hello) (starved : after.log.starved = c.log.starved) :
      HandledWell c jobs (.answered after tracing error out)
  | greeted (after : Client) (tracing : Tracing) (out : Out) (same : SameTalk c after)
      (type : c.incoming.type = ipcHello) (starved : after.log.starved = (c.log.starved || out.failed)) :
      HandledWell c jobs (.answered after tracing none out)
  | queued (slot : Slot) (pid needs : UInt32) (deadline : Int) (free : (jobs slot).state = .free)
      (other : c.incoming.type ≠ ipcHello) :
      HandledWell c jobs (.queued { c with job := some slot, deadline := deadline }
        (update jobs slot
          { state := .queued, ticket := c.ticket, pid := pid, needs := needs, type := c.incoming.type }))

theorem same_talk_refl (c : Client) : SameTalk c c := ⟨rfl, rfl, rfl, rfl, rfl, rfl, rfl, rfl, rfl, rfl⟩

theorem handled_unchanged (c : Client) (jobs : Jobs) (tracing : Tracing) (error : Option IpcCode) (out : Out) :
    HandledWell c jobs (.answered c tracing error out) := .refused c tracing error out (same_talk_refl c) rfl rfl

variable (cfg : Config) (env : Answers) (tracing : Tracing) (jobs : Jobs) (input : WireState) (c : Client)

theorem handle_hello_well (type : c.incoming.type = ipcHello) : HandledWell c jobs (handleHello cfg env tracing c) := by
  by_cases rejected : c.incoming.size ≠ 0 ∨ c.hello
  · rw [handleHello, if_pos rejected]
    exact handled_unchanged c jobs tracing _ _
  · rw [handleHello, if_neg rejected]
    exact .greeted _ tracing _ ⟨rfl, rfl, rfl, rfl, rfl, rfl, rfl, rfl, rfl, rfl⟩ type rfl

theorem handle_subscribe_well : HandledWell c jobs (handleSubscribe env tracing input c) := by
  unfold handleSubscribe
  cases (getWord.run input).1 with
  | none => exact handled_unchanged c jobs tracing _ _
  | some period =>
    dsimp only
    split
    · exact handled_unchanged c jobs tracing _ _
    · exact .refused _ tracing _ _ ⟨rfl, rfl, rfl, rfl, rfl, rfl, rfl, rfl, rfl, rfl⟩ rfl rfl

theorem handle_events_well : HandledWell c jobs (handleEvents env tracing input c) := by
  unfold handleEvents
  cases (getWord.run input).1 with
  | none => exact handled_unchanged c jobs tracing _ _
  | some enabled =>
    dsimp only
    split
    · exact handled_unchanged c jobs tracing _ _
    · exact .refused _ tracing _ _ ⟨rfl, rfl, rfl, rfl, rfl, rfl, rfl, rfl, rfl, rfl⟩ rfl rfl

theorem handle_job_well (other : c.incoming.type ≠ ipcHello) :
    HandledWell c jobs (handleJob env tracing jobs input c) := by
  unfold handleJob
  cases ((getJob c.incoming.type).run input).1 with
  | none => exact handled_unchanged c jobs tracing _ _
  | some parsed =>
    dsimp only
    split
    · exact handled_unchanged c jobs tracing _ _
    · cases found : (List.finRange clientsMax).find? fun slot => (jobs slot).state = .free with
      | none => exact handled_unchanged c jobs tracing _ _
      | some slot => exact .queued slot parsed.1 parsed.2 _ (by simpa using List.find?_some found) other

theorem handle_cases {P : Handled → Prop} (unchanged : ∀ tracing error out, P (.answered c tracing error out))
    (hello : c.incoming.type = ipcHello → P (handleHello cfg env tracing c))
    (subscribe : ∀ input, P (handleSubscribe env tracing input c)) (events : ∀ input, P (handleEvents env tracing input c))
    (job : c.incoming.type ≠ ipcHello → ∀ input, P (handleJob env tracing jobs input c)) :
    P (handle cfg env tracing jobs c) := by
  have empty (error : Option IpcCode) : P (handleEmpty env tracing error c) := by
    unfold handleEmpty
    split <;> apply unchanged
  have process (input : WireState) : P (handleProcess env tracing input c) := by
    unfold handleProcess
    split
    · apply unchanged
    · split <;> apply unchanged
  unfold handle
  dsimp only
  split
  · rename_i greets
    exact hello greets
  rename_i other
  split
  · apply empty
  split
  · apply unchanged
  split
  · apply empty
  split
  · apply process
  split
  · apply subscribe
  split
  · apply unchanged
  split
  · apply events
  split
  · exact job other _
  · apply unchanged

theorem handle_well : HandledWell c jobs (handle cfg env tracing jobs c) :=
  handle_cases cfg env tracing jobs c (handled_unchanged c jobs) (handle_hello_well cfg env tracing jobs c)
    (handle_subscribe_well env tracing jobs · c) (handle_events_well env tracing jobs · c)
    fun other input => handle_job_well env tracing jobs input c other

structure Pending (c : Client) : Prop where
  quiet : c.writing = false
  free : c.job = none
  sending : c.sending
  ledger : Ledger c.log c.hello (some ⟨c.incoming, c.request⟩) []

inductive Dispatched (s : Server) (i : Slot) (c : Client) : Server → Prop where
  | answered (after : Client) (tracing : Tracing) (conversing : Conversing after) (fd : after.fd = c.fd)
      (free : after.job = none) : Dispatched s i c { s.setClient i after with tracing := tracing }
  | queued (after : Client) (slot : Slot) (job : Job) (conversing : Conversing after) (fd : after.fd = c.fd)
      (held : after.job = some slot) (ticket : job.ticket = after.ticket) (state : job.state = .queued)
      (free : (s.jobs slot).state = .free) :
      Dispatched s i c { s.setClient i after with jobs := update s.jobs slot job }

theorem reply_free (free : c.job = none) (origin : Origin) (type : UInt16) (id : UInt32) (body : Body) (now : Int) :
    { reply c origin type id body now with job := none } = reply c origin type id body now := by
  cases c
  cases free
  rfl

theorem error_conversing (pending : Pending c) {code} {heap} {now} :
    Conversing (replyError c .answer c.incoming.id code heap now) := by
  rw [replyError, ← reply_free c pending.free]
  refine answer_conversing c pending.quiet pending.sending c.hello c.log.starved pending.ledger id ⟨rfl, .inr rfl⟩ ?_ .inl
  exact fun needs => absurd rfl needs.2

theorem answer_well {after} (error : Option IpcCode) (out : Out) (pending : Pending c) (same : SameTalk c after)
    (gate : c.hello ∨ c.incoming.type = ipcHello) (starves : c.log.starved → after.log.starved)
    (lifts : after.hello → c.hello ∨ c.incoming.type = ipcHello ∧ error = none ∧ (out.failed → after.log.starved)) :
    Conversing (answer env after error out) := by
  have quiet : after.writing = false := same.writing.trans pending.quiet
  have free : after.job = none := same.job.trans pending.free
  have log : { after.log with starved := c.log.starved } = c.log := same.log
  have frames : after.log.frames = c.log.frames := by rw [← log]
  have wire : after.log.wire = c.log.wire := by rw [← log]
  have sending : after.sending := by
    have before := pending.sending
    simpa only [Client.sending, Client.current, frames, wire, same.writing, same.header, same.response, same.sent]
      using before
  have ledger : Ledger { after.log with starved := c.log.starved } c.hello (some ⟨c.incoming, c.request⟩) [] := by
    rw [log]
    exact pending.ledger
  by_cases failed : error.isSome ∨ out.failed
  · rw [answer, if_pos failed, replyError, ← reply_free after free]
    refine answer_conversing after quiet sending c.hello c.log.starved ledger starves
      ⟨by rw [same.incoming], .inr rfl⟩ (fun needs => absurd rfl needs.2) fun lifted => ?_
    refine (lifts lifted).imp_right fun ⟨type, success, starved⟩ => ⟨type, .inr (starved ?_)⟩
    exact failed.resolve_left (by simp [success])
  · rw [answer, if_neg failed, ← reply_free after free]
    refine answer_conversing after quiet sending c.hello c.log.starved ledger starves
      ⟨by rw [same.incoming], .inl (by rw [same.incoming])⟩ (fun needs => gate.resolve_right needs.1) fun lifted => ?_
    exact (lifts lifted).imp_right fun ⟨type, _, _⟩ => ⟨type, .inl (by rw [same.incoming, type])⟩

theorem request_dispatch_spec (s : Server) (i : Slot) (pending : Pending c) :
    Dispatched s i c (requestDispatch cfg env s i c) := by
  by_cases early : c.hello = false ∧ c.incoming.type ≠ ipcHello
  · rw [requestDispatch, if_pos early]
    exact .answered _ s.tracing (error_conversing c pending) rfl pending.free
  · have gate : c.hello ∨ c.incoming.type = ipcHello := by
      by_cases hello : c.hello
      · exact .inl hello
      · exact .inr (not_not.mp fun other => early ⟨Bool.eq_false_iff.mpr hello, other⟩)
    have answered (after : Client) (error : Option IpcCode) (out : Out) (same : SameTalk c after) :
        (answer env after error out).fd = c.fd ∧ (answer env after error out).job = none := by
      unfold answer
      split
      · exact ⟨same.fd, same.job.trans pending.free⟩
      · exact ⟨same.fd, same.job.trans pending.free⟩
    have handled := handle_well cfg env s.tracing s.jobs c
    rw [requestDispatch, if_neg early]
    generalize handle cfg env s.tracing s.jobs c = result at handled ⊢
    cases handled with
    | refused after tracing error out same hello starved =>
      obtain ⟨fd, free⟩ := answered after error out same
      exact .answered _ tracing (answer_well env c error out pending same gate (fun held => starved ▸ held)
        fun lifted => .inl (hello ▸ lifted)) fd free
    | greeted after tracing out same type starved =>
      obtain ⟨fd, free⟩ := answered after none out same
      refine .answered _ tracing (answer_well env c none out pending same gate (fun held => ?_)
        fun _ => .inr ⟨type, rfl, fun failed => ?_⟩) fd free
      · simp [starved, held]
      · simp [starved, failed]
    | queued slot pid needs deadline free other =>
      exact .queued _ slot _ (.waiting slot pending.quiet rfl (gate.resolve_right other) pending.sending pending.ledger)
        rfl rfl rfl rfl free

end

section

inductive Serviced (s : Server) (i : Slot) : Server → Prop where
  | same : Serviced s i s
  | closed (tracing : Tracing) : Serviced s i { s.setClient i {} with tracing := tracing }
  | talked (after : Client) (tracing : Tracing) (conversing : Conversing after) (fd : after.fd = (s.clients i).fd)
      (free : after.job = none) : Serviced s i { s.setClient i after with tracing := tracing }
  | queued (after : Client) (slot : Slot) (job : Job) (conversing : Conversing after)
      (fd : after.fd = (s.clients i).fd) (held : after.job = some slot) (ticket : job.ticket = after.ticket)
      (state : job.state = .queued) (free : (s.jobs slot).state = .free) :
      Serviced s i { s.setClient i after with jobs := update s.jobs slot job }

variable {cfg : Config} {io : Exchange} {s : Server} {i : Slot} (c : Client)

theorem client_close_serviced {closing} : Serviced s i (clientClose s i closing) := .closed _

theorem dispatched_serviced (fd : c.fd = (s.clients i).fd) {result} (dispatched : Dispatched s i c result) :
    Serviced s i result := by
  cases dispatched with
  | answered after tracing conversing same free => exact .talked after tracing conversing (same.trans fd) free
  | queued after slot job conversing same held ticket state free =>
    exact .queued after slot job conversing (same.trans fd) held ticket state free

theorem header_read_append {input later : Bytes} (long : ipcHeaderSize ≤ input.length) :
    ipcHeaderRead (input ++ later) = ipcHeaderRead input := by
  rw [ipcHeaderRead, ipcHeaderRead, take_append_of_le_length long]

theorem dispatch_if_complete_serviced (fd : c.fd = (s.clients i).fd) (quiet : c.writing = false) (free : c.job = none)
    (sending : c.sending) (ledger : Ledger c.log c.hello none c.request) (bounded : c.request.length ≤ c.expected)
    (headed : ipcHeaderSize ≤ c.request.length ∧ ipcHeaderRead c.request = some c.incoming ∧
    c.expected = ipcHeaderSize + c.incoming.size.toNat ∨ c.request.length < c.expected ∧ c.expected = ipcHeaderSize) :
    Serviced s i (dispatchIfComplete cfg io s i c) := by
  by_cases all : c.request.length = c.expected
  · rw [dispatchIfComplete, if_pos all]
    have whole : Request.Complete ⟨c.incoming, c.request⟩ := by
      rcases headed with ⟨-, read, size⟩ | ⟨short, -⟩
      · exact ⟨read, all.trans size⟩
      · exact absurd all (Nat.ne_of_lt short)
    refine dispatched_serviced _ ?_ (request_dispatch_spec cfg io.answers _ s i ⟨quiet, free, ?_, ?_⟩)
    · exact fd
    · exact sending
    · exact ledger_complete ledger whole rfl
  · rw [dispatchIfComplete, if_neg all]
    refine .talked c s.tracing (.reading quiet free sending ledger ⟨Nat.lt_of_le_of_ne bounded all, ?_⟩) fd free
    exact headed.elim .inr fun short => .inl short.2

theorem received_serviced (bytes : Bytes) (fd : c.fd = (s.clients i).fd) (quiet : c.writing = false)
    (free : c.job = none) (sending : c.sending) (ledger : Ledger c.log c.hello none c.request)
    (unfinished : Unfinished c) (bounded : c.request.length + bytes.length ≤ c.expected)
    (recv : io.recv = .data bytes) (start : (if (s.clients i).request = [] then
      { s.clients i with deadline := io.started + ipcTimeoutMs } else s.clients i) = c) :
    Serviced s i (readRequest cfg io s i) := by
  have later : Ledger (received c bytes).log c.hello none (received c bytes).request := ledger_received ledger bytes
  have fits : (received c bytes).request.length ≤ c.expected := by
    rw [received, length_append]
    exact bounded
  simp only [readRequest, recv, start]
  by_cases header : (received c bytes).request.length = ipcHeaderSize ∧ (received c bytes).expected = ipcHeaderSize
  · rw [if_pos header]
    cases read : ipcHeaderRead (received c bytes).request with
    | none => exact client_close_serviced
    | some h =>
      by_cases large : h.size.toNat > ipcRequestLimit
      · simp only [if_pos large]
        exact client_close_serviced
      · simp only [if_neg large]
        refine dispatch_if_complete_serviced _ fd quiet free sending later ?_ (.inl ⟨?_, read, ?_⟩)
        · exact le_trans (le_of_eq (header.1.trans header.2.symm)) (le_add_right _ _)
        · exact le_of_eq header.1.symm
        · exact congrArg (· + h.size.toNat) header.2
  · rw [if_neg header]
    refine dispatch_if_complete_serviced _ fd quiet free sending later fits ?_
    rcases unfinished.headed with first | ⟨long, read, size⟩
    · refine .inr ⟨lt_of_le_of_ne fits fun all => header ⟨all.trans first, first⟩, first⟩
    · refine .inl ⟨?_, ?_, size⟩
      · rw [received, length_append]
        exact le_trans long (le_add_right _ _)
      · rw [received, header_read_append long]
        exact read

theorem read_request_serviced (conversing : Conversing (s.clients i)) (quiet : (s.clients i).writing = false)
    (free : (s.clients i).job = none) (admissible : ∀ bytes, io.recv = .data bytes →
    (s.clients i).request.length + bytes.length ≤ (s.clients i).expected) : Serviced s i (readRequest cfg io s i) := by
  cases conversing with
  | writing busy _ _ _ _ _ _ =>
    rw [quiet] at busy
    cases busy
  | waiting slot _ held _ _ _ =>
    rw [free] at held
    cases held
  | reading _ _ sending ledger unfinished =>
    -- Only the deadline may have been set when the first bytes arrive.
    obtain ⟨deadline, start⟩ : ∃ deadline, (if (s.clients i).request = [] then
        { s.clients i with deadline := io.started + ipcTimeoutMs } else s.clients i) =
          { s.clients i with deadline := deadline } := by
      by_cases first : (s.clients i).request = []
      · exact ⟨_, if_pos first⟩
      · exact ⟨(s.clients i).deadline, if_neg first⟩
    cases recv : io.recv with
    | eof | failed =>
      simp only [readRequest, recv]
      exact client_close_serviced
    | again =>
      simp only [readRequest, recv, start]
      exact .talked _ s.tracing (.reading quiet free sending ledger ⟨unfinished.1, unfinished.2⟩) rfl free
    | data bytes =>
      exact received_serviced { s.clients i with deadline := deadline } bytes rfl quiet free sending ledger
        ⟨unfinished.1, unfinished.2⟩ (admissible bytes recv) recv start

theorem outstanding_take (headed : c.header.length = ipcHeaderSize) {count : Nat}
    (admissible : count ≤ (outstanding c).length) :
    (outstanding c).take count = (c.current.drop c.sent).take count ∧ c.sent + count ≤ c.current.length ∨
    c.current.length < c.sent := by
  by_cases first : c.sent < ipcHeaderSize
  · rw [outstanding, if_pos first] at admissible ⊢
    rw [length_drop, headed] at admissible
    refine .inl ⟨?_, ?_⟩
    · rw [Client.current, drop_append_of_le_length (by omega), take_append_of_le_length]
      rw [length_drop, headed]
      exact admissible
    · rw [Client.current, length_append, headed]
      omega
  · rw [outstanding, if_neg first] at admissible ⊢
    by_cases past : c.current.length < c.sent
    · exact .inr past
    · refine .inl ⟨?_, ?_⟩
      · have gone : c.header.drop c.sent = [] := drop_eq_nil_of_le (by omega)
        rw [Client.current, drop_append, headed, gone, nil_append]
      · rw [length_drop] at admissible
        rw [Client.current, length_append, headed] at past ⊢
        omega

theorem send_reply_serviced (conversing : Conversing (s.clients i)) (busy : (s.clients i).writing)
    (admissible : ∀ count, io.send = .sent count → count ≤ (outstanding (s.clients i)).length) :
    Serviced s i (sendReply io s i) := by
  cases conversing with
  | reading quiet _ _ _ _ | waiting slot quiet _ _ _ _ =>
    rw [quiet] at busy
    cases busy
  | writing _ free sending ledger empty expected headed =>
    rw [Client.sending, busy] at sending
    have left := sending_left sending
    have size : (s.clients i).current.length = ipcHeaderSize + (s.clients i).response.length := by
      rw [Client.current, length_append, headed]
    cases send : io.send with
    | failed =>
      simp only [sendReply, send]
      exact client_close_serviced
    | again =>
      have unsent : ¬ (s.clients i).sent = ipcHeaderSize + (s.clients i).response.length := by omega
      simp only [sendReply, send, finishReply, if_neg unsent]
      refine .talked _ s.tracing (.writing busy free ?_ ledger empty expected headed) rfl free
      rwa [Client.sending, busy]
    | sent count =>
      obtain ⟨bytes, fits⟩ := (outstanding_take (s.clients i) headed (admissible count send)).resolve_right (by omega)
      simp only [sendReply, send, finishReply, sentCount, bytes]
      by_cases all : (s.clients i).sent + count = ipcHeaderSize + (s.clients i).response.length
      · rw [if_pos all]
        have finished := sending_finish sending (all.trans size.symm) ((s.clients i).header ++ [])
          ((s.clients i).sent + count)
        refine .talked _ s.tracing (.reading rfl free finished ?_ ⟨?_, .inl expected⟩) rfl free
        · simpa only [empty] using ledger_sent ledger
        · simp only [empty, expected]
          decide
      · rw [if_neg all]
        have advanced := sending_advance sending count (by omega)
        refine .talked _ s.tracing (.writing busy free ?_ (ledger_sent ledger) empty expected headed) rfl free
        simp only [Client.sending, busy]
        exact advanced

end

end Evemon.QueryServer
