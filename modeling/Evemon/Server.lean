import Evemon.Controls
import Evemon.Frame

-- query_worker and inspect_worker. A step of the worker is what it does for one client or under one
-- hold of jobs_lock; the inspector may step in between.
namespace Evemon.QueryServer

open Ipc Controls Function

def ipcTimeoutMs : Int := 5000

abbrev Slot := Fin clientsMax

structure Request where
  header : IpcHeader
  raw : Bytes

-- Ghost: what has passed over one connection. `replaced` is set once reply() is called over a
-- response that is not fully sent, `starved` once the reply to an accepted HELLO finds no memory.
structure Log where
  received : Bytes := []
  wire : Bytes := []
  requests : List Request := []
  frames : List Frame := []
  replaced : Bool := false
  starved : Bool := false

-- `request` is the first `used` bytes of the array, and `fd` is none where it is negative.
structure Client where
  fd : Option Nat := none
  hello : Bool := false
  job : Option Slot := none
  ticket : UInt64 := 0
  request : Bytes := []
  header : Bytes := []
  expected : Nat := 0
  sent : Nat := 0
  incoming : IpcHeader := ⟨0, 0, 0⟩
  response : Bytes := []
  writing : Bool := false
  period : UInt32 := 0
  subscription : UInt32 := 0
  eventSubscription : UInt32 := 0
  events : Bool := false
  eventCursor : UInt64 := 0
  nextEvent : Int := 0
  nextSample : Int := 0
  deadline : Int := 0
  log : Log := {}

inductive JobState where
  | free
  | queued
  | running
  | complete
deriving DecidableEq

structure Job where
  state : JobState := .free
  ticket : UInt64 := 0
  pid : UInt32 := 0
  needs : UInt32 := 0
  type : UInt16 := 0
  result : Body := Body.empty
  error : Option IpcCode := none

abbrev Jobs := Slot → Job

inductive Interest where
  | none
  | input
  | output
deriving DecidableEq

structure Revents where
  input : Bool := false
  output : Bool := false
  error : Bool := false
  hangup : Bool := false
  invalid : Bool := false

inductive Pc where
  | reap
  | prepare (client : Slot)
  | poll
  | service (client : Slot)
  | accept
  | stopped
deriving DecidableEq

structure Server where
  clients : Slot → Client := fun _ => {}
  jobs : Jobs := fun _ => {}
  ticket : UInt64 := 0
  tracing : Tracing
  pc : Pc := .reap
  now : Int := 0
  interest : Slot → Interest := fun _ => .none
  revents : Slot → Revents := fun _ => {}

def Server.setClient (s : Server) (i : Slot) (c : Client) : Server :=
  { s with clients := update s.clients i c }

structure Config where
  pipewire : Bool
  nvtop : Bool
  instanceId : UInt64
  version : Bytes

def reply (c : Client) (origin : Origin) (type : UInt16) (id : UInt32) (body : Body) (now : Int) : Client :=
  { c with
    response := body.val
    header := ipcHeaderWrite type id (UInt32.ofNat body.val.length)
    sent := 0
    writing := true
    request := []
    expected := ipcHeaderSize
    deadline := now + ipcTimeoutMs
    log := { c.log with
      frames := c.log.frames ++ [⟨type, id, body, origin⟩]
      replaced := c.log.replaced || c.writing } }

def replyError (c : Client) (origin : Origin) (id : UInt32) (code : IpcCode) (heap : Heap) (now : Int) : Client :=
  reply c origin ipcError id (errorBody code heap) now

structure Closing where
  heap : Heap
  forward : Kernel
  rollback : Kernel

def clientClose (s : Server) (i : Slot) (closing : Closing) : Server :=
  let dropped := if (s.clients i).fd.isSome then
    queryControlsDrop (s.clients i).ticket closing.heap closing.forward closing.rollback s.tracing else s.tracing
  { s.setClient i {} with tracing := dropped }

section

structure Answers where
  heap : Heap
  errorHeap : Heap
  backend : UInt32
  encoded : Option IpcCode × Out
  forward : Kernel
  rollback : Kernel
  latest : UInt64
  handled : Int
  replied : Int

inductive Handled where
  | answered (c : Client) (tracing : Tracing) (error : Option IpcCode) (out : Out)
  | queued (c : Client) (jobs : Jobs)

def Out.empty : Out := ⟨false, Body.empty⟩

def capabilities (cfg : Config) : UInt32 :=
  1 ||| 2 ||| 8 ||| 16 ||| 64 ||| 128 ||| (if cfg.pipewire then 4 else 0) ||| (if cfg.nvtop then 32 else 0)

def putHello (cfg : Config) (backend : UInt32) : Wire Unit := do
  ipcPutU32 (capabilities cfg)
  ipcPutU32 (UInt32.ofNat ipcLimit)
  ipcPutU64 cfg.instanceId
  ipcPutU32 backend
  ipcPutString cfg.version

theorem put_hello_bounded (cfg : Config) (backend : UInt32) : Prog.Keeps Bounded (putHello cfg backend) :=
  Prog.keeps_bind (put_u32_bounded _) fun _ => Prog.keeps_bind (put_u32_bounded _) fun _ =>
    Prog.keeps_bind put_u64_bounded fun _ => Prog.keeps_bind (put_u32_bounded _) fun _ => put_string_bounded

def buildWord (value : UInt32) (heap : Heap) : Out := build (ipcPutU32 value) (put_u32_bounded value) heap

def getWord : Wire (Option UInt32) := do
  let value ← ipcGetU32
  let done ← Prog.inspect fun state => ipcDone state.buf
  pure (if done then some value else none)

def getInspect : Wire (Option (UInt32 × UInt32)) := do
  let pid ← ipcGetU32
  let needs ← ipcGetU32
  let done ← Prog.inspect fun state => ipcDone state.buf
  pure (if done then some (pid, needs) else none)

-- GPU and ABOUT carry no body and are queued under PID 1.
def getJob (type : UInt16) : Wire (Option (UInt32 × UInt32)) :=
  if type = ipcInspect then getInspect
  else do
    let done ← Prog.inspect fun state => ipcDone state.buf
    pure (if done then some (1, 0) else none)

variable (cfg : Config) (env : Answers) (tracing : Tracing)

def handleHello (c : Client) : Handled :=
  if c.incoming.size ≠ 0 ∨ c.hello then .answered c tracing (some .badRequest) Out.empty
  else
    let out := build (putHello cfg env.backend) (put_hello_bounded cfg env.backend) env.heap
    .answered { c with hello := true, log := { c.log with starved := c.log.starved || out.failed } } tracing none out

def handleEmpty (error : Option IpcCode) (c : Client) : Handled :=
  if c.incoming.size ≠ 0 then .answered c tracing (some .badRequest) Out.empty
  else .answered c tracing error env.encoded.2

def handleProcess (input : WireState) (c : Client) : Handled :=
  match (getWord.run input).1 with
  | none => .answered c tracing (some .badRequest) Out.empty
  | some pid =>
    if pid = 0 ∨ pid > intMax then .answered c tracing (some .badRequest) Out.empty
    else .answered c tracing env.encoded.1 env.encoded.2

def handleSubscribe (input : WireState) (c : Client) : Handled :=
  match (getWord.run input).1 with
  | none => .answered c tracing (some .badRequest) Out.empty
  | some period =>
    if period > 3600000 then .answered c tracing (some .badRequest) Out.empty
    else
      .answered { c with period := period, subscription := c.incoming.id, nextSample := env.handled } tracing none
        (buildWord period env.heap)

def handleControl (input : WireState) (c : Client) : Handled :=
  let result := queryControlsReplace c.ticket input env.forward env.rollback tracing
  .answered c result.2 result.1 Out.empty

def handleEvents (input : WireState) (c : Client) : Handled :=
  match (getWord.run input).1 with
  | none => .answered c tracing (some .badRequest) Out.empty
  | some enabled =>
    if enabled > 1 then .answered c tracing (some .badRequest) Out.empty
    else
      .answered
        { c with
          events := decide (enabled ≠ 0)
          eventSubscription := c.incoming.id
          eventCursor := env.latest
          nextEvent := env.handled }
        tracing none (buildWord enabled env.heap)

def handleJob (jobs : Jobs) (input : WireState) (c : Client) : Handled :=
  match ((getJob c.incoming.type).run input).1 with
  | none => .answered c tracing (some .badRequest) Out.empty
  | some (pid, needs) =>
    if pid = 0 ∨ pid > intMax ∨ needs &&& ~~~2047 ≠ 0 then .answered c tracing (some .badRequest) Out.empty
    else
      match (List.finRange clientsMax).find? fun slot => (jobs slot).state = .free with
      | none => .answered c tracing (some .busy) Out.empty
      | some slot =>
        .queued { c with job := some slot, deadline := env.handled + ipcTimeoutMs }
          (update jobs slot
            { state := .queued, ticket := c.ticket, pid := pid, needs := needs, type := c.incoming.type })

def handle (jobs : Jobs) (c : Client) : Handled :=
  let type := c.incoming.type
  let input : WireState :=
    { buf := { data := (c.request.drop ipcHeaderSize).take c.incoming.size.toNat }, heap := env.heap }
  if type = ipcHello then handleHello cfg env tracing c
  else if type = ipcHost then handleEmpty env tracing none c
  else if type = ipcSignal then .answered c tracing none env.encoded.2
  else if type = ipcStatus ∨ type = ipcSnapshot then handleEmpty env tracing env.encoded.1 c
  else if type = ipcProcess then handleProcess env tracing input c
  else if type = ipcSubscribe then handleSubscribe env tracing input c
  else if type = ipcControl then handleControl env tracing input c
  else if type = ipcEvents then handleEvents env tracing input c
  else if type = ipcGpu ∨ type = ipcAbout ∨ type = ipcInspect then handleJob env tracing jobs input c
  else .answered c tracing (some .unsupported) Out.empty

def answer (c : Client) (error : Option IpcCode) (out : Out) : Client :=
  if error.isSome ∨ out.failed then
    replyError c .answer c.incoming.id (error.getD .internal) env.errorHeap env.replied
  else reply c .answer (c.incoming.type ||| ipcReply) c.incoming.id out.body env.replied

def requestDispatch (s : Server) (i : Slot) (c : Client) : Server :=
  if c.hello = false ∧ c.incoming.type ≠ ipcHello then
    s.setClient i (replyError c .answer c.incoming.id .badRequest env.errorHeap env.replied)
  else
    match handle cfg env s.tracing s.jobs c with
    | .answered after tracing error out => { s.setClient i (answer env after error out) with tracing := tracing }
    | .queued after jobs => { s.setClient i after with jobs := jobs }

end

section

inductive Recv where
  | data (bytes : Bytes)
  | eof
  | again
  | failed

inductive Send where
  | sent (count : Nat)
  | again
  | failed

structure Exchange where
  recv : Recv
  send : Send
  started : Int
  finished : Int
  answers : Answers
  closing : Closing

variable (cfg : Config) (io : Exchange)

def received (c : Client) (bytes : Bytes) : Client :=
  { c with request := c.request ++ bytes, log := { c.log with received := c.log.received ++ bytes } }

def requestComplete (s : Server) (i : Slot) (c : Client) : Server :=
  requestDispatch cfg io.answers s i
    { c with log := { c.log with requests := c.log.requests ++ [⟨c.incoming, c.request⟩] } }

def dispatchIfComplete (s : Server) (i : Slot) (c : Client) : Server :=
  if c.request.length = c.expected then requestComplete cfg io s i c else s.setClient i c

def readRequest (s : Server) (i : Slot) : Server :=
  let opened := s.clients i
  let c := if opened.request = [] then { opened with deadline := io.started + ipcTimeoutMs } else opened
  match io.recv with
  | .eof => clientClose s i io.closing
  | .failed => clientClose s i io.closing
  | .again => s.setClient i c
  | .data bytes =>
    let c := received c bytes
    if c.request.length = ipcHeaderSize ∧ c.expected = ipcHeaderSize then
      match ipcHeaderRead c.request with
      | none => clientClose s i io.closing
      | some h =>
        if h.size.toNat > ipcRequestLimit then clientClose s i io.closing
        else dispatchIfComplete cfg io s i { c with incoming := h, expected := c.expected + h.size.toNat }
    else dispatchIfComplete cfg io s i c

def outstanding (c : Client) : Bytes :=
  if c.sent < ipcHeaderSize then c.header.drop c.sent else c.response.drop (c.sent - ipcHeaderSize)

def sentCount (c : Client) (count : Nat) : Client :=
  { c with sent := c.sent + count, log := { c.log with wire := c.log.wire ++ (outstanding c).take count } }

def finishReply (c : Client) : Client :=
  if c.sent = ipcHeaderSize + c.response.length then
    { c with response := [], writing := false, deadline := if c.hello then 0 else io.finished + ipcTimeoutMs }
  else c

def sendReply (s : Server) (i : Slot) : Server :=
  match io.send with
  | .failed => clientClose s i io.closing
  | .again => s.setClient i (finishReply io (s.clients i))
  | .sent count => s.setClient i (finishReply io (sentCount (s.clients i) count))

def service (s : Server) (i : Slot) : Server :=
  let c := s.clients i
  let events := s.revents i
  if c.fd = none then s
  else if (c.deadline ≠ 0 ∧ s.now ≥ c.deadline) ∨ events.error ∨ events.invalid then clientClose s i io.closing
  else
    let s := if events.input then readRequest cfg io s i else s
    let s := if (s.clients i).fd.isSome ∧ events.output then sendReply io s i else s
    if (s.clients i).fd.isSome ∧ events.hangup ∧ events.input = false then clientClose s i io.closing else s

end

def Client.idle (c : Client) (input : Bool) : Bool :=
  !input && c.fd.isSome && !c.writing && c.job.isNone && c.request.isEmpty

-- `input`: whether there is anything to read. The two bodies are those of the encoders.
structure Preparation where
  input : Bool
  snapshot : Option IpcCode × Body
  batch : Body
  cursor : UInt64
  heap : Heap
  sampled : Int
  batched : Int

def pushSnapshot (env : Preparation) (now : Int) (c : Client) : Client :=
  if c.idle env.input ∧ c.period ≠ 0 ∧ now ≥ c.nextSample then
    { (match env.snapshot.1 with
        | some code => replyError c .push c.subscription code env.heap env.sampled
        | none => reply c .push (ipcSnapshot ||| ipcReply) c.subscription env.snapshot.2 env.sampled) with
      nextSample := now + c.period.toNat }
  else c

def pushEvents (env : Preparation) (now : Int) (c : Client) : Client :=
  if c.idle env.input ∧ c.events ∧ now ≥ c.nextEvent then
    { reply c .push (ipcEvents ||| ipcReply) c.eventSubscription env.batch env.batched with
      eventCursor := env.cursor
      nextEvent := now + 50 }
  else c

def Client.interest (c : Client) : Interest :=
  if c.writing then .output else if c.job.isNone then .input else .none

def prepare (env : Preparation) (s : Server) (i : Slot) : Server :=
  let c := pushEvents env s.now (pushSnapshot env s.now (s.clients i))
  { s.setClient i c with interest := update s.interest i c.interest }

def reapClient (c : Client) (job : Job) (heap : Heap) (now : Int) : Client :=
  { (match job.error with
      | some code => replyError c .answer c.incoming.id code heap now
      | none => reply c .answer (c.incoming.type ||| ipcReply) c.incoming.id job.result now) with
    job := none }

def waiting (s : Server) (slot : Slot) : Option Slot :=
  (List.finRange clientsMax).find? fun j =>
    (s.clients j).fd.isSome ∧ (s.clients j).job = some slot ∧ (s.clients j).ticket = (s.jobs slot).ticket

def handOver (s : Server) (slot : Slot) (heap : Heap) (now : Int) : Server :=
  match waiting s slot with
  | none => s
  | some j => s.setClient j (reapClient (s.clients j) (s.jobs slot) heap now)

def reapJob (heap : Slot → Heap) (now : Slot → Int) (s : Server) (slot : Slot) : Server :=
  if (s.jobs slot).state = .complete then
    { handOver s slot (heap slot) (now slot) with
      jobs := update s.jobs slot { s.jobs slot with state := .free, result := Body.empty } }
  else s

def reap (heap : Slot → Heap) (now : Slot → Int) (s : Server) : Server :=
  (List.finRange clientsMax).foldl (reapJob heap now) s

def closeAll (closing : Slot → Closing) (s : Server) : Server :=
  (List.finRange clientsMax).foldl (fun s i => clientClose s i (closing i)) s

structure Incoming where
  fd : Nat
  authorised : Bool

def acceptOne (s : Server) (incoming : Incoming) : Server :=
  match (List.finRange clientsMax).find? fun i => (s.clients i).fd = none with
  | none => s
  | some slot =>
    if incoming.authorised then
      { s.setClient slot
          { fd := some incoming.fd
            ticket := s.ticket + 1
            expected := ipcHeaderSize
            deadline := s.now + ipcTimeoutMs } with
        ticket := s.ticket + 1 }
    else s

def nextClient (i : Slot) : Option Slot :=
  if more : i.val + 1 < clientsMax then some ⟨i.val + 1, more⟩ else none

def firstClient : Slot := ⟨0, by decide⟩

inductive PollResult where
  | interrupted
  | stop (closing : Slot → Closing)
  | ready (revents : Slot → Revents) (now : Int)

inductive Action where
  | reap (now : Int) (heap : Slot → Heap) (replied : Slot → Int)
  | prepare (client : Slot) (env : Preparation)
  | poll (result : PollResult)
  | service (client : Slot) (io : Exchange)
  | accept (incoming : List Incoming)
  | startJob (slot : Slot)
  | finishJob (slot : Slot) (error : Option IpcCode) (result : Body)

def pollStep (s : Server) : PollResult → Server
  | .interrupted => { s with pc := .reap }
  | .stop closing => { closeAll closing s with pc := .stopped }
  | .ready revents now => { s with revents := revents, now := now, pc := .service firstClient }

def step (cfg : Config) (s : Server) : Action → Server
  | .reap now heap replied => { reap heap replied s with now := now, pc := .prepare firstClient }
  | .prepare i env => { prepare env s i with pc := ((nextClient i).map Pc.prepare).getD .poll }
  | .poll result => pollStep s result
  | .service i io => { service cfg io s i with pc := ((nextClient i).map Pc.service).getD .accept }
  | .accept incoming => { incoming.foldl acceptOne s with pc := .reap }
  | .startJob slot => { s with jobs := update s.jobs slot { s.jobs slot with state := .running } }
  | .finishJob slot error result =>
    let finished := { s.jobs slot with state := .complete, error := error, result := result }
    { s with jobs := update s.jobs slot finished }

def Admissible (interest : Interest) (revents : Revents) : Prop :=
  (revents.input = true → interest = .input) ∧ (revents.output = true → interest = .output)

-- Each step is taken at its place in the loop, and the system calls return what they may:
-- recv at most what was asked for, send at most what was handed to it.
def Allowed (s : Server) : Action → Prop
  | .reap _ _ _ => s.pc = .reap
  | .prepare i _ => s.pc = .prepare i
  | .poll (.ready revents _) => s.pc = .poll ∧ ∀ i, Admissible (s.interest i) (revents i)
  | .poll _ => s.pc = .poll
  | .service i io => s.pc = .service i ∧
      (∀ bytes, io.recv = .data bytes →
        bytes ≠ [] ∧ (s.clients i).request.length + bytes.length ≤ (s.clients i).expected) ∧
      ∀ count, io.send = .sent count → count ≤ (outstanding (s.clients i)).length
  | .accept incoming => s.pc = .accept ∧ incoming.length ≤ clientsMax
  | .startJob slot => (s.jobs slot).state = .queued
  | .finishJob slot _ _ => (s.jobs slot).state = .running

structure Initial (s : Server) : Prop where
  clients : s.clients = fun _ => {}
  jobs : s.jobs = fun _ => {}
  ticket : s.ticket = 0
  pc : s.pc = .reap

def Reached (cfg : Config) (s : Server) : Prop := Runs.Reachable Initial Allowed (step cfg) s

end Evemon.QueryServer
