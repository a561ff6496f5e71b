import Evemon.ServerFraming

-- When the deadline of a connection is set: it is set and cleared in five places, each of which
-- looks at a part of the connection.
namespace Evemon.QueryServer

open Ipc Controls Function Runs

section

def Client.engaged (c : Client) : Prop :=
  c.hello = false ∨ c.writing = true ∨ c.job.isSome = true ∨ c.request ≠ []

-- `wakes` stands for the assumption under which an idle connection has no deadline.
structure Timely (wakes : Prop) (c : Client) : Prop where
  engaged : c.engaged → c.deadline ≠ 0
  idle : wakes → ¬ c.engaged → c.deadline = 0

variable {wakes : Prop} (c : Client)

theorem timely_engaged (busy : c.engaged) (limit : c.deadline ≠ 0) : Timely wakes c :=
  ⟨fun _ => limit, fun _ idle => absurd busy idle⟩

theorem timeout_positive {now : Int} (clock : 0 ≤ now) : now + ipcTimeoutMs ≠ 0 := by
  unfold ipcTimeoutMs
  omega

variable (origin : Origin)

theorem reply_timely (type : UInt16) (id : UInt32) (body : Body) {now : Int} (clock : 0 ≤ now) :
    Timely wakes (reply c origin type id body now) :=
  timely_engaged _ (.inr (.inl rfl)) (timeout_positive clock)

theorem reply_error_timely {id} {code} {heap} {now : Int} (clock : 0 ≤ now) :
    Timely wakes (replyError c origin id code heap now) :=
  reply_timely c origin ipcError id (errorBody code heap) clock

end

section

variable {wakes : Prop} (c : Client)

theorem reap_client_timely {job} {heap} {now : Int} (clock : 0 ≤ now) :
    Timely wakes (reapClient c job heap now) := by
  unfold reapClient
  cases job.error with
  | none | some code => exact timely_engaged _ (.inr (.inl rfl)) (timeout_positive clock)

theorem pushed_timely {input} {now : Int} {c after} (clock : 0 ≤ now) (timely : Timely wakes c)
    (pushed : Pushed input now c after) : Timely wakes after := by
  cases pushed with
  | kept => exact timely
  | sent _ _ _ _ _ _ _ => exact timely_engaged _ (.inr (.inl rfl)) (timeout_positive clock)

theorem answer_timely (env : Answers) {error} (out : Out) (clock : 0 ≤ env.replied) :
    Timely wakes (answer env c error out) := by
  unfold answer
  split
  · exact reply_error_timely c .answer clock
  · exact reply_timely c .answer _ _ _ clock

section

variable (cfg : Config) (env : Answers) (tracing : Tracing) (input : WireState)

def Limited (handled : Handled) : Prop :=
  ∀ after queue, handled = .queued after queue → after.job.isSome ∧ after.deadline = env.handled + ipcTimeoutMs

theorem handle_job_limited (jobs : Jobs) : Limited env (handleJob env tracing jobs input c) := by
  intro after queue queued
  unfold handleJob at queued
  split at queued
  · cases queued
  · split at queued
    · cases queued
    · split at queued
      · cases queued
      · cases queued
        exact ⟨rfl, rfl⟩

theorem handle_limited (jobs : Jobs) : Limited env (handle cfg env tracing jobs c) := by
  apply handle_cases
  · exact fun _ _ _ _ _ => nofun
  · intro _
    unfold handleHello
    split <;> exact fun _ _ => nofun
  · intro input
    unfold handleSubscribe
    split
    · exact fun _ _ => nofun
    · split <;> exact fun _ _ => nofun
  · intro input
    unfold handleEvents
    split
    · exact fun _ _ => nofun
    · split <;> exact fun _ _ => nofun
  · exact fun _ input => handle_job_limited c env tracing input jobs

end

theorem request_dispatch_timely (cfg : Config) {env : Answers} (s : Server) (i : Slot)
    (handled : 0 ≤ env.handled) (replied : 0 ≤ env.replied) :
    Timely wakes ((requestDispatch cfg env s i c).clients i) := by
  unfold requestDispatch
  split
  · simp only [Server.setClient, update_self]
    exact reply_error_timely c .answer replied
  · cases outcome : handle cfg env s.tracing s.jobs c with
    | answered after tracing error out =>
      simp only [Server.setClient, update_self]
      exact answer_timely after env out replied
    | queued after jobs =>
      obtain ⟨held, limit⟩ := handle_limited c cfg env s.tracing s.jobs after jobs outcome
      simp only [Server.setClient, update_self]
      refine timely_engaged _ (.inr (.inr (.inl held))) ?_
      rw [limit]
      exact timeout_positive handled

theorem dispatch_if_complete_timely (cfg : Config) {io : Exchange} (s : Server) (i : Slot)
    (handled : 0 ≤ io.answers.handled) (replied : 0 ≤ io.answers.replied) (some : c.request ≠ [])
    (limit : c.deadline ≠ 0) : Timely wakes ((dispatchIfComplete cfg io s i c).clients i) := by
  unfold dispatchIfComplete
  split
  · exact request_dispatch_timely _ cfg s i handled replied
  · simp only [Server.setClient, update_self]
    exact timely_engaged c (.inr (.inr (.inr some))) limit

end

section

-- CLOCK_MONOTONIC does not show negative times.
structure Exchange.Clocked (io : Exchange) : Prop where
  started : 0 ≤ io.started
  finished : 0 ≤ io.finished
  handled : 0 ≤ io.answers.handled
  replied : 0 ≤ io.answers.replied

variable {wakes : Prop} (cfg : Config) {io : Exchange} (s : Server) {i : Slot}

def Awaited (c : Client) (recv : Recv) : Prop :=
  match recv with
  | .again => c.hello = false ∨ c.request ≠ []
  | _ => True

theorem close_timely {after} {closing} : ((clientClose after i closing).clients i).fd.isSome →
    Timely wakes ((clientClose after i closing).clients i) := by
  intro opened
  simp only [clientClose, Server.setClient, update_self] at opened
  cases opened

theorem read_deadline {c} (timely : Timely wakes c) (clock : 0 ≤ io.started) :
    (if c.request = [] then { c with deadline := io.started + ipcTimeoutMs } else c).deadline ≠ 0 := by
  by_cases empty : c.request = []
  · rw [if_pos empty]
    exact timeout_positive clock
  · rw [if_neg empty]
    exact timely.engaged (.inr (.inr (.inr empty)))

theorem read_request_timely (clock : io.Clocked) (timely : Timely wakes (s.clients i))
    (arrived : ∀ bytes, io.recv = .data bytes → bytes ≠ []) (awaited : wakes → Awaited (s.clients i) io.recv) :
    ((readRequest cfg io s i).clients i).fd.isSome → Timely wakes ((readRequest cfg io s i).clients i) := by
  have limit := read_deadline timely clock.started
  unfold readRequest
  simp only
  cases recv : io.recv with
  | eof | failed => exact close_timely
  | again =>
    intro _
    simp only [Server.setClient, update_self]
    rw [recv] at awaited
    by_cases empty : (s.clients i).request = []
    · rw [if_pos empty] at limit ⊢
      refine ⟨fun _ => limit, fun wake idle => absurd ?_ idle⟩
      exact .inl ((awaited wake).resolve_right fun more => more empty)
    · rw [if_neg empty]
      exact timely
  | data bytes =>
    generalize (if (s.clients i).request = [] then { s.clients i with deadline := io.started + ipcTimeoutMs }
      else s.clients i) = c at limit ⊢
    have some : (received c bytes).request ≠ [] := by simp [received, arrived bytes recv]
    simp only
    split
    · split
      · exact close_timely
      · split
        · exact close_timely
        · exact fun _ => dispatch_if_complete_timely _ cfg s i clock.handled clock.replied some limit
    · exact fun _ => dispatch_if_complete_timely _ cfg s i clock.handled clock.replied some limit

theorem finish_reply_timely {c : Client} (clock : 0 ≤ io.finished) (busy : c.writing) (free : c.job = none)
    (empty : c.request = []) (limit : c.deadline ≠ 0) : Timely wakes (finishReply io c) := by
  unfold finishReply
  split
  · cases greeted : c.hello with
    | false => exact timely_engaged _ (.inl rfl) (timeout_positive clock)
    | true =>
      simp only [if_true]
      refine ⟨fun engaged => ?_, fun _ _ => rfl⟩
      simp [Client.engaged, free, empty] at engaged
  · exact timely_engaged c (.inr (.inl busy)) limit

theorem send_reply_timely (clock : io.Clocked) (conversing : Conversing (s.clients i))
    (busy : (s.clients i).writing) (timely : Timely wakes (s.clients i)) :
    ((sendReply io s i).clients i).fd.isSome → Timely wakes ((sendReply io s i).clients i) := by
  obtain ⟨free, empty⟩ : (s.clients i).job = none ∧ (s.clients i).request = [] := by
    cases conversing with
    | reading quiet | waiting _ quiet => simp [busy] at quiet
    | writing _ free _ _ empty => exact ⟨free, empty⟩
  have limit := timely.engaged (.inr (.inl busy))
  unfold sendReply
  cases io.send with
  | failed => exact close_timely
  | again | sent count =>
    intro _
    simp only [Server.setClient, update_self]
    exact finish_reply_timely clock.finished busy free empty limit

def receives (c : Client) (now : Int) (events : Revents) : Prop :=
  c.fd.isSome = true ∧ ¬ ((c.deadline ≠ 0 ∧ now ≥ c.deadline) ∨ events.error = true ∨ events.invalid = true) ∧
    events.input = true

theorem service_timely (clock : io.Clocked) (conversing : (s.clients i).fd.isSome → Conversing (s.clients i))
    (polled : Admissible (s.clients i).interest (s.revents i))
    (timely : (s.clients i).fd.isSome → Timely wakes (s.clients i)) (arrived : ∀ bytes, io.recv = .data bytes → bytes ≠ [])
    (awaited : wakes → receives (s.clients i) s.now (s.revents i) → Awaited (s.clients i) io.recv) :
    ((service cfg io s i).clients i).fd.isSome → Timely wakes ((service cfg io s i).clients i) := by
  unfold service
  by_cases gone : (s.clients i).fd = none
  · simp only [if_pos gone]
    exact timely
  · have opened : (s.clients i).fd.isSome := Option.isSome_iff_ne_none.mpr gone
    simp only [if_neg gone]
    split
    · exact close_timely
    · rename_i kept
      cases input : (s.revents i).input with
      | true =>
        have silent := input_silent polled input
        simp only [if_true, silent, Bool.false_eq_true, and_false, if_false, Bool.true_eq_false]
        exact read_request_timely cfg s clock (timely opened) arrived fun wake => awaited wake ⟨opened, kept, input⟩
      | false =>
        simp only [Bool.false_eq_true, if_false]
        cases output : (s.revents i).output with
        | true =>
          have sent := send_reply_timely s clock (conversing opened) (output_busy polled output) (timely opened)
          simp only [opened, and_self, if_true]
          split
          · exact close_timely
          · exact sent
        | false =>
          simp only [Bool.false_eq_true, and_false, if_false]
          split
          · exact close_timely
          · exact timely

end

section

def Clocked : Action → Prop
  | .reap now _ replied => 0 ≤ now ∧ ∀ slot, 0 ≤ replied slot
  | .prepare _ env => 0 ≤ env.sampled ∧ 0 ≤ env.batched
  | .poll (.ready _ now) => 0 ≤ now
  | .service _ io => io.Clocked
  | _ => True

-- No recv on a negotiated connection without a part of a request fails with EAGAIN or EINTR.
def Wakes (s : Server) : Action → Prop
  | .service i io => receives (s.clients i) s.now (s.revents i) → Awaited (s.clients i) io.recv
  | _ => True

structure Punctual (wakes : Prop) (s : Server) : Prop where
  served : Served s
  clock : s.pc = .reap ∨ s.pc = .stopped ∨ 0 ≤ s.now
  timely : ∀ i, (s.clients i).fd.isSome = true → Timely wakes (s.clients i)

variable {wakes : Prop} (cfg : Config) (s : Server)

theorem reap_timely (heap : Slot → Heap) {now : Slot → Int} (clock : ∀ slot, 0 ≤ now slot)
    (slots : List Slot) (timely : ∀ i, (s.clients i).fd.isSome → Timely wakes (s.clients i))
    (i : Slot) (opened : ((slots.foldl (reapJob heap now) s).clients i).fd.isSome) :
    Timely wakes ((slots.foldl (reapJob heap now) s).clients i) := by
  induction slots generalizing s with
  | nil => exact timely i opened
  | cons slot rest ih =>
    refine ih (reapJob heap now s slot) (fun j there => ?_) opened
    rcases reap_job_cases s heap now j with same | ⟨_, reaped⟩
    · rw [same] at there ⊢
      exact timely j there
    · rw [reaped]
      exact reap_client_timely _ (clock slot)

theorem prepare_timely (i : Slot) (env : Preparation) (sampled : 0 ≤ env.sampled) (batched : 0 ≤ env.batched)
    (timely : ∀ j, (s.clients j).fd.isSome → Timely wakes (s.clients j)) (j : Slot)
    (opened : ((prepare env s i).clients j).fd.isSome) : Timely wakes ((prepare env s i).clients j) := by
  rw [prepare_open] at opened
  by_cases here : j = i
  · subst here
    simp only [prepare, Server.setClient, update_self]
    have first := pushed_timely sampled (timely j opened) (push_snapshot_pushed env s.now _)
    exact pushed_timely batched first (push_events_pushed env s.now _)
  · simp only [prepare, Server.setClient, update_of_ne here]
    exact timely j opened

theorem accept_one_timely (incoming : Incoming) (clock : 0 ≤ s.now)
    (timely : ∀ i, (s.clients i).fd.isSome → Timely wakes (s.clients i)) :
    (acceptOne s incoming).now = s.now ∧ ∀ i, ((acceptOne s incoming).clients i).fd.isSome →
    Timely wakes ((acceptOne s incoming).clients i) := by
  unfold acceptOne
  split
  · exact ⟨rfl, timely⟩
  · rename_i slot found
    split
    · refine ⟨rfl, fun i opened => ?_⟩
      by_cases here : i = slot
      · subst here
        simp only [Server.setClient, update_self]
        exact timely_engaged _ (.inl rfl) (timeout_positive clock)
      · simp only [Server.setClient, update_of_ne here] at opened ⊢
        exact timely i opened
    · exact ⟨rfl, timely⟩

theorem accept_timely {incoming : List Incoming} (clock : 0 ≤ s.now)
    (timely : ∀ i, (s.clients i).fd.isSome → Timely wakes (s.clients i)) (i : Slot)
    (opened : ((incoming.foldl acceptOne s).clients i).fd.isSome) :
    Timely wakes ((incoming.foldl acceptOne s).clients i) := by
  induction incoming generalizing s with
  | nil => exact timely i opened
  | cons first rest ih =>
    obtain ⟨now, after⟩ := accept_one_timely s first clock timely
    exact ih (acceptOne s first) (by rw [now]; exact clock) after opened

theorem serviced_now (i : Slot) {after} (serviced : Serviced s i after) : after.now = s.now := by
  cases serviced <;> rfl

variable {action : Action}

theorem step_clock (served : Served s) (clock : s.pc = .reap ∨ s.pc = .stopped ∨ 0 ≤ s.now) (allowed : Allowed s action)
    (clocked : Clocked action) :
    (step cfg s action).pc = .reap ∨ (step cfg s action).pc = .stopped ∨ 0 ≤ (step cfg s action).now := by
  cases action with
  | reap now heap replied => exact .inr (.inr clocked.1)
  | prepare i env =>
    have here : s.pc = .prepare i := allowed
    have now : 0 ≤ s.now := by simpa [here] using clock
    exact .inr (.inr now)
  | poll result =>
    cases result with
    | interrupted => exact .inl rfl
    | stop closing => exact .inr (.inl rfl)
    | ready revents now => exact .inr (.inr clocked)
  | service i io =>
    have same := serviced_now s i (allowed_serviced cfg s i served allowed)
    rw [allowed.1] at clock
    refine .inr (.inr ?_)
    simp only [step, same]
    simpa using clock
  | accept incoming => exact .inl rfl
  | startJob slot | finishJob slot error result => exact clock

theorem step_punctual (punctual : Punctual wakes s) (allowed : Allowed s action) (clocked : Clocked action)
    (wake : wakes → Wakes s action) : Punctual wakes (step cfg s action) := by
  have served := punctual.served
  refine ⟨step_served cfg s action served allowed, step_clock cfg s served punctual.clock allowed clocked,
    fun i opened => ?_⟩
  cases action with
  | reap now heap replied =>
    have reaped := reap_timely s heap clocked.2 (List.finRange clientsMax) punctual.timely i
    simp only [step, reap] at opened ⊢
    exact reaped opened
  | prepare j env => exact prepare_timely s j env clocked.1 clocked.2 punctual.timely i opened
  | poll result =>
    cases result with
    | interrupted | ready revents now => exact punctual.timely i opened
    | stop closing =>
      rcases (close_all_client closing (List.finRange clientsMax) s).2 i with same | closed
      · exact same ▸ punctual.timely i (same ▸ opened)
      · have gone := closed ▸ opened
        cases gone
  | service j io =>
    have polled : ∀ k, j ≤ k → Admissible (s.clients k).interest (s.revents k) := by
      simpa only [Polled, allowed.1] using served.polled
    by_cases here : i = j
    · subst here
      exact service_timely cfg s clocked (served.sane.talks i) (polled i (Nat.le_refl _)) (punctual.timely i)
        (fun bytes data => (allowed.2.1 bytes data).1) wake opened
    · have others := (serviced_others (allowed_serviced cfg s j served allowed) here).1
      simp only [step, others] at opened ⊢
      exact punctual.timely i opened
  | accept incoming =>
    have clock := punctual.clock
    rw [allowed.1] at clock
    exact accept_timely s (by simpa using clock) punctual.timely i opened
  | startJob slot | finishJob slot error result => exact punctual.timely i opened

theorem reached_punctual
    (reached : Reachable Initial (fun s action => Allowed s action ∧ Clocked action ∧ (wakes → Wakes s action))
    (step cfg) s) : Punctual wakes s := by
  refine invariant (Punctual wakes) (fun s initial => ?_)
    (fun s action punctual taken => step_punctual cfg s punctual taken.1 taken.2.1 taken.2.2) s reached
  refine ⟨initial_served s initial, .inl initial.pc, fun i opened => ?_⟩
  rw [initial.clients] at opened
  cases opened

end

-- In every run an engaged connection has a deadline; an idle one has none where no wake-up of
-- the run was spurious.
theorem timeout_discipline (cfg : Config) (s : Server) :
    (Reachable Initial (fun s action => Allowed s action ∧ Clocked action) (step cfg) s →
    ∀ i, (s.clients i).fd.isSome = true → (s.clients i).engaged → (s.clients i).deadline ≠ 0) ∧
    (Reachable Initial (fun s action => Allowed s action ∧ Clocked action ∧ Wakes s action) (step cfg) s →
    ∀ i, (s.clients i).fd.isSome = true → ((s.clients i).engaged ↔ (s.clients i).deadline ≠ 0)) := by
  refine ⟨fun reached i opened engaged => ?_, fun reached i opened => ?_⟩
  · have punctual : Punctual False s := reached_punctual cfg s
      (weaken (fun s action taken => ⟨taken.1, taken.2, False.elim⟩) reached)
    exact (punctual.timely i opened).engaged engaged
  · have punctual : Punctual True s := reached_punctual cfg s
      (weaken (fun s action taken => ⟨taken.1, taken.2.1, fun _ => taken.2.2⟩) reached)
    have timely := punctual.timely i opened
    refine ⟨timely.engaged, fun limit => ?_⟩
    by_contra idle
    exact limit (timely.idle trivial idle)

instance (io : Exchange) : Decidable io.Clocked :=
  decidable_of_iff (0 ≤ io.started ∧ 0 ≤ io.finished ∧ 0 ≤ io.answers.handled ∧ 0 ≤ io.answers.replied)
    ⟨fun all => ⟨all.1, all.2.1, all.2.2.1, all.2.2.2⟩, fun all => ⟨all.started, all.finished, all.handled, all.replied⟩⟩

instance (c : Client) : Decidable c.engaged := inferInstanceAs (Decidable (_ ∨ _ ∨ _ ∨ _))

instance (c : Client) (now : Int) (events : Revents) : Decidable (receives c now events) :=
  inferInstanceAs (Decidable (_ ∧ _ ∧ _))

instance (c : Client) : (recv : Recv) → Decidable (Awaited c recv)
  | .again => inferInstanceAs (Decidable (_ ∨ _))
  | .data _ => .isTrue trivial
  | .eof => .isTrue trivial
  | .failed => .isTrue trivial

instance : (action : Action) → Decidable (Clocked action)
  | .reap _ _ _ => inferInstanceAs (Decidable (_ ∧ ∀ _, _))
  | .prepare _ _ => inferInstanceAs (Decidable (_ ∧ _))
  | .poll (.ready _ _) => inferInstanceAs (Decidable (_ ≤ _))
  | .poll .interrupted => .isTrue trivial
  | .poll (.stop _) => .isTrue trivial
  | .service _ io => inferInstanceAs (Decidable io.Clocked)
  | .accept _ => .isTrue trivial
  | .startJob _ => .isTrue trivial
  | .finishJob _ _ _ => .isTrue trivial

instance (s : Server) : (action : Action) → Decidable (Wakes s action)
  | .service _ _ => inferInstanceAs (Decidable (_ → _))
  | .reap _ _ _ => .isTrue trivial
  | .prepare _ _ => .isTrue trivial
  | .poll _ => .isTrue trivial
  | .accept _ => .isTrue trivial
  | .startJob _ => .isTrue trivial
  | .finishJob _ _ _ => .isTrue trivial

def negotiating : List Action :=
  turn {} .again .again [⟨5, true⟩] ++ turn { input := true } (.data (ipcHeaderWrite ipcHello 9 0)) .again [] ++
    turn { output := true } .again (.sent 16) [] ++ turn { output := true } .again (.sent 25) []

def negotiated : Server := negotiating.foldl (step sampleConfig) { tracing := freshTracing }

theorem negotiated_reached :
    Reachable Initial (fun s action => Allowed s action ∧ Clocked action ∧ Wakes s action) (step sampleConfig)
    negotiated := by
  refine reachable_follows (fun s action => permitted s action && decide (Clocked action) && decide (Wakes s action))
    (fun s action passed => ?_) negotiating _ (.start _ ⟨rfl, rfl, rfl, rfl⟩) (by decide +kernel)
  simp only [Bool.and_eq_true, decide_eq_true_eq] at passed
  exact ⟨permitted_allowed passed.1.1, passed.1.2, passed.2⟩

theorem timeout_discipline_negotiated :
    ((negotiated.clients firstClient).engaged ↔ (negotiated.clients firstClient).deadline ≠ 0) ∧
    (negotiated.clients firstClient).fd = some 5 ∧ (negotiated.clients firstClient).deadline = 0 :=
  ⟨(timeout_discipline sampleConfig negotiated).2 negotiated_reached firstClient (by decide +kernel), by decide +kernel,
    by decide +kernel⟩

def woken : Server := (turn { input := true } .again .again []).foldl (step sampleConfig) negotiated

def lapse : List Action :=
  let answers : Answers := ⟨allGranted, allGranted, 2, (none, Out.empty), granting, granting, 0, 6001, 6001⟩
  let quiet : Preparation := ⟨false, (none, Body.empty), Body.empty, 0, allGranted, 6001, 6001⟩
  let io : Exchange := ⟨.again, .again, 6001, 6001, answers, ⟨allGranted, granting, granting⟩⟩
  [.reap 6001 (fun _ => allGranted) fun _ => 6001] ++ (List.finRange clientsMax).map (.prepare · quiet) ++
    [.poll (.ready (fun _ => {}) 6001)] ++ (List.finRange clientsMax).map (.service · io) ++ [.accept []]

theorem spurious_wake_closes_idle :
    Reachable Initial (fun s action => Allowed s action ∧ Clocked action) (step sampleConfig) woken ∧
    woken.pc = .reap ∧ (woken.clients firstClient).fd = some 5 ∧ ¬ (woken.clients firstClient).engaged ∧
    (woken.clients firstClient).deadline = 5001 ∧
    ((lapse.foldl (step sampleConfig) woken).clients firstClient).fd = none := by
  refine ⟨?_, by decide +kernel, by decide +kernel, by decide +kernel, by decide +kernel, by decide +kernel⟩
  have before : Reachable Initial (fun s action => Allowed s action ∧ Clocked action) (step sampleConfig) negotiated :=
    weaken (fun _ _ taken => ⟨taken.1, taken.2.1⟩) negotiated_reached
  refine reachable_follows (fun s action => permitted s action && decide (Clocked action))
    (fun s action passed => ?_) _ negotiated before (by decide +kernel)
  simp only [Bool.and_eq_true, decide_eq_true_eq] at passed
  exact ⟨permitted_allowed passed.1, passed.2⟩

end Evemon.QueryServer
