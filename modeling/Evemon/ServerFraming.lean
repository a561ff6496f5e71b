import Evemon.ServerClient

namespace Evemon.QueryServer

open Ipc Controls Framing List Function Option Fin

section

structure Sane (clients : Slot → Client) (jobs : Jobs) : Prop where
  talks : ∀ i, (clients i).fd.isSome = true → Conversing (clients i)
  closed : ∀ i, (clients i).fd = none → (clients i).job = none
  held : ∀ i slot, (clients i).job = some slot →
    (jobs slot).state ≠ .free ∧ (jobs slot).ticket = (clients i).ticket
  alone : ∀ i j slot, (clients i).job = some slot → (clients j).job = some slot → i = j

variable {clients : Slot → Client} {jobs : Jobs} (sane : Sane clients jobs)

include sane

theorem sane_free (i : Slot) (after : Client) (talks : after.fd.isSome → Conversing after)
    (free : after.job = none) : Sane (update clients i after) jobs := by
  have held (j : Slot) (slot : Slot) (holds : (update clients i after j).job = some slot) :
      j ≠ i ∧ (clients j).job = some slot := by
    by_cases here : j = i
    · subst here
      rw [update_self, free] at holds
      cases holds
    · rw [update_of_ne here] at holds
      exact ⟨here, holds⟩
  refine ⟨fun j opened => ?_, fun j gone => ?_, fun j slot holds => ?_, fun a b slot atA atB => ?_⟩
  · by_cases here : j = i
    · subst here
      rw [update_self] at opened ⊢
      exact talks opened
    · rw [update_of_ne here] at opened ⊢
      exact sane.talks j opened
  · by_cases here : j = i
    · rw [here, update_self, free]
    · rw [update_of_ne here] at gone ⊢
      exact sane.closed j gone
  · obtain ⟨away, holds⟩ := held j slot holds
    rw [update_of_ne away]
    exact sane.held j slot holds
  · exact sane.alone a b slot (held a slot atA).2 (held b slot atB).2

theorem sane_free_slot {slot} (unheld : ∀ i, (clients i).job ≠ some slot) {job} :
    Sane clients (update jobs slot job) := by
  refine ⟨sane.talks, sane.closed, fun i other holds => ?_, sane.alone⟩
  have away : other ≠ slot := fun same => unheld i (same ▸ holds)
  rw [update_of_ne away]
  exact sane.held i other holds

theorem sane_progress (slot : Slot) {job : Job} (state : job.state ≠ .free)
    (ticket : job.ticket = (jobs slot).ticket) : Sane clients (update jobs slot job) := by
  refine ⟨sane.talks, sane.closed, fun i other holds => ?_, sane.alone⟩
  have before := sane.held i other holds
  by_cases here : other = slot
  · subst here
    rw [update_self]
    exact ⟨state, ticket.trans before.2⟩
  · rw [update_of_ne here]
    exact before

theorem sane_queued (i slot : Slot) {after} (job : Job) (conversing : Conversing after)
    (opened : after.fd.isSome) (holds : after.job = some slot) (ticket : job.ticket = after.ticket)
    (state : job.state = .queued) (free : (jobs slot).state = .free) :
    Sane (update clients i after) (update jobs slot job) := by
  have unheld (j : Slot) (other : (clients j).job = some slot) : False := (sane.held j slot other).1 free
  refine ⟨fun j open_ => ?_, fun j gone => ?_, fun j other held => ?_, fun a b other atA atB => ?_⟩
  · by_cases here : j = i
    · rw [here, update_self]
      exact conversing
    · rw [update_of_ne here] at open_ ⊢
      exact sane.talks j open_
  · by_cases here : j = i
    · rw [here, update_self] at gone
      rw [gone] at opened
      cases opened
    · rw [update_of_ne here] at gone ⊢
      exact sane.closed j gone
  · by_cases here : j = i
    · subst here
      rw [update_self] at held ⊢
      obtain rfl : slot = other := Option.some.inj (holds.symm.trans held)
      rw [update_self, state]
      exact ⟨by simp, ticket⟩
    · rw [update_of_ne here] at held ⊢
      have away : other ≠ slot := fun same => unheld j (same ▸ held)
      rw [update_of_ne away]
      exact sane.held j other held
  · by_cases hereA : a = i
    · by_cases hereB : b = i
      · rw [hereA, hereB]
      · subst hereA
        rw [update_self] at atA
        rw [update_of_ne hereB] at atB
        obtain rfl : slot = other := Option.some.inj (holds.symm.trans atA)
        exact absurd atB (unheld b)
    · rw [update_of_ne hereA] at atA
      by_cases hereB : b = i
      · subst hereB
        rw [update_self] at atB
        obtain rfl : slot = other := Option.some.inj (holds.symm.trans atB)
        exact absurd atA (unheld a)
      · rw [update_of_ne hereB] at atB
        exact sane.alone a b other atA atB

end

section

variable (s : Server) {slot : Slot}

theorem waiting_some {j} (found : waiting s slot = some j) :
    (s.clients j).fd.isSome ∧ (s.clients j).job = some slot := by
  have matched := List.find?_some found
  simp only [decide_eq_true_eq] at matched
  exact ⟨matched.1, matched.2.1⟩

theorem waiting_none (sane : Sane s.clients s.jobs) (found : waiting s slot = none) (i : Slot) :
    (s.clients i).job ≠ some slot := by
  intro holds
  have opened : (s.clients i).fd.isSome := by
    cases fd : (s.clients i).fd with
    | none =>
      rw [sane.closed i fd] at holds
      cases holds
    | some _ => rfl
  have unmatched := List.find?_eq_none.mp found i (mem_finRange i)
  simp only [decide_eq_true_eq] at unmatched
  exact unmatched ⟨opened, holds, (sane.held i slot holds).2.symm⟩

theorem reap_client_conversing {c} (conversing : Conversing c) (holds : c.job = some slot) (job : Job)
    (heap : Heap) (now : Int) : Conversing (reapClient c job heap now) := by
  cases conversing with
  | reading _ free _ _ _ | writing _ free _ _ _ _ _ =>
    rw [free] at holds
    cases holds
  | waiting own quiet _ greeted sending ledger =>
    unfold reapClient
    cases job.error with
    | some code =>
      exact answer_conversing c quiet sending c.hello c.log.starved ledger id ⟨rfl, .inr rfl⟩ (fun _ => greeted) .inl
    | none =>
      exact answer_conversing c quiet sending c.hello c.log.starved ledger id ⟨rfl, .inl rfl⟩ (fun _ => greeted) .inl

variable (heap : Slot → Heap) (now : Slot → Int)

variable (slot) in
theorem reap_job_sane (sane : Sane s.clients s.jobs) :
    Sane (reapJob heap now s slot).clients (reapJob heap now s slot).jobs := by
  by_cases complete : (s.jobs slot).state = .complete
  · rw [reapJob, if_pos complete, handOver]
    cases found : waiting s slot with
    | none => exact sane_free_slot sane (waiting_none s sane found)
    | some j =>
      obtain ⟨opened, holds⟩ := waiting_some s found
      have conversing := reap_client_conversing (sane.talks j opened) holds (s.jobs slot) (heap slot) (now slot)
      have updated := sane_free sane j (reapClient (s.clients j) (s.jobs slot) (heap slot) (now slot))
        (fun _ => conversing) rfl
      refine sane_free_slot updated (fun i still => ?_)
      by_cases here : i = j
      · rw [here, update_self] at still
        cases still
      · rw [update_of_ne here] at still
        exact here (sane.alone i j slot still holds)
  · rwa [reapJob, if_neg complete]

variable (slots : List Slot) (i : Slot)

theorem reap_sane (sane : Sane s.clients s.jobs) :
    Sane (slots.foldl (reapJob heap now) s).clients (slots.foldl (reapJob heap now) s).jobs := by
  induction slots generalizing s with
  | nil => exact sane
  | cons slot rest ih => exact ih _ (reap_job_sane s slot heap now sane)

theorem reap_job_cases : (reapJob heap now s slot).clients i = s.clients i ∨ (s.clients i).job = some slot ∧
    (reapJob heap now s slot).clients i = reapClient (s.clients i) (s.jobs slot) (heap slot) (now slot) := by
  by_cases complete : (s.jobs slot).state = .complete
  · rw [reapJob, if_pos complete, handOver]
    cases found : waiting s slot with
    | none => exact .inl rfl
    | some j =>
      by_cases here : i = j
      · subst here
        refine .inr ⟨(waiting_some s found).2, ?_⟩
        simp only [Server.setClient, update_self]
      · refine .inl ?_
        simp only [Server.setClient, update_of_ne here]
  · rw [reapJob, if_neg complete]
    exact .inl rfl

theorem reap_job_client : (reapJob heap now s slot).clients i = s.clients i ∨
    (s.clients i).job = some slot ∧ ((reapJob heap now s slot).clients i).job = none := by
  rcases reap_job_cases s heap now i with same | ⟨held, reaped⟩
  · exact .inl same
  · refine .inr ⟨held, ?_⟩
    rw [reaped]
    rfl

theorem reap_job_fd : ((reapJob heap now s slot).clients i).fd = (s.clients i).fd := by
  rcases reap_job_cases s heap now i with same | ⟨_, reaped⟩
  · rw [same]
  · rw [reaped, reapClient]
    cases (s.jobs slot).error with
    | none => rfl
    | some code => rfl

theorem reap_job_other {other : Slot} (away : other ≠ slot) : (reapJob heap now s slot).jobs other = s.jobs other := by
  by_cases complete : (s.jobs slot).state = .complete
  · rw [reapJob, if_pos complete]
    simp only [update_of_ne away]
  · rw [reapJob, if_neg complete]

theorem reap_keeps_free (free : (s.clients i).job = none) : ((slots.foldl (reapJob heap now) s).clients i).job = none := by
  induction slots generalizing s with
  | nil => exact free
  | cons slot rest ih =>
    refine ih _ ?_
    rcases reap_job_client s heap now i with same | ⟨-, done⟩
    · rw [same, free]
    · exact done

variable (slot)

theorem reap_answers (mem : slot ∈ slots) (sane : Sane s.clients s.jobs)
    (i : Slot) (holds : (s.clients i).job = some slot) (complete : (s.jobs slot).state = .complete) :
    ((slots.foldl (reapJob heap now) s).clients i).job = none := by
  induction slots generalizing s with
  | nil => simp at mem
  | cons head rest ih =>
    by_cases here : head = slot
    · subst here
      refine reap_keeps_free _ heap now rest i ?_
      rw [reapJob, if_pos complete, handOver]
      cases found : waiting s head with
      | none => exact absurd holds (waiting_none s sane found i)
      | some j =>
        obtain rfl := sane.alone i j head holds (waiting_some s found).2
        simp only [Server.setClient, update_self]
        rfl
    · have still : (reapJob heap now s head).clients i = s.clients i := by
        rcases reap_job_client s heap now i with same | ⟨other, -⟩
        · exact same
        · exact absurd (Option.some.inj (other.symm.trans holds)) here
      refine ih _ ((mem_cons.mp mem).resolve_left (Ne.symm here)) (reap_job_sane s head heap now sane) ?_ ?_
      · rw [still]
        exact holds
      · rw [reap_job_other s heap now (Ne.symm here)]
        exact complete

theorem reap_all_sane (sane : Sane s.clients s.jobs) : Sane (reap heap now s).clients (reap heap now s).jobs := by
  exact reap_sane s heap now _ sane

theorem reap_all_answers (sane : Sane s.clients s.jobs) (i : Slot) (holds : (s.clients i).job = some slot)
    (complete : (s.jobs slot).state = .complete) : ((reap heap now s).clients i).job = none := by
  rw [reap]
  exact reap_answers s slot heap now _ (mem_finRange slot) sane i holds complete

end

section

variable (cfg : Config) (io : Exchange) {s : Server} {i : Slot}

theorem send_reply_jobs : (sendReply io s i).jobs = s.jobs := by
  unfold sendReply
  cases io.send <;> rfl

variable {after : Server}

theorem closed_again (serviced : Serviced s i after) (jobs : after.jobs = s.jobs) {closing} :
    Serviced s i (clientClose after i closing) := by
  cases serviced with
  | same => exact client_close_serviced
  | closed tracing | talked other tracing conversing fd free =>
    simp only [clientClose, Server.setClient, update_idem]
    exact .closed _
  | queued other slot job conversing fd held ticket state free =>
    have same := congrFun jobs slot
    simp only [update_self] at same
    rw [same, free] at state
    cases state

theorem input_silent (polled : Admissible (s.clients i).interest (s.revents i)) (input : (s.revents i).input) :
    (s.revents i).output = false := by
  have asked := polled.1 input
  refine Bool.eq_false_iff.mpr fun output => ?_
  rw [polled.2 output] at asked
  cases asked

theorem output_busy (polled : Admissible (s.clients i).interest (s.revents i)) (output : (s.revents i).output) :
    (s.clients i).writing := by
  have asked := polled.2 output
  unfold Client.interest at asked
  by_contra quiet
  simp only [if_neg quiet] at asked
  split at asked <;> cases asked

theorem service_serviced (sane : Sane s.clients s.jobs) (polled : Admissible (s.clients i).interest (s.revents i))
    (recv : ∀ bytes, io.recv = .data bytes → (s.clients i).request.length + bytes.length ≤ (s.clients i).expected)
    (send : ∀ count, io.send = .sent count → count ≤ (outstanding (s.clients i)).length) :
    Serviced s i (service cfg io s i) := by
  unfold service
  by_cases gone : (s.clients i).fd = none
  · simp only [if_pos gone]
    exact .same
  · have opened : (s.clients i).fd.isSome := isSome_iff_ne_none.mpr gone
    have conversing := sane.talks i opened
    simp only [if_neg gone]
    split
    · exact client_close_serviced
    · cases input : (s.revents i).input with
      | true =>
        have asked := polled.1 input
        have silent := input_silent polled input
        obtain ⟨quiet, free⟩ : (s.clients i).writing = false ∧ (s.clients i).job = none := by
          unfold Client.interest at asked
          cases writing : (s.clients i).writing with
          | true => simp [writing] at asked
          | false =>
            cases job : (s.clients i).job with
            | none => exact ⟨rfl, rfl⟩
            | some slot => simp [writing, job] at asked
        simp only [if_true, silent, Bool.false_eq_true, and_false, if_false, Bool.true_eq_false]
        exact read_request_serviced conversing quiet free recv
      | false =>
        simp only [Bool.false_eq_true, if_false]
        cases output : (s.revents i).output with
        | true =>
          have sent := send_reply_serviced conversing (output_busy polled output) send
          simp only [opened, and_self, if_true]
          split
          · exact closed_again sent (send_reply_jobs io)
          · exact sent
        | false =>
          simp only [Bool.false_eq_true, and_false, if_false]
          split
          · exact client_close_serviced
          · exact .same

theorem serviced_sane (sane : Sane s.clients s.jobs) {after} (serviced : Serviced s i after)
    (opened : after = s ∨ (s.clients i).fd.isSome) : Sane after.clients after.jobs := by
  cases serviced with
  | same => exact sane
  | closed tracing => exact sane_free sane i {} (fun opened => by cases opened) rfl
  | talked other tracing conversing fd free => exact sane_free sane i other (fun _ => conversing) free
  | queued other slot job conversing fd held ticket state free =>
    rcases opened with same | opened
    · have jobs := congrFun (congrArg Server.jobs same) slot
      simp only [update_self] at jobs
      rw [jobs, free] at state
      cases state
    · exact sane_queued sane i slot job conversing (fd ▸ opened) held ticket state free

theorem serviced_others {after} (serviced : Serviced s i after) {j : Slot} (away : j ≠ i) :
    after.clients j = s.clients j ∧ after.revents = s.revents := by
  cases serviced with
  | same => exact ⟨rfl, rfl⟩
  | closed tracing | talked other tracing conversing fd free | queued other slot job conversing fd held ticket state free =>
    exact ⟨update_of_ne away _ _, rfl⟩

theorem serviced_open (serviced : Serviced s i after) (j : Slot) (opened : (after.clients j).fd.isSome) :
    (s.clients j).fd.isSome := by
  by_cases here : j = i
  · subst here
    cases serviced with
    | same => exact opened
    | closed tracing =>
      simp only [Server.setClient, update_self] at opened
      cases opened
    | talked other tracing conversing fd free | queued other slot job conversing fd held ticket state free =>
      simpa only [Server.setClient, update_self, fd] using opened
  · rwa [(serviced_others serviced here).1] at opened

end

section

variable (env : Preparation) (now : Int) (c : Client)

inductive Pushed (input : Bool) (now : Int) (c : Client) : Client → Prop where
  | kept : Pushed input now c c
  | sent (idle : c.idle input) (type : UInt16) (id : UInt32) (body : Body) (cursor : UInt64) (event sample : Int) :
      Pushed input now c { reply c .push type id body now with
        eventCursor := cursor, nextEvent := event, nextSample := sample }

theorem push_snapshot_pushed : Pushed env.input env.sampled c (pushSnapshot env now c) := by
  unfold pushSnapshot
  split
  · rename_i due
    cases env.snapshot.1 with
    | none | some code => exact .sent due.1 _ _ _ _ _ _
  · exact .kept

theorem push_events_pushed : Pushed env.input env.batched c (pushEvents env now c) := by
  unfold pushEvents
  split
  · rename_i due
    exact .sent due.1 _ _ _ _ _ _
  · exact .kept

theorem pushed_conversing {input} {now} {c after} (conversing : Conversing c)
    (pushed : Pushed input now c after) : Conversing after ∧ (after = c ∨ after.job = none) := by
  cases pushed with
  | kept => exact ⟨conversing, .inl rfl⟩
  | sent idle type id body cursor event sample =>
    have sent := push_conversing c conversing idle type id body now
    simp only [Client.idle, Bool.and_eq_true, isNone_iff_eq_none] at idle
    exact ⟨conversing_timers sent, .inr idle.1.2⟩

theorem pushed_keeps {input} {now} {c after} (pushed : Pushed input now c after) :
    after.fd = c.fd ∧ after.job = c.job ∧ after.incoming = c.incoming := by
  cases pushed with
  | kept | sent idle type id body cursor event sample => exact ⟨rfl, rfl, rfl⟩

theorem closed_not_pushed (gone : c.fd = none) : pushEvents env now (pushSnapshot env now c) = c := by
  have busy : c.idle env.input = false := by simp [Client.idle, gone]
  simp [pushEvents, pushSnapshot, busy]

theorem prepare_sane {s : Server} (i : Slot) (sane : Sane s.clients s.jobs) :
    Sane (prepare env s i).clients (prepare env s i).jobs := by
  simp only [prepare, Server.setClient]
  by_cases gone : (s.clients i).fd = none
  · rw [closed_not_pushed env s.now _ gone, update_eq_self]
    exact sane
  · have opened : (s.clients i).fd.isSome := isSome_iff_ne_none.mpr gone
    obtain ⟨first, kept⟩ := pushed_conversing (sane.talks i opened) (push_snapshot_pushed env s.now _)
    obtain ⟨second, keptAgain⟩ := pushed_conversing first (push_events_pushed env s.now _)
    rcases keptAgain with same | free
    · rw [same] at second ⊢
      rcases kept with unchanged | free
      · rw [unchanged, update_eq_self]
        exact sane
      · exact sane_free sane i _ (fun _ => second) free
    · exact sane_free sane i _ (fun _ => second) free

theorem push_keeps (env : Preparation) (now : Int) (c : Client) : (pushEvents env now (pushSnapshot env now c)).fd = c.fd ∧
    (pushEvents env now (pushSnapshot env now c)).job = c.job ∧
    (pushEvents env now (pushSnapshot env now c)).incoming = c.incoming := by
  obtain ⟨fd, job, incoming⟩ := pushed_keeps (push_snapshot_pushed env now c)
  obtain ⟨fdAgain, jobAgain, incomingAgain⟩ := pushed_keeps (push_events_pushed env now (pushSnapshot env now c))
  exact ⟨fdAgain.trans fd, jobAgain.trans job, incomingAgain.trans incoming⟩

theorem prepare_open (env : Preparation) (s : Server) (i j : Slot) :
    ((prepare env s i).clients j).fd = (s.clients j).fd := by
  by_cases here : j = i
  · subst here
    simp only [prepare, Server.setClient, update_self, (push_keeps env s.now (s.clients j)).1]
  · simp only [prepare, Server.setClient, update_of_ne here]

end

section

variable (closing : Slot → Closing) (cfg : Config) {s : Server} (i : Slot)

theorem accept_one_sane (incoming : Incoming) (sane : Sane s.clients s.jobs) :
    Sane (acceptOne s incoming).clients (acceptOne s incoming).jobs := by
  unfold acceptOne
  cases (List.finRange clientsMax).find? fun i => (s.clients i).fd = none with
  | none => exact sane
  | some slot =>
    dsimp only
    split
    · exact sane_free sane slot _ (fun _ => fresh_conversing) rfl
    · exact sane

theorem accept_sane (incoming : List Incoming) (s : Server) (sane : Sane s.clients s.jobs) :
    Sane (incoming.foldl acceptOne s).clients (incoming.foldl acceptOne s).jobs := by
  induction incoming generalizing s with
  | nil => exact sane
  | cons first rest ih => exact ih _ (accept_one_sane first sane)

theorem close_all_sane {slots : List Slot} (s : Server) (sane : Sane s.clients s.jobs) :
    Sane (slots.foldl (fun s i => clientClose s i (closing i)) s).clients
    (slots.foldl (fun s i => clientClose s i (closing i)) s).jobs := by
  induction slots generalizing s with
  | nil => exact sane
  | cons first rest ih => exact ih _ (sane_free sane first {} (fun opened => by cases opened) rfl)

theorem close_all_client (slots : List Slot) (s : Server) :
    (slots.foldl (fun s i => clientClose s i (closing i)) s).jobs = s.jobs ∧
    ∀ i, (slots.foldl (fun s i => clientClose s i (closing i)) s).clients i = s.clients i ∨
    (slots.foldl (fun s i => clientClose s i (closing i)) s).clients i = {} := by
  induction slots generalizing s with
  | nil => exact ⟨rfl, fun _ => .inl rfl⟩
  | cons first rest ih =>
    obtain ⟨jobs, clients⟩ := ih (clientClose s first (closing first))
    refine ⟨jobs, fun i => ?_⟩
    rcases clients i with same | closed
    · rw [foldl_cons, same]
      by_cases here : i = first
      · subst here
        exact .inr (update_self _ _ _)
      · exact .inl (update_of_ne here _ _)
    · exact .inr closed

theorem close_all_open (opened : ((closeAll closing s).clients i).fd.isSome) : (s.clients i).fd.isSome := by
  rcases (close_all_client closing (List.finRange clientsMax) s).2 i with same | closed
  · exact same ▸ opened
  · have gone := closed ▸ opened
    cases gone

variable (s)

def Polled (s : Server) : Prop :=
  match s.pc with
  | .prepare next => ∀ i < next, s.interest i = (s.clients i).interest
  | .poll => ∀ i, s.interest i = (s.clients i).interest
  | .service next => ∀ i, next ≤ i → Admissible (s.clients i).interest (s.revents i)
  | _ => True

structure Served (s : Server) : Prop where
  sane : Sane s.clients s.jobs
  polled : Polled s

theorem next_client_some (i : Slot) {next} (more : nextClient i = some next) : next.val = i.val + 1 := by
  unfold nextClient at more
  split at more
  · rw [← Option.some.inj more]
  · cases more

theorem next_client_none (i j : Slot) (last : nextClient i = none) : j ≤ i := by
  unfold nextClient at last
  split at last
  · cases last
  · rename_i beyond
    exact le_def.mpr (by omega)

theorem prepare_served (env : Preparation) (served : Served s) (here : s.pc = .prepare i) :
    Served { prepare env s i with pc := ((nextClient i).map Pc.prepare).getD .poll } := by
  have before : ∀ j < i, s.interest j = (s.clients j).interest := by simpa only [Polled, here] using served.polled
  have upTo (j : Slot) (reached : j ≤ i) : (prepare env s i).interest j = ((prepare env s i).clients j).interest := by
    simp only [prepare, Server.setClient]
    by_cases same : j = i
    · subst same
      simp only [update_self]
    · rw [update_of_ne same, update_of_ne same]
      exact before j (Nat.lt_of_le_of_ne reached fun equal => same (Fin.ext equal))
  refine ⟨prepare_sane env i served.sane, ?_⟩
  cases more : nextClient i with
  | none => exact fun j => upTo j (next_client_none i j more)
  | some next =>
    have size := next_client_some i more
    exact fun j below => upTo j (le_def.mpr (by have := lt_def.mp below; omega))

theorem allowed_serviced {io} (served : Served s)
    (allowed : Allowed s (.service i io)) : Serviced s i (service cfg io s i) := by
  obtain ⟨here, recv, send⟩ := allowed
  have polled : ∀ j, i ≤ j → Admissible (s.clients j).interest (s.revents j) := by
    simpa only [Polled, here] using served.polled
  exact service_serviced cfg io served.sane (polled i (Nat.le_refl _)) (fun bytes data => (recv bytes data).2) send

theorem service_served (io : Exchange) (served : Served s) (allowed : Allowed s (.service i io)) :
    Served { service cfg io s i with pc := ((nextClient i).map Pc.service).getD .accept } := by
  have serviced := allowed_serviced cfg s i served allowed
  have polled : ∀ j, i ≤ j → Admissible (s.clients j).interest (s.revents j) := by
    simpa only [Polled, allowed.1] using served.polled
  have opened : service cfg io s i = s ∨ (s.clients i).fd.isSome := by
    by_cases gone : (s.clients i).fd = none
    · exact .inl (by simp only [service, if_pos gone])
    · exact .inr (isSome_iff_ne_none.mpr gone)
  have sane := serviced_sane served.sane serviced opened
  refine ⟨sane, ?_⟩
  cases more : nextClient i with
  | none => trivial
  | some next =>
    have size := next_client_some i more
    intro j later
    have beyond : i < j := lt_def.mpr (by have := le_def.mp later; omega)
    obtain ⟨same, revents⟩ := serviced_others serviced (ne_of_gt beyond)
    simp only [same, revents]
    exact polled j (Nat.le_of_lt beyond)

theorem poll_served {result} (served : Served s) (allowed : Allowed s (.poll result)) :
    Served (pollStep s result) := by
  cases result with
  | interrupted => exact ⟨served.sane, trivial⟩
  | stop closing => exact ⟨close_all_sane closing s served.sane, trivial⟩
  | ready revents now =>
    obtain ⟨here, admissible⟩ := allowed
    have asked : ∀ i, s.interest i = (s.clients i).interest := by simpa only [Polled, here] using served.polled
    refine ⟨served.sane, fun i _ => ?_⟩
    have found := admissible i
    rwa [asked i] at found

theorem step_served (action : Action) (served : Served s) (allowed : Allowed s action) : Served (step cfg s action) := by
  cases action with
  | reap now heap replied =>
    have sane := reap_all_sane s heap replied served.sane
    generalize reaped : reap heap replied s = after at sane
    simp only [step, reaped]
    exact ⟨sane, fun i below => absurd below (Nat.not_lt_zero _)⟩
  | prepare i env => exact prepare_served s i env served allowed
  | poll result => exact poll_served s served allowed
  | service i io => exact service_served cfg s i io served allowed
  | accept incoming => exact ⟨accept_sane incoming s served.sane, trivial⟩
  | startJob slot | finishJob slot error result => exact ⟨sane_progress served.sane slot (by simp) rfl, served.polled⟩

theorem initial_served (initial : Initial s) : Served s := by
  refine ⟨⟨fun i opened => ?_, fun i _ => ?_, fun i slot holds => ?_, fun i j slot holds _ => ?_⟩, ?_⟩
  · rw [initial.clients] at opened
    cases opened
  · rw [initial.clients]
  · rw [initial.clients] at holds
    cases holds
  · rw [initial.clients] at holds
    cases holds
  · rw [Polled, initial.pc]
    trivial

end

def Client.pending (c : Client) : Option Request := c.job.map fun _ => ⟨c.incoming, c.request⟩

def Client.buffered (c : Client) : Bytes := if c.job.isSome then [] else c.request

structure WellFramed (c : Client) : Prop where
  onWire : c.log.wire <+: c.log.frames.flatMap Frame.bytes
  framed : ∀ frame ∈ c.log.frames, ∃ header : IpcHeader, ipcHeaderRead frame.bytes = some header ∧
    header.type = frame.type ∧ header.id = frame.id ∧ frame.bytes.length = ipcHeaderSize + header.size.toNat
  unreplaced : c.log.replaced = false
  answered : Paired Answered c.log.requests c.pending (answersIn c.log.frames)
  gated : c.log.starved = false → Preceded NeedsHello (GrantsHello false) c.log.exchanges
  undiscarded : c.log.received = c.log.requests.flatMap Request.raw ++ c.buffered
  complete : ∀ q ∈ c.log.requests, q.Complete
  unfinished : c.buffered.length < ipcHeaderSize ∨
    ∃ header, ipcHeaderRead c.buffered = some header ∧ c.buffered.length < ipcHeaderSize + header.size.toNat

theorem ledger_well_framed {c : Client} (sending : c.sending) (ledger : Ledger c.log c.hello c.pending c.buffered)
    (unfinished : c.buffered.length < ipcHeaderSize ∨
    ∃ header, ipcHeaderRead c.buffered = some header ∧ c.buffered.length < ipcHeaderSize + header.size.toNat) :
    WellFramed c where
  onWire := by
    exact sending_prefix sending
  framed frame _ := by
    have complete := frame_complete frame []
    rwa [append_nil] at complete
  unreplaced := ledger.kept
  answered := ledger.paired
  gated fed := by
    have gated := ledger.gated
    rwa [fed] at gated
  undiscarded := ledger.stream
  complete := ledger.complete
  unfinished := unfinished

theorem conversing_well_framed {c} (conversing : Conversing c) : WellFramed c := by
  cases conversing with
  | reading quiet free sending ledger unfinished =>
    have buffered : c.buffered = c.request := by simp [Client.buffered, free]
    refine ledger_well_framed sending (by simpa [Client.pending, buffered, free] using ledger) ?_
    rw [buffered]
    have short := unfinished.short
    rcases unfinished.headed with first | ⟨-, read, size⟩
    · rw [first] at short
      exact .inl short
    · rw [size] at short
      exact .inr ⟨c.incoming, read, short⟩
  | writing busy free sending ledger empty expected headed =>
    have buffered : c.buffered = [] := by simp [Client.buffered, free, empty]
    exact ledger_well_framed sending (by simpa [Client.pending, buffered, free] using ledger)
      (.inl (by rw [buffered]; decide))
  | waiting slot quiet held greeted sending ledger =>
    have buffered : c.buffered = [] := by simp [Client.buffered, held]
    exact ledger_well_framed sending (by simpa [Client.pending, buffered, held] using ledger)
      (.inl (by rw [buffered]; decide))

-- Every request is answered once and in order, the last one possibly still by the inspector: its
-- job is queued, running or complete, and reaping it answers the request.
theorem server_frames_and_answers (cfg : Config) (s : Server) (reached : Reached cfg s) (i : Slot)
    (opened : (s.clients i).fd.isSome = true) : WellFramed (s.clients i) ∧
    ∀ slot, (s.clients i).job = some slot → (s.jobs slot).state ≠ .free ∧
    ((s.jobs slot).state = .complete → ∀ now heap replied,
    ((step cfg s (.reap now heap replied)).clients i).job = none) := by
  have served := Runs.invariant Served initial_served (step_served cfg) s reached
  refine ⟨conversing_well_framed (served.sane.talks i opened), fun slot holds => ?_⟩
  refine ⟨(served.sane.held i slot holds).1, fun complete now heap replied => ?_⟩
  have answered := reap_all_answers s slot heap replied served.sane i holds complete
  simpa only [step] using answered

def recvPermitted (c : Client) : Recv → Bool
  | .data bytes => decide (bytes ≠ []) && decide (c.request.length + bytes.length ≤ c.expected)
  | _ => true

def sendPermitted (c : Client) : Send → Bool
  | .sent count => decide (count ≤ (outstanding c).length)
  | _ => true

instance (interest : Interest) (revents : Revents) : Decidable (Admissible interest revents) :=
  inferInstanceAs (Decidable (_ ∧ _))

def permitted (s : Server) : Action → Bool
  | .reap _ _ _ => s.pc = .reap
  | .prepare i _ => s.pc = .prepare i
  | .poll (.ready revents _) => decide (s.pc = .poll) && decide (∀ i, Admissible (s.interest i) (revents i))
  | .poll _ => s.pc = .poll
  | .service i io =>
    decide (s.pc = .service i) && recvPermitted (s.clients i) io.recv && sendPermitted (s.clients i) io.send
  | .accept incoming => decide (s.pc = .accept) && decide (incoming.length ≤ clientsMax)
  | .startJob slot => (s.jobs slot).state = .queued
  | .finishJob slot _ _ => (s.jobs slot).state = .running

theorem permitted_allowed {s} {action} (passed : permitted s action) : Allowed s action := by
  cases action with
  | reap now heap replied | prepare i env | accept incoming | startJob slot | finishJob slot error result =>
    simpa [permitted, Allowed] using passed
  | poll result =>
    cases result with
    | interrupted | stop closing | ready revents now => simpa [permitted, Allowed] using passed
  | service i io =>
    simp only [permitted, Bool.and_eq_true, decide_eq_true_eq] at passed
    obtain ⟨⟨here, recv⟩, send⟩ := passed
    refine ⟨here, fun bytes data => ?_, fun count sent => ?_⟩
    · simpa [data, recvPermitted] using recv
    · simpa [sent, sendPermitted] using send

def permittedRun (cfg : Config) : List Action → Server → Bool
  | [], _ => true
  | action :: rest, s => permitted s action && permittedRun cfg rest (step cfg s action)

theorem reached_run (cfg : Config) (actions : List Action) {s} (reached : Reached cfg s)
    (passed : permittedRun cfg actions s) : Reached cfg (actions.foldl (step cfg) s) := by
  induction actions generalizing s with
  | nil => exact reached
  | cons action rest ih =>
    simp only [permittedRun, Bool.and_eq_true] at passed
    exact ih (.step s action reached (permitted_allowed passed.1)) passed.2

def turn (revents : Revents) (recv : Recv) (send : Send) (incoming : List Incoming) : List Action :=
  let answers : Answers := ⟨allGranted, allGranted, 2, (none, Out.empty), granting, granting, 0, 1, 1⟩
  let quiet : Preparation := ⟨revents.input, (none, Body.empty), Body.empty, 0, allGranted, 1, 1⟩
  let io (i : Slot) : Exchange :=
    ⟨if i = firstClient then recv else .again, if i = firstClient then send else .again, 1, 1, answers,
      ⟨allGranted, granting, granting⟩⟩
  [.reap 1 (fun _ => allGranted) fun _ => 1] ++ (List.finRange clientsMax).map (.prepare · quiet) ++
    [.poll (.ready (fun i => if i = firstClient then revents else {}) 1)] ++
    (List.finRange clientsMax).map (fun i => .service i (io i)) ++ [.accept incoming]

def sampleConfig : Config := ⟨false, false, 7, text "1"⟩

def greeting : List Action :=
  turn {} .again .again [⟨5, true⟩] ++
    turn { input := true } (.data ((ipcHeaderWrite ipcHello 9 0).take 10)) .again [] ++
    turn { input := true } (.data ((ipcHeaderWrite ipcHello 9 0).drop 10)) .again [] ++
    turn { output := true } .again (.sent 16) [] ++ turn { output := true } .again (.sent 4) []

def greeted : Server := greeting.foldl (step sampleConfig) { tracing := freshTracing }

theorem greeted_reached : Reached sampleConfig greeted :=
  reached_run sampleConfig greeting (.start _ ⟨rfl, rfl, rfl, rfl⟩) (by decide +kernel)

theorem server_frames_and_answers_greeted :
    (greeted.clients firstClient).log.requests.length = 1 ∧ (greeted.clients firstClient).log.wire.length = 20 ∧
    WellFramed (greeted.clients firstClient) := by
  refine ⟨by decide +kernel, by decide +kernel, ?_⟩
  exact (server_frames_and_answers sampleConfig greeted greeted_reached firstClient (by decide +kernel)).1

end Evemon.QueryServer
