import Evemon.Signal
import Evemon.WireParse

namespace Evemon.Signal

open Ipc BigEndian CText Prog List Function Nat UInt32

section

variable (p : Process) (stat : Stat)

theorem fields_plain (field : Text) (mem : field ∈ stat.fields p) :
    (field ≠ [] ∧ 32 ∉ field) ∧ field.length ≤ 20 ∧ 0 ∉ field ∧ 10 ∉ field ∧ 41 ∉ field := by
  have digitsOnly (byte : UInt8) (other : isDigit byte = false) : byte ∉ decimal p.ticks.toNat := by
    intro inside
    rw [decimal_digits _ byte inside] at other
    cases other
  rcases mem_append.mp mem with early | rest
  · exact stat.plain field (mem_append_left _ early)
  · rcases mem_cons.mp rest with rfl | late
    · have fits : p.ticks.toNat < 10 ^ 20 := lt_trans p.ticks.toNat_lt (by decide)
      exact ⟨⟨decimal_ne_nil _, digitsOnly 32 rfl⟩, decimal_length _ (by decide) fits, digitsOnly 0 rfl,
        digitsOnly 10 rfl, digitsOnly 41 rfl⟩
    · exact stat.plain field (mem_append_right _ late)

theorem spaced_clean {byte : UInt8} (away : byte ≠ 32) {fields : List Text} (clean : ∀ field ∈ fields, byte ∉ field) :
    byte ∉ spaced 32 fields := by
  intro mem
  obtain ⟨field, listed, inside⟩ := mem_flatMap.mp mem
  rcases mem_cons.mp inside with same | deeper
  · exact away same
  · exact clean field listed deeper

theorem spaced_length (limit : Nat) (fields : List Text) (short : ∀ field ∈ fields, field.length ≤ limit) :
    (spaced 32 fields).length ≤ (limit + 1) * fields.length := by
  induction fields with
  | nil => simp [spaced]
  | cons field rest ih =>
    have first := short field mem_cons_self
    have others := ih fun other mem => short other (mem_cons_of_mem _ mem)
    have split := congrArg List.length (spaced_cons 32 field rest [])
    simp only [append_nil, length_cons, length_append] at split
    rw [split, length_cons, mul_succ]
    omega

theorem pid_text (byte : UInt8) (other : isDigit byte = false) (away : byte ≠ 32 ∧ byte ≠ 40) :
    byte ∉ decimal p.pid ++ [32, 40] := by
  intro mem
  rcases mem_append.mp mem with inside | rest
  · rw [decimal_digits _ byte inside] at other
    cases other
  · simp [away] at rest

theorem stat_line_length : (statLine p stat).length ≤ 4095 := by
  have pid : (decimal p.pid).length ≤ 10 := decimal_length _ (by decide) (lt_trans p.range (by decide))
  have fields := spaced_length 20 (stat.fields p) fun field mem => (fields_plain p stat field mem).2.1
  have count : (stat.fields p).length ≤ 60 := by
    have early := stat.count
    have late := stat.more.2
    simp only [Stat.fields, length_append, length_cons]
    omega
  have comm := stat.named.2
  simp only [statLine, length_append, length_cons, length_nil]
  omega

theorem stat_ticks_clean (clean : 10 ∉ stat.comm) : statTicks (statLine p stat) = p.ticks := by
  have plain := fields_plain p stat
  have fieldsClean (byte : UInt8) (away : byte ≠ 32) (absent : ∀ field ∈ stat.fields p, byte ∉ field) :
      byte ∉ spaced 32 (stat.fields p) := spaced_clean away absent
  have parenthesis := fieldsClean 41 (by decide) fun field mem => (plain field mem).2.2.2.2
  have newline := fieldsClean 10 (by decide) fun field mem => (plain field mem).2.2.2.1
  have nul := fieldsClean 0 (by decide) fun field mem => (plain field mem).2.2.1
  have read : fgets 4096 (statLine p stat) = some (statLine p stat) := by
    have fits := stat_line_length p stat
    have shape : statLine p stat =
        ((decimal p.pid ++ [32, 40]) ++ stat.comm ++ 41 :: spaced 32 (stat.fields p)) ++ [10] := by
      simp [statLine]
    rw [shape] at fits ⊢
    refine fgets_line _ [] ?_ ?_ ?_
    · simp only [mem_append, mem_cons, not_or]
      exact ⟨⟨by simpa using pid_text p 10 rfl (by decide), clean⟩, by decide, newline⟩
    · simp only [mem_append, mem_cons, not_or]
      exact ⟨⟨by simpa using pid_text p 0 rfl (by decide), stat.named.1⟩, by decide, nul⟩
    · simp only [length_append, length_cons, length_nil] at fits ⊢
      omega
  have last : afterLast 41 (statLine p stat) = some (spaced 32 (stat.fields p) ++ [10]) :=
    after_last_some 41 (by simp [parenthesis])
  have inside : 19 + 1 < (stat.fields p).length := by
    have early := stat.count
    have late := length_pos_iff.mpr stat.more.1
    simp only [Stat.fields, length_append, length_cons]
    omega
  have field : token 32 19 (spaced 32 (stat.fields p) ++ [10]) = some (decimal p.ticks.toNat) := by
    rw [token_spaced 32 (fun field mem => (plain field mem).1) 19 inside, Stat.fields,
      List.getElem?_append_right (le_of_eq stat.count), stat.count]
    rfl
  simp only [statTicks, read, last, field]
  rw [strtoull_decimal _ p.ticks.toNat_lt]
  exact UInt64.ofNat_toNat

theorem stat_ticks_cut (cut : 10 ∈ stat.comm) : statTicks (statLine p stat) = 0 := by
  have short : stat.comm.length ≤ 15 := stat.user.resolve_right fun clean => clean cut
  obtain ⟨front, back, shape, clean⟩ := eq_append_cons_of_mem cut
  have nul : 0 ∉ front := fun mem => stat.named.1 (by rw [shape]; exact mem_append_left _ mem)
  have frontShort : front.length + 1 ≤ 15 := by
    rw [shape, length_append, length_cons] at short
    omega
  have pid : (decimal p.pid).length ≤ 10 := decimal_length _ (by decide) (lt_trans p.range (by decide))
  have read : fgets 4096 (statLine p stat) = some ((decimal p.pid ++ [32, 40]) ++ (front ++ [10])) := by
    have line : statLine p stat = ((decimal p.pid ++ [32, 40]) ++ front) ++
        10 :: (back ++ 41 :: (spaced 32 (stat.fields p) ++ [10])) := by
      simp [statLine, shape]
    rw [line, fgets_line _ _ _ _ _, append_assoc]
    · simp only [mem_append, not_or]
      exact ⟨by simpa using pid_text p 10 rfl (by decide), clean⟩
    · simp only [mem_append, not_or]
      exact ⟨by simpa using pid_text p 0 rfl (by decide), nul⟩
    · simp only [length_append, length_cons, length_nil]
      omega
  simp only [statTicks, read]
  cases found : afterLast 41 ((decimal p.pid ++ [32, 40]) ++ (front ++ [10])) with
  | none => rfl
  | some rest =>
    have inName := after_last_append 41 _ _ rest (pid_text p 41 rfl (by decide)) found
    have bound := after_last_length 41 _ rest inName
    rw [length_append, length_singleton] at bound
    simp only
    cases field : token 32 19 rest with
    | none => rfl
    | some text =>
      have many := token_length 32 19 rest text field
      omega

theorem stat_ticks_identity {ticks : UInt64} (positive : ticks ≠ 0) (found : statTicks (statLine p stat) = ticks) :
    p.ticks = ticks := by
  by_cases cut : 10 ∈ stat.comm
  · rw [stat_ticks_cut p stat cut] at found
    exact absurd found.symm positive
  · rw [← found, stat_ticks_clean p stat cut]

end

section

def Host.Gone (host : Host) (p : Process) : Prop := p ∈ host.seen ∧ host.holder p.pid ≠ some p

variable (host : Host) (p : Process)

theorem move_gone (gone : host.Gone p) (move : Move) : (host.move move).Gone p := by
  cases move with
  | exit pid =>
    refine ⟨gone.1, ?_⟩
    by_cases here : p.pid = pid
    · simp [Host.move, Host.exited, here]
    · simp only [Host.move, Host.exited, update_of_ne here]
      exact gone.2
  | spawn q =>
    by_cases fresh : host.fresh q
    · rw [Host.move, dif_pos fresh]
      refine ⟨mem_cons_of_mem _ gone.1, ?_⟩
      by_cases here : p.pid = q.pid
      · simp only [Host.spawned, here, update_self]
        intro same
        have equal := Option.some.inj same
        exact (fresh.2 p gone.1).1 (by rw [equal])
      · simp only [Host.spawned, update_of_ne here]
        exact gone.2
    · rw [Host.move, dif_neg fresh]
      exact gone

theorem run_gone (gone : host.Gone p) (moves : List Move) : (host.run moves).Gone p := by
  induction moves generalizing host with
  | nil => exact gone
  | cons first rest ih => exact ih (host.move first) (move_gone host p gone first)

theorem move_seen (mem : p ∈ host.seen) (move : Move) : p ∈ (host.move move).seen := by
  cases move with
  | exit pid => exact mem
  | spawn q =>
    rw [Host.move]
    split
    · exact mem_cons_of_mem _ mem
    · exact mem

theorem run_seen (mem : p ∈ host.seen) (moves : List Move) : p ∈ (host.run moves).seen := by
  induction moves generalizing host with
  | nil => exact mem
  | cons first rest ih => exact ih (host.move first) (move_seen host p mem first)

theorem run_alive (mem : p ∈ host.seen) {moves}
    (alive : (host.run moves).holder p.pid = some p) : host.holder p.pid = some p := by
  by_contra gone
  exact (run_gone host p ⟨mem, gone⟩ moves).2 alive

end

section

structure Meant (pid signo : Nat) (ticks : UInt64) (outcome : Outcome) : Prop where
  received : ∀ p n, outcome.sent = some (p, n) → p.pid = pid ∧ p.ticks = ticks ∧ n = signo ∧
    ∀ q ∈ outcome.host.seen, q.pid = pid → q.ticks = ticks → q = p
  refused : outcome.sent = none → outcome.error ≠ 0

variable (pid : Nat) {signo : Nat} {ticks : UInt64} {host : Host}

theorem meant_refused {error : UInt32} (code : error ≠ 0) : Meant pid signo ticks ⟨host, error, none⟩ := by
  refine ⟨fun p n sent => ?_, fun _ => code⟩
  cases sent

theorem process_start_ticks_spec {w} {ticks : UInt64} (positive : ticks ≠ 0)
    (found : (processStartTicks pid host w).2 = ticks) :
    ∃ file, (host.run w.beforeStat).holder pid = some file ∧ file.ticks = ticks ∧
    (processStartTicks pid host w).1 = (host.run w.beforeStat).run w.beforeRead := by
  unfold processStartTicks at found ⊢
  simp only at found ⊢
  split at found
  · rename_i file holds opens
    refine ⟨file, holds, ?_⟩
    cases read : w.stat with
    | none =>
      rw [read] at found
      exact absurd found.symm positive
    | some stat =>
      rw [read] at found
      simp only at found
      split at found
      · exact ⟨stat_ticks_identity file stat positive found, rfl⟩
      · exact absurd found.symm positive
  · exact absurd found.symm positive

theorem pidfd_send_signal_meant (signal : signo ≠ 0) {target : Process}
    (samePid : target.pid = pid) {atStat : Host} {reading sending} (known : target ∈ atStat.seen)
    {file} (there : atStat.holder pid = some file) (sameTicks : file.ticks = ticks) {failure} :
    Meant pid signo ticks (pidfdSendSignal target signo ((atStat.run reading).run sending) failure) := by
  unfold pidfdSendSignal
  split
  · rename_i code
    exact meant_refused pid code.property
  · split
    · rename_i alive
      have earlier := run_alive atStat target known (run_alive _ target (run_seen atStat target known reading) alive)
      rw [samePid, there] at earlier
      obtain rfl := Option.some.inj earlier
      refine ⟨fun p n sent => ?_, fun none => ?_⟩
      · obtain ⟨rfl, rfl⟩ := Prod.mk.inj (Option.some.inj sent)
        have mem := run_seen _ file (run_seen atStat file known reading) sending
        refine ⟨samePid, sameTicks, rfl, fun q there qPid qTicks => ?_⟩
        exact Host.apart _ q there file mem (qPid.trans samePid.symm) (qTicks.trans sameTicks.symm)
      · cases none
    · exact meant_refused pid (by decide)

variable (signo) (host) in
theorem deliver_signal_meant (w : Schedule) (signal : signo ≠ 0)
    (positive : ticks ≠ 0) : Meant pid signo ticks (deliverSignal pid signo ticks host w) := by
  unfold deliverSignal
  simp only
  split
  · rename_i code failed
    exact meant_refused pid code.property
  · split
    · exact meant_refused pid (by decide)
    · rename_i target holds
      split
      · exact meant_refused pid (by decide)
      · rename_i matched
        obtain ⟨file, there, sameTicks, later⟩ :=
          process_start_ticks_spec pid positive (not_not.mp matched)
        rw [later]
        obtain ⟨samePid, known⟩ := (host.run w.beforeOpen).held pid target holds
        exact pidfd_send_signal_meant pid signal samePid (run_seen _ target known w.beforeStat) there sameTicks

end

def signalBody (request : SignalRequest) : Bytes :=
  encode32 request.pid ++ (encode32 request.signo ++ (encode64 request.ticks ++ encode64 request.instanceId))

def Advances {α : Type} (count : Nat) (prog : Wire α) : Prop :=
  ∀ state, (prog.run state).2.buf.error = none →
    state.buf.error = none ∧ (prog.run state).2.buf.data = state.buf.data ∧
      (prog.run state).2.buf.pos = state.buf.pos + count

theorem advances_bind {α β : Type} {first} {next : α → Wire β} {a b} (atFirst : Advances a first)
    (atNext : ∀ value, Advances b (next value)) : Advances (a + b) (first >>= next) := by
  intro state healthy
  obtain ⟨clear, data, pos⟩ := atNext _ _ healthy
  obtain ⟨clear', data', pos'⟩ := atFirst state clear
  refine ⟨clear', data.trans data', ?_⟩
  rw [run_bind, pos, pos']
  exact add_assoc _ _ _

theorem read_u32_advances : Advances 4 readU32 := by
  intro state healthy
  unfold readU32 at healthy ⊢
  simp only at healthy ⊢
  split at healthy
  · cases healthy
  · rename_i clear
    rw [if_neg clear]
    refine ⟨?_, rfl, rfl⟩
    simp only [Bool.or_eq_true, not_or] at clear
    simpa using clear.1

theorem called_advances {α : Type} (isEmpty : α → Bool) {getter} {count} (advances : Advances count getter) :
    Advances count (called isEmpty getter) :=
  fun state healthy => advances state healthy

theorem get_signal_advances : Advances 24 getSignal := by
  have pure_advances (request : SignalRequest) : Advances 0 (pure request : Wire SignalRequest) :=
    fun state healthy => ⟨healthy, rfl, rfl⟩
  have u32 := called_advances (· == 0) read_u32_advances
  have u64 : Advances 8 ipcGetU64 := by
    refine called_advances _ (advances_bind (b := 4) read_u32_advances fun high => ?_)
    exact advances_bind (b := 0) read_u32_advances fun low => fun state healthy => ⟨healthy, rfl, rfl⟩
  exact advances_bind (b := 20) u32 fun _ => advances_bind (b := 16) u32 fun _ => advances_bind (b := 8) u64 fun _ =>
    advances_bind (b := 0) u64 fun _ => pure_advances _

variable (request : SignalRequest)

theorem get_signal_consumes : Consumes Unread getSignal (signalBody request) (· = request) := by
  refine consumes_value (ipc_get_u32_consumes _) (consumes_value (ipc_get_u32_consumes _)
    (consumes_value ipc_get_u64_consumes (consumes_last ipc_get_u64_consumes ?_)))
  rintro value rfl
  rfl

theorem read_signal_body : readSignal (signalBody request) = (request, true) := by
  have start : Unread { buf := { data := signalBody request }, heap := allGranted } (signalBody request ++ []) :=
    ⟨rfl, zero_le _, by simp, fun _ => rfl⟩
  obtain ⟨same, rest⟩ := get_signal_consumes request _ [] start
  have healthy := rest.clear
  obtain ⟨_, data, pos⟩ := get_signal_advances _ healthy
  refine Prod.ext same ?_
  simp only [readSignal, ipcDone, healthy, data, pos]
  rfl

theorem body_of_length {body : Bytes} (long : body.length = 24) : ∃ request, body = signalBody request := by
  obtain ⟨pid, first⟩ := word_of_bytes (body.take 4) (by rw [length_take]; omega)
  obtain ⟨signo, second⟩ := word_of_bytes ((body.drop 4).take 4) (by simp; omega)
  obtain ⟨ticks, third⟩ := double_of_bytes ((body.drop 8).take 8) (by simp; omega)
  obtain ⟨instanceId, fourth⟩ := double_of_bytes (body.drop 16) (by rw [length_drop]; omega)
  refine ⟨⟨pid, signo, ticks, instanceId⟩, ?_⟩
  have tail : body.drop 8 = (body.drop 8).take 8 ++ body.drop 16 := by
    rw [← drop_drop (i := 8) (j := 8), take_append_drop]
  have middle : body.drop 4 = (body.drop 4).take 4 ++ body.drop 8 := by
    rw [← drop_drop (i := 4) (j := 4), take_append_drop]
  rw [signalBody, ← first, ← second, ← third, ← fourth, ← tail, ← middle, take_append_drop]

theorem read_signal_done {body} (done : (readSignal body).2) : body = signalBody (readSignal body).1 := by
  have healthy := done_healthy done
  obtain ⟨_, data, pos⟩ := get_signal_advances _ healthy
  have long : body.length = 24 := by
    simp only [readSignal, ipcDone, healthy, data, pos, Bool.and_eq_true, beq_iff_eq] at done
    omega
  obtain ⟨request, rfl⟩ := body_of_length long
  rw [read_signal_body]

def aloneHost (p : Process) : Host where
  holder pid := if pid = p.pid then some p else none
  seen := [p]
  held pid q holds := by
    split at holds
    · rename_i here
      obtain rfl := Option.some.inj holds
      exact ⟨here.symm, List.mem_singleton_self _⟩
    · cases holds
  apart q first r second _ _ := by
    rw [List.mem_singleton.mp first, List.mem_singleton.mp second]

def sampleStat : Stat where
  comm := [97]
  early := List.replicate 19 [48]
  late := [[48]]
  named := by decide
  user := by decide
  count := rfl
  more := by decide
  plain := by decide

def undisturbed : Schedule := ⟨[], none, [], true, [], some sampleStat, [], none⟩

theorem deliver_undisturbed (p : Process) (signo : Nat) : deliverSignal p.pid signo p.ticks (aloneHost p) undisturbed =
    ⟨aloneHost p, 0, if signo = 0 then none else some (p, signo)⟩ := by
  have holds : (aloneHost p).holder p.pid = some p := if_pos rfl
  have ticks : processStartTicks p.pid (aloneHost p) undisturbed = (aloneHost p, p.ticks) := by
    have found := stat_ticks_clean p sampleStat (by decide)
    simp only [processStartTicks, undisturbed, Host.run, foldl_nil, holds, if_true, found]
  simp only [undisturbed] at ticks
  simp only [deliverSignal, undisturbed, Host.run, foldl_nil, holds, ticks, pidfdSendSignal, ne_eq, not_true,
    if_false, if_true]

section

def RequestMeant (body : Bytes) (instanceId : UInt64) (outcome : Outcome) : Prop :=
  (∀ p n, outcome.sent = some (p, n) → ∃ request : SignalRequest, body = signalBody request ∧ body.length = 24 ∧
    request.instanceId = instanceId ∧ 1 < request.pid ∧ p.pid = request.pid.toNat ∧ p.ticks = request.ticks ∧
    n = request.signo.toNat ∧ ∀ q ∈ outcome.host.seen, q.pid = p.pid → q.ticks = p.ticks → q = p) ∧
  (outcome.sent = none → outcome.error ≠ 0)

def LocalMeant (target : Option Target) (signo : Int) (outcome : Outcome) : Prop :=
  (∀ p n, outcome.sent = some (p, n) → ∃ t : Target, target = some t ∧ 1 < t.pid ∧ (p.pid : Int) = t.pid ∧
    p.ticks = t.startTicks ∧ (n : Int) = signo ∧ ∀ q ∈ outcome.host.seen, q.pid = p.pid → q.ticks = p.ticks → q = p) ∧
  (outcome.sent = none → outcome.error ≠ 0)

def Probes (body : Bytes) (instanceId : UInt64) : Prop :=
  ∃ request : SignalRequest, body = signalBody request ∧ 1 < request.pid ∧ request.pid ≤ intMax ∧ request.ticks ≠ 0 ∧
    request.instanceId = instanceId ∧ request.signo = 0

variable (body : Bytes) (instanceId : UInt64)

theorem request_refused {host : Host} {error : UInt32} (code : error ≠ 0) :
    RequestMeant body instanceId ⟨host, error, none⟩ := by
  refine ⟨fun p n sent => ?_, fun _ => code⟩
  cases sent

theorem dispatch_meant (real : ¬ Probes body instanceId) (host : Host)
    (w : Schedule) : RequestMeant body instanceId (querySignalDispatch body instanceId host w) := by
  unfold querySignalDispatch
  simp only
  split
  · exact request_refused body instanceId (by decide)
  · rename_i accepted
    split
    · exact request_refused body instanceId (by decide)
    · rename_i agreed
      simp only [not_or, Bool.not_eq_false, UInt32.not_le, UInt32.not_lt] at accepted
      obtain ⟨done, above, below, _, positive⟩ := accepted
      have whole := read_signal_done done
      have same := not_not.mp agreed
      generalize (readSignal body).1 = request at above below positive whole same ⊢
      have signal : request.signo.toNat ≠ 0 := by
        intro zero
        exact real ⟨request, whole, above, below, positive, same, UInt32.toNat_inj.mp zero⟩
      have meant := deliver_signal_meant request.pid.toNat request.signo.toNat host w signal positive
      refine ⟨fun p n sent => ?_, meant.refused⟩
      obtain ⟨pid, ticks, number, only⟩ := meant.received p n sent
      refine ⟨request, whole, by rw [whole]; rfl, same, above, pid, ticks, number, fun q mem samePid sameTicks => ?_⟩
      exact only q mem (samePid.trans pid) (sameTicks.trans ticks)

theorem path_meant (target : Option Target) (signo : Int) (host : Host) (w : Schedule) :
    LocalMeant target signo (querySignalPath target signo host w) := by
  have refused (error : UInt32) (code : error ≠ 0) : LocalMeant target signo ⟨host, error, none⟩ := by
    refine ⟨fun p n sent => ?_, fun _ => code⟩
    cases sent
  unfold querySignalPath
  split
  · exact refused einval (by decide)
  · rename_i t
    split
    · exact refused einval (by decide)
    · rename_i accepted
      simp only [not_or] at accepted
      obtain ⟨above, number, _, positive⟩ := accepted
      have meant := deliver_signal_meant t.pid.toNat signo.toNat host w (by omega) positive
      refine ⟨fun p n sent => ?_, meant.refused⟩
      obtain ⟨pid, ticks, same, only⟩ := meant.received p n sent
      refine ⟨t, rfl, by omega, by omega, ticks, by omega, fun q mem samePid sameTicks => ?_⟩
      exact only q mem (samePid.trans pid) (sameTicks.trans ticks)

theorem dispatch_probe (probes : Probes body instanceId) :
    ∃ host w, ¬ RequestMeant body instanceId (querySignalDispatch body instanceId host w) := by
  obtain ⟨request, rfl, above, below, positive, same, zero⟩ := probes
  let p : Process := ⟨0, request.pid.toNat, request.ticks, by
    have bound := UInt32.le_iff_toNat_le.mp below
    exact Nat.lt_of_le_of_lt bound (by decide)⟩
  refine ⟨aloneHost p, undisturbed, fun meant => ?_⟩
  have outcome : querySignalDispatch (signalBody request) instanceId (aloneHost p) undisturbed =
      ⟨aloneHost p, 0, none⟩ := by
    have delivered := deliver_undisturbed p 0
    unfold querySignalDispatch
    rw [read_signal_body]
    simp only
    rw [if_neg, if_neg (not_not.mpr same), zero]
    · exact delivered
    · simp only [not_or, UInt32.not_le, UInt32.not_lt]
      exact ⟨by simp, above, below, by rw [zero]; decide, positive⟩
  rw [outcome] at meant
  exact meant.2 rfl rfl

-- The service sends what was meant exactly for the requests that do not probe with signal 0;
-- the local path always does.
theorem signals_reach_meant_process (body : Bytes) (instanceId : UInt64) :
    ((∀ host w, RequestMeant body instanceId (querySignalDispatch body instanceId host w)) ↔ ¬ Probes body instanceId) ∧
    ∀ target signo host w, LocalMeant target signo (querySignalPath target signo host w) := by
  refine ⟨⟨fun always probes => ?_, dispatch_meant body instanceId⟩, path_meant⟩
  obtain ⟨host, w, wrong⟩ := dispatch_probe body instanceId probes
  exact wrong (always host w)

theorem probe_reports_success :
    (querySignalDispatch (signalBody ⟨100, 0, 7, 5⟩) 5 (aloneHost ⟨0, 100, 7, by decide⟩) undisturbed).sent = none ∧
    (querySignalDispatch (signalBody ⟨100, 0, 7, 5⟩) 5 (aloneHost ⟨0, 100, 7, by decide⟩) undisturbed).error = 0 := by
  decide +kernel

end

end Evemon.Signal
