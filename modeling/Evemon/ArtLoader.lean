import Mathlib.Algebra.Group.Nat.Defs
import Mathlib.Data.List.Count

-- Album art: a request goes through asynchronous operations to one call of the caller's callback.
namespace Evemon.Art

open List Nat

abbrev Text := List UInt8

def artMaxBytes : Nat := 16 * 1024 * 1024

def artReadChunk : Nat := 64 * 1024

def ascii (text : String) : Text := text.toList.map fun char => char.toNat.toUInt8

structure Stat where
  regular : Bool
  size : Int
  uid : UInt32
  mode : UInt32

def trusted (session : UInt32) (st : Option Stat) : Bool :=
  st.any fun st => st.regular && decide (0 < st.size) && decide (st.size ≤ (artMaxBytes : Int)) &&
    (st.uid == session || st.uid == 0 && st.mode &&& 0o22 == 0)

def search (pattern : Text) : Text → Option Nat
  | [] => if pattern.isEmpty then some 0 else none
  | byte :: rest => if pattern.isPrefixOf (byte :: rest) then some 0 else (search pattern rest).map (· + 1)

-- `decode` is the length of what g_base64_decode makes, and `image` whether it is an image.
def decodeDataUri (url : Text) (decode : Text → Nat) (image : Bool) : Bool :=
  match url.idxOf? 44, search (ascii ";base64") (url.drop 5) with
  | some comma, some marker =>
    let encoded := url.drop (comma + 1)
    if marker + 5 > comma then false
    else if encoded.length > artMaxBytes * 4 / 3 + 4 then false
    else if decode encoded = 0 ∨ decode encoded > artMaxBytes then false
    else image
  | _, _ => false

-- What is done with the request context, and the calls of the callback.
inductive Effect where
  | allocate
  | touch
  | call (image : Bool)
  | release
deriving DecidableEq

inductive Stage where
  | sending
  | opening
  | reading
  | decoding
  | finished
deriving DecidableEq

-- `held` are the bytes read so far.
structure Load where
  stage : Stage
  trace : List Effect
  held : Nat := 0

def Load.touched (l : Load) (stage : Stage) : Load := { l with stage, trace := l.trace ++ [.touch] }

def Load.finish (l : Load) (image : Bool) : Load := ⟨.finished, l.trace ++ [.touch, .call image, .release], 0⟩

def artLoadFailed (l : Load) : Load := l.finish false

-- What an operation may hand to its callback; each stage reads the parts that it asks for.
structure Completion where
  ok : Bool
  status : Nat := 200
  array : Bool := true
  info : Option Stat := none
  length : Nat := 0
  asked : length ≤ artReadChunk := by decide

def artStartBoundedRead (l : Load) (c : Completion) : Load :=
  if c.array then { l.touched .reading with held := 0 } else artLoadFailed l

def onSoupSendReady (l : Load) (c : Completion) : Load :=
  if !c.ok then l.finish false
  else if c.status < 200 ∨ c.status ≥ 300 then artLoadFailed l
  else artStartBoundedRead l c

def onFileReadReady (session : UInt32) (l : Load) (c : Completion) : Load :=
  if !c.ok then l.finish false
  else if !trusted session c.info then artLoadFailed l
  else artStartBoundedRead l c

-- The room is computed in guint.
def onStreamReadReady (l : Load) (c : Completion) : Load :=
  if !c.ok then artLoadFailed l
  else if c.length = 0 then if l.held = 0 then artLoadFailed l else l.touched .decoding
  else if c.length > (artMaxBytes + 2 ^ 32 - l.held) % 2 ^ 32 then artLoadFailed l
  else { l.touched .reading with held := l.held + c.length }

def onPixbufReady (l : Load) (c : Completion) : Load := l.finish c.ok

def complete (session : UInt32) (l : Load) (c : Completion) : Load :=
  match l.stage with
  | .sending => onSoupSendReady l c
  | .opening => onFileReadReady session l c
  | .reading => onStreamReadReady l c
  | .decoding => onPixbufReady l c
  | .finished => l

structure Request where
  url : Option Text
  callback : Bool
  allocated : Bool
  message : Bool
  file : Option Stat
  decode : Text → Nat
  image : Bool

def Request.called (r : Request) (image : Bool) : List Effect := if r.callback then [.call image] else []

def artLoadAsync (session : UInt32) (r : Request) : Load :=
  match r.url with
  | none => ⟨.finished, r.called false, 0⟩
  | some url =>
    if url.isEmpty || !r.callback then ⟨.finished, r.called false, 0⟩
    else if (ascii "data:").isPrefixOf url then ⟨.finished, r.called (decodeDataUri url r.decode r.image), 0⟩
    else if !r.allocated then ⟨.finished, r.called false, 0⟩
    else
      let l : Load := ⟨.finished, [.allocate, .touch], 0⟩
      if (ascii "http://").isPrefixOf url || (ascii "https://").isPrefixOf url then
        if !r.message then l.finish false else l.touched .sending
      else if !(ascii "file://").isPrefixOf url then l.finish false
      else if !trusted session r.file then l.finish false
      else l.touched .opening

def Effect.isCall : Effect → Bool
  | .call _ => true
  | _ => false

inductive Sound (callback : Bool) : Load → Prop where
  | pending (stage : Stage) (touches held : Nat) (waiting : stage ≠ .finished) (given : callback = true)
      (bounded : held ≤ artMaxBytes) : Sound callback ⟨stage, .allocate :: List.replicate touches .touch, held⟩
  | done (touches : Nat) (image : Bool) (given : callback = true) :
      Sound callback ⟨.finished, .allocate :: List.replicate touches .touch ++ [.call image, .release], 0⟩
  | direct (image : Bool) (given : callback = true) : Sound callback ⟨.finished, [.call image], 0⟩
  | ignored (absent : callback = false) : Sound callback ⟨.finished, [], 0⟩

theorem touched_sound (stage next : Stage) (touches held : Nat) (waiting : next ≠ .finished)
    (bounded : held ≤ artMaxBytes) :
    Sound true ((⟨stage, .allocate :: List.replicate touches .touch, held⟩ : Load).touched next) := by
  have sound : Sound true _ := .pending next (touches + 1) held waiting rfl bounded
  rw [replicate_succ'] at sound
  exact sound

theorem finish_sound (stage : Stage) (touches held : Nat) (image : Bool) :
    Sound true ((⟨stage, .allocate :: List.replicate touches .touch, held⟩ : Load).finish image) := by
  have sound : Sound true _ := .done (touches + 1) image rfl
  rw [replicate_succ', cons_append, append_assoc] at sound
  exact sound

def Load.remaining (l : Load) : Nat :=
  match l.stage with
  | .finished => 0
  | .decoding => 1
  | .reading => artMaxBytes - l.held + 2
  | .sending => artMaxBytes + 3
  | .opening => artMaxBytes + 3

section

variable (stage : Stage) (touches held : Nat) (c : Completion)

def pendingLoad : Load := ⟨stage, .allocate :: List.replicate touches .touch, held⟩

theorem bounded_read_sound : Sound true (artStartBoundedRead (pendingLoad stage touches held) c) ∧
    (artStartBoundedRead (pendingLoad stage touches held) c).remaining < artMaxBytes + 3 := by
  unfold artStartBoundedRead
  split
  · exact ⟨touched_sound stage .reading touches 0 (by decide) (zero_le _), lt_succ_self _⟩
  · exact ⟨finish_sound stage touches held false, succ_pos _⟩

theorem stream_read_sound (bounded : held ≤ artMaxBytes) :
    Sound true (onStreamReadReady (pendingLoad .reading touches held) c) ∧
    (onStreamReadReady (pendingLoad .reading touches held) c).remaining < (pendingLoad .reading touches held).remaining := by
  have failed : Sound true ((pendingLoad .reading touches held).finish false) := finish_sound .reading touches held false
  have room : (artMaxBytes + 2 ^ 32 - held) % 2 ^ 32 = artMaxBytes - held := by
    rw [artMaxBytes] at bounded ⊢
    omega
  unfold onStreamReadReady
  split
  · exact ⟨failed, succ_pos _⟩
  split
  · split
    · exact ⟨failed, succ_pos _⟩
    · refine ⟨touched_sound .reading .decoding touches held (by decide) bounded, ?_⟩
      change 1 < artMaxBytes - held + 2
      omega
  split
  · exact ⟨failed, succ_pos _⟩
  · rename_i some fits
    have fits : c.length ≤ artMaxBytes - held := by
      change ¬ c.length > (artMaxBytes + 2 ^ 32 - held) % 2 ^ 32 at fits
      omega
    refine ⟨touched_sound .reading .reading touches (held + c.length) (by decide) (by omega), ?_⟩
    change artMaxBytes - (held + c.length) + 2 < artMaxBytes - held + 2
    omega

theorem complete_pending (session : UInt32) (waiting : stage ≠ .finished) (bounded : held ≤ artMaxBytes) :
    Sound true (complete session (pendingLoad stage touches held) c) ∧
    (complete session (pendingLoad stage touches held) c).remaining < (pendingLoad stage touches held).remaining := by
  have failed : ∀ image, Sound true ((pendingLoad stage touches held).finish image) := finish_sound stage touches held
  have started := bounded_read_sound stage touches held c
  cases stage with
  | finished => exact absurd rfl waiting
  | decoding => exact ⟨failed c.ok, Nat.one_pos⟩
  | reading => exact stream_read_sound touches held c bounded
  | sending =>
    change Sound true (onSoupSendReady _ c) ∧ (onSoupSendReady _ c).remaining < artMaxBytes + 3
    unfold onSoupSendReady
    split
    · exact ⟨failed false, Nat.succ_pos _⟩
    split
    · exact ⟨failed false, Nat.succ_pos _⟩
    · exact started
  | opening =>
    change Sound true (onFileReadReady session _ c) ∧ (onFileReadReady session _ c).remaining < artMaxBytes + 3
    unfold onFileReadReady
    split
    · exact ⟨failed false, Nat.succ_pos _⟩
    split
    · exact ⟨failed false, Nat.succ_pos _⟩
    · exact started

end

variable (session : UInt32) (callback : Bool)

theorem complete_sound (l : Load) (sound : Sound callback l) (c : Completion) :
    Sound callback (complete session l c) ∧ (complete session l c).remaining ≤ l.remaining - 1 := by
  cases sound with
  | pending stage touches held waiting given bounded =>
    subst given
    obtain ⟨next, less⟩ := complete_pending stage touches held c session waiting bounded
    exact ⟨next, le_pred_of_lt less⟩
  | done touches image given => exact ⟨.done touches image given, zero_le _⟩
  | direct image given => exact ⟨.direct image given, zero_le _⟩
  | ignored absent => exact ⟨.ignored absent, zero_le _⟩

theorem completions_sound (completions : List Completion) {l} (sound : Sound callback l) :
    Sound callback (completions.foldl (complete session) l) ∧
    (completions.foldl (complete session) l).remaining ≤ l.remaining - completions.length := by
  induction completions generalizing l with
  | nil => exact ⟨sound, Nat.le_refl _⟩
  | cons c rest ih =>
    obtain ⟨first, less⟩ := complete_sound session callback l sound c
    obtain ⟨later, left⟩ := ih first
    refine ⟨later, ?_⟩
    rw [length_cons, foldl_cons]
    omega

theorem load_async_sound (r : Request) :
    Sound r.callback (artLoadAsync session r) ∧ (artLoadAsync session r).remaining ≤ artMaxBytes + 3 := by
  have direct : ∀ image, Sound r.callback ⟨.finished, r.called image, 0⟩ := by
    intro image
    unfold Request.called
    split
    · rename_i given
      exact .direct image given
    · rename_i absent
      exact .ignored (Bool.not_eq_true _ ▸ absent)
  unfold artLoadAsync
  split
  · exact ⟨direct false, Nat.zero_le _⟩
  split
  · exact ⟨direct false, Nat.zero_le _⟩
  rename_i url asked usable
  have given : r.callback := by
    cases callback : r.callback with
    | true => rfl
    | false => simp [callback] at usable
  have failed : ∀ image, Sound r.callback ((pendingLoad .finished 1 0).finish image) := by
    rw [given]
    exact finish_sound .finished 1 0
  have begun : ∀ stage, stage ≠ .finished → Sound r.callback ((pendingLoad .finished 1 0).touched stage) := by
    intro stage waiting
    rw [given]
    exact touched_sound .finished stage 1 0 waiting (Nat.zero_le _)
  split
  · exact ⟨direct _, Nat.zero_le _⟩
  split
  · exact ⟨direct false, Nat.zero_le _⟩
  dsimp only
  split
  · split
    · exact ⟨failed false, Nat.zero_le _⟩
    · exact ⟨begun .sending (by decide), Nat.le_refl _⟩
  split
  · exact ⟨failed false, Nat.zero_le _⟩
  split
  · exact ⟨failed false, Nat.zero_le _⟩
  · exact ⟨begun .opening (by decide), Nat.le_refl _⟩

-- A request with a callback is answered by one call, and its context freed by the last effect.
structure Settled (callback : Bool) (l : Load) : Prop where
  bounded : l.held ≤ artMaxBytes
  -- The chunk in hand is not freed before its bytes are appended.
  peak (c : Completion) : l.held + c.length ≤ artMaxBytes + artReadChunk
  calls : l.trace.countP Effect.isCall = if l.stage = .finished ∧ callback = true then 1 else 0
  frees : l.trace.count .release = if l.stage = .finished then l.trace.count .allocate else 0
  once : l.trace.count .allocate ≤ 1
  last : .release ∉ l.trace.dropLast

theorem sound_settled {callback} {l} (sound : Sound callback l) : Settled callback l := by
  have peak (held : Nat) (bounded : held ≤ artMaxBytes) (c : Completion) : held + c.length ≤ artMaxBytes + artReadChunk :=
    Nat.add_le_add bounded c.asked
  cases sound with
  | pending stage touches held waiting given bounded =>
    exact ⟨bounded, peak held bounded, by simp [waiting, Effect.isCall, countP_replicate],
      by simp [waiting, count_replicate], by simp [count_replicate], fun mem => by simpa using dropLast_subset _ mem⟩
  | done touches image given =>
    have trace : (Effect.allocate :: List.replicate touches .touch ++ [Effect.call image, .release]).dropLast =
        .allocate :: List.replicate touches .touch ++ [.call image] := by
      rw [dropLast_append_of_ne_nil (by simp)]
      rfl
    exact ⟨zero_le _, peak 0 (zero_le _), by simp [given, Effect.isCall, countP_replicate, countP_cons],
      by simp [count_replicate], by simp [count_replicate], by rw [trace]; simp⟩
  | direct image given => exact ⟨zero_le _, peak 0 (zero_le _), by simp [given, Effect.isCall], by simp, by simp, by simp⟩
  | ignored absent => exact ⟨zero_le _, peak 0 (zero_le _), by simp [absent], by simp, by simp, by simp⟩

theorem art_request_completes (session : UInt32) (r : Request) (completions : List Completion) :
    Settled r.callback (completions.foldl (complete session) (artLoadAsync session r)) ∧
    (artMaxBytes + 3 ≤ completions.length →
    (completions.foldl (complete session) (artLoadAsync session r)).stage = .finished) := by
  obtain ⟨started, most⟩ := load_async_sound session r
  obtain ⟨sound, left⟩ := completions_sound session r.callback completions started
  refine ⟨sound_settled sound, fun enough => ?_⟩
  have none : (completions.foldl (complete session) (artLoadAsync session r)).remaining = 0 := by omega
  revert none
  unfold Load.remaining
  split <;> simp_all

end Evemon.Art
