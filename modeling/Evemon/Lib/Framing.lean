import Mathlib.Data.List.Forall2

-- One end of a connection that carries messages over a byte stream: a sender that holds
-- one message at a time, and requests that are answered one after the other.
namespace Framing

open List

section

variable {β : Type}

inductive Sending : List (List β) → Bool → List β → Nat → List β → Prop where
  | idle (frames : List (List β)) (current : List β) (sent : Nat) : Sending frames false current sent frames.flatten
  | busy (done : List (List β)) (current : List β) (sent : Nat) (left : sent < current.length) :
      Sending (done ++ [current]) true current sent (done.flatten ++ current.take sent)

variable {frames : List (List β)} {current wire : List β} {sent : Nat}

theorem sending_prefix {busy} (sending : Sending frames busy current sent wire) : wire <+: frames.flatten := by
  cases sending with
  | idle frames current sent => exact prefix_rfl
  | busy done current sent left =>
    simp only [flatten_append, flatten_singleton, prefix_append_right_inj]
    exact take_prefix sent _

theorem sending_left (sending : Sending frames true current sent wire) : sent < current.length := by
  cases sending with
  | busy done current sent left => exact left

theorem sending_start (sending : Sending frames false current sent wire) {next : List β} (some : 0 < next.length) :
    Sending (frames ++ [next]) true next 0 wire := by
  cases sending with
  | idle frames current sent =>
    have started := Sending.busy frames next 0 some
    rwa [take_zero, append_nil] at started

theorem take_advance (items : List β) (sent count : Nat) :
    items.take sent ++ (items.drop sent).take count = items.take (sent + count) := by
  rw [take_add]

theorem sending_advance (sending : Sending frames true current sent wire) (count : Nat)
    (left : sent + count < current.length) :
    Sending frames true current (sent + count) (wire ++ (current.drop sent).take count) := by
  cases sending with
  | busy done current sent _ =>
    rw [append_assoc, take_advance]
    exact .busy done current (sent + count) left

theorem sending_finish (sending : Sending frames true current sent wire) {count : Nat}
    (all : sent + count = current.length) (next : List β) (start : Nat) :
    Sending frames false next start (wire ++ (current.drop sent).take count) := by
  cases sending with
  | busy done current sent _ =>
    have whole := Sending.idle (done ++ [current]) next start
    rw [append_assoc, take_advance, all, take_length]
    simpa using whole

end

section

variable {α β : Type} {answers : α → β → Prop}

def Paired (answers : α → β → Prop) (requests : List α) (pending : Option α) (replies : List β) : Prop :=
  ∃ done, requests = done ++ pending.toList ∧ List.Forall₂ answers done replies

variable {requests : List α} {replies : List β}

theorem paired_receive (paired : Paired answers requests none replies) (request : α) :
    Paired answers (requests ++ [request]) (some request) replies := by
  obtain ⟨done, rfl, matched⟩ := paired
  exact ⟨done, by simp, matched⟩

theorem paired_answer {request} (paired : Paired answers requests (some request) replies) (reply : β)
    (answer : answers request reply) : Paired answers requests none (replies ++ [reply]) := by
  obtain ⟨done, rfl, matched⟩ := paired
  exact ⟨done ++ [request], by simp, rel_append matched (.cons answer .nil)⟩

theorem zip_longer {done : List α} (size : done.length = replies.length) (request : α) :
    (done ++ [request]).zip replies = done.zip replies := by
  have cut : (done ++ [request]).zip (replies ++ []) = done.zip replies ++ [request].zip [] := zip_append size
  simpa using cut

theorem exchanges_answer {request} (paired : Paired answers requests (some request) replies) (reply : β) :
    requests.zip (replies ++ [reply]) = requests.zip replies ++ [(request, reply)] := by
  obtain ⟨done, rfl, matched⟩ := paired
  rw [Option.toList_some, zip_append matched.length_eq, zip_longer matched.length_eq]
  rfl

theorem exchanges_receive (paired : Paired answers requests none replies) (request : α) :
    (requests ++ [request]).zip replies = requests.zip replies := by
  obtain ⟨done, rfl, matched⟩ := paired
  rw [Option.toList_none, append_nil, zip_longer matched.length_eq]

end

section

variable {α : Type} {needs opens : α → Prop}

def Preceded (needs opens : α → Prop) (items : List α) : Prop :=
  ∀ earlier item later, items = earlier ++ item :: later → needs item → ∃ other ∈ earlier, opens other

theorem preceded_nil : Preceded needs opens [] := by
  intro earlier item later same
  simp at same

variable {items : List α}

theorem preceded_mono {wider : α → Prop} (preceded : Preceded needs opens items)
    (implied : ∀ item, opens item → wider item) : Preceded needs wider items := by
  intro earlier item later same needed
  obtain ⟨other, mem, opened⟩ := preceded earlier item later same needed
  exact ⟨other, mem, implied other opened⟩

theorem preceded_append (preceded : Preceded needs opens items) {item}
    (opened : needs item → ∃ other ∈ items, opens other) : Preceded needs opens (items ++ [item]) := by
  intro earlier found later same needed
  rcases eq_nil_or_concat later with rfl | ⟨rest, last, rfl⟩
  · obtain ⟨rfl, one⟩ := append_inj' same rfl
    obtain rfl : item = found := by simpa using one
    exact opened needed
  · have shape : earlier ++ found :: (rest ++ [last]) = (earlier ++ found :: rest) ++ [last] := by simp
    rw [concat_eq_append, shape] at same
    exact preceded earlier found rest (append_inj_left' same rfl) needed

end

end Framing
