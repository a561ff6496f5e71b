import Mathlib.Data.List.Basic

-- A program over a state. A development states a fact about each primitive once and obtains it for
-- the composed programs from the rules for bind.
structure Prog (σ α : Type) where
  run : σ → α × σ

namespace Prog

open List

variable {σ α β : Type}

instance : Monad (Prog σ) where
  pure value := ⟨fun state => (value, state)⟩
  bind first next := ⟨fun state => (next (first.run state).1).run (first.run state).2⟩

variable {second : Prog σ α}

theorem eq_of_run {first : Prog σ α} (same : ∀ state, first.run state = second.run state) : first = second := by
  cases first with
  | mk first =>
    cases second with
    | mk second => exact congrArg Prog.mk (funext same)

@[simp] theorem run_pure (value : α) (state : σ) : (pure value : Prog σ α).run state = (value, state) := rfl

@[simp] theorem run_bind (first : Prog σ α) (next : α → Prog σ β) (state : σ) :
    (first >>= next).run state = (next (first.run state).1).run (first.run state).2 := rfl

@[simp] theorem run_ite (condition : Prop) [Decidable condition] (first second : Prog σ α) (state : σ) :
    (if condition then first else second).run state = if condition then first.run state else second.run state := by
  split <;> rfl

@[simp] theorem run_dite (condition : Prop) [Decidable condition] (first : condition → Prog σ α)
    (second : ¬ condition → Prog σ α) (state : σ) : (if taken : condition then first taken else second taken).run state =
    if taken : condition then (first taken).run state else (second taken).run state := by
  split <;> rfl

def modify (change : σ → σ) : Prog σ Unit := ⟨fun state => ((), change state)⟩

def inspect (read : σ → α) : Prog σ α := ⟨fun state => (read state, state)⟩

@[simp] theorem run_modify (change : σ → σ) (state : σ) : (modify change).run state = ((), change state) := rfl

@[simp] theorem run_inspect (read : σ → α) (state : σ) : (inspect read).run state = (read state, state) := rfl

@[simp ↓] theorem run_inspect_bind (read : σ → α) (next : α → Prog σ β) (state : σ) :
    (inspect read >>= next).run state = (next (read state)).run state := rfl

section

variable {inv : σ → Prop}

def Keeps (inv : σ → Prop) (prog : Prog σ α) : Prop := ∀ state, inv state → inv (prog.run state).2

theorem keeps_pure (value : α) : Keeps inv (pure value : Prog σ α) := fun _ holds => holds

theorem keeps_bind {first} {next : α → Prog σ β} (head : Keeps inv first)
    (tail : ∀ value, Keeps inv (next value)) : Keeps inv (first >>= next) :=
  fun state holds => tail (first.run state).1 _ (head state holds)

theorem keeps_inspect {read : σ → α} : Keeps inv (inspect read) := fun _ holds => holds

variable {body : α → Prog σ PUnit}

theorem keeps_for_m_mem {inv : σ → Prop} (items : List α) (each : ∀ item ∈ items, Keeps inv (body item)) :
    Keeps inv (items.forM body) := by
  induction items with
  | nil => exact keeps_pure _
  | cons item rest ih =>
    exact keeps_bind (each item mem_cons_self) fun _ => ih fun other mem => each other (mem_cons_of_mem _ mem)

theorem keeps_for_m {inv : σ → Prop} (each : ∀ item, Keeps inv (body item)) (items : List α) :
    Keeps inv (items.forM body) :=
  keeps_for_m_mem items fun item _ => each item

theorem keeps_map_m {body : α → Prog σ β} (each : ∀ item, Keeps inv (body item)) (items : List α) :
    Keeps inv (items.mapM' body) := by
  induction items with
  | nil => exact keeps_pure []
  | cons item rest ih =>
    rw [List.mapM'_cons]
    exact keeps_bind (each item) fun _ => keeps_bind ih fun _ => keeps_pure _

theorem map_m_results {γ : Type} {body : α → Prog σ β} {view : β → γ} {image : α → γ}
    (each : ∀ item state, view ((body item).run state).1 = image item) (items : List α) (state : σ) :
    ((items.mapM' body).run state).1.map view = items.map image := by
  induction items generalizing state with
  | nil => rfl
  | cons item rest ih =>
    rw [List.mapM'_cons, map_cons, ← each item state, ← ih ((body item).run state).2]
    rfl

variable {condition : Prop}

theorem keeps_ite [Decidable condition] {first} (whenTrue : Keeps inv first) (whenFalse : Keeps inv second) :
    Keeps inv (if condition then first else second) := by
  by_cases taken : condition
  · simpa only [if_pos taken] using whenTrue
  · simpa only [if_neg taken] using whenFalse

theorem keeps_dite [Decidable condition] {first : condition → Prog σ α} {second : ¬ condition → Prog σ α}
    (whenTrue : ∀ taken, Keeps inv (first taken)) (whenFalse : ∀ refused, Keeps inv (second refused)) :
    Keeps inv (if taken : condition then first taken else second taken) := by
  by_cases taken : condition
  · simpa only [dif_pos taken] using whenTrue taken
  · simpa only [dif_neg taken] using whenFalse taken

end

section

-- `rest state input`: reading is still healthy in `state`, and `input` is what has not been read
-- yet.
variable {ι : Type} {rest : σ → List ι → Prop}

def Consumes (rest : σ → List ι → Prop) (prog : Prog σ α) (input : List ι) (post : α → Prop) : Prop :=
  ∀ state later, rest state (input ++ later) → post (prog.run state).1 ∧ rest (prog.run state).2 later

theorem consumes_pure {post : α → Prop} (value : α) (holds : post value) : Consumes rest (pure value : Prog σ α) [] post :=
  fun _ _ available => ⟨holds, available⟩

variable {first : Prog σ α} {next : α → Prog σ β} {post : β → Prop} {middle : α → Prop}

theorem consumes_bind {head tail} (atFirst : Consumes rest first head middle)
    (atNext : ∀ value, middle value → Consumes rest (next value) tail post) :
    Consumes rest (first >>= next) (head ++ tail) post := by
  intro state later available
  rw [append_assoc] at available
  obtain ⟨reached, remaining⟩ := atFirst state (tail ++ later) available
  exact atNext _ reached _ later remaining

theorem consumes_last {result : α → β} {input} (atFirst : Consumes rest first input middle)
    (holds : ∀ value, middle value → post (result value)) :
    Consumes rest (first >>= fun value => pure (result value)) input post := by
  rw [← append_nil input]
  exact consumes_bind atFirst fun value reached => consumes_pure _ (holds value reached)

variable {value : α}

theorem consumes_value {head tail} (atFirst : Consumes rest first head (· = value))
    (atNext : Consumes rest (next value) tail post) : Consumes rest (first >>= next) (head ++ tail) post :=
  consumes_bind atFirst fun _ same => same ▸ atNext

variable {read : σ → α}

theorem consumes_inspect {next : α → Prog σ β} {input : List ι}
    (seen : ∀ state later, rest state (input ++ later) → middle (read state))
    (atNext : ∀ value, middle value → Consumes rest (next value) input post) :
    Consumes rest (inspect read >>= next) input post :=
  fun state later available => atNext _ (seen state later available) state later available

theorem consumes_skip {input} (atFirst : Consumes rest first [] (· = value))
    (atNext : Consumes rest (next value) input post) : Consumes rest (first >>= next) input post :=
  consumes_value atFirst atNext

variable {failed : σ → Prop}

def Refuses (rest : σ → List ι → Prop) (failed : σ → Prop) (prog : Prog σ α) (input : List ι) : Prop :=
  ∀ state later, rest state (input ++ later) → failed (prog.run state).2

variable {first : Prog σ α} {next : α → Prog σ β} {head tail : List ι}

theorem refuses_bind (atFirst : Consumes rest first head middle)
    (atNext : ∀ value, middle value → Refuses rest failed (next value) tail) :
    Refuses rest failed (first >>= next) (head ++ tail) := by
  intro state later available
  rw [append_assoc] at available
  obtain ⟨reached, remaining⟩ := atFirst state (tail ++ later) available
  exact atNext _ reached _ later remaining

theorem refuses_value (atFirst : Consumes rest first head (· = value)) (atNext : Refuses rest failed (next value) tail) :
    Refuses rest failed (first >>= next) (head ++ tail) :=
  refuses_bind atFirst fun _ same => same ▸ atNext

theorem refuses_inspect {next : α → Prog σ β} {input : List ι}
    (seen : ∀ state later, rest state (input ++ later) → middle (read state))
    (atNext : ∀ value, middle value → Refuses rest failed (next value) input) :
    Refuses rest failed (inspect read >>= next) input :=
  fun state later available => atNext _ (seen state later available) state later available

theorem refuses_skip {input} (atFirst : Consumes rest first [] (· = value))
    (atNext : Refuses rest failed (next value) input) : Refuses rest failed (first >>= next) input :=
  refuses_value atFirst atNext

theorem refuses_first (atFirst : Refuses rest failed first head) (sticky : ∀ value, Keeps failed (next value)) :
    Refuses rest failed (first >>= next) (head ++ tail) := by
  intro state later available
  rw [append_assoc] at available
  exact sticky _ _ (atFirst state (tail ++ later) available)

end

section

-- `output state items`: writing is still healthy in `state`, and `items` is what has been written.
-- A program may give up instead, and then for good.
variable {ι : Type} {failed : σ → Prop} {output : σ → List ι → Prop}

structure Emits (failed : σ → Prop) (output : σ → List ι → Prop) (prog : Prog σ α) (items : List ι) : Prop where
  sticky : ∀ state, failed state → failed (prog.run state).2
  writes : ∀ state before, output state before →
    failed (prog.run state).2 ∨ output (prog.run state).2 (before ++ items)

theorem emits_pure {value} : Emits failed output (pure value : Prog σ α) [] where
  sticky _ lost := lost
  writes _ before holds := .inr (by simpa only [run_pure, append_nil] using holds)

theorem emits_bind {first : Prog σ α} {next : Prog σ β} {head tail : List ι} (atFirst : Emits failed output first head)
    (atNext : Emits failed output next tail) : Emits failed output (first >>= fun _ => next) (head ++ tail) where
  sticky state lost := atNext.sticky _ (atFirst.sticky state lost)
  writes state before holds := by
    rcases atFirst.writes state before holds with lost | middle
    · exact .inl (atNext.sticky _ lost)
    · simpa only [run_bind, append_assoc] using atNext.writes _ _ middle

theorem emits_for_m {β : Type} {body : β → Prog σ PUnit} {bytes : β → List ι}
    (each : ∀ item, Emits failed output (body item) (bytes item)) (items : List β) :
    Emits failed output (items.forM body) (items.flatMap bytes) := by
  induction items with
  | nil => exact emits_pure
  | cons item rest ih => exact emits_bind (each item) ih

def Fills (room : List ι → Prop) (output : σ → List ι → Prop) (prog : Prog σ α) (items : List ι) : Prop :=
  ∀ state before, output state before → room (before ++ items) → output (prog.run state).2 (before ++ items)

variable {room : List ι → Prop}

theorem fills_pure {value} : Fills room output (pure value : Prog σ α) [] := by
  intro state before holds _
  rw [append_nil]
  exact holds

theorem fills_bind (shorter : ∀ front back, room (front ++ back) → room front) {first} {next : α → Prog σ β}
    {head tail} (atFirst : Fills room output first head)
    (atNext : ∀ value, Fills room output (next value) tail) : Fills room output (first >>= next) (head ++ tail) := by
  intro state before holds fits
  rw [← append_assoc] at fits ⊢
  exact atNext _ _ _ (atFirst state before holds (shorter _ _ fits)) fits

end

section

-- A reader that may refuse its input, and then for good. `left state input`: reading is healthy in
-- `state` and `input` is not read yet. Where `ready` holds the reader gets through exactly if
-- `valid` holds. `known` is what is known of the values read before.
variable {ι : Type} {failed : σ → Prop} {left : σ → List ι → Prop} {ready known : Prop}

structure Parses (failed : σ → Prop) (left : σ → List ι → Prop) (ready known : Prop) (prog : Prog σ α)
    (input : List ι) (valid : Prop) (post : α → Prop) : Prop where
  sticky : Keeps failed prog
  sound : known → ∀ state later, left state (input ++ later) →
    failed (prog.run state).2 ∨ (valid ∧ post (prog.run state).1 ∧ left (prog.run state).2 later)
  complete : known → ready → valid → ∀ state later, left state (input ++ later) →
    post (prog.run state).1 ∧ left (prog.run state).2 later

theorem parses_pure {post : α → Prop} (value : α) (holds : known → post value) :
    Parses failed left ready known (pure value : Prog σ α) [] True post where
  sticky := keeps_pure value
  sound reached _ _ available := .inr ⟨trivial, holds reached, available⟩
  complete reached _ _ _ _ available := ⟨holds reached, available⟩

variable {first : Prog σ α} {next : α → Prog σ β} {head tail : List ι} {prog : Prog σ α} {input : List ι}
  {valid : Prop}

theorem parses_bind {atHead atTail : Prop}
    {middle : α → Prop} {post : β → Prop} (atFirst : Parses failed left ready known first head atHead middle)
    (atNext : ∀ value, Parses failed left ready (known ∧ middle value) (next value) tail atTail post) :
    Parses failed left ready known (first >>= next) (head ++ tail) (atHead ∧ atTail) post where
  sticky := keeps_bind atFirst.sticky fun value => (atNext value).sticky
  sound reached state later available := by
    rw [append_assoc] at available
    rcases atFirst.sound reached state (tail ++ later) available with lost | ⟨valid, holds, remaining⟩
    · exact .inl ((atNext _).sticky _ lost)
    · rcases (atNext _).sound ⟨reached, holds⟩ _ later remaining with lost | ⟨further, result, rest⟩
      · exact .inl lost
      · exact .inr ⟨⟨valid, further⟩, result, rest⟩
  complete reached prepared valid state later available := by
    rw [append_assoc] at available
    obtain ⟨holds, remaining⟩ := atFirst.complete reached prepared valid.1 state (tail ++ later) available
    exact (atNext _).complete ⟨reached, holds⟩ prepared valid.2 _ later remaining

theorem parses_last {result : α → β} {input} {valid : Prop} {middle : α → Prop}
    {post : β → Prop} (atFirst : Parses failed left ready known first input valid middle)
    (holds : known → ∀ value, middle value → post (result value)) :
    Parses failed left ready known (first >>= fun value => pure (result value)) input valid post where
  sticky := keeps_bind atFirst.sticky fun _ => keeps_pure _
  sound reached state later available := by
    rcases atFirst.sound reached state later available with lost | ⟨accepted, middle, rest⟩
    · exact .inl lost
    · exact .inr ⟨accepted, holds reached _ middle, rest⟩
  complete reached prepared accepted state later available := by
    obtain ⟨middle, rest⟩ := atFirst.complete reached prepared accepted state later available
    exact ⟨holds reached _ middle, rest⟩

theorem Parses.valid_iff {valid other : Prop} {post : α → Prop}
    (parses : Parses failed left ready known prog input valid post) (same : known → (valid ↔ other)) :
    Parses failed left ready known prog input other post where
  sticky := parses.sticky
  sound reached state later available := by
    rcases parses.sound reached state later available with lost | ⟨accepted, holds, rest⟩
    · exact .inl lost
    · exact .inr ⟨(same reached).mp accepted, holds, rest⟩
  complete reached prepared accepted := parses.complete reached prepared ((same reached).mpr accepted)

theorem Parses.under {more valid : Prop} {post : α → Prop}
    (parses : Parses failed left ready known prog input valid post) (implied : more → known) :
    Parses failed left ready more prog input valid post where
  sticky := parses.sticky
  sound reached := parses.sound (implied reached)
  complete reached := parses.complete (implied reached)

theorem parses_of_known {post : α → Prop}
    (sticky : Keeps failed prog) (parses : known → Parses failed left ready known prog input valid post) :
    Parses failed left ready known prog input valid post where
  sticky := sticky
  sound reached := (parses reached).sound reached
  complete reached := (parses reached).complete reached

theorem parses_step {middle : α → Prop} {post : β → Prop} (atFirst : Parses failed left ready known first head True middle)
    (atNext : ∀ value, Parses failed left ready (known ∧ middle value) (next value) tail valid post) :
    Parses failed left ready known (first >>= next) (head ++ tail) valid post :=
  (parses_bind atFirst atNext).valid_iff fun _ => by rw [true_and]

theorem parses_guard {middle : α → Prop}
    {post : β → Prop} (atFirst : Parses failed left ready known first head valid middle)
    (atNext : ∀ value, Parses failed left ready (known ∧ middle value) (next value) tail True post) :
    Parses failed left ready known (first >>= next) (head ++ tail) valid post :=
  (parses_bind atFirst atNext).valid_iff fun _ => by rw [and_true]

theorem parses_inspect {read : σ → α} {next : α → Prog σ β} {input : List ι} {valid : Prop} {post : β → Prop}
    (middle : α → Prop) (seen : known → ∀ state later, left state (input ++ later) → middle (read state))
    (atNext : ∀ value, Parses failed left ready (known ∧ middle value) (next value) input valid post) :
    Parses failed left ready known (inspect read >>= next) input valid post where
  sticky state lost := (atNext (read state)).sticky state lost
  sound reached state later available :=
    (atNext (read state)).sound ⟨reached, seen reached state later available⟩ state later available
  complete reached prepared accepted state later available :=
    (atNext (read state)).complete ⟨reached, seen reached state later available⟩ prepared accepted state later available

end

section

-- Programs that only add to the state, unless they fail for good: what one part of them
-- has put there is still there at the end.
variable {failed ready : σ → Prop} {later : σ → σ → Prop}

structure Growth (ready : σ → Prop) (later : σ → σ → Prop) : Prop where
  refl : ∀ state, ready state → later state state
  trans : ∀ state middle after, later state middle → later middle after → later state after
  ready : ∀ state after, later state after → ready after

def Stable (later : σ → σ → Prop) (good : σ → Prop) : Prop := ∀ state after, later state after → good state → good after

structure Grows (failed ready : σ → Prop) (later : σ → σ → Prop) (prog : Prog σ α) (good : α → σ → Prop) : Prop where
  sticky : Keeps failed prog
  grows : ∀ state, ready state → ¬ failed (prog.run state).2 →
    later state (prog.run state).2 ∧ good (prog.run state).1 (prog.run state).2

variable {good : α → σ → Prop}

theorem grows_pure (growth : Growth ready later) (value : α) (holds : ∀ state, ready state → good value state) :
    Grows failed ready later (pure value) good where
  sticky := keeps_pure value
  grows state prepared _ := ⟨growth.refl state prepared, holds state prepared⟩

theorem grows_bind {first} {next : α → Prog σ β} {middle : α → σ → Prop} {good : β → σ → Prop}
    (growth : Growth ready later) (stable : ∀ value, Stable later (middle value))
    (head : Grows failed ready later first middle)
    (tail : ∀ value, Grows failed ready later (next value) fun result state => middle value state → good result state) :
    Grows failed ready later (first >>= next) good where
  sticky := keeps_bind head.sticky fun value => (tail value).sticky
  grows state prepared sound := by
    have passed : ¬ failed (first.run state).2 := fun lost => sound ((tail _).sticky _ lost)
    obtain ⟨atFirst, placed⟩ := head.grows state prepared passed
    obtain ⟨atNext, done⟩ := (tail _).grows _ (growth.ready _ _ atFirst) sound
    exact ⟨growth.trans _ _ _ atFirst atNext, done (stable _ _ _ atNext placed)⟩

theorem grows_inspect {read : σ → α} {next : α → Prog σ β} {good : β → σ → Prop}
    (tail : ∀ value, Grows failed ready later (next value) good) :
    Grows failed ready later (inspect read >>= next) good where
  sticky state lost := (tail (read state)).sticky state lost
  grows state := (tail (read state)).grows state

theorem grows_result {prog : Prog σ α} (fact : α → Prop) (always : ∀ state, fact (prog.run state).1)
    (grows : Grows failed ready later prog good) :
    Grows failed ready later prog fun value state => fact value ∧ good value state where
  sticky := grows.sticky
  grows state prepared sound :=
    ⟨(grows.grows state prepared sound).1, always state, (grows.grows state prepared sound).2⟩

theorem grows_map_m {body : α → Prog σ β} {good : α → β → σ → Prop} (growth : Growth ready later)
    (stable : ∀ item result, Stable later (good item result)) (items : List α)
    (each : ∀ item ∈ items, Grows failed ready later (body item) (good item)) :
    Grows failed ready later (items.mapM' body) fun results state =>
      ∀ result ∈ results, ∃ item ∈ items, good item result state := by
  induction items with
  | nil => exact grows_pure growth [] fun _ _ result mem => by cases mem
  | cons item rest ih =>
    have others := ih fun other mem => each other (mem_cons_of_mem _ mem)
    rw [List.mapM'_cons]
    refine grows_bind growth (fun result => stable item result) (each item mem_cons_self) fun result => ?_
    refine grows_bind growth ?_ others fun results => ?_
    · intro results state after extended held other mem
      obtain ⟨source, listed, placed⟩ := held other mem
      exact ⟨source, listed, stable source other state after extended placed⟩
    · refine grows_pure growth _ fun state _ placed first other mem => ?_
      rcases mem_cons.mp mem with rfl | later
      · exact ⟨item, mem_cons_self, first⟩
      · obtain ⟨source, listed, held⟩ := placed other later
        exact ⟨source, mem_cons_of_mem _ listed, held⟩

end

end Prog
