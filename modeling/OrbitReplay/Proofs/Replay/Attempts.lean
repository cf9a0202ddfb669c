import OrbitReplay.Proofs.Binary64.Signs
import OrbitReplay.Proofs.Replay.Position
import OrbitReplay.Proofs.Replay.Transport
import OrbitReplay.Proofs.Scalar.Tolerance

namespace OrbitReplay.Dense

variable {μ α : Type}

/-- A model with a record of the moves asked of it, each with whether it succeeded. -/
structure Watched (μ α : Type) where
  model : μ
  attempts : List (α × Bool) := []

instance [Model μ α] : Model (Watched μ α) α where
  time w := Model.time w.model
  state w := Model.state w.model
  moveTo elapsed w :=
    let (r, model) := Model.moveTo elapsed w.model
    (r, ⟨model, w.attempts ++ [(elapsed, r.isOk)]⟩)

theorem Watched.carries [Model μ α] : Carries (Watched.model : Watched μ α → μ) :=
  ⟨fun _ ↦ rfl, fun _ ↦ rfl, fun _ _ ↦ rfl⟩

def Arrives (μ : Type) [Scalar α] [Model μ α] : Prop :=
  ∀ {elapsed : α} {m m' : μ}, Model.moveTo elapsed m = (.ok (), m') → elapsed == elapsed →
    ∃ t, Model.time m' = .ok t ∧ t == elapsed

/-- A model that arrives where it is moved to and counts these moves. One that fails changes
nothing. -/
structure Counts [Scalar α] [Model μ α] (count : μ → ℕ) : Prop where
  arrives : Arrives μ
  moved {elapsed : α} {m m' : μ} : Model.moveTo elapsed m = (.ok (), m') → count m' = count m + 1
  failed {elapsed : α} {m m' : μ} {f : Failure α} : Model.moveTo elapsed m = (.error f, m') → m' = m

section Scalar

variable [Scalar α]

theorem Watched.arrives [Model μ α] (h : Arrives μ) : Arrives (Watched μ α) := by
  intro elapsed w w' hmove
  obtain ⟨hr, rfl⟩ := Prod.mk.inj hmove
  exact h (Prod.ext hr rfl)

theorem Cursor.counts : Counts (Cursor.repositions (α := α)) where
  arrives := by
    intro elapsed c c' h hn
    obtain ⟨state, -, -, rfl⟩ := moveTo_eq_ok_iff.1 h
    exact ⟨elapsed, rfl, hn⟩
  moved := by
    intro elapsed c c' h
    obtain ⟨state, -, -, rfl⟩ := moveTo_eq_ok_iff.1 h
    rfl
  failed := by
    intro elapsed c c' f h
    obtain ⟨hr, rfl⟩ := Prod.mk.inj h
    exact moveTo_of_error hr

theorem Linear.counts : Counts (Linear.repositions (α := α)) where
  arrives := by
    intro elapsed m m' h hn
    exact ⟨elapsed, Linear.settles.arrives h, hn⟩
  moved := by
    intro elapsed m m' h
    obtain ⟨-, rfl⟩ := moveTo_eq_ok_iff.1 h
    rfl
  failed := by
    intro elapsed m m' f h
    exact (moveTo_eq_error_iff.1 h).2.2

theorem Source.counts : Counts (Source.repositions (α := α)) where
  arrives := by
    intro elapsed s s' h hn
    exact ⟨elapsed, Source.settles.arrives h, hn⟩
  moved := by
    intro elapsed s s' h
    obtain ⟨hr, rfl⟩ := Prod.mk.inj h
    cases s with
    | cursor c => exact Cursor.counts.moved (Prod.ext hr rfl)
    | linear m => exact Linear.counts.moved (Prod.ext hr rfl)
  failed := by
    intro elapsed s s' f h
    obtain ⟨hr, rfl⟩ := Prod.mk.inj h
    cases s with
    | cursor c => exact congrArg cursor (Cursor.counts.failed (Prod.ext hr rfl))
    | linear m => exact congrArg linear (Linear.counts.failed (Prod.ext hr rfl))

end Scalar

end OrbitReplay.Dense

namespace OrbitReplay.Replay

open Scalar
open OrbitReplay.Dense

def Call.date? {α : Type} (low : α) : Call α → Option α
  | .query (.stateAt date) | .query (.propagate date) => some date
  | .query (.orbitAt date) | .query (.massAt date) => some date
  | .query .initialState => some low
  | .query (.additionalState _ date) => some date
  | .query (.extract _ instant) | .read _ instant => some instant.toDate
  | .query (.register _ _) | .query (.channel _) | .query .describe => none
  | .query (.resetInitialState _) | .clone | .hold _ | .inspect _ => none

variable {μ α : Type} [Scalar α]

namespace Engine

theorem isFinite_start_of_create [Congruent α] {start low high : α} {decoder : Decoder α}
    {model : μ} {channels : List (String × Int)} {e : Engine μ α}
    (h : create start low high decoder model channels = .ok e) (hlow : isFinite low)
    (hhigh : isFinite high) : isFinite e.start := by
  obtain ⟨-, hstart, l, -, rfl⟩ := create_eq_ok_iff.1 h
  rcases hstart with hstart | hstart
  · exact (isFinite_congr (alike_of_beq hstart)).trans hlow
  · exact (isFinite_congr (alike_of_beq hstart)).trans hhigh

section Looks

variable [Model μ α] {e : Engine μ α} {date : α}

def Rests (e : Engine μ α) (date : α) : Prop :=
  ∃ t, Model.time e.model = .ok t ∧ t == date - e.start

/-- A query that looks at a date fails before it comes to that, or leaves the engine as the look
does. It succeeds only if there is a raw vector. -/
inductive Looks (e : Engine μ α) (date : α) {β : Type} : Except (Failure α) β × Engine μ α → Prop
  | unasked {f : Failure α} : Looks e date (.error f, e)
  | looked {r : Except (Failure α) β} :
      (∀ x, r = .ok x → ∃ raw, (e.rawAt date).1 = .ok raw) → Looks e date (r, (e.rawAt date).2)

theorem exists_rawAt_snd (e : Engine μ α) (date : α) :
    ∃ m, (e.rawAt date).2 = { e with model := m } := by
  by_cases hc : e.covers date = true
  · obtain ⟨r, m, hb⟩ := exists_brings (date - e.start) e.model
    exact ⟨m, by rw [rawAt_of_brings hc hb]⟩
  · exact ⟨e.model, by rw [rawAt_of_not_covers hc]⟩

theorem rawAt_of_rests (h : e.Rests date) : (e.rawAt date).2 = e := by
  by_cases hc : e.covers date = true
  · obtain ⟨t, ht, he⟩ := h
    rw [rawAt_of_brings hc (.there ht he rfl)]
  · rw [rawAt_of_not_covers hc]

namespace Looks

variable {β γ : Type} {p : Except (Failure α) β × Engine μ α}

theorem map (h : Looks e date p) (g : β → γ) : Looks e date (p.1.map g, p.2) := by
  cases h with
  | unasked => exact .unasked
  | @looked r hr =>
    refine .looked fun y hy ↦ ?_
    cases r with
    | error f => cases hy
    | ok x => exact hr x rfl

theorem andThen (h : Looks e date p)
    {g : β → Engine μ α → Except (Failure α) γ × Engine μ α}
    (hg : ∀ x, p.1 = .ok x → (g x p.2).2 = p.2) : Looks e date (andThen p g) := by
  cases h with
  | unasked => exact .unasked
  | @looked r hr =>
    cases r with
    | error f => exact .looked nofun
    | ok x =>
      have hp : g x (e.rawAt date).2 = ((g x (e.rawAt date).2).1, (e.rawAt date).2) :=
        Prod.ext rfl (hg x rfl)
      rw [Engine.andThen, hp]
      exact .looked fun _ _ ↦ hr x rfl

theorem keeps (h : Looks e date p) (hr : e.Rests date) : p.2 = e := by
  cases h with
  | unasked => rfl
  | looked => exact rawAt_of_rests hr

theorem fields (h : Looks e date p) : p.2.start = e.start ∧ p.2.low = e.low := by
  cases h with
  | unasked => exact ⟨rfl, rfl⟩
  | looked =>
    obtain ⟨m, hm⟩ := e.exists_rawAt_snd date
    rw [hm]
    exact ⟨rfl, rfl⟩

end Looks

theorem looks_rawAt (e : Engine μ α) (date : α) : Looks e date (e.rawAt date) :=
  .looked fun raw hraw ↦ ⟨raw, hraw⟩

theorem looks_stateAt (e : Engine μ α) (date : α) : Looks e date (e.stateAt date) := by
  rw [stateAt_eq]
  exact (looks_rawAt e date).andThen fun _ _ ↦ rfl

theorem looks_read (e : Engine μ α) (c : Channel) (date : α) : Looks e date (e.read c date) := by
  rw [read_eq]
  refine (looks_rawAt e date).andThen fun raw _ ↦ ?_
  split <;> rfl

theorem looks_readNamed (e : Engine μ α) (name : String) (date : α) :
    Looks e date (e.readNamed name date) := by
  rw [readNamed]
  split
  · exact .unasked
  · exact looks_read e _ date

/-- No channel is worth a move once the model stands. -/
theorem attachAll_of_rests (hr : e.Rests date) (cs : List Channel) (s : State α) :
    (attachAll date cs s e).2 = e := by
  induction cs generalizing s with
  | nil => rfl
  | cons c cs ih =>
    rw [attachAll_cons]
    refine andThen_keeps (P := (· = e)) ((looks_read e c date).keeps hr) fun xs e' he' ↦ ?_
    rw [he']
    exact ih _

variable [Tolerant α]

theorem rests_congr {date' : α} (h : date == date') : e.Rests date ↔ e.Rests date' := by
  have halike : Alike (date - e.start) (date' - e.start) := alike_sub (alike_of_beq h) .rfl
  simp only [Rests, beq_congr .rfl halike]

theorem rests_of_rawAt (hμ : Arrives μ) (hs : isFinite e.start) {raw : List α}
    (h : (e.rawAt date).1 = .ok raw) : (e.rawAt date).2.Rests date := by
  have hraw : e.rawAt date = (.ok raw, (e.rawAt date).2) := Prod.ext h rfl
  obtain ⟨hc, m, hb, hm⟩ := rawAt_eq_ok_iff.1 hraw
  rw [hm]
  cases hb with
  | there ht he _ => exact ⟨_, ht, he⟩
  | moved _ _ hmove _ => exact hμ hmove (number_sub hs (number_of_le_left hc.2))

theorem Looks.rests (hμ : Arrives μ) (hs : isFinite e.start) {β : Type}
    {p : Except (Failure α) β × Engine μ α} (h : Looks e date p) (hok : p.1.isOk) :
    p.2.Rests date := by
  cases h with
  | unasked => cases hok
  | @looked r hr =>
    cases r with
    | error f => cases hok
    | ok x =>
      obtain ⟨raw, hraw⟩ := hr x rfl
      exact rests_of_rawAt hμ hs hraw

theorem looks_propagate (hμ : Arrives μ) (hs : isFinite e.start) (date : α) :
    Looks e date (e.propagate date) := by
  rw [propagate_eq]
  refine (looks_stateAt e date).andThen fun s hstate ↦ ?_
  exact attachAll_of_rests ((looks_stateAt e date).rests hμ hs (hstate ▸ rfl)) _ s

theorem looks_reply (hμ : Arrives μ) (hs : isFinite e.start) {c : Call α}
    (h : c.date? e.low = some date) : Looks e date (e.reply c) := by
  cases c with
  | query q =>
    cases q with
    | stateAt date | initialState =>
      cases h
      exact (looks_stateAt e _).map _
    | orbitAt date | massAt date =>
      cases h
      exact ((looks_stateAt e date).map _).map _
    | propagate date =>
      cases h
      exact (looks_propagate hμ hs date).map _
    | additionalState name date =>
      cases h
      exact (looks_readNamed e name date).map _
    | extract name instant =>
      cases h
      exact (looks_readNamed e name instant.toDate).map _
    | register name length | channel name | describe | resetInitialState s => cases h
  | read c instant =>
    cases h
    exact (looks_read e c instant.toDate).map _
  | clone | hold name | inspect c => cases h

theorem reply_of_rests (hμ : Arrives μ) (hs : isFinite e.start) (hr : e.Rests date) {c : Call α}
    {date' : α} (hc : c.date? e.low = some date') (hd : date' == date) : (e.reply c).2 = e :=
  (looks_reply hμ hs hc).keeps ((rests_congr hd).2 hr)

theorem trace_of_rests (hμ : Arrives μ) (hs : isFinite e.start) (hr : e.Rests date)
    {cs : List (Call α)} (hcs : ∀ c ∈ cs, ∃ date', c.date? e.low = some date' ∧ date' == date) :
    ∀ p ∈ e.trace cs, p.2 = e := by
  induction cs with
  | nil => exact fun _ hp ↦ absurd hp List.not_mem_nil
  | cons c cs ih =>
    obtain ⟨hc, hcs⟩ := List.forall_mem_cons.1 hcs
    obtain ⟨date', hdate, hd⟩ := hc
    have hkeeps : (e.reply c).2 = e := reply_of_rests hμ hs hr hdate hd
    rw [trace, hkeeps]
    exact List.forall_mem_cons.2 ⟨hkeeps, ih hcs⟩

/-- Once a call at a date has succeeded, calls at that date leave the engine as it is. -/
theorem trace_of_ok (hμ : Arrives μ) (hs : isFinite e.start) {c : Call α} {cs : List (Call α)}
    (hcs : ∀ c' ∈ c :: cs, ∃ date', c'.date? e.low = some date' ∧ date' == date)
    (hok : (e.reply c).1.isOk) : ∀ p ∈ e.trace (c :: cs), p.2 = (e.reply c).2 := by
  obtain ⟨hc, hcs⟩ := List.forall_mem_cons.1 hcs
  obtain ⟨date', hdate, hd⟩ := hc
  have hlooks : Looks e date' (e.reply c) := looks_reply hμ hs hdate
  obtain ⟨hstart, hlow⟩ := hlooks.fields
  have hrests : (e.reply c).2.Rests date := (rests_congr hd).1 (hlooks.rests hμ hs hok)
  rw [trace]
  refine List.forall_mem_cons.2 ⟨rfl, trace_of_rests hμ (hstart ▸ hs) hrests ?_⟩
  rwa [hlow]

end Looks

section Watched

variable [Model μ α] {count : μ → ℕ} {date : α}

def watched (e : Engine μ α) : Engine (Watched μ α) α := e.onto fun m ↦ { model := m }

theorem reply_watched (e : Engine μ α) (c : Call α) :
    e.reply c = answerOnto Watched.model (e.watched.reply c) :=
  reply_onto Watched.carries e.watched c

theorem isOk_watched {e : Engine μ α} {c : Call α} (h : (e.reply c).1.isOk) :
    (e.watched.reply c).1.isOk := by
  rw [reply_watched] at h
  rcases hr : e.watched.reply c with ⟨_ | _, w⟩
  · rw [hr] at h
    exact h
  · rfl

theorem rawAt_attempts (hcount : Counts count) (e : Engine (Watched μ α) α) (date : α) :
    (e.rawAt date).2 = e ∨ ∃ ok : Bool, (e.low ≤ date ∧ date ≤ e.high) ∧ ¬ e.Rests date ∧
      (e.rawAt date).2.model.attempts = e.model.attempts ++ [(date - e.start, ok)] ∧
      count (e.rawAt date).2.model.model = count e.model.model + ok.toNat := by
  by_cases hc : e.covers date = true
  · obtain ⟨r, w, hb⟩ := exists_brings (date - e.start) e.model
    rw [rawAt_of_brings hc hb]
    have hrests {t : α} (ht : Model.time e.model = .ok t) (hne : ¬ t == date - e.start) :
        ¬ e.Rests date := by
      rintro ⟨t', ht', he⟩
      cases ht.symm.trans ht'
      exact hne he
    cases hb with
    | lost ht => exact .inl rfl
    | there ht he _ => exact .inl rfl
    | @refused t f w ht hne hmove =>
      obtain ⟨hr, rfl⟩ := Prod.mk.inj hmove
      refine .inr ⟨false, covers_iff.1 hc, hrests ht hne, ?_, ?_⟩
      · exact congrArg (fun r ↦ e.model.attempts ++ [(date - e.start, Except.isOk r)]) hr
      · exact congrArg count (hcount.failed (Prod.ext hr rfl))
    | @moved t w r ht hne hmove _ =>
      obtain ⟨hr, rfl⟩ := Prod.mk.inj hmove
      refine .inr ⟨true, covers_iff.1 hc, hrests ht hne, ?_, ?_⟩
      · exact congrArg (fun r ↦ e.model.attempts ++ [(date - e.start, Except.isOk r)]) hr
      · exact hcount.moved (Prod.ext hr rfl)
  · exact .inl (by rw [rawAt_of_not_covers hc])

theorem model_of_date?_none {e : Engine μ α} {c : Call α} (h : c.date? e.low = none) :
    (e.reply c).2.model = e.model := by
  cases c with
  | query q =>
    cases q with
    | register name length =>
      change (e.register name length).2.model = e.model
      rw [register_snd]
    | channel name | describe | resetInitialState s => rfl
    | _ => cases h
  | read c instant => cases h
  | clone | hold name | inspect c => rfl

variable [Tolerant α]

theorem reply_attempts (hcount : Counts count) {e : Engine (Watched μ α) α}
    (hs : isFinite e.start) (c : Call α) :
    (e.reply c).2.model = e.model ∨ ∃ date ok, c.date? e.low = some date ∧
      (e.low ≤ date ∧ date ≤ e.high) ∧ ¬ e.Rests date ∧
      (e.reply c).2.model.attempts = e.model.attempts ++ [(date - e.start, ok)] ∧
      count (e.reply c).2.model.model = count e.model.model + ok.toNat := by
  cases hdate : c.date? e.low with
  | none => exact .inl (model_of_date?_none hdate)
  | some date =>
    have hlooks := looks_reply (Watched.arrives hcount.arrives) hs hdate
    generalize e.reply c = p at hlooks
    cases hlooks with
    | unasked => exact .inl rfl
    | looked _ =>
      rcases rawAt_attempts hcount e date with he | ⟨ok, hasked⟩
      · exact .inl (congrArg Engine.model he)
      · exact .inr ⟨date, ok, rfl, hasked⟩

variable {e : Engine μ α}

structure MovesOnce (count : μ → ℕ) (e : Engine μ α) : Prop where
  /-- A record of the moves changes no answer and no engine. -/
  faithful (cs : List (Call α)) : e.trace cs = (e.watched.trace cs).map (answerOnto Watched.model)
  asked (c : Call α) : (e.watched.reply c).2.model.attempts = [] ∨
    ∃ date ok, c.date? e.low = some date ∧ (e.low ≤ date ∧ date ≤ e.high) ∧ ¬ e.Rests date ∧
      (e.watched.reply c).2.model.attempts = [(date - e.start, ok)]
  counted (c : Call α) : count (e.reply c).2.model =
    count e.model + (e.watched.reply c).2.model.attempts.countP Prod.snd
  together (date : α) (cs : List (Call α)) :
    (∀ c ∈ cs, ∃ date', c.date? e.low = some date' ∧ date' == date) →
    (∀ p ∈ e.trace cs, p.1.isOk) →
      (∀ p ∈ e.watched.trace cs, p.2.model.attempts.length ≤ 1) ∧
      ∀ p ∈ e.trace cs, count p.2.model ≤ count e.model + 1

theorem asked_of_counts (hcount : Counts count) (hs : isFinite e.start) (c : Call α) :
    (e.watched.reply c).2.model.attempts = [] ∨
      ∃ date ok, c.date? e.low = some date ∧ (e.low ≤ date ∧ date ≤ e.high) ∧ ¬ e.Rests date ∧
        (e.watched.reply c).2.model.attempts = [(date - e.start, ok)] := by
  rcases reply_attempts hcount (e := e.watched) hs c with
    hm | ⟨date, ok, hdate, hspan, hrests, hattempts, -⟩
  · exact .inl (congrArg Watched.attempts hm)
  · exact .inr ⟨date, ok, hdate, hspan, hrests, hattempts⟩

theorem length_attempts_le (hcount : Counts count) (hs : isFinite e.start) (c : Call α) :
    (e.watched.reply c).2.model.attempts.length ≤ 1 := by
  rcases asked_of_counts hcount hs c with h | ⟨date, ok, -, -, -, h⟩
  · exact h ▸ Nat.zero_le 1
  · exact h ▸ le_rfl

theorem count_reply (hcount : Counts count) (hs : isFinite e.start) (c : Call α) :
    count (e.reply c).2.model =
      count e.model + (e.watched.reply c).2.model.attempts.countP Prod.snd := by
  rw [reply_watched]
  change count (e.watched.reply c).2.model.model = _
  rcases reply_attempts hcount (e := e.watched) hs c with
    hm | ⟨date, ok, -, -, -, hattempts, hmoved⟩
  · rw [hm]
    rfl
  · rw [hattempts, hmoved]
    cases ok <;> rfl

theorem movesOnce (hcount : Counts count) (hs : isFinite e.start) : e.MovesOnce count where
  faithful cs := trace_onto Watched.carries e.watched cs
  asked := asked_of_counts hcount hs
  counted := count_reply hcount hs
  together date cs hcs hok := by
    cases cs with
    | nil => exact ⟨fun _ hp ↦ absurd hp List.not_mem_nil, fun _ hp ↦ absurd hp List.not_mem_nil⟩
    | cons c cs =>
      have hc : (e.reply c).1.isOk := hok (e.reply c) List.mem_cons_self
      have hlength := length_attempts_le hcount hs c
      refine ⟨fun p hp ↦ ?_, fun p hp ↦ ?_⟩
      · rw [trace_of_ok (Watched.arrives hcount.arrives) hs hcs (isOk_watched hc) p hp]
        exact hlength
      · rw [trace_of_ok hcount.arrives hs hcs hc p hp, count_reply hcount hs]
        exact Nat.add_le_add_left (List.countP_le_length.trans hlength) _

end Watched

end Engine

namespace Session

/-- Whatever was asked of an engine and its clones before, a query moves the model of its engine
once at most, and queries at one date that succeed move it once at most together. -/
theorem queries_move_once [Model μ α] [Tolerant α] {count : μ → ℕ} (hcount : Counts count)
    {start low high : α} {decoder : Decoder α} {model : μ} {channels : List (String × Int)}
    {e₀ : Engine μ α} (h : Engine.create start low high decoder model channels = .ok e₀)
    (hlow : isFinite low) (hhigh : isFinite high) {rs : List (Request α)} {i : ℕ} {e : Engine μ α}
    (he : ((ofEngine e₀).run rs).engine? i = some e) : e.MovesOnce count := by
  have hfinite : Engine.Invariant fun e : Engine μ α ↦ isFinite e.start = true :=
    .ofModel (fun h _ ↦ h) fun h ↦ h
  have hstart := Engine.isFinite_start_of_create h hlow hhigh
  exact Engine.movesOnce hcount
    (((each_ofEngine hstart).run (.ofInvariant hfinite) rs).engine he)

/-- The clone took over one move and was refused another one; three queries then move it once. -/
theorem queries_move_once_binary64 :
    ∃ (m : Source Float) (e₀ e : Engine (Source Float) Float),
      m = .linear ⟨[7, 0, 0, 0, 1, 0, 500, 2], [0, 1, 0, 0, 0, 0, -1, 3], 8,
        .mishap .readPastEnd, 0, 0⟩ ∧
      Engine.create 0 0 10 (.elements .cartesian) m [("a", 1)] = .ok e₀ ∧
      ((ofEngine e₀).run [.query 0 (.stateAt 4), .clone 0, .query 1 (.massAt 9)]).engine? 1 =
        some e ∧ e.model.repositions = 1 ∧
      ∀ p ∈ e.trace [.query (.massAt 6), .query (.propagate 6),
        .query (.extract "a" (.date 6))], p.2.model.repositions ≤ 2 := by
  obtain ⟨m, hm⟩ : ∃ m : Source Float, m = .linear ⟨[7, 0, 0, 0, 1, 0, 500, 2],
    [0, 1, 0, 0, 0, 0, -1, 3], 8, .mishap .readPastEnd, 0, 0⟩ := ⟨_, rfl⟩
  have hmoves := @queries_move_once _ _ _ _ _ _ Source.counts 0 0 10 (.elements .cartesian) m
    [("a", 1)] _ rfl (by decide) (by decide)
    [.query 0 (.stateAt 4), .clone 0, .query 1 (.massAt 9)] 1
  subst hm
  refine ⟨_, _, _, rfl, rfl, rfl, rfl, ((hmoves rfl).together 6 _ ?_ ?_).2⟩
  · decide
  · decide +kernel

end Session

end OrbitReplay.Replay
