import OrbitReplay.Dense.Source
import OrbitReplay.Proofs.Replay.Calls

namespace OrbitReplay.Replay

open OrbitReplay.Dense (Model Source)

variable {μ α : Type} {e e₀ : Engine μ α} {name : String} {length : Int}

namespace Engine

/-- The channels of an engine share out the entries from those of orbit and mass to the raw
length. -/
structure Partitioned (e : Engine μ α) : Prop where
  names : (e.layout.channels.map Channel.name).Nodup
  first {c : Channel} : e.layout.channels[0]? = some c → c.offset = orbitLength
  consecutive {k : Nat} {c d : Channel} : e.layout.channels[k]? = some c →
    e.layout.channels[k + 1]? = some d → d.offset = c.stop
  positive {c : Channel} : c ∈ e.layout.channels → 0 < c.length
  rawLength_eq : e.rawLength = (e.layout.channels.getLast?.map Channel.stop).getD orbitLength
  apart : e.layout.channels.Pairwise fun c d ↦ c.stop ≤ d.offset
  covered {k : Nat} : (∃ c ∈ e.layout.channels, c.offset ≤ k ∧ k < c.stop) ↔
    orbitLength ≤ k ∧ k < e.rawLength
  found {c : Channel} : c ∈ e.layout.channels → e.channel c.name = .ok c

theorem partitioned (h : e.layout.Tiled) : e.Partitioned where
  names := h.nodup
  first := h.tiles.offset_zero
  consecutive := h.tiles.offset_succ
  positive := h.tiles.pos _
  rawLength_eq := h.tiles.eq_getD_getLast?
  apart := h.tiles.pairwise
  covered := h.tiles.exists_mem_iff
  found hc := Layout.channel_eq_ok_iff.2 (h.find? hc)

structure Registers (e : Engine μ α) (name : String) (length : Int) : Prop where
  duplicate : (e.register name length).1 = .error (.fault (.duplicateChannel name)) ↔
    name ∈ e.layout.channels.map Channel.name
  notPositive : (e.register name length).1 = .error (Defect.channelLength name length).failure ↔
    name ∉ e.layout.channels.map Channel.name ∧ length ≤ 0
  failed {f : Failure α} : (e.register name length).1 = .error f →
    (f = .fault (.duplicateChannel name) ∨ f = (Defect.channelLength name length).failure) ∧
      (e.register name length).2 = e
  registered {c : Channel} : (e.register name length).1 = .ok c →
    c = ⟨name, e.rawLength, length.toNat⟩ ∧ 0 < length ∧
      (e.register name length).2 = { e with layout := ⟨e.layout.channels ++ [c], c.stop⟩ }

theorem register_cases (e : Engine μ α) (name : String) (length : Int) :
    (name ∈ e.layout.channels.map Channel.name ∧
      e.register name length = (.error (.fault (.duplicateChannel name)), e)) ∨
    (name ∉ e.layout.channels.map Channel.name ∧ length ≤ 0 ∧
      e.register name length = (.error (Defect.channelLength name length).failure, e)) ∨
    (name ∉ e.layout.channels.map Channel.name ∧ 0 < length ∧ ∃ c : Channel,
      c = ⟨name, e.rawLength, length.toNat⟩ ∧ e.register name length =
        (.ok c, { e with layout := ⟨e.layout.channels ++ [c], c.stop⟩ })) := by
  by_cases hname : name ∈ e.layout.channels.map Channel.name
  · exact .inl ⟨hname, by rw [register, Layout.register_of_taken hname]⟩
  by_cases hlength : length ≤ 0
  · refine .inr (.inl ⟨hname, hlength, ?_⟩)
    rw [register, Layout.register_of_free hname, if_pos hlength]
  · refine .inr (.inr ⟨hname, Int.not_le.1 hlength, _, rfl, ?_⟩)
    rw [register, Layout.register_of_free hname, if_neg hlength]
    rfl

theorem registers (e : Engine μ α) (name : String) (length : Int) : e.Registers name length := by
  rcases e.register_cases name length with
    ⟨hname, h⟩ | ⟨hname, hlength, h⟩ | ⟨hname, hlength, c, hc, h⟩
  · constructor <;> simp [h, hname, Defect.failure]
  · constructor <;> simp [h, hname, hlength, Defect.failure]
  · constructor <;> simp [h, hname, hlength, hc, Defect.failure]

theorem mem_of_channel {c : Channel} (h : e.channel name = .ok c) : c ∈ e.layout.channels :=
  List.mem_of_find?_eq_some (Layout.channel_eq_ok_iff.1 h)

theorem name_of_channel {c : Channel} (h : e.channel name = .ok c) : c.name = name := by
  have hname := List.find?_some (Layout.channel_eq_ok_iff.1 h)
  exact beq_iff_eq.1 hname

section Create

variable [Scalar α] {start low high : α} {decoder : Decoder α} {model : μ}
  {channels : List (String × Int)}

theorem tiled_of_create (h : create start low high decoder model channels = .ok e) :
    e.layout.Tiled := by
  obtain ⟨-, -, l, hl, rfl⟩ := create_eq_ok_iff.1 h
  exact Layout.tiled_of_registerAll hl

theorem create_append (h : create start low high decoder model channels = .ok e)
    (rest : List (String × Int)) :
    create start low high decoder model (channels ++ rest) =
      (e.layout.registerAll rest).map fun l ↦ { e with layout := l } := by
  obtain ⟨hspan, hstart, l, hl, rfl⟩ := create_eq_ok_iff.1 h
  rw [create_of_ends hspan hstart, Layout.registerAll_append, hl]

theorem create_of_error (h : create start low high decoder model channels = .ok e)
    {f : Failure α} (hf : (e.register name length).1 = .error f) (rest : List (String × Int)) :
    create start low high decoder model (channels ++ (name, length) :: rest) = .error f := by
  rw [create_append h, Layout.registerAll]
  rw [register] at hf
  cases hr : e.layout.register (α := α) name length with
  | ok p =>
    rw [hr] at hf
    cases hf
  | error g =>
    rw [hr] at hf
    cases hf
    rfl

theorem create_of_ok (h : create start low high decoder model channels = .ok e) {c : Channel}
    (hc : (e.register name length).1 = .ok c) :
    create start low high decoder model (channels ++ [(name, length)]) =
      .ok (e.register name length).2 := by
  rw [create_append h, Layout.registerAll]
  rw [register] at hc ⊢
  cases hr : e.layout.register (α := α) name length with
  | ok p => rfl
  | error g =>
    rw [hr] at hc
    cases hc

end Create

variable [Model μ α]

theorem steady_layout (l : Layout) : Steady fun e : Engine μ α ↦ e.layout = l := ⟨fun h _ ↦ h⟩

variable [Scalar α]

theorem layout_reply (e : Engine μ α) (c : Call α) :
    (e.reply c).2.layout = e.layout ∨ ∃ name length, c = .query (.register name length) ∧
      (e.reply c).2 = (e.register name length).2 := by
  cases c with
  | query q =>
    cases q with
    | register name length => exact .inr ⟨name, length, rfl, rfl⟩
    | _ => exact .inl ((steady_layout e.layout).answer rfl fun _ _ h ↦ nomatch h)
  | read c instant => exact .inl ((steady_layout e.layout).read rfl c instant.toDate)
  | clone | hold name | inspect c => exact .inl rfl

theorem channels_reply (e : Engine μ α) (c : Call α) :
    e.layout.channels <+: (e.reply c).2.layout.channels := by
  rcases e.layout_reply c with h | ⟨name, length, -, h⟩
  · exact ⟨[], by rw [h, List.append_nil]⟩
  rcases e.register_cases name length with ⟨-, hreg⟩ | ⟨-, -, hreg⟩ | ⟨-, -, c, -, hreg⟩
  · exact ⟨[], by rw [h, hreg, List.append_nil]⟩
  · exact ⟨[], by rw [h, hreg, List.append_nil]⟩
  · exact ⟨[c], by rw [h, hreg]⟩

end Engine

namespace Session

variable [Scalar α] [Model μ α] {s : Session μ α} {i : Nat} {r : Request α}

theorem layout_step (he : s.engine? i = some e) {e' : Engine μ α}
    (he' : (s.step r).2.engine? i = some e') :
    e'.layout = e.layout ∨ ∃ name length c, r = .query i (.register name length) ∧
      e.register name length = (.ok c, e') := by
  rcases step_place (Option.join_eq_some_iff.1 he) r with hgone | ⟨f, f', hf, hf', hstep⟩
  · rw [engine?, hgone] at he'
    cases he'
  cases hf
  rw [engine?, hf'] at he'
  cases he'
  rcases hstep with rfl | ⟨c, hc, -, rfl⟩
  · exact .inl rfl
  rcases e.layout_reply c with h | ⟨name, length, rfl, h⟩
  · exact .inl h
  have hr := query_of_call? hc
  rcases e.register_cases name length with ⟨-, hreg⟩ | ⟨-, -, hreg⟩ | ⟨-, -, c, -, hreg⟩
  · exact .inl (by rw [h, hreg])
  · exact .inl (by rw [h, hreg])
  · exact .inr ⟨name, length, c, hr, by rw [h, hreg]⟩

/-- A request hands out one extractor at most, and that for a channel of an engine. -/
theorem held_step (s : Session μ α) (r : Request α) :
    (s.step r).2.held = s.held ∨ ∃ i e c, s.engine? i = some e ∧ c ∈ e.layout.channels ∧
      (s.step r).2.held = s.held ++ [⟨c, i⟩] := by
  cases r with
  | query i q | clone i =>
    refine .inl ?_
    rw [step]
    split
    · rfl
    · split <;> rfl
  | drop i => exact .inl rfl
  | hold i name =>
    rw [step]
    split
    · exact .inl rfl
    · next e he =>
      split
      · exact .inl rfl
      · next c hc => exact .inr ⟨i, e, c, he, Engine.mem_of_channel hc, rfl⟩
  | readHeld k instant =>
    refine .inl ?_
    rw [step]
    split
    · rfl
    · rw [read]
      split <;> rfl
  | describeHeld k =>
    refine .inl ?_
    rw [step]
    split <;> rfl

theorem held_run (s : Session μ α) (rs : List (Request α)) : s.held <+: (s.run rs).held := by
  induction rs generalizing s with
  | nil => exact List.prefix_refl _
  | cons r rs ih =>
    refine List.IsPrefix.trans ?_ (ih (s.step r).2)
    rcases s.held_step r with h | ⟨i, e, c, -, -, h⟩
    · exact ⟨[], by rw [h, List.append_nil]⟩
    · exact ⟨[⟨c, i⟩], h.symm⟩

/-- Every extractor is that of a channel of its engine, if this is still there. -/
def Owned (s : Session μ α) : Prop :=
  ∀ x ∈ s.held, ∃ p, s.engines[x.engine]? = some p ∧
    ∀ e : Engine μ α, p = some e → x.channel ∈ e.layout.channels

theorem Owned.step (h : s.Owned) (r : Request α) : (s.step r).2.Owned := by
  intro x hx
  have hbefore : ∃ p, s.engines[x.engine]? = some p ∧
      ∀ e : Engine μ α, p = some e → x.channel ∈ e.layout.channels := by
    rcases s.held_step r with hheld | ⟨i, e, c, he, hc, hheld⟩
    · exact h x (hheld ▸ hx)
    rw [hheld] at hx
    rcases List.mem_append.1 hx with hx | hx
    · exact h x hx
    · cases List.mem_singleton.1 hx
      refine ⟨some e, Option.join_eq_some_iff.1 he, fun f hf ↦ ?_⟩
      cases hf
      exact hc
  obtain ⟨p, hp, hmem⟩ := hbefore
  rcases step_place hp r with hgone | ⟨e, e', rfl, he', hstep⟩
  · exact ⟨none, hgone, nofun⟩
  refine ⟨some e', he', fun f hf ↦ ?_⟩
  cases hf
  rcases hstep with rfl | ⟨c, -, -, rfl⟩
  · exact hmem e' rfl
  · exact (e.channels_reply c).subset (hmem e rfl)

theorem Owned.run (h : s.Owned) (rs : List (Request α)) : (s.run rs).Owned := by
  induction rs generalizing s with
  | nil => exact h
  | cons r rs ih => exact ih (h.step r)

/-- Whatever is asked of an engine and its clones, the channels of each partition their entries. A
registration adds a channel or fails and changes nothing, also among the channels of a new engine;
no request changes a channel that is there or an extractor that was handed out. -/
theorem channels_partition {start low high : α} {decoder : Decoder α} {model : μ}
    {channels : List (String × Int)}
    (h : Engine.create start low high decoder model channels = .ok e₀) :
    (∀ name length rest f, (e₀.register name length).1 = .error f →
      Engine.create start low high decoder model (channels ++ (name, length) :: rest) = .error f) ∧
    (∀ name length c, (e₀.register name length).1 = .ok c →
      Engine.create start low high decoder model (channels ++ [(name, length)]) =
        .ok (e₀.register name length).2) ∧
    ∀ rs i e, ((ofEngine e₀).run rs).engine? i = some e →
      let s := (ofEngine e₀).run rs
      e.Partitioned ∧ (∀ name length, e.Registers name length) ∧
      (∀ x ∈ s.held, x.engine = i → e.channel x.channel.name = .ok x.channel) ∧
      (∀ r e', (s.step r).2.engine? i = some e' → e'.layout = e.layout ∨
        ∃ name length c, r = .query i (.register name length) ∧
          e.register name length = (.ok c, e')) ∧
      ∀ rs', s.held <+: (s.run rs').held ∧ ∀ e', (s.run rs').engine? i = some e' →
        e.layout.channels <+: e'.layout.channels := by
  refine ⟨fun name length rest f hf ↦ Engine.create_of_error h hf rest,
    fun name length c hc ↦ Engine.create_of_ok h hc, fun rs i e he ↦ ?_⟩
  intro s
  have htiled : e.layout.Tiled := ((each_ofEngine (Engine.tiled_of_create h)).run
    (.ofInvariant Engine.invariant_tiled) rs).engine he
  have howned : s.Owned := Owned.run (fun _ hx ↦ absurd hx List.not_mem_nil) rs
  refine ⟨Engine.partitioned htiled, e.registers, fun x hx hi ↦ ?_, fun r e' he' ↦
    layout_step he he', fun rs' ↦ ⟨held_run s rs', fun e' he' ↦ ?_⟩⟩
  · obtain ⟨p, hp, hmem⟩ := howned x hx
    rw [hi, Option.join_eq_some_iff.1 he] at hp
    cases hp
    exact (Engine.partitioned htiled).found (hmem e rfl)
  · exact run_rel (R := fun e e' ↦ e.layout.channels <+: e'.layout.channels)
      (fun e ↦ List.prefix_refl e.layout.channels) List.IsPrefix.trans Engine.channels_reply he he'

/-- A clone got a third channel after registrations that were refused, and a new engine is refused
for a name that comes twice. -/
theorem channels_partition_binary64 :
    ∃ (m : Source Float) (e₀ e : Engine (Source Float) Float),
      m = .linear ⟨[7, 0, 0, 0, 1, 0, 500, 2], [0, 1, 0, 0, 0, 0, -1, 3], 8,
        .mishap .readPastEnd, 0, 0⟩ ∧
      Engine.create 0 0 10 (.elements .cartesian) m [("a", 1), ("b", 2)] = .ok e₀ ∧
      Engine.create (0 : Float) 0 10 (.elements .cartesian) m
          [("a", 1), ("b", 2), ("a", 3), ("c", 1)] =
        .error (.fault (.duplicateChannel "a")) ∧
      ((ofEngine e₀).run [.query 0 (.register "b" 3), .query 0 (.stateAt 4), .clone 0,
        .query 1 (.register "c" 0), .query 1 (.register "c" 2)]).engine? 1 = some e ∧
      e.layout.channels = [⟨"a", 7, 1⟩, ⟨"b", 8, 2⟩, ⟨"c", 10, 2⟩] ∧ e.Partitioned := by
  obtain ⟨m, hm⟩ : ∃ m : Source Float, m = .linear ⟨[7, 0, 0, 0, 1, 0, 500, 2],
    [0, 1, 0, 0, 0, 0, -1, 3], 8, .mishap .readPastEnd, 0, 0⟩ := ⟨_, rfl⟩
  obtain ⟨hfails, -, hrun⟩ := channels_partition (rfl : Engine.create 0 0 10
    (.elements .cartesian) m [("a", 1), ("b", 2)] = .ok (_ : Engine (Source Float) Float))
  have hclone := hrun [.query 0 (.register "b" 3), .query 0 (.stateAt 4), .clone 0,
    .query 1 (.register "c" 0), .query 1 (.register "c" 2)] 1
  subst hm
  exact ⟨_, _, _, rfl, rfl, hfails "a" 3 [("c", 1)] _ rfl, rfl, rfl, (hclone _ rfl).1⟩

end Session

end OrbitReplay.Replay
